import Mathlib.Data.Bool.AllAny
import RockLake.PgWire.Effects

/-! Retirements as clients write them: an end snapshot is set on the row with a given identifier. The
statement names no begin snapshot, and the executor takes one from a third parameter. -/
namespace RockLake

open List CatalogWriter Option Text CommitState BufferedOp

/-- DuckLake metadata tables whose rows have a begin and an end snapshot. -/
inductive VersionedTable where
  | schema | table | column | view | macros | dataFile | deleteFile | partitionInfo | sortInfo | tag
  | columnTag
  deriving DecidableEq

namespace VersionedTable

def all : List VersionedTable :=
  [.schema, .table, .column, .view, .macros, .dataFile, .deleteFile, .partitionInfo, .sortInfo, .tag,
   .columnTag]

theorem mem_all (t : VersionedTable) : t ∈ all := by
  cases t <;> decide

def name : VersionedTable → String
  | .schema => "ducklake_schema"
  | .table => "ducklake_table"
  | .column => "ducklake_column"
  | .view => "ducklake_view"
  | .macros => "ducklake_macro"
  | .dataFile => "ducklake_data_file"
  | .deleteFile => "ducklake_delete_file"
  | .partitionInfo => "ducklake_partition_info"
  | .sortInfo => "ducklake_sort_info"
  | .tag => "ducklake_tag"
  | .columnTag => "ducklake_column_tag"

def idColumn : VersionedTable → String
  | .schema => "schema_id"
  | .table => "table_id"
  | .column | .columnTag => "column_id"
  | .view => "view_id"
  | .macros => "macro_id"
  | .dataFile => "data_file_id"
  | .deleteFile => "delete_file_id"
  | .partitionInfo => "partition_id"
  | .sortInfo => "sort_id"
  | .tag => "object_id"

def family : VersionedTable → Family
  | .schema => .schema
  | .table => .table
  | .column => .column
  | .view => .view
  | .macros => .macros
  | .dataFile => .dataFile
  | .deleteFile => .deleteFile
  | .partitionInfo => .partitionInfo
  | .sortInfo => .sortInfo
  | .tag => .tag
  | .columnTag => .columnTag

def idOf : (t : VersionedTable) → t.family.Row → Nat
  | .schema, row => row.schemaId
  | .table, row => row.tableId
  | .column, row => row.columnId
  | .view, row => row.viewId
  | .macros, row => row.macroId
  | .dataFile, row => row.dataFileId
  | .deleteFile, row => row.deleteFileId
  | .partitionInfo, row => row.partitionId
  | .sortInfo, row => row.sortId
  | .tag, row => row.objectId
  | .columnTag, row => row.columnId

theorem family_versioned (t : VersionedTable) : t.family.versioned = true := by
  cases t <;> rfl

end VersionedTable

structure Numeral where
  digits : List (Fin 10)
  nonempty : digits ≠ []

namespace Numeral

def text (n : Numeral) : List Char := n.digits.map fun d => Nat.digitChar d.val

def value (n : Numeral) : Nat := n.digits.foldl (fun acc d => acc * 10 + d.val) 0

end Numeral

/-- A value in a statement: a literal, or one of two placeholders. -/
inductive Operand where
  | literal (n : Numeral)
  | bound (position : Fin 2)

namespace Operand

def text : Operand → List Char
  | .literal n => n.text
  | .bound position => ['$', Nat.digitChar (position.val + 1)]

def value (params : ParamValues) : Operand → Option Nat
  | .literal n => some n.value
  | .bound position => params.u64? position.val

def plainChars : List Char := '$' :: (List.finRange 10).map fun d => Nat.digitChar d.val

theorem text_plain (o : Operand) : ∀ c ∈ o.text, c ∈ plainChars := by
  have digits : ∀ d : Fin 10, Nat.digitChar d.val ∈ plainChars := by decide
  have positions : ∀ position : Fin 2, Nat.digitChar (position.val + 1) ∈ plainChars := by decide
  intro c member
  cases o with
  | literal n =>
    obtain ⟨d, _, rfl⟩ := mem_map.mp member
    exact digits d
  | bound position =>
    rcases mem_pair.mp member with rfl | rfl
    · decide
    · exact positions position

theorem text_map (same : ∀ c ∈ plainChars, convert c = c) (o : Operand) :
    o.text.map convert = o.text := by
  refine (map_congr_left fun c member => ?_).trans (map_id _)
  exact same c (o.text_plain c member)

end Operand

/-- A retirement with at most two bound values. -/
structure Retirement where
  table : VersionedTable
  ended : Operand
  target : Operand
  guarded : Bool
  params : ParamValues
  few : params.length ≤ 2

namespace Retirement

open Classifier

def keywords : List (List Char) :=
  ["UPDATE".toList, "SET".toList, "end_snapshot".toList, "=".toList, "WHERE".toList, "AND".toList,
   "IS".toList, "NULL".toList]

variable (r : Retirement)

def words : List (List Char) :=
  ["UPDATE".toList, r.table.name.toList, "SET".toList, "end_snapshot".toList, "=".toList,
    r.ended.text, "WHERE".toList, r.table.idColumn.toList, "=".toList, r.target.text] ++
  (if r.guarded then ["AND".toList, "end_snapshot".toList, "IS".toList, "NULL".toList] else [])

def sql : List Char := [' '].intercalate r.words

def Asks (row : r.table.family.Row) : Prop := r.target.value r.params = some (r.table.idOf row)

theorem mem_words (member : word ∈ r.words) :
    word ∈ keywords ∨ word = r.table.name.toList ∨ word = r.table.idColumn.toList ∨
      word = r.ended.text ∨ word = r.target.text := by
  simp only [words, keywords] at member ⊢
  split at member <;> simp only [mem_append, mem_cons, not_mem_nil, or_false] at member ⊢
    <;> grind

/-- A pattern that cannot occur in a retirement: it has no character of an operand and no space, and
it is part of no keyword and of no name. -/
def foreign (convert : Char → Char) (pattern : List Char) : Bool :=
  pattern ≠ [] && (' ' :: Operand.plainChars).all (· ∉ pattern) &&
    (keywords ++ VersionedTable.all.flatMap fun t => [t.name.toList, t.idColumn.toList]).all
      fun word => !Text.contains pattern (word.map convert)

theorem not_contains (same : ∀ c ∈ ' ' :: Operand.plainChars, convert c = c)
    (apart : foreign convert pattern = true) :
    Text.contains pattern (r.sql.map convert) = false := by
  simp only [foreign, Bool.and_eq_true, decide_eq_true_eq, List.all_eq_true, Bool.not_eq_true',
    mem_append, mem_flatMap] at apart
  obtain ⟨⟨nonempty, chars⟩, names⟩ := apart
  have operand : ∀ o : Operand, Text.contains pattern (o.text.map convert) = false := by
    intro o
    rw [o.text_map fun c plain => same c (mem_cons_of_mem _ plain)]
    cases pattern with
    | nil => contradiction
    | cons first rest =>
      refine not_contains_of_head fun member => ?_
      exact chars first (mem_cons_of_mem _ (o.text_plain first member)) mem_cons_self
  rw [sql, map_intercalate, map_singleton, same ' ' mem_cons_self]
  refine not_contains_words nonempty (chars ' ' mem_cons_self) fun word member => ?_
  obtain ⟨word, among, rfl⟩ := mem_map.mp member
  rcases r.mem_words among with keyword | rfl | rfl | rfl | rfl
  · exact names word (.inl keyword)
  · exact names _ (.inr ⟨r.table, r.table.mem_all, by simp⟩)
  · exact names _ (.inr ⟨r.table, r.table.mem_all, by simp⟩)
  · exact operand _
  · exact operand _

/-- What the tests look for in the text in lower case; of the words of a union only the first. -/
def lowerPatterns : List (List Char) :=
  ["\"public\".\"ducklake_".toList, "\"public\".ducklake_".toList, "public.ducklake_".toList,
   "ducklake_table_column_stats".toList, "ducklake_inlined_data_".toList, "union".toList]

theorem lower_foreign : lowerPatterns.all (foreign Char.toLower) = true := by
  decide +kernel

theorem upper_foreign : foreign Char.toUpper "COPY".toList = true := by
  decide +kernel

theorem plain_foreign : foreign (fun c => c) "pg_namespace".toList = true := by
  decide +kernel

theorem lower_free (member : pattern ∈ lowerPatterns) :
    Text.contains pattern (Text.lower r.sql) = false :=
  r.not_contains (all_iff_forall_prop.mp (by decide))
    (List.all_eq_true.mp lower_foreign pattern member)

theorem normalizeSql_sql : normalizeSql r.sql = r.sql := by
  simp only [normalizeSql]
  rw [r.lower_free (by simp [lowerPatterns]), r.lower_free (by simp [lowerPatterns]),
    r.lower_free (by simp [lowerPatterns])]
  rfl

theorem sql_start : ∃ rest, r.sql = 'U' :: 'P' :: rest := ⟨_, rfl⟩

theorem listen_none : classifyListen r.sql = none := by
  obtain ⟨rest, start⟩ := r.sql_start
  have begins : ∀ word : List Char, word.isPrefixOf (Text.upper (Text.trim r.sql)) = true →
      word <+: 'U' :: 'P' :: Text.upper rest := by
    intro word found
    have trimmed : Text.trim r.sql <+: r.sql := by
      rw [start]
      exact trim_prefix rfl
    have shorter := (List.isPrefixOf_iff_prefix.mp found).trans (trimmed.map Char.toUpper)
    rwa [start] at shorter
  have listen : ¬ "LISTEN ".toList.isPrefixOf (Text.upper (Text.trim r.sql)) = true := by
    intro found
    have first := (cons_prefix_cons.mp (begins _ found)).1
    exact absurd first (by decide)
  have unlisten : ¬ "UNLISTEN ".toList.isPrefixOf (Text.upper (Text.trim r.sql)) = true := by
    intro found
    have second := (cons_prefix_cons.mp (cons_prefix_cons.mp (begins _ found)).2).1
    exact absurd second (by decide)
  simp only [classifyListen, if_neg listen, if_neg unlisten]

theorem update_none : updateByText (Text.lower r.sql) = none := by
  have stats : Text.contains "ducklake_table_column_stats".toList (Text.lower r.sql) = false :=
    r.lower_free (by simp [lowerPatterns])
  have inlined : Text.contains "ducklake_inlined_data_".toList (Text.lower r.sql) = false :=
    r.lower_free (by simp [lowerPatterns])
  simp only [updateByText, stats, inlined, Bool.and_false, Bool.false_eq_true, if_false]

theorem text_none : classifyText r.sql = none := by
  obtain ⟨rest, start⟩ := r.sql_start
  have zone : ¬ "set time zone".toList.isPrefixOf (Text.lower r.sql) = true := by
    rw [start]
    intro found
    have first := (cons_prefix_cons.mp (List.isPrefixOf_iff_prefix.mp found)).1
    exact absurd first (by decide)
  have union : Text.contains "union all".toList (Text.lower r.sql) = false := by
    have first : Text.contains "union".toList (Text.lower r.sql) = false :=
      r.lower_free (by simp [lowerPatterns])
    rw [← Bool.not_eq_true] at first ⊢
    exact fun both => first (contains_of_longer " all".toList both)
  have catalog : Text.contains "pg_namespace".toList r.sql = false := by
    have free := r.not_contains (fun _ _ => rfl) plain_foreign
    rwa [List.map_id'] at free
  have copied : ∀ stop, copyBetween stop r.sql = none := by
    intro stop
    have free : Text.contains "COPY".toList (Text.upper r.sql) = false :=
      r.not_contains (all_iff_forall_prop.mp (by decide)) upper_foreign
    have absent : Text.find "COPY".toList (Text.upper r.sql) = none := by
      simpa [Text.contains] using free
    rw [copyBetween, absent, bind_none]
  simp only [classifyText, if_neg zone, unionsStats, union, catalog, classifyCopyFromStdin, classifyCopyToStdout,
    copied, Bool.false_and, Bool.false_eq_true, if_false, bind_none, or_none]

theorem reachesParser : ReachesParser r.sql := by
  have normal := r.normalizeSql_sql
  refine ⟨?_, ?_, ?_⟩ <;> rw [normal]
  · exact r.listen_none
  · exact r.update_none
  · exact r.text_none

end Retirement

namespace Executor

open Classifier

variable {before after : Catalog} {params : ParamValues}

/-- No row of a table or a column begins at snapshot zero, so a retirement without a begin snapshot
fails and with it its commit, whatever else the transaction does. -/
theorem retirement_fails {t : VersionedTable} (valid : before.Valid) (few : params.length ≤ 2)
    (known : t = .table ∨ t = .column) :
    executeCommit ctx (earlier ++ ([updateEndSnapshotOp t.name params] ++ later)) before ≠
      (after, .ok ()) := by
  intro done
  obtain ⟨s, ran, _, _⟩ := executeCommit_ok valid done
  obtain ⟨middle, early, late⟩ := runOps_append ran
  have session : InSession before.db False before.store.counters middle.db middle.writer :=
    (InSession.keptByCalls valid.consistent).ofOps (fun _ session => session)
      (InSession.begin False before.store valid.consistent) early
  have unbound : params.u64? 2 = none := by
    have missing : params.get 2 = none := by simp [ParamValues.get, few]
    simp [ParamValues.u64?, ParamValues.getU64, ParamValues.getParsed, missing, Except.toOption]
  rw [singleton_append] at late
  obtain ⟨next, applied, late⟩ := runOps_cons.mp late
  rcases known with rfl | rfl
  · simp only [VersionedTable.name, updateEndSnapshotOp, unbound, getD_none,
      apply, CommitState.updateEndSnapshot, if_true] at applied
    obtain ⟨_, _, called, _⟩ := staging_ok.mp applied
    obtain ⟨row, stored, _⟩ := dropTable_ok.mp (checked_ok.mp called).2
    rw [Db.get_of_family (session.core .table rfl)] at stored
    have begun := valid.started .table _ row rfl stored
    have keyed := (valid.consistent.sound .table _ row stored).keyed.1
    simp only [keyTable, cons.injEq, and_true] at keyed
    simp only [Family.beginOf] at begun
    omega
  · simp only [VersionedTable.name, updateEndSnapshotOp, unbound, getD_none,
      apply, CommitState.updateEndSnapshot, String.reduceEq, if_false, if_true] at applied
    obtain ⟨_, _, called, _⟩ := staging_ok.mp applied
    obtain ⟨row, stored, _⟩ := dropped_ok.mp (checked_ok.mp called).2
    rw [Db.get_of_family (session.core .column rfl)] at stored
    have begun := valid.started .column _ row rfl stored
    have keyed := (valid.consistent.sound .column _ row stored).keyed
    simp only [Family.Keyed, keyColumn, cons.injEq, and_true] at keyed
    simp only [Family.beginOf] at begun
    omega

theorem retirement_ignored (params : ParamValues) (valid : before.Valid)
    (classified : classifyStatement parse sql = .ok (.updateEndSnapshot tableName))
    (notTable : tableName ≠ "ducklake_table") (notColumn : tableName ≠ "ducklake_column") :
    ∃ after, Acknowledged parse sql params [] [] before after ∧
      ∀ f k, f.versioned = true → after.shows f k = before.shows f k := by
  have done : ∃ after, executeCommit CommitContext.trivial [updateEndSnapshotOp tableName params]
      before = (after, .ok ()) := by
    have created : ∀ w : CatalogWriter, w.writerEpoch = before.store.writerEpoch →
        w.writerNonce = before.store.writerNonce → ∀ request : SnapshotRequest,
        request.conflict = none → (w.createSnapshot before.db request).1 =
          .ok (w.commitResult, before.db.putAll (w.commitWrites request)) := by
      intro w epoch nonce request calm
      refine (w.createSnapshot_ok before.db).mpr ⟨⟨?_, ?_⟩, calm, rfl, rfl⟩
      · rw [valid.epoch, epoch]
      · rw [valid.nonce, nonce]
    simp only [executeCommit, runOps, updateEndSnapshotOp, apply,
      CommitState.updateEndSnapshot, if_neg notTable, if_neg notColumn, BufferedOp.needsSnapshot,
      Bool.or_true, if_true, CommitState.start]
    rw [created _ rfl rfl _ rfl]
    exact ⟨_, rfl⟩
  obtain ⟨after, done⟩ := done
  refine ⟨after, ?_, ?_⟩
  · have executed : executeClassified ExecContext.trivial ⟨before, {}⟩ sql params
        (.updateEndSnapshot tableName) = (⟨after, {}⟩, .tag "UPDATE 1") := by
      have submitted : executeCommit ExecContext.trivial.toCommitContext
          [updateEndSnapshotOp tableName params] before = (after, .ok ()) := done
      simp [executeClassified, submit, submitted, answer]
    exact .ofClassified ExecContext.trivial _ classified executed rfl
  · intro f k versioned
    refine executeCommit_shows valid done versioned ?_ k
    intro op member
    rw [mem_singleton.mp member]
    simp [updateEndSnapshotOp, families, notTable, notColumn]

/-- Acknowledged retirements take the row out of sight exactly where there is nothing to retire, or
where they are never acknowledged: for tables and columns. -/
theorem retirement_hides_iff {E : Type} {parse : SqlParser E} {env : Env} (r : Retirement)
    (reachable : before.Reachable env) {assignments : List (String × E)} {selection : Option E}
    (parsed : parse r.sql = .ok (.update (some r.table.name) assignments selection)) :
    (∀ earlier later after, Acknowledged parse r.sql r.params earlier later before after →
      ∀ k row, before.shows r.table.family k = some row → r.Asks row →
        after.shows r.table.family k = none) ↔
      r.table = .table ∨ r.table = .column ∨
        ∀ k row, before.shows r.table.family k = some row → ¬ r.Asks row := by
  have valid := reachable.valid
  have classified : classifyStatement parse r.sql = .ok (.updateEndSnapshot r.table.name) := by
    have named : ∀ t : VersionedTable, classifyUpdate (some t.name) = .updateEndSnapshot t.name := by
      intro t
      cases t <;> decide
    rw [classify_parsed r.reachesParser (by rwa [r.normalizeSql_sql]), classifyAst, named]
  constructor
  · intro hides
    by_cases isTable : r.table = .table
    · exact .inl isTable
    by_cases isColumn : r.table = .column
    · exact .inr (.inl isColumn)
    have named : r.table.name ≠ "ducklake_table" ∧ r.table.name ≠ "ducklake_column" := by
      cases table : r.table <;> simp_all [VersionedTable.name]
    refine .inr (.inr fun k row shown asked => ?_)
    obtain ⟨after, acknowledged, same⟩ :=
      retirement_ignored r.params valid classified named.1 named.2
    have hidden := hides [] [] after acknowledged k row shown asked
    rw [same _ k r.table.family_versioned, shown] at hidden
    exact absurd hidden (some_ne_none row)
  · rintro condition earlier later after acknowledged k row shown asked
    have known : r.table = .table ∨ r.table = .column := by
      rcases condition with isTable | isColumn | nothing
      · exact .inl isTable
      · exact .inr isColumn
      · exact absurd asked (nothing k row shown)
    obtain ⟨ctx, done⟩ := acknowledged.commits classified rfl
    exact absurd done (retirement_fails valid r.few known)

/-- `UPDATE ducklake_table SET end_snapshot = $1 WHERE table_id = $2 AND end_snapshot IS NULL` -/
def retireTable : Retirement :=
  ⟨.table, .bound 0, .bound 1, true, [some "2", some "2"], by decide⟩

/-- `UPDATE ducklake_schema SET end_snapshot = 2 WHERE schema_id = 1` -/
def retireSchema : Retirement :=
  ⟨.schema, .literal ⟨[2], by decide⟩, .literal ⟨[1], by decide⟩, false, [], by decide⟩

/-- A parser that gives every text the syntax tree of a retirement of this table. -/
def retirementParser (table : String) : SqlParser String :=
  fun _ => .ok (.update (some table) [("end_snapshot", "")] (some ""))

theorem retirement_hides_table : ∃ before, before.Reachable Env.trivial ∧
    (before.shows .table (keyTable 1 2 1)).isSome = true ∧
    ∀ earlier later after, Acknowledged (retirementParser "ducklake_table") retireTable.sql
        retireTable.params earlier later before after →
      ∀ k row, before.shows .table k = some row → retireTable.Asks row →
        after.shows .table k = none := by
  have reachable : Catalog.Reachable Env.trivial _ :=
    .session (.opened "a" rfl) Catalog.createOrders rfl
  exact ⟨_, reachable, by decide, (retirement_hides_iff retireTable reachable rfl).mpr (.inl rfl)⟩

/-- The schema is as visible after its retirement as before. -/
theorem retirement_keeps_schema : ∃ before after, before.Reachable Env.trivial ∧
    Acknowledged (retirementParser "ducklake_schema") retireSchema.sql retireSchema.params [] []
      before after ∧
    retireSchema.sql = "UPDATE ducklake_schema SET end_snapshot = 2 WHERE schema_id = 1".toList ∧
    ∃ row, before.shows .schema (keySchema 1) = some row ∧ retireSchema.Asks row ∧
      after.shows .schema (keySchema 1) = some row := by
  refine ⟨_, _, .session (.opened "a" rfl) Catalog.createOrders rfl,
    .ofClassified ExecContext.trivial (.updateEndSnapshot "ducklake_schema") (by decide +kernel) rfl rfl,
    by decide, ?_⟩
  exact ⟨_, rfl, rfl, by decide⟩

end Executor

end RockLake
