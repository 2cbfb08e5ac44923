import RockLake.Catalog.Consistency
import RockLake.Catalog.Retirement

/-! A write session against a catalog without versions, on which the same operations take effect one
after the other. The writer reads the committed store and not what it has staged. So the two agree as
long as each operation finds in the store what the session has made of it: a table must not be dropped
after a data file has been registered for it, nor a column renamed after it has been dropped. -/
namespace RockLake

open List Db Option CatalogStore

/-- Operations of a write session. A rename takes the row of the column out and, with a new name,
inserts it again under that name. -/
inductive CatalogOp where
  | createSchema (name uuid : String)
  | dropSchema (schemaId : Nat)
  | createTable (schemaId : Nat) (name : String) (path : Option String) (uuid : String)
  | dropTable (schemaId tableId beginSnapshot : Nat)
  | addColumn (tableId : Nat) (spec : CatalogWriter.ColumnSpec)
  | dropColumn (tableId columnId beginSnapshot : Nat)
  | renameColumn (tableId columnId : Nat) (newName : Option String)
  | registerDataFile (tableId : Nat) (spec : CatalogWriter.DataFileSpec)

def CatalogOp.perform (env : Env) (db : Db) (w : CatalogWriter) :
    CatalogOp → Except CatalogError (Reply × CatalogWriter)
  | .createSchema name uuid => w.staging env db (.createSchema name uuid)
  | .dropSchema schemaId => w.staging env db (.dropSchema schemaId)
  | .createTable schemaId name path uuid => w.staging env db (.createTable schemaId name path uuid)
  | .dropTable schemaId tableId begun => w.staging env db (.dropTable schemaId tableId begun)
  | .addColumn tableId spec => w.staging env db (.addColumn tableId spec)
  | .dropColumn tableId columnId begun => w.staging env db (.dropColumn tableId columnId begun)
  | .renameColumn tableId columnId none => w.staging env db (.renameColumn tableId columnId)
  | .renameColumn tableId columnId (some newName) =>
    match w.renameColumn db tableId columnId with
    | .error e => .error e
    | .ok (row, w') => w'.staging env db (.insertRenamedColumn row newName)
  | .registerDataFile tableId spec => w.staging env db (.registerDataFile tableId spec)

namespace Db

def restrict (db : Db) (keep : (f : Family) → f.Row → Bool) : Db :=
  fun f => (db f).restrict fun _ => keep f

theorem get_restrict (db : Db) (keep : (f : Family) → f.Row → Bool) (f : Family) (k : Key) :
    (db.restrict keep).get f k = (db.get f k).filter (keep f) :=
  OrderedMap.get_restrict _ _ k

def live (db : Db) (f : Family) (k : Key) : Option f.Row :=
  (db.get f k).filter fun row => (f.endOf row).isNone

theorem live_eq_some {db : Db} :
    db.live f k = some row ↔ db.get f k = some row ∧ f.endOf row = none := by
  rw [live, filter_eq_some_iff, isNone_iff_eq_none]

theorem live_congr {db db' : Db} (same : db'.get f k = db.get f k) :
    db'.live f k = db.live f k := by
  rw [live, same, live]

theorem live_ended {db : Db} (found : db.get f k = some row) (ended : f.endOf row ≠ none) :
    db.live f k = none := by
  rw [live, found, filter_some, if_neg (by simpa using ended)]

end Db

/-- The families behind the listings of schemas, tables, columns and data files. -/
def Family.viewed : Family → Bool
  | .schema | .table | .column | .dataFileBySnapshot => true
  | _ => false

/-- The catalog as the latest snapshot shows it, without versions and indexes. -/
def Catalog.view (catalog : Catalog) : Db :=
  catalog.db.restrict fun f row =>
    f.viewed && isVisible (f.beginOf row) (f.endOf row) catalog.store.latestSnapshot

def Reply.given : Reply → Nat
  | .id n => n
  | _ => 0

def Family.apartFrom (tableId : Nat) : (f : Family) → f.Row → Bool
  | .column, row => row.tableId ≠ tableId
  | .dataFileBySnapshot, row => row.tableId ≠ tableId
  | _, _ => true

theorem Db.get_apartFrom {view : Db} (column : f ≠ .column) (file : f ≠ .dataFileBySnapshot) :
    (view.restrict (Family.apartFrom tableId)).get f k = view.get f k := by
  rw [get_restrict]
  cases view.get f k with
  | none => rfl
  | some row => cases f <;> first | contradiction | rfl

/-- The operation on a catalog without versions. New rows begin at the session's snapshot and have
the identifier that was given out; a dropped table takes its columns and data files with it, and the
rename of a column that is not there has no effect. -/
def CatalogOp.apply (snapshot : Nat) (rowIdStart : Nat → Nat) (reply : Reply) (view : Db) :
    CatalogOp → Db
  | .createSchema name uuid =>
    let row : SchemaRow :=
      { schemaId := reply.given, schemaName := name, beginSnapshot := snapshot,
        endSnapshot := none, schemaUuid := some uuid, path := none, pathIsRelative := some true }
    view.put ⟨.schema, keySchema reply.given, row⟩
  | .dropSchema schemaId => view.delete .schema (keySchema schemaId)
  | .createTable schemaId name path uuid =>
    let row : TableRow :=
      { tableId := reply.given, schemaId, tableName := name, beginSnapshot := snapshot,
        endSnapshot := none, path, tableUuid := some uuid, pathIsRelative := some true }
    view.put ⟨.table, keyTable schemaId reply.given snapshot, row⟩
  | .dropTable schemaId tableId begun =>
    (view.delete .table (keyTable schemaId tableId begun)).restrict (Family.apartFrom tableId)
  | .addColumn tableId spec =>
    let row : ColumnRow :=
      { columnId := reply.given, tableId, columnName := spec.columnName, dataType := spec.dataType,
        columnIndex := spec.columnIndex, beginSnapshot := snapshot, endSnapshot := none,
        defaultValue := spec.defaultValue, isNullable := spec.isNullable,
        initialDefault := spec.initialDefault, defaultValueType := spec.defaultValueType,
        defaultValueDialect := spec.defaultValueDialect, parentColumn := spec.parentColumn }
    view.put ⟨.column, keyColumn tableId reply.given snapshot, row⟩
  | .dropColumn tableId columnId begun => view.delete .column (keyColumn tableId columnId begun)
  | .renameColumn tableId columnId newName =>
    match CatalogWriter.liveColumn view tableId columnId with
    | none => view
    | some (key, row) =>
      match newName with
      | none => view.delete .column key
      | some name =>
        let renamed : ColumnRow := { row with columnName := name, beginSnapshot := snapshot }
        (view.delete .column key).put ⟨.column, keyColumn tableId columnId snapshot, renamed⟩
  | .registerDataFile tableId spec =>
    let row : DataFileRow :=
      { dataFileId := reply.given, tableId, path := spec.path, fileFormat := spec.fileFormat,
        recordCount := spec.recordCount, fileSizeBytes := spec.fileSizeBytes,
        footerSize := spec.footerSize, encryptionKey := spec.encryptionKey,
        beginSnapshot := some snapshot, endSnapshot := none, fileOrder := some reply.given,
        pathIsRelative := some false, rowIdStart := some (rowIdStart tableId),
        partitionId := spec.partitionId, mappingId := spec.mappingId,
        partialMax := spec.partialMax }
    view.put ⟨.dataFileBySnapshot, keyDataFileBySnapshot tableId snapshot reply.given, row⟩

/-- A write session: the writer, the catalog its operations should lead to, the tables dropped and
the tables with newly registered data files. -/
structure WriteSession where
  writer : CatalogWriter
  view : Db
  dropped : List Nat
  registered : List Nat

namespace CatalogOp

def drops : CatalogOp → List Nat
  | .dropTable _ tableId _ => [tableId]
  | _ => []

def registers : CatalogOp → List Nat
  | .registerDataFile tableId _ => [tableId]
  | _ => []

/-- The operation finds in the store what the session has made of it so far. A table to drop has no
new data files. A column to rename is still there, possibly renamed before; to be taken out only, it
may also be gone already. Columns of dropped tables do not matter. -/
def Current (base : Db) (session : WriteSession) : CatalogOp → Prop
  | .dropTable _ tableId _ => tableId ∉ session.registered
  | .renameColumn tableId columnId newName =>
    let stored := CatalogWriter.liveColumn base tableId columnId
    let current := CatalogWriter.liveColumn session.view tableId columnId
    tableId ∈ session.dropped ∨
      match newName with
      | none => current = none ∨ current.map Prod.fst = stored.map Prod.fst
      | some _ => ∃ e ∈ current, ∃ e' ∈ stored, e.1 = e'.1 ∨
          e.1 = keyColumn tableId columnId session.writer.snapshotId ∧
            { e.2 with columnName := e'.2.columnName, beginSnapshot := e'.2.beginSnapshot } = e'.2
  | _ => True

end CatalogOp

namespace WriteSession

def begin (catalog : Catalog) : WriteSession :=
  { writer := catalog.store.beginWrite, view := catalog.view, dropped := [], registered := [] }

def Step (env : Env) (base : Db) (p : WriteSession) (op : CatalogOp) (p' : WriteSession) : Prop :=
  ∃ reply writer, op.perform env base p.writer = .ok (reply, writer) ∧
    p' = { writer
           view := op.apply p.writer.snapshotId (CatalogWriter.rowIdStart base) reply p.view
           dropped := op.drops ++ p.dropped, registered := op.registers ++ p.registered }

def CurrentStep (env : Env) (base : Db) (p : WriteSession) (op : CatalogOp) (p' : WriteSession) :
    Prop :=
  op.Current base p ∧ Step env base p op p'

end WriteSession

/-- What the four listings return. -/
structure CatalogView where
  schemas : List SchemaRow
  tables : Nat → List TableRow
  description : Nat → Option (TableRow × List ColumnRow)
  dataFiles : Nat → List DataFileRow

def CatalogReader.view (hashOrder : List Nat → List Nat) (r : CatalogReader) : CatalogView :=
  ⟨r.listSchemas, r.listTables, r.describeTable hashOrder, r.listDataFiles⟩

/-- The catalog without versions has the live row of the store under a key. -/
def Db.Agrees (view db : Db) (f : Family) (k : Key) : Prop := view.get f k = db.live f k

namespace Db.Agrees

variable {view db : Db} {f g : Family} {k k' : Key}

theorem congr {view' db' : Db} (agrees : view.Agrees db f k) (left : view'.get f k = view.get f k)
    (right : db'.get f k = db.get f k) : view'.Agrees db' f k := by
  rw [Agrees, left, agrees, live_congr right]

theorem put (agrees : (∀ row, x ≠ ⟨f, k, row⟩) → view.Agrees db f k)
    (live : x.family.endOf x.row = none) : (view.put x).Agrees (db.put x) f k := by
  rcases view.get_put (f := f) x k with ⟨row, rfl, found⟩ | ⟨other, kept⟩
  · rw [Agrees, found, live_eq_some.mpr ⟨get_put_same _ _ _, live⟩]
  · rcases db.get_put (f := f) x k with ⟨row, here, _⟩ | ⟨_, kept'⟩
    · exact absurd here (other row)
    · exact (agrees other).congr kept kept'

theorem retire {row : g.Row} (agrees : view.Agrees db f k) (ended : g.endOf row ≠ none) :
    (view.delete g k').Agrees (db.put ⟨g, k', row⟩) f k := by
  by_cases family : f = g
  · subst family
    by_cases same : k = k'
    · subst same
      rw [Agrees, get_delete_same, live_ended (get_put_same _ _ _) ended]
    · exact agrees.congr (get_delete_key _ same) (get_put_key _ _ same)
  · exact agrees.congr (get_of_family (delete_family _ _ family) k)
      (get_of_family (put_family _ _ family) k)

theorem again {row : g.Row} (agrees : view.Agrees db f k) (ended : g.endOf row ≠ none)
    (gone : view.get g k' = none) : view.Agrees (db.put ⟨g, k', row⟩) f k := by
  rcases db.get_put (f := f) ⟨g, k', row⟩ k with ⟨row', same, found⟩ | ⟨_, kept⟩
  · cases same
    rw [Agrees, gone, live_ended found ended]
  · exact agrees.congr rfl kept

end Db.Agrees

namespace CatalogOp

variable {env : Env} {base : Db} {c : CounterCache} {w w' : CatalogWriter}

theorem perform_kept {P : CatalogWriter → Prop} {op : CatalogOp}
    (kept : ∀ {w w' : CatalogWriter} {call : StagingCall} {reply : Reply}, P w →
      w.staging env base call = .ok (reply, w') → P w')
    (before : P w) (performed : op.perform env base w = .ok (reply, w')) : P w' := by
  cases op with
  | renameColumn tableId columnId newName =>
    cases newName with
    | none =>
      simp only [perform] at performed
      exact kept before performed
    | some name =>
      simp only [perform] at performed
      split at performed
      · contradiction
      · rename_i row middle renamed
        have first : w.staging env base (.renameColumn tableId columnId) =
            .ok (.column row, middle) := CatalogWriter.map_ok.mpr ⟨(row, middle), renamed, rfl⟩
        exact kept (kept before first) performed
  | _ =>
    simp only [perform] at performed
    exact kept before performed

end CatalogOp

theorem CatalogWriter.liveColumn_le (stored : db.get .column k = some row)
    (starts : [tableId] <+: k) (column : row.columnId = columnId) (live : row.endSnapshot = none) :
    ∃ e, liveColumn db tableId columnId = some e ∧ e.1 ≤ k := by
  have member : (k, row) ∈ db.scanPrefix .column [tableId] :=
    db.mem_scanPrefix.mpr ⟨stored, starts⟩
  cases found : liveColumn db tableId columnId with
  | none =>
    have skipped := find?_eq_none.mp found _ member
    simp [column, live] at skipped
  | some e =>
    refine ⟨e, rfl, ?_⟩
    obtain ⟨_, before, after, split, skipped⟩ := find?_eq_some_iff_append.mp found
    have sorted := db.scanPrefix_sorted .column [tableId]
    rw [split] at sorted member
    rcases mem_append.mp member with earlier | rest
    · exact absurd (skipped _ earlier) (by simp [column, live])
    · rcases mem_cons.mp rest with rfl | later
      · exact le_rfl
      · exact ((pairwise_cons.mp (pairwise_append.mp sorted).2.1).1 _ later).le

/-- The session has staged what its operations should lead to, apart from the columns of dropped
tables. Those tables stay dropped, and the data files of other tables than those registered are from
the store. -/
structure WriteSession.Follows (base : Db) (c : CounterCache) (p : WriteSession) : Prop where
  session : InSession base False c base p.writer
  agrees : ∀ f k, f.viewed = true → (f = .column → ∀ t ∈ p.dropped, ¬ [t] <+: k) →
    p.view.Agrees (base.putAll p.writer.staged) f k
  plain : ∀ k, p.view.get .tableById k = none
  hidden : ∀ t ∈ p.dropped, t < p.writer.counters.nextCatalogId ∧
    ∀ k row, p.view.get .table k = some row → row.tableId ≠ t
  files : ∀ k row, p.view.get .dataFileBySnapshot k = some row →
    base.get .dataFileBySnapshot k = some row ∨ row.tableId ∈ p.registered

namespace WriteSession.Follows

open CatalogWriter (cascade_families checked_ok dropTable_ok dropped_ok liveColumn liveColumn_le liveColumn_some map_ok mem_cascade mem_cascade_index staging_frame staging_renameColumn)

variable {env : Env} {base : Db} {c : CounterCache} {p : WriteSession} {w' : CatalogWriter}

section

variable (follows : p.Follows base c) (session : InSession base False c base w')
  (counters : p.writer.counters.nextCatalogId ≤ w'.counters.nextCatalogId)
include follows session counters

theorem create (registered : List Nat)
    (stored : ∀ f k, f.viewed = true → (base.putAll w'.staged).get f k = ((base.putAll p.writer.staged).put x).get f k)
    (live : x.family.endOf x.row = none) (family : x.family ≠ .tableById)
    (fresh : ∀ k row, x = ⟨.table, k, row⟩ → p.writer.counters.nextCatalogId ≤ row.tableId)
    (file : ∀ k row, x = ⟨.dataFileBySnapshot, k, row⟩ → row.tableId ∈ registered) :
    Follows base c ⟨w', p.view.put x, p.dropped, registered ++ p.registered⟩ where
  session := session
  agrees f k viewed shown := by
    have put := Db.Agrees.put (fun _ => follows.agrees f k viewed shown) live
    exact put.congr rfl (stored f k viewed)
  plain k := (get_of_family (put_family _ _ family.symm) k).trans (follows.plain k)
  hidden t dropped := by
    obtain ⟨below, hidden⟩ := follows.hidden t dropped
    refine ⟨below.trans_le counters, fun k row found => ?_⟩
    rcases p.view.get_put (f := .table) x k with ⟨row', here, same⟩ | ⟨_, kept⟩
    · rw [found] at same
      cases same
      exact (below.trans_le (fresh k row here)).ne'
    · exact hidden k row (kept ▸ found)
  files k row found := by
    rcases p.view.get_put (f := .dataFileBySnapshot) x k with ⟨row', here, same⟩ | ⟨_, kept⟩
    · rw [found] at same
      cases same
      exact .inr (mem_append_left _ (file k row here))
    · rcases follows.files k row (kept ▸ found) with old | new
      · exact .inl old
      · exact .inr (mem_append_right _ new)

theorem lose
    (fewer : ∀ f k row, view'.get f k = some row → f ≠ .column → p.view.get f k = some row)
    (agrees : ∀ f k, f.viewed = true → (f = .column → ∀ t ∈ p.dropped, ¬ [t] <+: k) → view'.Agrees (base.putAll w'.staged) f k) :
    Follows base c ⟨w', view', p.dropped, p.registered⟩ where
  session := session
  agrees := agrees
  plain k := by
    cases found : view'.get .tableById k with
    | none => rfl
    | some row => exact absurd (fewer _ _ _ found (by decide)) (by simp [follows.plain k])
  hidden t dropped := by
    obtain ⟨below, hidden⟩ := follows.hidden t dropped
    exact ⟨below.trans_le counters, fun k row found =>
      hidden k row (fewer .table k row found (by decide))⟩
  files k row found := follows.files k row (fewer .dataFileBySnapshot k row found (by decide))

theorem retire (staged : w'.staged = p.writer.staged ++ [⟨f, k, row⟩]) (ended : f.endOf row ≠ none) :
    Follows base c ⟨w', p.view.delete f k, p.dropped, p.registered⟩ := by
  refine follows.lose session counters (fun _ _ _ found _ => get_of_delete _ found)
    fun g k' viewed shown => ?_
  rw [staged, putAll_append]
  exact (follows.agrees g k' viewed shown).retire ended

theorem columns (staged : w'.staged = p.writer.staged ++ writes)
    (view : ∀ f k, f ≠ .column → view'.get f k = p.view.get f k)
    (written : ∀ x ∈ writes, x.family = .column)
    (agrees : ∀ k, (∀ t ∈ p.dropped, ¬ [t] <+: k) → view'.Agrees ((base.putAll p.writer.staged).putAll writes) .column k) :
    Follows base c ⟨w', view', p.dropped, p.registered⟩ := by
  refine follows.lose session counters (fun f k row found other => ?_) fun f k viewed shown => ?_
  · rwa [view f k other] at found
  · rw [staged, putAll_append]
    by_cases column : f = .column
    · subst column
      exact agrees k (shown rfl)
    · refine (follows.agrees f k viewed shown).congr (view f k column) ?_
      refine get_of_family (putAll_family _ fun x member same => column ?_) k
      rw [← same, written x member]

end

theorem keyed (follows : p.Follows base c) (consistent : base.Consistent c)
    (found : (base.putAll p.writer.staged).live f k = some row) :
    f.Keyed p.writer.counters k row :=
  follows.session.derived.keyed consistent.sound follows.session.le (live_eq_some.mp found).1

abbrev dropWrites (w : CatalogWriter) (base : Db) (key : Key) (row : TableRow) (tableId : Nat) :
    List Write :=
  ⟨.table, key, { row with endSnapshot := some w.snapshotId }⟩ :: w.dropTableCascade base tableId

section DropTable

variable {key : Key} {row : TableRow}

section

variable (follows : p.Follows base c)
include follows

/-- Without new data files, the index entries of a dropped table are those that the cascade finds
in the store. -/
theorem dropTable_index (consistent : base.Consistent c)
    (unregistered : tableId ∉ p.registered) (k : Key) :
    (p.view.restrict (Family.apartFrom tableId)).Agrees
      ((base.putAll p.writer.staged).putAll (dropWrites p.writer base key row tableId))
      .dataFileBySnapshot k := by
  have agrees := follows.agrees .dataFileBySnapshot k rfl (by simp)
  rw [Db.Agrees, get_restrict, agrees]
  rcases (base.putAll p.writer.staged).get_putAll (f := .dataFileBySnapshot)
      (dropWrites p.writer base key row tableId) k with ⟨ended, member, found⟩ | ⟨absent, kept⟩
  · -- the entry is retired, and it was one of the table
    have cascade : (⟨.dataFileBySnapshot, k, ended⟩ : Write) ∈
        p.writer.dropTableCascade base tableId := by simpa [dropWrites] using member
    obtain ⟨_, old, _, owned, _, rfl, rfl⟩ := mem_cascade_index.mp cascade
    rw [live_ended found (by simp [Family.endOf]), filter_eq_none_iff]
    intro current shown
    have key := (follows.keyed consistent shown).1
    simp only [DataFileRow.indexKey, keyDataFileBySnapshot, cons.injEq] at key
    simp [Family.apartFrom, ← key.1, owned]
  · -- an entry of the table would be in the store and so among those retired
    rw [live_congr kept]
    cases shown : (base.putAll p.writer.staged).live .dataFileBySnapshot k with
    | none => rfl
    | some current =>
      have other : current.tableId ≠ tableId := by
        intro owned
        have old : base.get .dataFileBySnapshot k = some current :=
          (follows.files k current (agrees.trans shown)).resolve_right (owned ▸ unregistered)
        have file := consistent.linked.mirrored.stored k current old
        have key := (consistent.sound .dataFileBySnapshot k current old).keyed.1
        refine absent _ (mem_cons_of_mem _ (mem_cascade_index.mpr
          ⟨_, current, file, owned, (live_eq_some.mp shown).2, key, rfl⟩))
      simp [Family.apartFrom, other]

theorem dropTable_column (consistent : base.Consistent c)
    (outside : ¬ [tableId] <+: k) (shown : ∀ t ∈ p.dropped, ¬ [t] <+: k) :
    (p.view.restrict (Family.apartFrom tableId)).Agrees
      ((base.putAll p.writer.staged).putAll (dropWrites p.writer base key row tableId)) .column k := by
  have agrees := follows.agrees .column k rfl fun _ => shown
  have untouched : ((base.putAll p.writer.staged).putAll
      (dropWrites p.writer base key row tableId)).get .column k =
        (base.putAll p.writer.staged).get .column k := by
    rcases (base.putAll p.writer.staged).get_putAll (f := .column)
        (dropWrites p.writer base key row tableId) k with ⟨ended, member, _⟩ | ⟨_, kept⟩
    · have cascade : (⟨.column, k, ended⟩ : Write) ∈ p.writer.dropTableCascade base tableId := by
        simpa [dropWrites] using member
      obtain ⟨_, _, inside, _⟩ := (mem_cascade (by decide)).mp cascade
      exact absurd inside outside
    · exact kept
  refine agrees.congr ?_ untouched
  rw [get_restrict, agrees]
  cases found : (base.putAll p.writer.staged).live .column k with
  | none => rfl
  | some current =>
    have key : k = keyColumn _ _ _ := follows.keyed consistent found
    have other : current.tableId ≠ tableId := by
      rintro rfl
      exact outside (key ▸ ⟨_, rfl⟩)
    simp [Family.apartFrom, other]

theorem dropTable_table {f : Family} (f_eq : f = .schema ∨ f = .table)
    (k : Key) :
    ((p.view.delete .table key).restrict (Family.apartFrom tableId)).Agrees
      ((base.putAll p.writer.staged).putAll (dropWrites p.writer base key row tableId)) f k := by
  have viewed : f.viewed = true := by rcases f_eq with rfl | rfl <;> rfl
  have column : f ≠ .column := by rcases f_eq with rfl | rfl <;> decide
  have file : f ≠ .dataFileBySnapshot := by rcases f_eq with rfl | rfl <;> decide
  have retired : (p.view.delete .table key).Agrees ((base.putAll p.writer.staged).put
      ⟨.table, key, { row with endSnapshot := some p.writer.snapshotId }⟩) f k :=
    (follows.agrees f k viewed fun same => absurd same column).retire (by simp [Family.endOf])
  have apart : ∀ x ∈ p.writer.dropTableCascade base tableId, x.family ≠ f := by
    intro x member same
    have family := cascade_families member
    rw [same] at family
    rcases f_eq with rfl | rfl <;> exact absurd family (by decide)
  exact retired.congr (get_apartFrom column file) (get_of_family (putAll_family _ apart) k)

theorem dropTable_only (consistent : base.Consistent c)
    (stored : base.get .table key = some row)
    (found : (p.view.delete .table key).get .table k = some current) :
    current.tableId ≠ row.tableId := by
  intro same
  have shown := (follows.agrees .table k rfl (by simp)).symm.trans (get_of_delete _ found)
  obtain ⟨row', kept⟩ := follows.session.derived.kept .table key row stored
  have owner : row'.tableId = row.tableId := by
    have fits := (follows.session.derived.keyed consistent.sound follows.session.le kept).1
    rw [(consistent.sound .table key row stored).keyed.1] at fits
    simp only [keyTable, cons.injEq, and_true] at fits
    exact fits.2.1.symm
  have only := follows.session.linked.single k current key row' (live_eq_some.mp shown).1 kept
    (same.trans owner.symm)
  rw [only, get_delete_same] at found
  contradiction

end

end DropTable

theorem dropTable {schemaId tableId begun : Nat} (follows : p.Follows base c)
    (consistent : base.Consistent c) (session : InSession base False c base w')
    (unregistered : tableId ∉ p.registered) (named : key = keyTable schemaId tableId begun)
    (stored : base.get .table key = some row)
    (staged : w'.staged = p.writer.staged ++ dropWrites p.writer base key row tableId)
    (counters : w'.counters = p.writer.counters) :
    Follows base c ⟨w', (p.view.delete .table key).restrict (Family.apartFrom tableId),
      [tableId] ++ p.dropped, [] ++ p.registered⟩ where
  session := session
  agrees f k viewed shown := by
    have elsewhere : f ≠ .table →
        ((p.view.delete .table key).restrict (Family.apartFrom tableId)).get f k =
          (p.view.restrict (Family.apartFrom tableId)).get f k := by
      intro other
      rw [get_restrict, get_restrict, get_of_family (delete_family _ _ other)]
    rw [staged, putAll_append]
    cases f with
    | schema => exact follows.dropTable_table (.inl rfl) k
    | table => exact follows.dropTable_table (.inr rfl) k
    | column =>
      have outside : ¬ [tableId] <+: k := shown rfl tableId (mem_append_left _ (by simp))
      refine (follows.dropTable_column consistent outside fun t dropped => ?_).congr
        (elsewhere (by decide)) rfl
      exact shown rfl t (mem_append_right _ dropped)
    | dataFileBySnapshot =>
      exact (follows.dropTable_index consistent unregistered k).congr (elsewhere (by decide)) rfl
    | _ => contradiction
  plain k := by
    rw [get_apartFrom (by decide) (by decide),
      get_of_family (delete_family _ _ (by decide)), follows.plain]
  hidden t dropped := by
    obtain ⟨keyed, bound⟩ := (consistent.sound .table _ row stored).keyed
    simp only [named, keyTable, cons.injEq, and_true] at keyed
    rw [counters]
    rcases mem_append.mp dropped with here | earlier
    · obtain rfl := mem_singleton.mp here
      refine ⟨keyed.2.1.trans_lt (bound.trans_le follows.session.catalog), fun k current found same => ?_⟩
      rw [get_apartFrom (by decide) (by decide)] at found
      exact follows.dropTable_only consistent stored found (same.trans keyed.2.1)
    · obtain ⟨below, hidden⟩ := follows.hidden t earlier
      refine ⟨below, fun k current found => ?_⟩
      rw [get_apartFrom (by decide) (by decide)] at found
      exact hidden k current (get_of_delete _ found)
  files k row found := by
    rw [get_restrict, get_of_family (delete_family _ _ (by decide))] at found
    exact follows.files k row (filter_eq_some_iff.mp found).1

def renameWrites (w : CatalogWriter) (key : Key) (row : ColumnRow) (newName : Option String) :
    List Write :=
  let renamed (name : String) : ColumnRow :=
    { row with columnName := name, beginSnapshot := w.snapshotId, endSnapshot := none }
  ⟨.column, key, { row with endSnapshot := some w.snapshotId }⟩ ::
    newName.toList.map fun name =>
      ⟨.column, keyColumn row.tableId row.columnId w.snapshotId, renamed name⟩

section RenameColumn

theorem renameColumn_staged
    (performed : (CatalogOp.renameColumn tableId columnId newName).perform env base w = .ok (reply, w')) :
    ∃ key row, liveColumn base tableId columnId = some (key, row) ∧
      w'.staged = w.staged ++ renameWrites w key row newName := by
  cases newName with
  | none =>
    simp only [CatalogOp.perform] at performed
    obtain ⟨key, row, found, _, rfl⟩ := staging_renameColumn performed
    exact ⟨key, row, found, rfl⟩
  | some name =>
    simp only [CatalogOp.perform] at performed
    split at performed
    · contradiction
    rename_i row middle renamed
    cases performed
    have called : w.staging env base (.renameColumn tableId columnId) = .ok (.column row, middle) :=
      map_ok.mpr ⟨_, renamed, rfl⟩
    obtain ⟨key, row, found, same, rfl⟩ := staging_renameColumn called
    cases same
    exact ⟨key, row, found, append_assoc _ _ _⟩

theorem shown_of_owner {dropped : List Nat} (present : tableId ∉ dropped) (owned : [tableId] <+: k) :
    ∀ t ∈ dropped, ¬ [t] <+: k := by
  rintro t gone ⟨rest, rfl⟩
  obtain ⟨rest', same⟩ := owned
  simp only [singleton_append, cons.injEq] at same
  exact present (same.1 ▸ gone)

/-- Under a key of the store, a column row that is not retired is the row of the store. -/
theorem column_eq (follows : p.Follows base c) (consistent : base.Consistent c) {row' : ColumnRow}
    (stored : base.get .column key = some row)
    (live : (base.putAll p.writer.staged).live .column key = some row') : row' = row := by
  obtain ⟨found, current⟩ := live_eq_some.mp live
  rcases follows.session.derived.origin .column key row' found with same | admissible
  · exact Option.some.inj (same.symm.trans stored)
  cases admissible.retired consistent.sound rfl rfl stored
  simp [Family.endOf, Family.setEnd] at current

theorem renameColumn_gone (follows : p.Follows base c) (consistent : base.Consistent c)
    (stored : liveColumn base row.tableId row.columnId = some (key, row))
    (present : row.tableId ∉ p.dropped)
    (later : ∀ e, liveColumn p.view row.tableId row.columnId = some e → key < e.1) :
    p.view.get .column key = none := by
  obtain ⟨found, owned, _, live⟩ := liveColumn_some stored
  have agrees := follows.agrees .column key rfl fun _ => shown_of_owner present owned
  cases viewed : p.view.get .column key with
  | none => rfl
  | some row' =>
    obtain rfl := follows.column_eq consistent found (agrees.symm.trans viewed)
    obtain ⟨e, first, le⟩ := liveColumn_le viewed owned rfl live
    exact absurd le (later e first).not_ge

theorem mem_renameWrites (owned : [row.tableId] <+: key)
    (member : x ∈ renameWrites w key row newName) :
    x.family = .column ∧ [row.tableId] <+: x.key := by
  simp only [renameWrites, mem_cons, List.mem_map] at member
  rcases member with rfl | ⟨name, _, rfl⟩
  · exact ⟨rfl, owned⟩
  · exact ⟨rfl, _, rfl⟩

theorem renameColumn_view {view : Db} (outside : f = .column → ¬ [tableId] <+: k) :
    ((CatalogOp.renameColumn tableId columnId newName).apply snapshot rowIdStart reply view).get f k =
      view.get f k := by
  have elsewhere : ∀ {key : Key}, [tableId] <+: key →
      (view.delete .column key).get f k = view.get f k := by
    intro key owned
    by_cases column : f = .column
    · subst column
      exact get_delete_key _ fun same => outside rfl (same ▸ owned)
    · exact get_of_family (delete_family _ _ column) k
  simp only [CatalogOp.apply]
  split
  · rfl
  rename_i key row found
  have deleted := elsewhere (liveColumn_some found).2.1
  split
  · exact deleted
  rename_i name
  rcases (view.delete .column key).get_put (f := f)
      ⟨.column, keyColumn tableId columnId snapshot, { row with
        columnName := name, beginSnapshot := snapshot }⟩ k with ⟨row', here, _⟩ | ⟨_, kept⟩
  · cases here
    exact absurd ⟨_, rfl⟩ (outside rfl)
  · exact kept.trans deleted

theorem renameColumn_agrees (follows : p.Follows base c) (consistent : base.Consistent c)
    (stored : liveColumn base row.tableId row.columnId = some (key, row))
    (current : (CatalogOp.renameColumn row.tableId row.columnId newName).Current base p)
    (present : row.tableId ∉ p.dropped) (shown : ∀ t ∈ p.dropped, ¬ [t] <+: k) :
    ((CatalogOp.renameColumn row.tableId row.columnId newName).apply p.writer.snapshotId rowIdStart
      reply p.view).Agrees ((base.putAll p.writer.staged).putAll
        (renameWrites p.writer key row newName)) .column k := by
  have agrees := follows.agrees .column k rfl fun _ => shown
  have current := current.resolve_left present
  simp only [stored] at current
  have ended : Family.column.endOf { row with endSnapshot := some p.writer.snapshotId } ≠ none := by
    simp [Family.endOf]
  obtain ⟨found, owned, _, live⟩ := liveColumn_some stored
  cases newName with
  | none =>
    simp only [CatalogOp.apply]
    cases viewed : liveColumn p.view row.tableId row.columnId with
    | none =>
      refine agrees.again ended (follows.renameColumn_gone consistent stored present ?_)
      simp [viewed]
    | some e =>
      simp only [viewed, map_some, Option.some.injEq, reduceCtorEq, false_or] at current
      simp only [current]
      exact agrees.retire ended
  | some name =>
    obtain ⟨⟨key', row'⟩, viewed, _, same, place⟩ := current
    cases same
    obtain ⟨found', _, _, live'⟩ := liveColumn_some viewed
    have unrenamed : { row' with
        columnName := row.columnName, beginSnapshot := row.beginSnapshot } = row := by
      rcases place with rfl | ⟨_, same⟩
      · have agrees' := follows.agrees .column key' rfl fun _ => shown_of_owner present owned
        obtain rfl := follows.column_eq consistent found (agrees'.symm.trans found')
        rfl
      · exact same
    have renamed : ({ row' with
        columnName := name, beginSnapshot := p.writer.snapshotId } : ColumnRow) =
        { row with columnName := name, beginSnapshot := p.writer.snapshotId
                   endSnapshot := none } := by
      rw [← live']
      exact congrArg (fun r : ColumnRow => { r with
        columnName := name, beginSnapshot := p.writer.snapshotId
        endSnapshot := row'.endSnapshot }) unrenamed
    simp only [CatalogOp.apply, mem_def.mp viewed, renamed]
    refine Db.Agrees.put (fun other => ?_) rfl
    rcases place with rfl | ⟨rfl, _⟩
    · exact agrees.retire ended
    -- the row of an earlier rename comes after that of the store
    refine (agrees.again ended ?_).congr (get_delete_key _ ?_) rfl
    · refine follows.renameColumn_gone consistent stored present fun e first => ?_
      cases viewed.symm.trans first
      have fits := consistent.sound .column key row found
      have begun : row.beginSnapshot < p.writer.snapshotId :=
        (fits.begun rfl).trans_eq follows.session.snapshot.symm
      rw [show key = keyColumn _ _ _ from fits.keyed]
      simp [keyColumn, cons_lt_cons_iff, begun]
    · rintro rfl
      exact other _ rfl

end RenameColumn

theorem step {op : CatalogOp} (consistent : base.Consistent c) (follows : p.Follows base c)
    (current : op.Current base p) (stepped : Step env base p op p') :
    p'.Follows base c := by
  obtain ⟨reply, w', performed, rfl⟩ := stepped
  have session := CatalogOp.perform_kept (P := InSession base False c base)
    (fun before called => before.staging consistent False.elim called) follows.session performed
  have counters := CatalogOp.perform_kept
    (P := fun w => p.writer.counters.nextCatalogId ≤ w.counters.nextCatalogId)
    (fun before called => before.trans (staging_frame called).catalog) le_rfl performed
  -- the pairs staged next to the row of a listing are not listed
  have beside : ∀ {x y : Write} {db : Db} {f : Family} {k : Key}, y.family.viewed = false →
      f.viewed = true → ((db.put x).put y).get f k = (db.put x).get f k := by
    intro x y db f k unlisted listed
    refine get_of_family (put_family _ _ ?_) k
    rintro rfl
    rw [unlisted] at listed
    contradiction
  cases op with
  | createSchema | addColumn =>
    cases performed
    refine follows.create session counters [] (fun f k _ => ?_) rfl (by simp) ?_ ?_
    · exact congrArg (fun db : Db => db.get f k) (putAll_append ..)
    · intro k row same
      cases same
    · intro k row same
      cases same
  | createTable schemaId name path uuid =>
    cases performed
    refine follows.create session counters [] (fun f k viewed => ?_) rfl (by simp) ?_ ?_
    · exact (congrArg (fun db : Db => db.get f k) (putAll_append ..)).trans (beside rfl viewed)
    · intro k row same
      cases same
      exact le_rfl
    · intro k row same
      cases same
  | registerDataFile tableId spec =>
    cases performed
    refine follows.create session counters [tableId] (fun f k viewed => ?_) rfl (by simp) ?_ ?_
    · refine (congrArg (fun db : Db => db.get f k) (putAll_append ..)).trans ?_
      refine get_putAll_congr (get_of_family (put_family _ _ ?_) k) [_]
      rintro rfl
      contradiction
    · intro k row same
      cases same
    · intro k row same
      cases same
      exact mem_singleton_self _
  | dropSchema | dropColumn =>
    simp only [CatalogOp.perform] at performed
    obtain ⟨row, stored, rfl⟩ :=
      dropped_ok.mp (checked_ok.mp performed).2
    exact follows.retire session counters rfl (by simp [Family.endOf, Family.setEnd])
  | dropTable schemaId tableId begun =>
    simp only [CatalogOp.perform] at performed
    obtain ⟨row, stored, rfl⟩ :=
      dropTable_ok.mp (checked_ok.mp performed).2
    exact follows.dropTable consistent session current rfl stored rfl rfl
  | renameColumn tableId columnId newName =>
    obtain ⟨key, row, stored, staged⟩ := renameColumn_staged performed
    obtain ⟨found, owned, rfl, _⟩ := liveColumn_some stored
    obtain rfl : row.tableId = tableId := by
      rw [show key = keyColumn _ _ _ from (consistent.sound .column key row found).keyed] at owned
      exact (cons_prefix_cons.mp owned).1.symm
    refine follows.columns session counters staged
      (fun f k other => renameColumn_view (absurd · other))
      (fun x member => (mem_renameWrites owned member).1) fun k shown => ?_
    · by_cases dropped : row.tableId ∈ p.dropped
      · have outside := shown _ dropped
        refine (follows.agrees .column k rfl fun _ => shown).congr
          (renameColumn_view fun _ => outside) ?_
        rcases (base.putAll p.writer.staged).get_putAll (f := .column)
            (renameWrites p.writer key row newName) k with ⟨_, member, _⟩ | ⟨_, kept⟩
        · exact absurd (mem_renameWrites owned member).2 outside
        · exact kept
      · exact follows.renameColumn_agrees consistent stored current dropped shown

theorem begin (consistent : catalog.db.Consistent catalog.store.counters)
    (positive : 0 < catalog.store.counters.nextSnapshotId) :
    (WriteSession.begin catalog).Follows catalog.db catalog.store.counters where
  session := .begin False catalog.store consistent
  agrees f k viewed _ := by
    have latest : catalog.store.counters.nextSnapshotId ≤ catalog.store.latestSnapshot + 1 := by
      rw [latestSnapshot_eq]
      omega
    show catalog.view.get f k = catalog.db.live f k
    rw [Catalog.view, get_restrict, live]
    cases found : catalog.db.get f k with
    | none => rfl
    | some row =>
      have visible := (consistent.sound f k row found).visible_latest latest
      simp [Option.filter, viewed, visible]
  plain k := by
    show catalog.view.get .tableById k = none
    rw [Catalog.view, get_restrict, filter_eq_none_iff]
    simp [Family.viewed]
  hidden t dropped := absurd dropped not_mem_nil
  files k row found := by
    have found : catalog.view.get .dataFileBySnapshot k = some row := found
    rw [Catalog.view, get_restrict] at found
    exact .inl (filter_eq_some_iff.mp found).1

end WriteSession.Follows

/-- Listings of a store at its latest snapshot, and of a catalog without versions that agrees with
it apart from the columns of tables it does not have. -/
theorem CatalogReader.view_agrees {db view : Db} {snapshot : Nat} {dropped : List Nat}
    (hashOrder : List Nat → List Nat) (consistent : db.Consistent d)
    (latest : d.nextSnapshotId ≤ snapshot + 1)
    (agrees : ∀ f k, f.viewed = true → (f = .column → ∀ t ∈ dropped, ¬ [t] <+: k) → view.Agrees db f k)
    (plain : ∀ k, view.get .tableById k = none)
    (hidden : ∀ t ∈ dropped, ∀ k row, view.get .table k = some row → row.tableId ≠ t) :
    CatalogReader.view hashOrder ⟨db, snapshot⟩ = CatalogReader.view hashOrder ⟨view, snapshot⟩ := by
  have shown : ∀ f k, f.viewed = true → (f = .column → ∀ t ∈ dropped, ¬ [t] <+: k) →
      shown ⟨db, snapshot⟩ f k = (shown ⟨view, snapshot⟩ f k).map id := by
    intro f k viewed apart
    rw [Option.map_id_fun, id_eq, CatalogReader.shown, CatalogReader.shown, agrees f k viewed apart,
      live]
    cases found : db.get f k with
    | none => rfl
    | some row =>
      have visible := (consistent.sound f k row found).visible_latest latest
      cases ended : (f.endOf row).isNone <;> simp [Option.filter, visible, ended]
  have lists : ∀ f start, f.viewed = true → f ≠ .column →
      listVisible ⟨db, snapshot⟩ f start = listVisible ⟨view, snapshot⟩ f start := by
    intro f start viewed other
    rw [listVisible_shownFrom fun k _ => shown f k viewed (absurd · other), List.map_id]
  have found : ∀ tableId, findTable ⟨view, snapshot⟩ tableId =
      newest ((listVisible ⟨view, snapshot⟩ .table []).filter fun row => row.tableId = tableId) := by
    intro tableId
    simp [findTable, plain]
  have tables : ∀ tableId, findTable ⟨db, snapshot⟩ tableId = findTable ⟨view, snapshot⟩ tableId := by
    intro tableId
    rw [found, findTable_eq consistent.sound consistent.linked.indexed, lists .table _ rfl (by decide)]
  have described : ∀ tableId, describeTable ⟨db, snapshot⟩ hashOrder tableId =
      describeTable ⟨view, snapshot⟩ hashOrder tableId := by
    intro tableId
    by_cases gone : tableId ∈ dropped
    · have none : findTable ⟨view, snapshot⟩ tableId = none := by
        rw [found, filter_eq_nil_iff.mpr]
        · rfl
        · intro row member
          obtain ⟨k, stored, _⟩ := (mem_listVisible _).mp member
          simpa using hidden tableId gone k row stored
      rw [describeTable, describeTable, tables, none]
      rfl
    · have columns : listVisible ⟨db, snapshot⟩ .column [tableId] =
          listVisible ⟨view, snapshot⟩ .column [tableId] := by
        rw [listVisible_shownFrom fun k starts => shown .column k rfl fun _ => ?_, List.map_id]
        exact WriteSession.Follows.shown_of_owner gone starts
      rw [describeTable, describeTable, tables, columns]
  have files : ∀ tableId, listDataFiles ⟨db, snapshot⟩ tableId =
      listDataFiles ⟨view, snapshot⟩ tableId := by
    intro tableId
    rw [listDataFiles_eq consistent.sound, listDataFiles_ofIndex, lists _ _ rfl (by decide)]
    intro k row stored
    have live := (agrees .dataFileBySnapshot k rfl (by simp)).symm.trans stored
    exact (consistent.sound _ k row (live_eq_some.mp live).1).keyed.1
  rw [CatalogReader.view, CatalogReader.view, CatalogView.mk.injEq]
  exact ⟨lists _ _ rfl (by decide), funext fun _ => lists _ _ rfl (by decide), funext described,
    funext files⟩

namespace Catalog

/-- A session whose operations find in the store what the session has made of it, begun by a handle
with the stored counters, has the effect of its operations one after the other. -/
theorem session_effect (hashOrder : List Nat → List Nat) {env : Env} {catalog : Catalog}
    (reached : catalog.MaintainedInStep env) (inStep : catalog.InStep)
    (floor : catalog.store.retainFromCache ≤ catalog.store.counters.nextSnapshotId)
    {ops : List CatalogOp} {p : WriteSession}
    (ran : Run (WriteSession.CurrentStep env catalog.db) (.begin catalog) ops p)
    {request : SnapshotRequest} {result : CommitResult} {db : Db}
    (committed : (p.writer.createSnapshot catalog.db request).1 = .ok (result, db)) :
    (catalog.store.readLatest catalog.db).view hashOrder = CatalogReader.view hashOrder
      ⟨(WriteSession.begin catalog).view, catalog.store.latestSnapshot⟩ ∧
    ∃ reader, (catalog.store.commitWriter result).readAt db result.snapshotId = .ok reader ∧
      reader.view hashOrder = CatalogReader.view hashOrder ⟨p.view, result.snapshotId⟩ := by
  obtain ⟨c, loaded, consistent, positive⟩ := reached.upheld.stored
  obtain rfl : c = catalog.store.counters := Except.ok.inj (loaded.symm.trans inStep)
  have begun := WriteSession.Follows.begin consistent positive
  have follows := ran.invariant (WriteSession.Follows catalog.db catalog.store.counters)
    (fun _ _ _ follows stepped => follows.step consistent stepped.1 stepped.2) begun
  obtain ⟨_, _, rfl, rfl⟩ := (p.writer.createSnapshot_ok _).mp committed
  have next : p.writer.snapshotId = catalog.store.counters.nextSnapshotId := follows.session.snapshot
  refine ⟨?_, ⟨catalog.db.putAll (p.writer.commitWrites request), p.writer.snapshotId⟩, ?_, ?_⟩
  · refine CatalogReader.view_agrees hashOrder consistent ?_ begun.agrees begun.plain
      fun t dropped => (begun.hidden t dropped).2
    rw [latestSnapshot_eq]
    omega
  · rw [CatalogStore.readAt, if_neg]
    · rfl
    · have kept : (catalog.store.commitWriter p.writer.commitResult).retainFromCache =
          catalog.store.retainFromCache := rfl
      have written : p.writer.commitResult.snapshotId = p.writer.snapshotId := rfl
      simp only [kept, written, Bool.and_eq_true, decide_eq_true_eq]
      omega
  · refine CatalogReader.view_agrees hashOrder (follows.session.commit consistent request) le_rfl
      (fun f k viewed apart => ?_) follows.plain fun t dropped => (follows.hidden t dropped).2
    refine (follows.agrees f k viewed apart).congr rfl (follows.session.get_commit request ?_ k)
    cases f <;> first | rfl | contradiction

/-- A schema is created, a column renamed and a data file registered. -/
theorem session_effect_rename : ∃ (catalog : Catalog) (p : WriteSession) (result : CommitResult)
    (db : Db) (reader : CatalogReader), catalog.MaintainedInStep Env.trivial ∧
    Run (WriteSession.CurrentStep Env.trivial catalog.db) (.begin catalog)
      [.createSchema "other" "77aa", .renameColumn 2 3 (some "total"),
       .registerDataFile 2 (.parquet "f.parquet" 1 10)] p ∧
    (p.writer.createSnapshot catalog.db {}).1 = .ok (result, db) ∧
    (catalog.store.commitWriter result).readAt db result.snapshotId = .ok reader ∧
    reader.view id = CatalogReader.view id ⟨p.view, result.snapshotId⟩ ∧
    (reader.describeTable id 2).map (·.2.map (·.columnName)) = some ["total"] := by
  have reached : Catalog.MaintainedInStep Env.trivial _ :=
    ⟨"a", _, _, [.writer (.session createOrders), .writer (.session ⟨[.staging (.addColumn 2
        ⟨"amount", "INT", 0, true, none, none, none, none, none⟩)], {}⟩)], rfl, .next ⟨fun _ _ =>
        rfl, .writer (.session rfl)⟩ (.single ⟨fun _ _ => rfl, .writer (.session rfl)⟩)⟩
  refine ⟨_, _, _, _, _, reached,
    (fun ran => ⟨ran, (fun committed => ⟨committed, by exact rfl, ?_, ?_⟩) (by exact rfl)⟩)
      (.next ⟨trivial, _, _, rfl, rfl⟩ (.next ⟨.inr ⟨_, rfl, _, rfl, .inl rfl⟩, _, _, rfl, rfl⟩
        (.single ⟨trivial, _, _, rfl, rfl⟩)))⟩
  · obtain ⟨_, reader, opened, same⟩ := session_effect id reached rfl (Nat.zero_le _) ran committed
    cases opened
    exact same
  · rfl

/-- A data file that was registered before its table was dropped stays in sight. -/
theorem session_keeps_file : ∃ (catalog : Catalog) (p : WriteSession) (result : CommitResult) (db : Db)
    (reader : CatalogReader), catalog.MaintainedInStep Env.trivial ∧ catalog.InStep ∧
    Run (WriteSession.Step Env.trivial catalog.db) (.begin catalog)
      [.registerDataFile 2 (.parquet "f.parquet" 1 10),
       .dropTable 1 2 1] p ∧
    (p.writer.createSnapshot catalog.db {}).1 = .ok (result, db) ∧
    (catalog.store.commitWriter result).readAt db result.snapshotId = .ok reader ∧
    (reader.listDataFiles 2).map (·.path) = ["f.parquet"] ∧
    CatalogReader.listDataFiles ⟨p.view, result.snapshotId⟩ 2 = [] := by
  refine ⟨_, _, _, _, _, ⟨"a", _, _, [.writer (.session createOrders)], rfl,
    .single ⟨fun _ _ => rfl, .writer (.session rfl)⟩⟩, rfl,
    .next ⟨_, _, rfl, rfl⟩ (.next ⟨_, _, rfl, rfl⟩ .done), rfl, rfl, ?_, ?_⟩
  · rfl
  · rfl

end Catalog

end RockLake
