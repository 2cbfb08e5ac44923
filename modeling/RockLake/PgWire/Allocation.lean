import RockLake.PgWire.Effects

/-! Rows that a commit creates under identifiers of its own. The identifier is the counter's value
when the operation is applied, and nothing later in the same commit reaches the row. -/
namespace RockLake

open Db BufferedOp

/-- Tables whose rows get an identifier from a counter when they are inserted. -/
inductive IdTable where
  | schema | table | column | dataFile
  deriving DecidableEq

namespace IdTable

def family : IdTable → Family
  | .schema => .schema
  | .table => .table
  | .column => .column
  | .dataFile => .dataFile

def idOf : (t : IdTable) → t.family.Row → Nat
  | .schema, row => row.schemaId
  | .table, row => row.tableId
  | .column, row => row.columnId
  | .dataFile, row => row.dataFileId

def keyId : IdTable → Key → Option Nat
  | .schema, [id] => some id
  | .table, [_, id, _] => some id
  | .column, [_, id, _] => some id
  | .dataFile, [_, id] => some id
  | _, _ => none

def counter : IdTable → CounterCache → Nat
  | .dataFile, c => c.nextFileId
  | _, c => c.nextCatalogId

def taken : IdTable → BufferedOp → Nat
  | .dataFile, op => op.fileIds
  | _, op => op.catalogIds

/-- The operation inserts this row into this table, up to what the catalog decides itself. -/
def Inserts : (t : IdTable) → BufferedOp → t.family.Row → Prop
  | .schema, .insertSchema name, row => row.schemaName = name
  | .table, .insertTable schemaId name path, row =>
    row.schemaId = schemaId ∧ row.tableName = name ∧ row.path = path
  | .column, .insertColumn tableId spec, row =>
    row.tableId = tableId ∧ row.columnName = spec.columnName ∧ row.dataType = spec.dataType ∧
      row.columnIndex = spec.columnIndex ∧ row.isNullable = spec.isNullable ∧
      row.defaultValue = spec.defaultValue ∧ row.initialDefault = spec.initialDefault ∧
      row.defaultValueType = spec.defaultValueType ∧
      row.defaultValueDialect = spec.defaultValueDialect ∧ row.parentColumn = spec.parentColumn
  | .dataFile, .insertDataFile tableId path format rows bytes, row =>
    row.tableId = tableId ∧ row.path = path ∧ row.fileFormat = format ∧ row.recordCount = rows ∧
      row.fileSizeBytes = bytes
  | _, _, _ => False

def inserts : IdTable → BufferedOp → Bool
  | .schema, .insertSchema .. => true
  | .table, .insertTable .. => true
  | .column, .insertColumn .. => true
  | .dataFile, .insertDataFile .. => true
  | _, _ => false

theorem family_versioned (t : IdTable) : t.family.versioned = true := by
  cases t <;> rfl

theorem needsSnapshot_of_inserts {t : IdTable} (inserts : t.inserts op = true) :
    op.needsSnapshot = true := by
  cases t <;> cases op <;> first | rfl | contradiction

theorem taken_of_inserts {t : IdTable} (inserts : t.inserts op = true) :
    t.taken op = 1 := by
  cases t <;> cases op <;> first | rfl | contradiction

end IdTable

/-- A pair staged by an operation in the family of such a table: the retirement of a stored row, or
a row with a new identifier. -/
def IdTable.Staged (t : IdTable) (db : Db) (c : CounterCache) (x : Write) : Prop :=
  x.family = t.family →
    (db.get x.family x.key).isSome = true ∨ ∃ id, t.keyId x.key = some id ∧ t.counter c ≤ id

namespace CatalogWriter

variable {env : Env} {db : Db} {w w' : CatalogWriter} {t : IdTable}

theorem retireLive_staged :
    ∀ x ∈ w.retireLive f select (db.scanPrefix f start), t.Staged db c x := by
  intro x member _
  simp only [retireLive, List.mem_map, List.mem_filter] at member
  obtain ⟨e, ⟨scanned, _⟩, rfl⟩ := member
  exact .inl (by rw [(db.mem_scanPrefix.mp scanned).1]; rfl)

theorem retireDataFiles_staged :
    ∀ x ∈ w.retireDataFiles tableId (liveDataFiles db tableId), t.Staged db c x := by
  intro x member family
  simp only [retireDataFiles, liveDataFiles, List.mem_flatMap, List.mem_filter] at member
  obtain ⟨⟨k, row⟩, ⟨scanned, _⟩, staged⟩ := member
  rcases List.mem_pair.mp staged with rfl | rfl
  · exact .inl (by rw [(db.mem_scanPrefix.mp scanned).1]; rfl)
  · cases t <;> contradiction

theorem cascade_staged :
    ∀ x ∈ w.dropTableCascade db tableId, t.Staged db c x := by
  intro x member
  simp only [dropTableCascade, List.mem_append] at member
  rcases member with ((((((column | file) | partitioned) | tag) | columnTag) | sorted) | deleted) |
    inlined
  case inl.inl.inl.inl.inl.inl.inr => exact retireDataFiles_staged x file
  all_goals exact retireLive_staged x ‹_›

theorem retired_staged (stored : db.get f key = some row) : t.Staged db c ⟨f, key, ended⟩ := by
  intro _
  exact .inl (by rw [stored]; rfl)

theorem other_staged (other : x.family ≠ t.family) :
    t.Staged db c x :=
  fun same => absurd same other

/-- What a call stages, unless it is the second half of a rename, whose row the caller gives. -/
theorem staging_staged {call : StagingCall} (t : IdTable)
    (own : ∀ row newName, call ≠ .insertRenamedColumn row newName)
    (called : w.staging env db call = .ok (reply, w')) :
    ∃ new, w'.staged = w.staged ++ new ∧ ∀ x ∈ new, t.Staged db w.counters x := by
  -- a call outside the four families
  have elsewhere : t.family ∉ call.families →
      ∃ new, w'.staged = w.staged ++ new ∧ ∀ x ∈ new, t.Staged db w.counters x := by
    intro outside
    obtain ⟨new, staged, inside⟩ := staging_families called
    exact ⟨new, staged, fun x member => other_staged fun same => outside (same ▸ inside x member)⟩
  -- a call that retires or creates one row
  have one : ∀ {x : Write} {w' : CatalogWriter}, t.Staged db w.counters x →
      w'.staged = w.staged ++ [x] →
      ∃ new, w'.staged = w.staged ++ new ∧ ∀ x ∈ new, t.Staged db w.counters x :=
    fun {x w'} fresh staged => ⟨[x], staged, fun y member => by rwa [List.mem_singleton.mp member]⟩
  cases call with
  | insertRenamedColumn row newName => exact absurd rfl (own row newName)
  | createSchema | addColumn =>
    cases called
    refine one ?_ rfl
    intro family
    cases t <;> first | contradiction | exact .inr ⟨_, rfl, le_rfl⟩
  | createTable | registerDataFile =>
    cases called
    refine ⟨_, rfl, fun x member family => ?_⟩
    rcases List.mem_pair.mp member with rfl | rfl
    · cases t <;> first | contradiction | exact .inr ⟨_, rfl, le_rfl⟩
    · cases t <;> contradiction
  | dropSchema | dropColumn =>
    obtain ⟨row, stored, rfl⟩ := dropped_ok.mp (checked_ok.mp called).2
    exact one (retired_staged stored) rfl
  | dropTable =>
    obtain ⟨row, stored, rfl⟩ := dropTable_ok.mp (checked_ok.mp called).2
    refine ⟨_, rfl, fun x member => ?_⟩
    rcases List.mem_cons.mp member with rfl | cascade
    · exact retired_staged stored
    · exact cascade_staged x cascade
  | renameColumn tableId columnId =>
    obtain ⟨_, _, live, _, rfl⟩ := staging_renameColumn called
    exact one (retired_staged (liveColumn_some live).1) rfl
  | _ => exact elsewhere (by cases t <;> simp [IdTable.family, StagingCall.families])

end CatalogWriter

/-- A row created in the session whose key later calls cannot reach: it is not in the committed store
and its identifier has been given out. -/
structure IdTable.Settled (t : IdTable) (base : Db) (w : CatalogWriter) (k : Key)
    (row : t.family.Row) : Prop where
  absent : base.get t.family k = none
  given : ∀ id, t.keyId k = some id → id < t.counter w.counters
  stored : (base.putAll w.staged).get t.family k = some row

section Settled

variable {ctx : CommitContext} {base db : Db} {c : CounterCache} {w w' : CatalogWriter} {t : IdTable}
  {k : Key} {row : t.family.Row} {s s' : CommitState}

theorem IdTable.Settled.call {env : Env} {call : StagingCall} (settled : t.Settled base w k row)
    (core : db t.family = base t.family)
    (own : ∀ row newName, call ≠ .insertRenamedColumn row newName)
    (staged : w.Stages env db call w') : t.Settled base w' k row := by
  have counters := CatalogWriter.staging_counters staged
  obtain ⟨reply, called⟩ := staged
  obtain ⟨new, added, each⟩ := CatalogWriter.staging_staged t own called
  refine ⟨settled.absent, fun id named => ?_, ?_⟩
  · have earlier := settled.given id named
    rw [counters]
    cases t <;> simp only [IdTable.counter, CounterCache.advance] at earlier ⊢ <;> omega
  · rw [added, putAll_append]
    rcases (base.putAll w.staged).get_putAll (f := t.family) new k with
      ⟨other, member, _⟩ | ⟨_, kept⟩
    · rcases each _ member rfl with present | ⟨id, named, fresh⟩
      · rw [get_of_family core, settled.absent] at present
        contradiction
      · have earlier := settled.given id named
        omega
    · rw [kept, settled.stored]

theorem IdTable.Settled.run (settled : t.Settled base w k row) (core : db t.family = base t.family)
    (own : ∀ call ∈ calls, ∀ row newName, call ≠ .insertRenamedColumn row newName)
    (ran : Run (CatalogWriter.Stages env db) w calls w') : t.Settled base w' k row := by
  induction ran with
  | done => exact settled
  | @next w w₁ w₂ call calls staged _ ih =>
    have next := settled.call core (own call List.mem_cons_self) staged
    exact ih next fun later member => own later (List.mem_cons_of_mem _ member)

theorem BufferedOp.MayCall.own {op : BufferedOp} {call : StagingCall} (may : op.MayCall uuid call)
    (row : ColumnRow) (newName : String) :
    call ≠ .insertRenamedColumn row newName := by
  rintro rfl
  rcases may with exactly | among
  · cases op <;> simp [call] at exactly
  · split at among <;> contradiction

theorem IdTable.Settled.ops {ops : List BufferedOp}
    (consistent : base.Consistent c) (session : InSession base False c s.db s.writer)
    (settled : t.Settled base s.writer k row) (ran : runOps ctx replaced deleted i s ops = .ok s') :
    t.Settled base s'.writer k row := by
  induction ops generalizing i s with
  | nil =>
    cases ran
    exact settled
  | cons op rest ih =>
    obtain ⟨middle, applied, ran⟩ := runOps_cons.mp ran
    obtain ⟨calls, called, may, _⟩ := apply_run applied
    have core := session.core t.family (Family.core_of_versioned t.family_versioned)
    have next : t.Settled base middle.writer k row :=
      settled.run core (fun call member => (may call member).own) called
    have later : InSession base False c middle.db middle.writer := by
      refine (InSession.keptByCalls consistent).ofOp ?_ applied
      exact session
    exact ih later next ran

theorem IdTable.Settled.ofStage (sound : base.Sound c)
    (staged : w'.staged = w.staged ++ ⟨t.family, k, row⟩ :: more)
    (apart : ∀ x ∈ more, x.family ≠ t.family) (unused : ∀ old, ¬ t.family.Fits c k old)
    (given : ∀ id, t.keyId k = some id → id < t.counter w'.counters) : t.Settled base w' k row := by
  refine ⟨?_, given, ?_⟩
  · cases found : base.get t.family k with
    | none => rfl
    | some old => exact absurd (sound _ _ _ found) (unused old)
  · rw [staged, putAll_append, putAll_cons, get_of_family (putAll_family _ apart), get_put_same]

theorem BufferedOp.apply_creates (sound : base.Sound c) (inserts : t.inserts op = true)
    (applied : op.apply ctx replaced deleted uuid s = .ok s')
    (session : InSession base False c s.db s.writer) :
    ∃ k row, t.Settled base s'.writer k row ∧ t.Inserts op row ∧
      t.idOf row = t.counter s.writer.counters ∧ t.family.endOf row = none := by
  have catalog := session.catalog
  have file := session.file
  have snapshot := session.snapshot
  have next {n : Nat} : ∀ id, some n = some id → id < n + 1 := by
    rintro _ ⟨⟩
    exact Nat.lt_succ_self _
  cases t <;> cases op <;> first
    | contradiction
    | (simp only [apply] at applied
       obtain ⟨reply, w, called, rfl⟩ := CommitState.staging_ok.mp applied
       cases called)
  case schema.insertSchema name =>
    refine ⟨keySchema s.writer.counters.nextCatalogId, s.writer.newSchemaRow name uuid,
      .ofStage sound rfl (by simp) ?_ next, rfl, rfl, rfl⟩
    · intro old fits
      obtain ⟨key, bound⟩ := fits.keyed
      simp only [keySchema, List.cons.injEq, and_true] at key
      omega
  case table.insertTable schemaId name path =>
    refine ⟨keyTable schemaId s.writer.counters.nextCatalogId s.writer.snapshotId,
      s.writer.newTableRow schemaId name path uuid,
      .ofStage sound rfl (by simp [IdTable.family]) ?_ next, ⟨rfl, rfl, rfl⟩, rfl, rfl⟩
    · intro old fits
      obtain ⟨key, bound⟩ := fits.keyed
      simp only [keyTable, List.cons.injEq, and_true] at key
      omega
  case column.insertColumn tableId spec =>
    refine ⟨keyColumn tableId s.writer.counters.nextCatalogId s.writer.snapshotId,
      s.writer.newColumnRow tableId spec, .ofStage sound rfl (by simp) ?_ next,
      ⟨rfl, rfl, rfl, rfl, rfl, rfl, rfl, rfl, rfl, rfl⟩, rfl, rfl⟩
    · -- identifiers of columns are not bounded, but rows of the store begin earlier
      intro old fits
      have begun := fits.begun rfl
      have key := fits.keyed
      simp only [IdTable.family, Family.Keyed, keyColumn, List.cons.injEq, and_true] at key
      simp only [IdTable.family, Family.beginOf] at begun
      simp only [CatalogWriter.snapshotId] at key
      omega
  case dataFile.insertDataFile tableId path format rows bytes =>
    refine ⟨keyDataFile tableId s.writer.counters.nextFileId, s.writer.newDataFileRow s.db tableId
      { path, fileFormat := format, recordCount := rows, fileSizeBytes := bytes },
      .ofStage sound rfl (by simp [IdTable.family]) ?_ next, ⟨rfl, rfl, rfl, rfl, rfl⟩, rfl,
      rfl⟩
    · intro old fits
      obtain ⟨key, bound⟩ := fits.keyed
      simp only [keyDataFile, List.cons.injEq, and_true] at key
      omega

end Settled

/-- The row of an insert somewhere in a commit: new, in sight afterwards, and under the identifier
that the operations before it leave the counter at. -/
theorem executeCommit_created {ctx : CommitContext} {t : IdTable} (valid : before.Valid)
    (inserts : t.inserts op = true)
    (done : executeCommit ctx (first ++ op :: rest) before = (after, .ok ())) :
    ∃ k row, before.db.get t.family k = none ∧ after.shows t.family k = some row ∧
      t.Inserts op row ∧
      t.idOf row = t.counter before.store.counters + (first.map t.taken).sum := by
  have validAfter := executeCommit_valid valid done
  obtain ⟨s, ran, session, outcome⟩ := executeCommit_ok valid done
  have needs : s.needsSnapshot = true := by
    rw [runOps_needsSnapshot ran]
    simp [IdTable.needsSnapshot_of_inserts inserts]
  obtain ⟨middle, early, late⟩ := runOps_append ran
  have started : InSession before.db False before.store.counters middle.db middle.writer :=
    (InSession.keptByCalls valid.consistent).ofOps (fun _ session => session)
      (InSession.begin False before.store valid.consistent) early
  have counters := runOps_counters early
  obtain ⟨created, applied, late⟩ := runOps_cons.mp late
  have next : InSession before.db False before.store.counters created.db created.writer := by
    refine (InSession.keptByCalls valid.consistent).ofOp ?_ applied
    exact started
  obtain ⟨k, row, settled, inserted, id, live⟩ :=
    apply_creates valid.consistent.sound inserts applied started
  have final := settled.ops valid.consistent next late
  refine ⟨k, row, final.absent, ?_, inserted, ?_⟩
  · rcases outcome with ⟨_, rfl⟩ | ⟨unneeded, _⟩
    · rw [validAfter.shows_eq_some, session.get_commit _ t.family_versioned]
      exact ⟨final.stored, live⟩
    · rw [needs] at unneeded
      contradiction
  · rw [id, counters]
    cases t <;> rfl

end RockLake
