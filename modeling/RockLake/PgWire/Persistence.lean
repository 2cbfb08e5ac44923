import RockLake.PgWire.Inserts
import RockLake.PgWire.LiteralRows

/-! Literal rows of acknowledged INSERT statements. Rows of some tables get a new identifier, rows of
others are stored under a key made of their own values, and the change log has one row for each
snapshot. In each case the commit stores a row with the values given. -/
namespace RockLake

open Literals CatalogWriter Db Option Executor BufferedOp
open List hiding after

theorem Literals.literalU64_le (read : n ∈ literalU64 values i) : n ≤ u64Max := by
  obtain ⟨text, _, parsed⟩ := bind_eq_some_iff.mp read
  have bound : n < 2 ^ 64 := of_decide_eq_true (filter_eq_some_iff.mp parsed).2
  exact Nat.le_sub_one_of_lt bound

/-! Without parameters the operations take the literals. -/

namespace Executor

variable (values : List (Option String)) (param literal : Nat)

@[simp] theorem textAt_nil : textAt [] values param literal = literalString values literal := rfl

@[simp] theorem u64At_nil : u64At [] values param literal = literalU64 values literal := rfl

@[simp] theorem boolAt_nil : boolAt [] values param literal = literalBool values literal := rfl

@[simp] theorem optionalTextAt_nil :
    optionalTextAt [] values param literal = literalString values literal := rfl

end Executor

/-- Tables whose rows are stored under a key made of the values given. -/
inductive KeyedTable where
  | schemaVersions | inlinedDataTables | tableStats | tableColumnStats
  deriving DecidableEq

namespace KeyedTable

def metadata : KeyedTable → MetadataTable
  | .schemaVersions => .schemaVersions
  | .inlinedDataTables => .inlinedDataTables
  | .tableStats => .tableStats
  | .tableColumnStats => .tableColumnStats

def family : KeyedTable → Family
  | .schemaVersions => .schemaVersions
  | .inlinedDataTables => .inlinedDataTables
  | .tableStats => .tableStats
  | .tableColumnStats => .tableColumnStats

def op : KeyedTable → List (Option String) → BufferedOp
  | .schemaVersions => Executor.schemaVersionsOp []
  | .inlinedDataTables => Executor.inlinedDataTablesOp []
  | .tableStats => Executor.tableStatsOp []
  | .tableColumnStats => Executor.tableColumnStatsOp []

def key : KeyedTable → List (Option String) → Key
  | .schemaVersions, values =>
    keySchemaVersions ((literalU64 values 2).getD 0) ((literalU64 values 0).getD 0)
  | .inlinedDataTables, values =>
    keyInlinedDataTables ((literalU64 values 0).getD 0) ((literalU64 values 2).getD 0)
  | .tableStats, values => keyTableStats ((literalU64 values 0).getD 0)
  | .tableColumnStats, values =>
    keyTableColumnStats ((literalU64 values 0).getD 0) ((literalU64 values 1).getD 0)

/-- The row stored for literal values when there is none under their key. -/
def row : (t : KeyedTable) → List (Option String) → t.family.Row
  | .schemaVersions, values =>
    { tableId := (literalU64 values 2).getD 0, beginSnapshot := (literalU64 values 0).getD 0
      schemaVersion := (literalU64 values 1).getD 0 }
  | .inlinedDataTables, values =>
    { tableId := (literalU64 values 0).getD 0, schemaVersion := (literalU64 values 2).getD 0
      sql := (literalString values 1).getD "" }
  | .tableStats, values =>
    let records := saturatingAdd 0 ((literalU64 values 1).getD 0)
    { tableId := (literalU64 values 0).getD 0, recordCount := records, internalFileCount := 0
      fileSizeBytes := saturatingAdd 0 ((literalU64 values 3).getD 0)
      nextRowId := some (max records ((literalU64 values 2).getD 0)) }
  | .tableColumnStats, values =>
    { tableId := (literalU64 values 0).getD 0, columnId := (literalU64 values 1).getD 0
      containsNull := (literalBool values 2).getD false, containsNan := literalBool values 3
      minValue := literalString values 4, maxValue := literalString values 5
      extraStats := literalString values 6 }

/-- The row has the values given. The next row identifier of a table is never below its number of
records. -/
def Carries (values : List (Option String)) : (t : KeyedTable) → t.family.Row → Prop
  | .schemaVersions, row =>
    (∀ begun ∈ literalU64 values 0, row.beginSnapshot = begun) ∧
      (∀ version ∈ literalU64 values 1, row.schemaVersion = version) ∧
      ∀ tableId ∈ literalU64 values 2, row.tableId = tableId
  | .inlinedDataTables, row =>
    (∀ tableId ∈ literalU64 values 0, row.tableId = tableId) ∧
      (∀ name ∈ literalString values 1, row.sql = name) ∧
      ∀ version ∈ literalU64 values 2, row.schemaVersion = version
  | .tableStats, row =>
    (∀ tableId ∈ literalU64 values 0, row.tableId = tableId) ∧
      (∀ records ∈ literalU64 values 1, row.recordCount = records) ∧
      (∀ next ∈ literalU64 values 2, row.nextRowId = some (max row.recordCount next)) ∧
      ∀ bytes ∈ literalU64 values 3, row.fileSizeBytes = bytes
  | .tableColumnStats, row =>
    (∀ tableId ∈ literalU64 values 0, row.tableId = tableId) ∧
      (∀ columnId ∈ literalU64 values 1, row.columnId = columnId) ∧
      (∀ containsNull ∈ literalBool values 2, row.containsNull = containsNull) ∧
      row.containsNan = literalBool values 3 ∧ row.minValue = literalString values 4 ∧
      row.maxValue = literalString values 5 ∧ row.extraStats = literalString values 6

theorem row_carries (t : KeyedTable) (values : List (Option String)) :
    t.Carries values (t.row values) := by
  cases t with
  | schemaVersions | inlinedDataTables | tableColumnStats =>
    simp +contextual [Carries, row]
  | tableStats =>
    refine ⟨?_, ?_, ?_, ?_⟩
    · simp +contextual [row]
    · intro records given
      have bound := literalU64_le given
      simp [row, saturatingAdd, mem_def.mp given, bound]
    · simp +contextual [row]
    · intro bytes given
      have bound := literalU64_le given
      simp [row, saturatingAdd, mem_def.mp given, bound]

end KeyedTable

def BufferedOp.slot : BufferedOp → Option (Family × Key)
  | .insertSchemaVersions begun _ tableId => some (.schemaVersions, keySchemaVersions tableId begun)
  | .insertInlinedDataTables tableId _ version =>
    some (.inlinedDataTables, keyInlinedDataTables tableId version)
  | .insertTableStats tableId .. | .updateTableStats tableId _ | .setTableStats tableId .. =>
    some (.tableStats, keyTableStats tableId)
  | .deleteInlinedRows tableName _ =>
    (parseInlinedTableIds tableName).map fun ids => (.tableStats, keyTableStats ids.1)
  | .insertTableColumnStats tableId columnId _ =>
    some (.tableColumnStats, keyTableColumnStats tableId columnId)
  | _ => none

def BufferedOp.logs : BufferedOp → Bool
  | .insertSnapshotChanges .. => true
  | _ => false

/-- What the store will hold under a key if the commit in progress ends here. -/
def CommitState.found (s : CommitState) (f : Family) (k : Key) : Option f.Row :=
  (s.db.putAll s.writer.staged).get f k

section Keyed

variable {ctx : CommitContext} {s s' : CommitState} {t : KeyedTable} {k : Key} {op : BufferedOp}
  {values : List (Option String)} {replaced deleted : List (Nat × Nat × Nat)} {uuid : String}

theorem KeyedTable.op_slot (t : KeyedTable) (values : List (Option String)) :
    (t.op values).slot = some (t.family, t.key values) := by
  cases t <;> rfl

theorem DirectCall.applyAll_get (other : ∀ call ∈ calls, (call.family, call.key env) ≠ (f, k)) :
    (applyAll env calls db).get f k = db.get f k := by
  induction calls generalizing db with
  | nil => rfl
  | cons call rest ih =>
    have first := call.apply_get env db (other call mem_cons_self)
    exact (ih fun later member => other later (mem_cons_of_mem _ member)).trans first

theorem BufferedOp.direct_apart (other : op.slot ≠ some (t.family, k)) :
    ∀ call ∈ op.direct, (call.family, call.key env) ≠ (t.family, k) := by
  intro call member same
  cases op with
  | updateTableStats | setTableStats | insertTableColumnStats | insertTableStats =>
    rw [mem_singleton.mp member] at same
    exact other (congrArg some same)
  | deleteInlinedRows tableName rowIds =>
    simp only [direct] at member
    split at member
    · rename_i tableId version named
      rw [mem_singleton.mp member] at same
      refine other ?_
      rw [slot, named]
      exact congrArg some same
    · exact absurd member not_mem_nil
  | insertFileColumnStats | insertMacroParams =>
    rw [mem_singleton.mp member] at same
    have family := congrArg Prod.fst same
    cases t <;> contradiction
  | _ => exact absurd member not_mem_nil

section

variable (other : op.slot ≠ some (t.family, k)) (applied : op.apply ctx replaced deleted uuid s = .ok s')
include other applied

theorem BufferedOp.staged_apart :
    ∃ new, s'.writer.staged = s.writer.staged ++ new ∧ ∀ row, ⟨t.family, k, row⟩ ∉ new := by
  have elsewhere : t.family ∉ op.families →
      ∃ new, s'.writer.staged = s.writer.staged ++ new ∧ ∀ row, ⟨t.family, k, row⟩ ∉ new := by
    intro outside
    obtain ⟨new, staged, inside⟩ := apply_families applied
    exact ⟨new, staged, fun row member => outside (inside _ member)⟩
  cases op with
  | insertSchemaVersions | insertInlinedDataTables =>
    simp only [apply] at applied
    obtain ⟨_, _, called, rfl⟩ := CommitState.staging_ok.mp applied
    cases called
    refine ⟨_, rfl, fun row member => other ?_⟩
    have same := mem_singleton.mp member
    exact congrArg some (congrArg (fun x : Write => (x.family, x.key)) same).symm
  | updateEndSnapshot tableName =>
    refine elsewhere ?_
    simp only [families]
    split
    · cases t <;> decide
    · split <;> cases t <;> decide
  | _ => exact elsewhere (by cases t <;> simp [families, KeyedTable.family])

theorem BufferedOp.apply_found :
    s'.found t.family k = s.found t.family k := by
  obtain ⟨new, staged, apart⟩ := staged_apart other applied
  have direct : s'.db.get t.family k = s.db.get t.family k := by
    rw [apply_db applied]
    exact DirectCall.applyAll_get (direct_apart other)
  have early : (s'.db.putAll s.writer.staged).get t.family k = s.found t.family k := by
    rw [CommitState.found]
    exact get_putAll_congr direct _
  rw [CommitState.found, staged, putAll_append]
  rcases (s'.db.putAll s.writer.staged).get_putAll (f := t.family) new k with
    ⟨row, member, _⟩ | ⟨_, kept⟩
  · exact absurd member (apart row)
  · rw [kept, early]

end

theorem runOps_found (others : ∀ op ∈ ops, op.slot ≠ some (t.family, k))
    (ran : runOps ctx replaced deleted i s ops = .ok s') :
    s'.found t.family k = s.found t.family k := by
  induction ops generalizing i s with
  | nil =>
    cases ran
    rfl
  | cons op rest ih =>
    obtain ⟨middle, applied, ran⟩ := runOps_cons.mp ran
    have first := apply_found (others op mem_cons_self) applied
    rw [ih (fun later member => others later (mem_cons_of_mem _ member)) ran, first]
    rfl

theorem CommitState.found_none (absent : s.found f k = none) :
    s.db.get f k = none ∧ ∀ db : Db, (db.putAll s.writer.staged).get f k = db.get f k := by
  rcases s.db.get_putAll (f := f) s.writer.staged k with ⟨row, _, found⟩ | ⟨unstaged, kept⟩
  · rw [CommitState.found, found] at absent
    contradiction
  · refine ⟨kept ▸ absent, fun db => ?_⟩
    rcases db.get_putAll (f := f) s.writer.staged k with ⟨row, member, _⟩ | ⟨_, same⟩
    · exact absurd member (unstaged row)
    · exact same

theorem KeyedTable.apply_fills (absent : s.found t.family (t.key values) = none)
    (applied : (t.op values).apply ctx replaced deleted uuid s = .ok s') :
    s'.found t.family (t.key values) = some (t.row values) := by
  obtain ⟨empty, unstaged⟩ := CommitState.found_none absent
  cases t with
  | schemaVersions | inlinedDataTables =>
    simp only [op, Executor.schemaVersionsOp, Executor.inlinedDataTablesOp, apply]
      at applied
    obtain ⟨_, _, called, rfl⟩ := CommitState.staging_ok.mp applied
    cases called
    refine (congrArg (fun db : Db => db.get _ _) (putAll_append _ _ _)).trans ?_
    exact get_put_same _ _ _
  | tableStats =>
    cases applied
    refine (unstaged _).trans ((get_put_same _ _ _).trans ?_)
    have absent : s.db.get .tableStats (keyTableStats ((literalU64 values 0).getD 0)) = none :=
      empty
    simp only [readTableStatsOrDefault, u64At_nil, absent, getD_none]
    rfl
  | tableColumnStats =>
    cases applied
    refine (unstaged _).trans ((get_put_same _ _ _).trans ?_)
    have absent : s.db.get .tableColumnStats (keyTableColumnStats ((literalU64 values 0).getD 0)
        ((literalU64 values 1).getD 0)) = none := empty
    simp only [u64At_nil, boolAt_nil, optionalTextAt_nil, absent, bind_none, or_none]
    rfl

theorem runOps_unstaged (ran : runOps ctx replaced deleted i s ops = .ok s')
    (unneeded : s'.needsSnapshot = false) :
    s'.writer.staged = s.writer.staged := by
  obtain ⟨new, staged, inside⟩ := runOps_families ran
  rw [runOps_needsSnapshot ran, Bool.or_eq_false_iff, List.any_eq_false] at unneeded
  have nothing : new = [] := by
    refine eq_nil_iff_forall_not_mem.mpr fun x member => ?_
    obtain ⟨op, among, family⟩ := mem_flatMap.mp (inside x member)
    have idle := unneeded.2 op among
    cases op <;> contradiction
  rw [staged, nothing, append_nil]

/-- A commit with the operation of a literal row, and no other operation on the same row. -/
theorem executeCommit_keyed (valid : before.Valid)
    (absent : before.db.get t.family (t.key values) = none)
    (others : ∀ op ∈ first ++ rest, op.slot ≠ some (t.family, t.key values))
    (done : executeCommit ctx (first ++ t.op values :: rest) before = (after, .ok ())) :
    after.shows t.family (t.key values) = some (t.row values) := by
  have validAfter := executeCommit_valid valid done
  obtain ⟨s, ran, session, outcome⟩ := executeCommit_ok valid done
  obtain ⟨middle, early, late⟩ := runOps_append ran
  have unfilled : middle.found t.family (t.key values) = none :=
    (runOps_found (fun op member => others op (mem_append_left _ member)) early).trans absent
  obtain ⟨filled, applied, late⟩ := runOps_cons.mp late
  have fills : filled.found t.family (t.key values) = some (t.row values) := by
    refine KeyedTable.apply_fills ?_ applied
    exact unfilled
  have kept := runOps_found (fun op member => others op (mem_append_right _ member)) late
  have found : s.found t.family (t.key values) = some (t.row values) := kept.trans fills
  refine validAfter.shows_eq_some.mpr ⟨?_, by cases t <;> rfl⟩
  rcases outcome with ⟨_, rfl⟩ | ⟨unneeded, rfl⟩
  · rw [← found]
    refine get_of_family ?_ _
    rw [commitWrites, putAll_append]
    refine putAll_family _ fun x member same => ?_
    rcases s.writer.commitTail_family member with family | family | family <;>
      (rw [family] at same; cases t <;> contradiction)
  · -- without a snapshot nothing was staged
    rw [← found, CommitState.found, runOps_unstaged ran unneeded]
    rfl

end Keyed

section ChangeLog

variable {ctx : CommitContext} {s s' : CommitState} {replaced deleted : List (Nat × Nat × Nat)}
  {kind : String} {info : Option String} {schemaId tableId : Option Nat}

def CatalogWriter.Tells (kind : String) (info : Option String) (w : CatalogWriter) : Prop :=
  ∃ row, w.pendingSnapshotChanges = some row ∧ row.changeType = kind ∧ row.changeInfo = info ∧
    row.changesMade.isSome = true

theorem CatalogWriter.Tells.add {w : CatalogWriter} (tells : w.Tells kind info)
    (kind' : String) (info' : Option String) (schemaId tableId : Option Nat) :
    (w.addSnapshotChanges kind' info' schemaId tableId).Tells kind info := by
  obtain ⟨row, pending, sameKind, sameInfo, made⟩ := tells
  obtain ⟨changes, log⟩ := isSome_iff_exists.mp made
  by_cases token : (changeToken kind' info').isEmpty = true <;>
    simp [Tells, addSnapshotChanges, pending, sameKind, sameInfo, log, token]

theorem CatalogWriter.Tells.keptByCalls :
    KeptByCalls ctx fun s => s.writer.Tells kind info where
  staging := by
    intro s writer call reply tells called
    have effect := (staging_effect ⟨reply, called⟩).2
    cases call with
    | addSnapshotChanges kind' info' schemaId tableId =>
      obtain ⟨row, pending, rest⟩ := tells.add kind' info' schemaId tableId
      exact ⟨row, effect.trans pending, rest⟩
    | _ =>
      obtain ⟨row, pending, rest⟩ := tells
      exact ⟨row, effect.trans pending, rest⟩
  direct _ tells := tells
  notes _ _ _ tells := tells

theorem CatalogWriter.run_changes (ran : Run (CatalogWriter.Stages ctx.env db) w calls w')
    (quiet : ∀ call ∈ calls, ∀ w, call.changes w = w.pendingSnapshotChanges) :
    w'.pendingSnapshotChanges = w.pendingSnapshotChanges := by
  induction ran with
  | done => rfl
  | @next w w₁ w₂ call calls staged _ ih =>
    rw [ih fun later member => quiet later (mem_cons_of_mem _ member),
      (staging_effect staged).2, quiet call mem_cons_self]

theorem BufferedOp.apply_changes {op : BufferedOp} (silent : op.logs = false)
    (applied : op.apply ctx replaced deleted uuid s = .ok s') :
    s'.writer.pendingSnapshotChanges = s.writer.pendingSnapshotChanges := by
  obtain ⟨calls, ran, may, _⟩ := apply_run applied
  have quiet : ∀ call ∈ calls, ∀ w, call.changes w = w.pendingSnapshotChanges := by
    intro call member w
    cases call with
    | addSnapshotChanges =>
      rcases may _ member with exactly | among
      · cases op <;> simp [call, logs] at exactly silent
      · cases op <;> contradiction
    | _ => rfl
  exact run_changes ran quiet

theorem runOps_changes {ops : List BufferedOp} (silent : ∀ op ∈ ops, op.logs = false)
    (ran : runOps ctx replaced deleted i s ops = .ok s') :
    s'.writer.pendingSnapshotChanges = s.writer.pendingSnapshotChanges := by
  induction ops generalizing i s with
  | nil =>
    cases ran
    rfl
  | cons op rest ih =>
    obtain ⟨middle, applied, ran⟩ := runOps_cons.mp ran
    have first := apply_changes (silent op mem_cons_self) applied
    exact (ih (fun later member => silent later (mem_cons_of_mem _ member)) ran).trans first

theorem CatalogWriter.Tells.finish {w : CatalogWriter} (tells : w.Tells kind info) (id : Nat)
    (author message : Option String) :
    ∃ row, w.finishChanges id author message = some row ∧ row.changeType = kind ∧
      row.changeInfo = info := by
  obtain ⟨row, pending, sameKind, sameInfo, made⟩ := tells
  simp [finishChanges, pending, made, sameKind, sameInfo]

theorem executeCommit_changes {first rest : List BufferedOp} (valid : before.Valid)
    (named : (CatalogWriter.changeToken kind info).isEmpty = false)
    (silent : ∀ op ∈ first, op.logs = false)
    (done : executeCommit ctx (first ++ .insertSnapshotChanges kind info schemaId tableId :: rest) before = (after, .ok ())) :
    before.db.get .snapshotChanges (keySnapshotChanges before.store.counters.nextSnapshotId) = none ∧
      ∃ row, after.shows .snapshotChanges
          (keySnapshotChanges before.store.counters.nextSnapshotId) = some row ∧
        row.changeType = kind ∧ row.changeInfo = info := by
  have validAfter := executeCommit_valid valid done
  obtain ⟨s, ran, session, outcome⟩ := executeCommit_ok valid done
  have needs : s.needsSnapshot = true := by
    rw [runOps_needsSnapshot ran]
    simp [needsSnapshot]
  obtain ⟨middle, early, late⟩ := runOps_append ran
  have unset : middle.writer.pendingSnapshotChanges = none := runOps_changes silent early
  have tells : s.writer.Tells kind info := by
    simp only [runOps, apply, CommitState.staging, staging] at late
    refine Tells.keptByCalls.ofOps (fun _ tells => tells) ?_ late
    simp [Tells, addSnapshotChanges, unset, named]
  obtain ⟨row, finished, rows⟩ := tells.finish s.writer.snapshotId (s.request ctx).author
    (s.request ctx).message
  constructor
  · cases found : before.db.get .snapshotChanges
        (keySnapshotChanges before.store.counters.nextSnapshotId) with
    | none => rfl
    | some old =>
      obtain ⟨key, bound⟩ := (valid.consistent.sound _ _ _ found).keyed
      simp only [keySnapshotChanges, cons.injEq, and_true] at key
      omega
  · refine ⟨row, validAfter.shows_eq_some.mpr ⟨?_, rfl⟩, rows⟩
    rcases outcome with ⟨_, rfl⟩ | ⟨unneeded, _⟩
    · have member : (⟨.snapshotChanges, keySnapshotChanges s.writer.snapshotId, row⟩ : Write) ∈
          s.writer.commitTail (s.request ctx) := s.writer.commitTail_changes.mpr ⟨rfl, finished⟩
      rw [commitWrites, putAll_append, ← session.snapshot]
      rcases get_putAll (f := .snapshotChanges) (s.db.putAll s.writer.staged)
          (s.writer.commitTail (s.request ctx)) (keySnapshotChanges s.writer.snapshotId) with
        ⟨row', member', found⟩ | ⟨unstaged, _⟩
      · have same := (s.writer.commitTail_changes.mp member').2
        rw [finished] at same
        rw [some.inj same]
        exact found
      · exact absurd member (unstaged row)
    · rw [needs] at unneeded
      contradiction

end ChangeLog

namespace IdTable

def literalOp : IdTable → List (Option String) → BufferedOp
  | .schema => Executor.schemaOp []
  | .table => Executor.tableOp []
  | .column => Executor.columnOp []
  | .dataFile => Executor.dataFileOp []

/-- The row has the values given, apart from what the catalog decides itself: the identifier and the
snapshots. -/
def Carries (values : List (Option String)) : (t : IdTable) → t.family.Row → Prop
  | .schema, row => ∀ name ∈ literalString values 4, row.schemaName = name
  | .table, row =>
    (∀ schemaId ∈ literalU64 values 4, row.schemaId = schemaId) ∧
      (∀ name ∈ literalString values 5, row.tableName = name) ∧
      row.path = literalString values 6
  | .column, row =>
    (∀ tableId ∈ literalU64 values 3, row.tableId = tableId) ∧
      (∀ index ∈ literalU64 values 4, row.columnIndex = index) ∧
      (∀ name ∈ literalString values 5, row.columnName = name) ∧
      (∀ dataType ∈ literalString values 6, row.dataType = dataType) ∧
      row.initialDefault = literalString values 7 ∧ row.defaultValue = literalString values 8 ∧
      (∀ nullable ∈ literalBool values 9, row.isNullable = nullable) ∧
      row.parentColumn = literalU64 values 10 ∧
      row.defaultValueType = literalString values 11 ∧
      row.defaultValueDialect = literalString values 12
  | .dataFile, row =>
    (∀ tableId ∈ literalU64 values 1, row.tableId = tableId) ∧
      (∀ path ∈ literalString values 5, row.path = path) ∧
      (∀ format ∈ literalString values 7, row.fileFormat = format) ∧
      (∀ records ∈ literalU64 values 8, row.recordCount = records) ∧
      ∀ bytes ∈ literalU64 values 9, row.fileSizeBytes = bytes

theorem literalOp_inserts (t : IdTable) (values : List (Option String)) :
    t.inserts (t.literalOp values) = true := by
  cases t <;> rfl

theorem Inserts.carries {t : IdTable} {row : t.family.Row}
    (inserted : t.Inserts (t.literalOp values) row) : t.Carries values row := by
  cases t with
  | schema =>
    have name : row.schemaName = (literalString values 4).getD "" := inserted
    simp +contextual [Carries, name]
  | table =>
    obtain ⟨schemaId, name, path⟩ := inserted
    simp +contextual [Carries, schemaId, name, path]
  | column =>
    obtain ⟨tableId, name, dataType, index, nullable, default, initial, kind, dialect, parent⟩ :=
      inserted
    simp +contextual [Carries, tableId, name, dataType, index, nullable, default, initial, kind,
      dialect, parent]
  | dataFile =>
    obtain ⟨tableId, path, format, records, bytes⟩ := inserted
    simp +contextual [Carries, tableId, path, format, records, bytes]

end IdTable

/-- Tables for which the literal rows of an insert are read. -/
inductive LiteralTable where
  | numbered (t : IdTable)
  | keyed (t : KeyedTable)
  | snapshotChanges

namespace LiteralTable

def metadata : LiteralTable → MetadataTable
  | .numbered t => t.metadata
  | .keyed t => t.metadata
  | .snapshotChanges => .snapshotChanges

def family : LiteralTable → Family
  | .numbered t => t.family
  | .keyed t => t.family
  | .snapshotChanges => .snapshotChanges

/-- Tables for which every literal row is read, not the first one only. -/
def rowWise : LiteralTable → Bool
  | .numbered .column | .keyed .schemaVersions | .keyed .inlinedDataTables
  | .keyed .tableColumnStats => true
  | _ => false

def op : LiteralTable → List (Option String) → BufferedOp
  | .numbered t => t.literalOp
  | .keyed t => t.op
  | .snapshotChanges => Executor.snapshotChangesOp []

def Carries (values : List (Option String)) : (t : LiteralTable) → t.family.Row → Prop
  | .numbered t, row => t.Carries values row
  | .keyed t, row => t.Carries values row
  | .snapshotChanges, row =>
    (∀ kind ∈ literalString values 1, row.changeType = kind) ∧
      row.changeInfo = literalString values 4

/-- The rows are new. Under the key of a row given by its values there is nothing yet, and no other
row or operation of the transaction goes there. A change must say something and be the first of
its transaction. -/
def Unclaimed (before : Catalog) (earlier later : List BufferedOp)
    (rows : List (List (Option String))) : LiteralTable → Prop
  | .numbered _ => True
  | .keyed t =>
    (rows.map t.key).Nodup ∧ ∀ values ∈ rows, before.db.get t.family (t.key values) = none ∧
      ∀ op ∈ earlier ++ later, op.slot ≠ some (t.family, t.key values)
  | .snapshotChanges =>
    (∀ op ∈ earlier, op.logs = false) ∧ ∀ values ∈ rows,
      (CatalogWriter.changeToken ((literalString values 1).getD "")
        (literalString values 4)).isEmpty = false

theorem insertOps_eq (t : LiteralTable) (sql : List Char) :
    Executor.insertOps t.metadata sql [] =
      if t.rowWise then Executor.perRow (fun _ => t.op) [] (literalInsertRows sql)
      else [t.op (literalInsertValues sql)] := by
  cases t with
  | numbered t => cases t <;> rfl
  | keyed t => cases t <;> rfl
  | snapshotChanges => rfl

theorem insertOps_literal {t : LiteralTable} (given : rows ≠ [])
    (nonempty : ∀ cells ∈ rows, cells ≠ []) (fits : t.rowWise = true ∨ rows.length = 1) :
    Executor.insertOps t.metadata (insertSql t.metadata rows) [] =
      (rows.map (·.map Cell.value)).map t.op := by
  have read := literalInsertRows_insertSql t.metadata nonempty
  rw [insertOps_eq]
  split
  · have unparameterized : (ParamValues.u64? [] 0).isSome = false := rfl
    simp [Executor.perRow, read, unparameterized, given]
  · rename_i first
    obtain ⟨cells, rfl⟩ := length_eq_one_iff.mp (fits.resolve_left first)
    simp [literalInsertValues, read]

/-- One row of an insert: it is not in the store before, and afterwards the latest snapshot shows it
with the values given. -/
def Created (t : LiteralTable) (before after : Catalog) (values : List (Option String)) (k : Key) :
    Prop :=
  before.db.get t.family k = none ∧
    ∃ row, after.shows t.family k = some row ∧ t.Carries values row

def Persisted (t : LiteralTable) (before after : Catalog) (rows : List (List (Option String))) :
    Prop :=
  ∃ key : Fin rows.length → Key, key.Injective ∧ ∀ i, t.Created before after (rows.get i) (key i)

section Commit

variable {ctx : CommitContext} {before after : Catalog} {earlier later : List BufferedOp}
  {rows : List (List (Option String))}

theorem rows_split (i : Fin rows.length) :
    rows = rows.take i ++ rows.get i :: rows.drop (i + 1) := by
  rw [get_eq_getElem, ← drop_eq_getElem_cons, take_append_drop]

theorem ops_split (op : List (Option String) → BufferedOp) (earlier later : List BufferedOp)
    (i : Fin rows.length) :
    earlier ++ (rows.map op ++ later) = (earlier ++ (rows.take i).map op) ++
      op (rows.get i) :: ((rows.drop (i + 1)).map op ++ later) := by
  conv_lhs => rw [rows_split i]
  simp only [map_append, map_cons, append_assoc, cons_append]

theorem numbered_persisted {t : IdTable} (valid : before.Valid)
    (done : executeCommit ctx (earlier ++ (rows.map t.literalOp ++ later)) before =
      (after, .ok ())) : (numbered t).Persisted before after rows := by
  have each : ∀ i : Fin rows.length, ∃ k row, before.db.get t.family k = none ∧
      after.shows t.family k = some row ∧ t.Carries (rows.get i) row ∧
      t.idOf row = t.counter before.store.counters + (earlier.map t.taken).sum + i := by
    intro i
    rw [ops_split] at done
    obtain ⟨k, row, absent, shown, inserted, id⟩ :=
      executeCommit_created valid (t.literalOp_inserts (rows.get i)) done
    refine ⟨k, row, absent, shown, inserted.carries, ?_⟩
    have one : t.taken ∘ t.literalOp = fun _ => 1 :=
      funext fun values => IdTable.taken_of_inserts (t.literalOp_inserts values)
    rw [id, map_append, sum_append, List.map_map, one]
    simp [Nat.add_assoc]
  choose key row absent shown carries id using each
  refine ⟨key, fun i j same => ?_, fun i => ⟨absent i, row i, shown i, carries i⟩⟩
  -- one key shows one row, and the identifiers of the rows differ
  have rows := (shown i).symm.trans (same ▸ shown j)
  have ids := id i
  rw [some.inj rows, id j] at ids
  exact Fin.ext (Nat.add_left_cancel ids).symm

theorem keyed_persisted (valid : before.Valid)
    (unclaimed : (keyed t).Unclaimed before earlier later rows)
    (done : executeCommit ctx (earlier ++ (rows.map t.op ++ later)) before = (after, .ok ())) :
    (keyed t).Persisted before after rows := by
  obtain ⟨distinct, free⟩ := unclaimed
  refine ⟨fun i => t.key (rows.get i), fun i j same => ?_, fun i => ?_⟩
  · have keys : (rows.map t.key)[i] = (rows.map t.key)[j] := by simpa using same
    exact Fin.ext (distinct.getElem_inj_iff.mp keys)
  · obtain ⟨absent, others⟩ := free (rows.get i) (get_mem rows i)
    have apart : ∀ values ∈ rows.take i ++ rows.drop (i + 1), t.key values ≠ t.key (rows.get i) := by
      rw [rows_split i, map_append, map_cons, nodup_middle, nodup_cons, ← map_append] at distinct
      exact fun values member same => distinct.1 (same ▸ mem_map_of_mem member)
    have besides : ∀ values ∈ rows.take i ++ rows.drop (i + 1),
        (t.op values).slot ≠ some (t.family, t.key (rows.get i)) := by
      intro values member same
      rw [t.op_slot] at same
      exact apart values member (congrArg Prod.snd (some.inj same))
    rw [ops_split] at done
    refine ⟨absent, _, executeCommit_keyed valid absent (fun op member => ?_) done, t.row_carries _⟩
    simp only [mem_append, List.mem_map] at member others besides
    rcases member with (early | ⟨values, among, rfl⟩) | ⟨values, among, rfl⟩ | late
    · exact others op (.inl early)
    · exact besides values (.inl among)
    · exact besides values (.inr among)
    · exact others op (.inr late)

theorem changes_persisted (valid : before.Valid) (single : rows.length = 1)
    (unclaimed : snapshotChanges.Unclaimed before earlier later rows)
    (done : executeCommit ctx (earlier ++ (rows.map snapshotChanges.op ++ later)) before =
      (after, .ok ())) : snapshotChanges.Persisted before after rows := by
  obtain ⟨values, rfl⟩ := length_eq_one_iff.mp single
  obtain ⟨silent, named⟩ := unclaimed
  obtain ⟨absent, row, shown, kind, info⟩ :=
    executeCommit_changes valid (named values mem_cons_self) silent done
  refine ⟨fun _ => _, fun i j _ => Fin.subsingleton_one.elim i j, fun i => ⟨absent, row, shown, ?_⟩⟩
  have here : [values].get i = values := by simp
  rw [here]
  exact ⟨fun given same => by rw [kind, mem_def.mp same]; rfl, info⟩

end Commit

/-- Every literal row of an acknowledged insert is stored. -/
theorem insert_persists {E : Type} {parse : SqlParser E} {env : Env} {t : LiteralTable}
    {rows : List (List Cell)} {earlier later : List BufferedOp} {before after : Catalog}
    (reachable : before.Reachable env) (given : rows ≠ []) (nonempty : ∀ cells ∈ rows, cells ≠ [])
    (fits : t.rowWise = true ∨ rows.length = 1)
    (classified : classifyStatement parse (insertSql t.metadata rows) = .ok (.insert t.metadata))
    (acknowledged : Executor.Acknowledged parse (insertSql t.metadata rows) [] earlier later before
      after)
    (unclaimed : t.Unclaimed before earlier later (rows.map (·.map Cell.value))) :
    t.Persisted before after (rows.map (·.map Cell.value)) := by
  obtain ⟨ctx, done⟩ := acknowledged.commits classified rfl
  rw [insertOps_literal given nonempty fits] at done
  cases t with
  | numbered t => exact numbered_persisted reachable.valid done
  | keyed t => exact keyed_persisted reachable.valid unclaimed done
  | snapshotChanges =>
    have single : (rows.map (·.map Cell.value)).length = 1 := by simpa [rowWise] using fits
    exact changes_persisted reachable.valid single unclaimed done

def twoVersions : List (List Cell) :=
  [[.text "1", .text "1", .text "1"], [.text "1", .text "1", .text "2"]]

theorem twoVersions_kind : classifyStatement (Executor.insertParser "ducklake_schema_versions")
    (insertSql .schemaVersions twoVersions) = .ok (.insert .schemaVersions) := by
  decide +kernel

theorem insert_persists_versions : ∃ before after, before.Reachable Env.trivial ∧
    Executor.Acknowledged (Executor.insertParser "ducklake_schema_versions")
      (insertSql .schemaVersions twoVersions) [] [] [] before after ∧
    (keyed .schemaVersions).Persisted before after (twoVersions.map (·.map Cell.value)) := by
  have reachable : Catalog.Reachable Env.trivial _ := .opened "a" rfl
  refine ⟨_, _, reachable, (fun acknowledged => ⟨acknowledged, ?_⟩)
    (.ofClassified ExecContext.trivial (.insert .schemaVersions) twoVersions_kind rfl rfl)⟩
  refine insert_persists (t := keyed .schemaVersions) reachable (by decide) ?_ (.inl rfl)
    twoVersions_kind acknowledged ⟨by decide +kernel, fun values _ => ⟨rfl, by simp⟩⟩
  simp [twoVersions]

def twoSchemas : List (List Cell) :=
  [[.text "7", .null, .text "1", .null, .text "main"],
   [.text "8", .null, .text "1", .null, .text "other"]]

/-- The catalog numbers the first schema itself, and the second one is not read. -/
theorem insert_stores_first_only : ∃ before after, before.Reachable Env.trivial ∧
    Executor.Acknowledged (Executor.insertParser "ducklake_schema") (insertSql .schema twoSchemas)
      [] [] [] before after ∧
    before.db.scanPrefix .schema [] = [] ∧
    (after.db.scanPrefix .schema []).map (fun e => (e.2.schemaId, e.2.schemaName)) =
      [(1, "main")] := by
  refine ⟨_, _, .opened "a" rfl,
    .ofClassified ExecContext.trivial (.insert .schema) (by decide +kernel) rfl rfl, ?_, ?_⟩
  · decide +kernel
  · decide +kernel

end LiteralTable

end RockLake
