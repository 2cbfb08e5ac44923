import RockLake.Catalog.Immutability

/-! The reads of the client library, each with a snapshot as its argument. The argument goes to the
store as it is, so zero is the snapshot before the first commit and not the latest one. -/
namespace RockLake

open CatalogReader

namespace Client

structure Schema where
  schemaId : Nat
  schemaName : String

structure Table where
  tableId : Nat
  schemaId : Nat
  tableName : String

structure Column where
  columnId : Nat
  tableId : Nat
  columnName : String
  dataType : String
  columnIndex : Nat
  isNullable : Bool

structure DataFile where
  dataFileId : Nat
  tableId : Nat
  path : String
  fileFormat : String
  rowCount : Nat
  fileSizeBytes : Nat
  snapshotId : Nat

inductive Read where
  | listSchemas
  | listTables (schemaId : Nat)
  | getTable (tableId : Nat)
  | listDataFiles (tableId : Nat)

end Client

namespace Client.Read

abbrev Answer : Read → Type
  | .listSchemas => List Schema
  | .listTables _ => List Table
  | .getTable _ => Option (List Column)
  | .listDataFiles _ => List DataFile

def nothing : (read : Read) → read.Answer
  | .listSchemas | .listTables _ | .listDataFiles _ => []
  | .getTable _ => none

variable (hashOrder : List Nat → List Nat)

def rows (reader : CatalogReader) : (read : Read) → read.Answer
  | .listSchemas => reader.listSchemas.map fun r => ⟨r.schemaId, r.schemaName⟩
  | .listTables schemaId =>
    (reader.listTables schemaId).map fun r => ⟨r.tableId, r.schemaId, r.tableName⟩
  | .getTable tableId => (reader.describeTable hashOrder tableId).map fun (_, cols) =>
    cols.map fun c =>
      ⟨c.columnId, c.tableId, c.columnName, c.dataType, c.columnIndex, c.isNullable⟩
  | .listDataFiles tableId => (reader.listDataFiles tableId).map fun f =>
    ⟨f.dataFileId, f.tableId, f.path, f.fileFormat, f.recordCount, f.fileSizeBytes,
      f.beginSnapshot.getD 0⟩

def ask (catalog : Catalog) (read : Read) (snapshotId : Nat) : Except CatalogError read.Answer :=
  (catalog.store.readAt catalog.db snapshotId).map fun reader => read.rows hashOrder reader

/-- Nothing begins before the first commit. -/
theorem rows_zero {catalog : Catalog} (valid : catalog.Valid) (read : Read) :
    read.rows hashOrder ⟨catalog.db, 0⟩ = read.nothing := by
  have unseen : ∀ (f : Family) (start : Key), f.versioned = true →
      listVisible ⟨catalog.db, 0⟩ f start = [] := by
    intro f start versioned
    refine List.eq_nil_iff_forall_not_mem.mpr fun row listed => ?_
    obtain ⟨k, stored, _, visible⟩ := (mem_listVisible _).mp listed
    have begun := valid.started f k row versioned stored
    simp [isVisible, begun] at visible
  cases read with
  | listSchemas => simp [rows, nothing, CatalogReader.listSchemas, unseen .schema _ rfl]
  | listTables => simp [rows, nothing, CatalogReader.listTables, unseen .table _ rfl]
  | getTable tableId =>
    have absent : findTable ⟨catalog.db, 0⟩ tableId = none := by
      rw [findTable]
      split <;> simp [unseen .table _ rfl, newest]
    simp [rows, nothing, describeTable, absent]
  | listDataFiles tableId =>
    have index := @CatalogReader.listDataFiles_eq ⟨catalog.db, 0⟩ _ valid.consistent.sound tableId
    simp [rows, nothing, index, unseen .dataFileBySnapshot _ rfl, sortByKey]

/-- A read at a snapshot that is not below the floor gives the rows of that snapshot. With zero for
the snapshot it gives those of the latest one exactly if nothing is below the floor and both have the
same rows. Without maintenance there is no floor and snapshot zero has no rows, so that zero gives the
latest rows exactly if there are none. -/
theorem ask_iff (env : Env) (catalog : Catalog) (read : Read) :
    let latest := read.rows hashOrder (catalog.store.readLatest catalog.db)
    (∀ snapshotId, catalog.store.retainFromCache ≤ snapshotId →
      read.ask hashOrder catalog snapshotId = .ok (read.rows hashOrder ⟨catalog.db, snapshotId⟩)) ∧
    (read.ask hashOrder catalog 0 = .ok latest ↔
      catalog.store.retainFromCache = 0 ∧ read.rows hashOrder ⟨catalog.db, 0⟩ = latest) ∧
    (catalog.Reachable env → catalog.store.retainFromCache = 0 ∧
      read.rows hashOrder ⟨catalog.db, 0⟩ = read.nothing ∧
      (read.ask hashOrder catalog 0 = .ok latest ↔ latest = read.nothing)) := by
  intro latest
  have kept : ∀ snapshotId, catalog.store.retainFromCache ≤ snapshotId →
      read.ask hashOrder catalog snapshotId =
        .ok (read.rows hashOrder ⟨catalog.db, snapshotId⟩) := by
    intro snapshotId above
    simp [ask, CatalogStore.readAt, Nat.not_lt.mpr above, Except.map]
  have zero : read.ask hashOrder catalog 0 = .ok latest ↔
      catalog.store.retainFromCache = 0 ∧ read.rows hashOrder ⟨catalog.db, 0⟩ = latest := by
    by_cases floor : catalog.store.retainFromCache = 0
    · rw [kept 0 floor.le, Except.ok.injEq, and_iff_right floor]
    · simp [ask, CatalogStore.readAt, Nat.pos_of_ne_zero floor, floor, Except.map]
  refine ⟨kept, zero, fun reachable => ?_⟩
  have floor := reachable.valid.cached
  have none := rows_zero hashOrder reachable.valid read
  rw [zero, none]
  exact ⟨floor, rfl, fun same => same.2.symm, fun same => ⟨floor, same.symm⟩⟩

/-- The schema of the only commit is listed at snapshot one, but not at snapshot zero. -/
theorem ask_zero_misses : ∃ catalog : Catalog, catalog.Reachable Env.trivial ∧
    catalog.store.latestSnapshot = 1 ∧
    (Read.listSchemas.ask id catalog 1).map List.length = .ok 1 ∧
    (Read.listSchemas.ask id catalog 0).map List.length = .ok 0 :=
  ⟨_, .session (.opened "a" rfl) ⟨[.staging (.createSchema "main" "4b1d")], {}⟩ rfl, rfl, rfl, rfl⟩

end Client.Read

end RockLake
