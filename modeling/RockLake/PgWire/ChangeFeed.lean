import RockLake.Catalog.Retirement
import RockLake.PgWire.TableChanges

/-! Does the change feed rebuild a table? A consumer that has the rows of a table at one snapshot
applies the records it gets up to another snapshot, row by row identifier. The feed numbers rows from
zero through the files that were added, and from zero again through those that were retired, for all
tables together; what a table holds is numbered from where each file's identifiers start, less what
delete files and delete markers take out, with the inlined rows. The two meet only if the numbers
happen to coincide. -/
namespace RockLake

def numberedFrom (base : Nat) (rows : List String) : List ParquetRowData :=
  (rows.zipIdx base).map fun row => ⟨row.2, row.1⟩

theorem numberedFrom_distinct (base : Nat) (rows : List String) :
    DistinctIds (numberedFrom base rows) := by
  have ids : (numberedFrom base rows).map (·.rowid) = List.range' base rows.length := by
    rw [numberedFrom, List.map_map, ← List.zipIdx_map_snd]
    rfl
  rw [DistinctIds, ids]
  exact List.nodup_range'

/-- What the object store holds, as the readers of its files give it. -/
structure LakeFiles where
  /-- the rows of a data file, as JSON, in order -/
  rows : String → List String
  /-- the positions in its data file that a delete file takes out -/
  deletedPositions : String → List Nat
  /-- the number by which delete markers name the row of a file at a position -/
  markedAs : DataFileRow → Nat → Nat
  /-- an inlined row as JSON -/
  inlinedRow : List UInt8 → String

namespace LakeFiles

variable (lake : LakeFiles)

def extract : ExtractRows := fun path baseRowid _ => .ok (numberedFrom baseRowid (lake.rows path))

/-- A delete file or a delete marker takes the row at this position out. -/
def deleted (r : CatalogReader) (tableId : Nat) (file : DataFileRow) (position : Nat) : Bool :=
  (r.listDeleteFiles tableId).any (fun deletes =>
    deletes.dataFileId = file.dataFileId && (lake.deletedPositions deletes.path).contains position) ||
  (r.listInlinedDeletes tableId).any fun marker =>
    marker.dataFileId = file.dataFileId && marker.rowId = lake.markedAs file position

/-- The rows of a file that are left, under their stable identifiers. -/
def fileRows (r : CatalogReader) (tableId : Nat) (file : DataFileRow) : List ParquetRowData :=
  ((lake.rows file.path).zipIdx.filter fun row => !lake.deleted r tableId file row.2).map
    fun row => ⟨file.rowIdStart.getD 0 + row.2, row.1⟩

def tableRows (r : CatalogReader) (tableId : Nat) : List ParquetRowData :=
  (r.listDataFiles tableId).flatMap (lake.fileRows r tableId) ++
    (r.listInlinedInserts tableId).map fun row => ⟨row.rowId, lake.inlinedRow row.payload⟩

/-- The feed's rows of some files, numbered from zero through all of them. -/
def feedRows (files : List DataFileRow) : List ParquetRowData :=
  numberedFrom 0 (files.flatMap fun file => lake.rows file.path)

section Feed

variable (db : Db) (tableId startSnapshot endSnapshot : Nat)

def HasRow (row : ParquetRowData) : Prop :=
  ∃ snapshot, startSnapshot ≤ snapshot ∧ snapshot ≤ endSnapshot ∧
    row ∈ lake.tableRows ⟨db, snapshot⟩ tableId

/-- Applied to the rows at the first snapshot the records give those at the last one, and every
record shows a row of the table. -/
structure Reconstructs (records : List ChangeRecord) : Prop where
  rows : applyChanges (lake.tableRows ⟨db, startSnapshot⟩ tableId) records =
    rowsInOrder (rowsById (lake.tableRows ⟨db, endSnapshot⟩ tableId))
  owned : ∀ record ∈ records, ∃ rowid, record.rowid = some rowid ∧
    lake.HasRow db tableId startSnapshot endSnapshot ⟨rowid, record.columnsJson⟩

def addedRows : List ParquetRowData :=
  lake.feedRows ((CatalogReader.mk db startSnapshot).addedBetween .dataFile startSnapshot endSnapshot)

def retiredRows : List ParquetRowData :=
  lake.feedRows ((CatalogReader.mk db startSnapshot).retiredBetween .dataFile startSnapshot endSnapshot)

/-- The feed's numbers are the table's own identifiers: its added rows are rows of the table at the
end, its retired rows were rows of the table and are gone unless they were added again, and no other
row changed. -/
structure Aligned : Prop where
  added : ∀ row ∈ lake.addedRows db startSnapshot endSnapshot,
    (rowsById (lake.tableRows ⟨db, endSnapshot⟩ tableId)).get row.rowid = some row
  retired : ∀ row ∈ lake.retiredRows db startSnapshot endSnapshot,
    lake.HasRow db tableId startSnapshot endSnapshot row
  gone : ∀ row ∈ lake.retiredRows db startSnapshot endSnapshot,
    (∀ new ∈ lake.addedRows db startSnapshot endSnapshot, new.rowid ≠ row.rowid) →
    (rowsById (lake.tableRows ⟨db, endSnapshot⟩ tableId)).get row.rowid = none
  kept : ∀ rowid, (∀ new ∈ lake.addedRows db startSnapshot endSnapshot, new.rowid ≠ rowid) →
    (∀ old ∈ lake.retiredRows db startSnapshot endSnapshot, old.rowid ≠ rowid) →
    (rowsById (lake.tableRows ⟨db, endSnapshot⟩ tableId)).get rowid =
      (rowsById (lake.tableRows ⟨db, startSnapshot⟩ tableId)).get rowid

end Feed

variable {lake}

theorem extractFiles_extract (base : Nat) (files : List DataFileRow) :
    extractFiles lake.extract base files =
      .ok (numberedFrom base (files.flatMap fun file => lake.rows file.path)) := by
  induction files generalizing base with
  | nil => rfl
  | cons file rest ih =>
    have length : (numberedFrom base (lake.rows file.path)).length = (lake.rows file.path).length := by
      simp [numberedFrom]
    simp only [extractFiles, extract, Except.mapError, bind, Except.bind, ih, length]
    simp [numberedFrom, List.zipIdx_append]

variable {db : Db} {tableId startSnapshot endSnapshot : Nat} {records : List ChangeRecord}

section Records

variable (changes : ∀ change, change ∈ records ↔
  ChangeOf (lake.addedRows db startSnapshot endSnapshot)
    (lake.retiredRows db startSnapshot endSnapshot) change)

include changes

theorem owned_iff : (∀ record ∈ records, ∃ rowid, record.rowid = some rowid ∧
      lake.HasRow db tableId startSnapshot endSnapshot ⟨rowid, record.columnsJson⟩) ↔
    (∀ row ∈ lake.addedRows db startSnapshot endSnapshot,
      lake.HasRow db tableId startSnapshot endSnapshot row) ∧
    ∀ row ∈ lake.retiredRows db startSnapshot endSnapshot,
      lake.HasRow db tableId startSnapshot endSnapshot row := by
  constructor
  · intro owned
    -- Each row shows up in a record, paired with another one or alone.
    have shown : ∀ row changeType,
        ChangeOf (lake.addedRows db startSnapshot endSnapshot)
          (lake.retiredRows db startSnapshot endSnapshot)
          ⟨some row.rowid, changeType, row.columnsJson⟩ →
        lake.HasRow db tableId startSnapshot endSnapshot row := by
      intro row changeType change
      obtain ⟨rowid, same, has⟩ := owned _ ((changes _).mpr change)
      cases same
      exact has
    refine ⟨fun row member => ?_, fun row member => ?_⟩
    · by_cases paired : ∃ old ∈ lake.retiredRows db startSnapshot endSnapshot, old.rowid = row.rowid
      · obtain ⟨old, oldMember, same⟩ := paired
        exact shown row _ (.postimage member oldMember same)
      · exact shown row _ (.insert member fun old oldMember same => paired ⟨old, oldMember, same⟩)
    · by_cases paired : ∃ new ∈ lake.addedRows db startSnapshot endSnapshot, new.rowid = row.rowid
      · obtain ⟨new, newMember, same⟩ := paired
        exact shown row _ (.preimage member newMember same)
      · exact shown row _ (.delete member fun new newMember same => paired ⟨new, newMember, same⟩)
  · rintro ⟨added, retired⟩ record member
    cases (changes record).mp member with
    | preimage old => exact ⟨_, rfl, retired _ old⟩
    | postimage new => exact ⟨_, rfl, added _ new⟩
    | insert new => exact ⟨_, rfl, added _ new⟩
    | delete old => exact ⟨_, rfl, retired _ old⟩

theorem reconstructs_iff (ordered : startSnapshot ≤ endSnapshot) :
    lake.Reconstructs db tableId startSnapshot endSnapshot records ↔
      lake.Aligned db tableId startSnapshot endSnapshot := by
  have distinct : DistinctIds (lake.addedRows db startSnapshot endSnapshot) :=
    numberedFrom_distinct _ _
  constructor
  · rintro ⟨rows, owned⟩
    have states := applyChanges_eq_iff.mp rows
    refine ⟨fun row member => ?_, ((owned_iff changes).mp owned).2, fun row member single => ?_,
      fun rowid notAdded notRetired => ?_⟩
    · rw [← states]
      exact get_applied_added changes distinct member
    · rw [← states]
      exact get_applied_removed changes member single
    · rw [← states]
      exact get_applied_other changes notAdded notRetired
  · intro aligned
    refine ⟨applyChanges_eq_iff.mpr (OrderedMap.ext_get fun rowid => ?_), (owned_iff changes).mpr
      ⟨fun row member => ?_, aligned.retired⟩⟩
    · by_cases new : ∃ row ∈ lake.addedRows db startSnapshot endSnapshot, row.rowid = rowid
      · obtain ⟨row, member, rfl⟩ := new
        rw [get_applied_added changes distinct member, aligned.added row member]
      · have notAdded : ∀ row ∈ lake.addedRows db startSnapshot endSnapshot, row.rowid ≠ rowid :=
          fun row member same => new ⟨row, member, same⟩
        by_cases old : ∃ row ∈ lake.retiredRows db startSnapshot endSnapshot, row.rowid = rowid
        · obtain ⟨row, member, rfl⟩ := old
          rw [get_applied_removed changes member notAdded, aligned.gone row member notAdded]
        · have notRetired : ∀ row ∈ lake.retiredRows db startSnapshot endSnapshot, row.rowid ≠ rowid :=
            fun row member same => old ⟨row, member, same⟩
          rw [get_applied_other changes notAdded notRetired, aligned.kept rowid notAdded notRetired]
    · exact ⟨endSnapshot, ordered, le_rfl, mem_of_get_rowsById (aligned.added row member)⟩

end Records

/-- Loading an empty table is reported right when nothing else happened to any table. -/
theorem Aligned.of_load (empty : lake.tableRows ⟨db, startSnapshot⟩ tableId = [])
    (loaded : lake.tableRows ⟨db, endSnapshot⟩ tableId = lake.addedRows db startSnapshot endSnapshot)
    (retired : lake.retiredRows db startSnapshot endSnapshot = []) :
    lake.Aligned db tableId startSnapshot endSnapshot := by
  refine ⟨fun row member => ?_, ?_, ?_, fun rowid notAdded _ => ?_⟩
  · rw [loaded]
    exact get_rowsById (numberedFrom_distinct 0 _) member
  · simp [retired]
  · simp [retired]
  · rw [loaded, empty]
    refine Option.eq_none_iff_forall_ne_some.mpr fun row found => ?_
    exact notAdded row (mem_of_get_rowsById found) (rowsById_stored _ rowid row found)

end LakeFiles

namespace Catalog

variable {env : Env} {catalog : Catalog}

theorem executeTableChanges_ok (lake : LakeFiles)
    (complete : ∀ ids : List Nat, (hashOrder ids).Perm ids) (tableRef : String)
    (stored : readRetainFrom catalog.db ≤ startSnapshot)
    (cached : catalog.store.retainFromCache ≤ startSnapshot) :
    ∃ records, executeTableChanges lake.extract hashOrder catalog tableRef startSnapshot endSnapshot =
        .ok ⟨tableRef, startSnapshot, endSnapshot, records⟩ ∧
      ∀ change, change ∈ records ↔
        ChangeOf (lake.addedRows catalog.db startSnapshot endSnapshot)
          (lake.retiredRows catalog.db startSnapshot endSnapshot) change := by
  have added : DistinctIds (lake.addedRows catalog.db startSnapshot endSnapshot) :=
    numberedFrom_distinct 0 _
  have retired : DistinctIds (lake.retiredRows catalog.db startSnapshot endSnapshot) :=
    numberedFrom_distinct 0 _
  obtain ⟨records, computed, changes⟩ := computeTableChanges_ok complete added retired tableRef stored
  refine ⟨records, ?_, changes⟩
  have here : catalog.store.readAt catalog.db startSnapshot = .ok ⟨catalog.db, startSnapshot⟩ := by
    simp [CatalogStore.readAt, Nat.not_lt.mpr cached]
  simp only [executeTableChanges, Nat.not_lt.mpr stored, false_and, if_false, here,
    LakeFiles.extractFiles_extract, bind, Except.bind, CatalogReader.snapshotDiff]
  exact congrArg (Except.mapError _) computed

/-- The feed of a retained range rebuilds a table exactly if its numbering coincides with the
table's row identifiers. -/
theorem tableChanges_reconstruct_iff (lake : LakeFiles) {hashOrder : List Nat → List Nat}
    (complete : ∀ ids : List Nat, (hashOrder ids).Perm ids) (maintained : catalog.Maintained env)
    (tableRef : String) (tableId : Nat) {startSnapshot endSnapshot : Nat}
    (ordered : startSnapshot ≤ endSnapshot) (retained : readRetainFrom catalog.db ≤ startSnapshot) :
    ∃ result, executeTableChanges lake.extract hashOrder catalog tableRef startSnapshot endSnapshot =
        .ok result ∧
      (lake.Reconstructs catalog.db tableId startSnapshot endSnapshot result.records ↔
        lake.Aligned catalog.db tableId startSnapshot endSnapshot) := by
  have cached := maintained.tended.cached.trans retained
  obtain ⟨records, answered, changes⟩ := executeTableChanges_ok lake complete tableRef retained cached
  exact ⟨_, answered, LakeFiles.reconstructs_iff changes ordered⟩

def twoRows : LakeFiles where
  rows path := if path = "1.parquet" then ["1st", "2nd"] else []
  deletedPositions _ := []
  markedAs _ position := position
  inlinedRow _ := ""

theorem tableChanges_reconstruct_load : ∃ (catalog : Catalog) (result : TableChangesResult),
    catalog.Maintained Env.trivial ∧ catalog.store.latestSnapshot = 2 ∧
    readRetainFrom catalog.db = 0 ∧
    executeTableChanges twoRows.extract id catalog "main.orders" 1 2 = .ok result ∧
    result.records = [⟨some 0, .insert, "1st"⟩, ⟨some 1, .insert, "2nd"⟩] ∧
    twoRows.Reconstructs catalog.db 2 1 2 result.records := by
  have maintained : Catalog.Maintained Env.trivial _ :=
    .session (.session (.opened "a" rfl) createOrders rfl) ⟨[.staging (.registerDataFile 2
      (.parquet "1.parquet" 2 64))], {}⟩ rfl
  have ordered : 1 ≤ 2 := by decide
  obtain ⟨result, answered, rebuilt⟩ := tableChanges_reconstruct_iff twoRows (fun _ => .refl _)
    maintained "main.orders" 2 ordered (Nat.zero_le 1)
  refine ⟨_, result, maintained, rfl, rfl, answered, ?_, rebuilt.mpr (.of_load ?_ ?_ ?_)⟩
  · have records := congrArg (Except.map TableChangesResult.records) answered
    exact Except.ok.inj (records.symm.trans (by decide +kernel))
  all_goals decide +kernel

/-- The rows of a file of the table `items` are given out as changes of the empty table `orders`. -/
theorem tableChanges_other_table : ∃ (catalog : Catalog) (result : TableChangesResult),
    catalog.Maintained Env.trivial ∧ catalog.store.latestSnapshot = 2 ∧
    readRetainFrom catalog.db = 0 ∧
    (((CatalogReader.mk catalog.db 2).listTables 1).map fun table => (table.tableId, table.tableName)) =
      [(2, "orders"), (3, "items")] ∧
    (CatalogReader.mk catalog.db 2).listDataFiles 2 = [] ∧
    executeTableChanges twoRows.extract id catalog "main.orders" 1 2 = .ok result ∧
    result.records = [⟨some 0, .insert, "1st"⟩, ⟨some 1, .insert, "2nd"⟩] ∧
    twoRows.tableRows ⟨catalog.db, 1⟩ 2 = [] ∧ twoRows.tableRows ⟨catalog.db, 2⟩ 2 = [] ∧
    ¬ twoRows.Reconstructs catalog.db 2 1 2 result.records := by
  refine ⟨_, _, .session (.session (.opened "a" rfl) createOrders rfl) ⟨[.staging (.createTable 1
    "items" none "6d3f"), .staging (.registerDataFile 3 ⟨"1.parquet", "parquet", 2, 64, none, none,
    none, none, none⟩)], {}⟩ rfl, rfl, rfl, rfl, ?_, rfl, rfl,
    ?_, ?_, fun rebuilt => absurd rebuilt.rows ?_⟩ <;> decide +kernel

end Catalog

end RockLake
