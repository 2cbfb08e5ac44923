import RockLake.Catalog.History
import RockLake.Catalog.Reads

/-! Reads through an index against the rows they stand for. The snapshot index holds a copy of every
data-file row, so its range scan finds the rows of a table that a snapshot shows. The table index
names the schema of every table there has been, so the narrow scan it leads to finds the same row as
a scan of all tables. -/
namespace RockLake

open List

/-- Every entry of the snapshot index stands under the key of its row. -/
def Db.IndexKeyed (db : Db) : Prop :=
  ∀ k row, db.get .dataFileBySnapshot k = some row → k = row.indexKey

theorem Db.Sound.indexKeyed (sound : Db.Sound db c) : db.IndexKeyed :=
  fun k row found => (sound .dataFileBySnapshot k row found).keyed.1

namespace CatalogReader

variable {r : CatalogReader}

theorem mem_listDataFiles (keyed : r.db.IndexKeyed) (mirrored : r.db.Mirrored) :
    row ∈ r.listDataFiles tableId ↔ ∃ k, r.db.get .dataFile k = some row ∧ row.tableId = tableId ∧
      row.beginSnapshot.getD 0 ≤ r.snapshot ∧
      ∀ ended, row.endSnapshot = some ended → r.snapshot < ended := by
  have visible : isVisible (row.beginSnapshot.getD 0) row.endSnapshot r.snapshot = true ↔
      row.beginSnapshot.getD 0 ≤ r.snapshot ∧
        ∀ ended, row.endSnapshot = some ended → r.snapshot < ended := by
    cases row.endSnapshot <;> simp [isVisible]
  rw [listDataFiles_ofIndex keyed, sortByKey, mem_insertionSort, mem_listVisible]
  constructor
  · rintro ⟨k, found, starts, shown⟩
    rw [keyed k row found] at starts
    exact ⟨row.fileKey, mirrored.stored k row found, (cons_prefix_cons.mp starts).1.symm,
      visible.mp shown⟩
  · rintro ⟨k, found, rfl, shown⟩
    exact ⟨row.indexKey, mirrored.indexed k row found, ⟨_, rfl⟩, visible.mpr shown⟩

theorem listDataFiles_nodup (keyed : r.db.IndexKeyed) (tableId : Nat) : (r.listDataFiles tableId).Nodup := by
  rw [listDataFiles_ofIndex keyed, sortByKey, (perm_insertionSort _ _).nodup_iff, listVisible]
  refine List.Nodup.map_on ?_ (List.Nodup.filter _ ?_)
  · rintro ⟨k, row⟩ member ⟨k', row'⟩ member' same
    obtain ⟨found, _⟩ := r.db.mem_scanPrefix.mp (mem_of_mem_filter member)
    obtain ⟨found', _⟩ := r.db.mem_scanPrefix.mp (mem_of_mem_filter member')
    obtain rfl : row = row' := same
    rw [keyed k row found, keyed k' row found']
  · exact (r.db.scanPrefix_sorted .dataFileBySnapshot [tableId]).imp
      fun less same => absurd (congrArg Prod.fst same) less.ne

theorem listDataFiles_sorted (r : CatalogReader) (tableId : Nat) :
    (r.listDataFiles tableId).Pairwise fun a b =>
      a.fileOrder.getD a.dataFileId ≤ b.fileOrder.getD b.dataFileId := by
  have total : Std.Total fun a b : DataFileRow =>
      a.fileOrder.getD a.dataFileId ≤ b.fileOrder.getD b.dataFileId := ⟨fun _ _ => le_total _ _⟩
  have trans : IsTrans DataFileRow fun a b =>
      a.fileOrder.getD a.dataFileId ≤ b.fileOrder.getD b.dataFileId := ⟨fun _ _ _ => le_trans⟩
  exact pairwise_insertionSort _ _

def findTableByIndex (r : CatalogReader) (tableId : Nat) : Option TableRow :=
  (r.db.get .tableById (keyTableById tableId)).bind fun schemaId =>
    newest (r.listVisible .table [schemaId, tableId])

def findTableByScan (r : CatalogReader) (tableId : Nat) : Option TableRow :=
  newest ((r.listVisible .table []).filter fun row => row.tableId = tableId)

def describeFound (r : CatalogReader) (hashOrder : List Nat → List Nat) (tableId : Nat)
    (found : Option TableRow) : Option (TableRow × List ColumnRow) :=
  found.map fun table =>
    (table, sortColumnsTree hashOrder (currentColumns (r.listVisible .column [tableId])))

theorem findTableByIndex_eq (consistent : r.db.Consistent c) (tableId : Nat) :
    r.findTableByIndex tableId = r.findTableByScan tableId := by
  have scanned := findTable_eq consistent.sound consistent.linked.indexed tableId
  cases index : r.db.get .tableById (keyTableById tableId) with
  | some schemaId =>
    simp only [findTable, index] at scanned
    rw [findTableByIndex, index, Option.bind_some, scanned, findTableByScan]
  | none =>
    have absent : (r.listVisible .table []).filter (fun row => row.tableId = tableId) = [] := by
      refine filter_eq_nil_iff.mpr fun row member => ?_
      obtain ⟨k, stored, _⟩ := r.mem_listVisible.mp member
      simp only [decide_eq_true_eq]
      rintro rfl
      have entry := consistent.linked.indexed k row stored
      rw [index] at entry
      contradiction
    rw [findTableByIndex, index, findTableByScan, absent]
    rfl

end CatalogReader

namespace Catalog

/-- `describe_table`, the description through the table index alone and the one by a scan of all table
rows agree at every snapshot, for every table id. -/
theorem describe_paths_agree {env : Env} {catalog : Catalog} (reachable : catalog.Reachable env)
    (hashOrder : List Nat → List Nat) (snapshot tableId : Nat) :
    ∃ reader, catalog.store.readAt catalog.db snapshot = .ok reader ∧
      reader.describeFound hashOrder tableId (reader.findTableByIndex tableId) =
        reader.describeFound hashOrder tableId (reader.findTableByScan tableId) ∧
      reader.describeTable hashOrder tableId =
        reader.describeFound hashOrder tableId (reader.findTableByScan tableId) := by
  have valid := reachable.valid
  have consistent : (CatalogReader.mk catalog.db snapshot).db.Consistent catalog.store.counters :=
    valid.consistent
  refine ⟨⟨catalog.db, snapshot⟩, by simp [CatalogStore.readAt, valid.cached], ?_, ?_⟩
  · rw [CatalogReader.findTableByIndex_eq consistent]
  · rw [CatalogReader.describeTable, CatalogReader.findTable_eq consistent.sound consistent.linked.indexed]
    rfl

/-- A table, at the snapshot that created it and at the one that dropped it, and a table that never
was. -/
theorem describe_paths_dropped : ∃ (catalog : Catalog) (created dropped : CatalogReader),
    catalog.Reachable Env.trivial ∧ catalog.store.readAt catalog.db 1 = .ok created ∧
    catalog.store.readAt catalog.db 2 = .ok dropped ∧
    (created.describeFound id 2 (created.findTableByScan 2)).isSome = true ∧
    created.describeFound id 2 (created.findTableByIndex 2) =
      created.describeFound id 2 (created.findTableByScan 2) ∧
    dropped.describeFound id 2 (dropped.findTableByIndex 2) =
      dropped.describeFound id 2 (dropped.findTableByScan 2) ∧
    dropped.describeFound id 7 (dropped.findTableByIndex 7) =
      dropped.describeFound id 7 (dropped.findTableByScan 7) := by
  have reachable : Catalog.Reachable Env.trivial _ :=
    .session (.session (.opened "a" rfl) ⟨[.staging (.createSchema "main" "4b1d"), .staging
      (.createTable 1 "orders" none "5c2e")], {}⟩ rfl) ⟨[.staging (.dropTable 1 2 1)], {}⟩ rfl
  obtain ⟨created, opened, agree, _⟩ := describe_paths_agree reachable id 1 2
  obtain ⟨dropped, opened', agree', _⟩ := describe_paths_agree reachable id 2 2
  obtain ⟨same, opened'', never, _⟩ := describe_paths_agree reachable id 2 7
  cases opened'.symm.trans opened''
  cases (Except.ok.inj opened : (⟨_, 1⟩ : CatalogReader) = created)
  exact ⟨_, _, dropped, reachable, rfl, opened', rfl, agree, agree', never⟩

/-- The data files listed through the snapshot index are the canonical rows of the table that the
snapshot shows, each once, in file order. -/
theorem dataFiles_canonical {env : Env} {catalog : Catalog} (reachable : catalog.Reachable env)
    (tableId snapshot : Nat) :
    ∃ reader, catalog.store.readAt catalog.db snapshot = .ok reader ∧
      (∀ row, row ∈ reader.listDataFiles tableId ↔ ∃ k, catalog.db.get .dataFile k = some row ∧
        row.tableId = tableId ∧ row.beginSnapshot.getD 0 ≤ snapshot ∧
        ∀ ended, row.endSnapshot = some ended → snapshot < ended) ∧
      (reader.listDataFiles tableId).Nodup ∧
      (reader.listDataFiles tableId).Pairwise fun a b =>
        a.fileOrder.getD a.dataFileId ≤ b.fileOrder.getD b.dataFileId := by
  have valid := reachable.valid
  refine ⟨⟨catalog.db, snapshot⟩, by simp [CatalogStore.readAt, valid.cached], fun row => ?_, ?_, ?_⟩
  · exact CatalogReader.mem_listDataFiles valid.consistent.sound.indexKeyed valid.consistent.linked.mirrored
  · exact CatalogReader.listDataFiles_nodup valid.consistent.sound.indexKeyed tableId
  · exact CatalogReader.listDataFiles_sorted _ tableId

/-- A file of a dropped table is listed at the snapshot before the drop, from its canonical row. -/
theorem dataFiles_canonical_dropped : ∃ (catalog : Catalog) (reader : CatalogReader) (row : DataFileRow),
    catalog.Reachable Env.trivial ∧ catalog.store.readAt catalog.db 1 = .ok reader ∧
    catalog.db.get .dataFile (keyDataFile 2 1) = some row ∧ row.endSnapshot = some 2 ∧
    row ∈ reader.listDataFiles 2 := by
  have reachable : Catalog.Reachable Env.trivial _ :=
    .session (.session (.opened "a" rfl) ⟨[.staging (.createSchema "main" "4b1d"), .staging
      (.createTable 1 "orders" none "5c2e"), .staging (.registerDataFile 2
      (.parquet "f.parquet" 1 10))], {}⟩ rfl) ⟨[.staging (.dropTable 1 2 1)], {}⟩ rfl
  obtain ⟨reader, opened, listed, _⟩ := dataFiles_canonical reachable 2 1
  refine ⟨_, reader, _, reachable, opened, rfl, rfl,
    (listed _).mpr ⟨keyDataFile 2 1, rfl, rfl, by decide, ?_⟩⟩
  rintro last ⟨⟩
  decide

end Catalog

end RockLake
