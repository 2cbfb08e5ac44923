import RockLake.Catalog.Indexes
import RockLake.Catalog.RoundTrip

/-! The first reader of a catalog that was rebuilt from a list of data files. The rebuild puts rows,
index entries and counters itself, without a writer. -/
namespace RockLake

open List Db CatalogReader

def rebuiltRows (dataPaths : List String) : List DataFileRow :=
  (dataPaths.zipIdx 1).map fun (path, fileId) => rebuiltFile fileId path

/-- Files are listed by number, and the rebuild numbers them in turn. -/
theorem rebuiltRows_order (dataPaths : List String) :
    (rebuiltRows dataPaths).map (fun row => row.fileOrder.getD row.dataFileId) =
      range' 1 dataPaths.length := by
  rw [rebuiltRows, map_map, ← zipIdx_map_snd]
  rfl

theorem rebuiltRows_inj (row : a ∈ rebuiltRows dataPaths) (row' : b ∈ rebuiltRows dataPaths)
    (same : a.fileOrder.getD a.dataFileId = b.fileOrder.getD b.dataFileId) : a = b :=
  inj_on_of_nodup_map (rebuiltRows_order dataPaths ▸ nodup_range') row row' same

/-- Outside the files, the snapshot and the counters there are the schema and the table. -/
theorem rebuilt_family (other : f ∉ [Family.dataFile, .dataFileBySnapshot, .snapshot, .counter]) :
    (freshDb.putAll (rebuiltWrites dataPaths now)) f = (freshDb.putAll
      [⟨.schema, keySchema 1, rebuiltSchema⟩, ⟨.table, keyTable 1 2 1, rebuiltTable⟩]) f := by
  rw [rebuiltWrites, append_assoc, putAll_append]
  refine putAll_family _ fun x member same => other ?_
  subst same
  simp only [rebuiltFiles, CatalogWriter.counterWrites, mem_append, mem_cons, mem_flatMap,
    dataFilePuts, not_mem_nil, or_false] at member
  rcases member with ⟨_, _, rfl | rfl⟩ | rfl | rfl | rfl | rfl <;> simp

theorem rebuilt_index : (freshDb.putAll (rebuiltWrites dataPaths now)).get .dataFileBySnapshot k =
    some row ↔ k = row.indexKey ∧ row ∈ rebuiltRows dataPaths := by
  have written : ∀ row, (⟨.dataFileBySnapshot, k, row⟩ : Write) ∈ rebuiltWrites dataPaths now ↔
      k = row.indexKey ∧ row ∈ rebuiltRows dataPaths := by
    intro row
    simp only [rebuiltRows, mem_map, Prod.exists]
    constructor
    · simp [rebuiltWrites, rebuiltFiles, dataFilePuts, CatalogWriter.counterWrites]
      rintro _ _ numbered rfl rfl
      exact ⟨rfl, _, _, numbered, rfl⟩
    · rintro ⟨rfl, _, _, numbered, rfl⟩
      exact mem_append_left _ (mem_append_right _ (mem_flatMap.mpr ⟨_, numbered, .tail _ (.head _)⟩))
  rcases freshDb.get_putAll (f := .dataFileBySnapshot) (rebuiltWrites dataPaths now) k
    with ⟨row', member, found⟩ | ⟨absent, same⟩
  · obtain ⟨key', listed'⟩ := (written row').mp member
    rw [found, Option.some.injEq]
    constructor
    · rintro rfl
      exact ⟨key', listed'⟩
    · rintro ⟨key, listed⟩
      refine rebuiltRows_inj listed' listed ?_
      obtain ⟨⟨_, _⟩, _, rfl⟩ := mem_map.mp listed
      obtain ⟨⟨_, _⟩, _, rfl⟩ := mem_map.mp listed'
      cases key'.symm.trans key
      rfl
  · rw [same, ← written, freshDb_get (by decide)]
    simp [absent]

theorem listDataFiles_rebuilt {r : CatalogReader} (latest : r.snapshot = 1)
    (same : r.db .dataFileBySnapshot =
      (freshDb.putAll (rebuiltWrites dataPaths now)) .dataFileBySnapshot) :
    r.listDataFiles 2 = rebuiltRows dataPaths := by
  have stored : ∀ {k row}, r.db.get .dataFileBySnapshot k = some row ↔
      k = row.indexKey ∧ row ∈ rebuiltRows dataPaths := by
    intro k row
    rw [get_of_family same, rebuilt_index]
  have keyed : r.db.IndexKeyed := fun k row found => (stored.mp found).1
  have listed : ∀ row, row ∈ r.listDataFiles 2 ↔ row ∈ rebuiltRows dataPaths := by
    intro row
    rw [listDataFiles_ofIndex keyed, sortByKey, mem_insertionSort, mem_listVisible]
    constructor
    · rintro ⟨k, found, _⟩
      exact (stored.mp found).2
    · intro member
      obtain ⟨_, _, rfl⟩ := mem_map.mp member
      exact ⟨_, stored.mpr ⟨rfl, member⟩, ⟨_, rfl⟩, by rw [latest]; rfl⟩
  have order := rebuiltRows_order dataPaths
  have nodup : (rebuiltRows dataPaths).Nodup := .of_map _ (order ▸ nodup_range')
  have ascending := pairwise_map.mp (order ▸ pairwise_le_range')
  refine Perm.eq_of_pairwise (fun a b here there below above => ?_) (listDataFiles_sorted r 2)
    ascending ((perm_ext_iff_of_nodup (listDataFiles_nodup keyed 2) nodup).mpr listed)
  exact rebuiltRows_inj ((listed a).mp here) there (below.antisymm above)

/-- A rebuilt catalog lists the given files in the given order, in a table of a visible schema. -/
theorem rebuild_exposes (dataPaths : List String) (now nonce : String)
    (hashOrder : List Nat → List Nat) : ∃ db store db' reader,
      rebuildCatalog Db.empty dataPaths now = .ok (dataPaths.length, db) ∧
      CatalogStore.openCatalog db nonce = .ok (store, db') ∧ store.readLatest db' = reader ∧
      (reader.listDataFiles rebuiltTable.tableId).map (·.path) = dataPaths ∧
      reader.describeTable hashOrder rebuiltTable.tableId = some (rebuiltTable, []) ∧
      reader.listTables rebuiltTable.schemaId = [rebuiltTable] ∧
      reader.listSchemas = [rebuiltSchema] := by
  obtain ⟨db', opened, kept⟩ := openCatalog_counted (get_of_family (rebuilt_family (by decide)) _)
    (get_of_family (rebuilt_family (by decide)) _) (@loadCounters_rebuilt dataPaths now freshDb) nonce
  have same := fun f epoch nonce other => (kept f epoch nonce).trans (rebuilt_family other)
  have shown : ∀ {f db}, db' f = db f → ∀ start, listVisible ⟨db', 1⟩ f start =
      listVisible ⟨db, 1⟩ f start := by
    intro f db equal start
    simp [listVisible_eq, equal]
  have tables := shown (same .table (by decide) (by decide) (by decide))
  refine ⟨_, _, db', ⟨db', 1⟩, rfl, opened, rfl, ?_, ?_, (tables [1]).trans rfl,
    (shown (same .schema (by decide) (by decide) (by decide)) []).trans rfl⟩
  · have listed := listDataFiles_rebuilt (r := ⟨db', 1⟩) rfl (kept _ (by decide) (by decide))
    rw [show rebuiltTable.tableId = 2 from rfl, listed, rebuiltRows, map_map]
    exact zipIdx_map_fst 1 dataPaths
  · have index := get_of_family (same .tableById (by decide) (by decide) (by decide)) (keyTableById 2)
    have found : findTable ⟨db', 1⟩ 2 = some rebuiltTable := by
      simp only [findTable, index, tables]
      rfl
    have columns : listVisible ⟨db', 1⟩ .column [2] = [] :=
      (shown (same .column (by decide) (by decide) (by decide)) [2]).trans rfl
    rw [show rebuiltTable.tableId = 2 from rfl, describeTable, found, columns]
    simp [currentColumns, dedupColumns, sortColumnsTree, sortByKey, expand]

end RockLake
