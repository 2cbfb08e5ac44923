import RockLake.Catalog.Indexes
import RockLake.Catalog.Retention

/-! The check of the snapshot index by `rocklake diagnose`. It looks for an entry of every canonical row,
not at what the entry holds. -/
namespace RockLake

inductive FindingSeverity where
  | p0
  | p1
  | p2

structure DiagnosticFinding where
  severity : FindingSeverity
  category : String
  message : String

/-- The findings, the number of entries checked and the number of gaps. Ten gaps are told in detail. -/
def checkSecondaryIndex (db : Db) : List DiagnosticFinding × Nat × Nat :=
  let rows := (db.scanPrefix .dataFile []).map Prod.snd
  let gaps := rows.filter fun row => (db.get .dataFileBySnapshot row.indexKey).isNone
  let detailed := (gaps.take 10).map fun row => ⟨.p1, "secondary-index",
    s!"Data file {row.dataFileId} (table {row.tableId}, snap {row.beginSnapshot.getD 0}) has no secondary-index entry"⟩
  (if gaps.length > 10 then
      detailed ++ [⟨.p1, "secondary-index",
        s!"{gaps.length} total secondary-index gaps (first 10 detailed above)"⟩]
    else detailed, rows.length, gaps.length)

theorem checkSecondaryIndex_clean : (checkSecondaryIndex db).1 = [] ↔
    ∀ k row, db.get .dataFile k = some row → (db.get .dataFileBySnapshot row.indexKey).isSome = true := by
  have listed : (checkSecondaryIndex db).1 = [] ↔ ((db.scanPrefix .dataFile []).map Prod.snd).filter
      (fun row => (db.get .dataFileBySnapshot row.indexKey).isNone) = [] := by
    simp only [checkSecondaryIndex]
    split
    · rename_i many
      refine iff_of_false (by simp) fun none => ?_
      rw [none] at many
      exact absurd many (by decide)
    · simp
  rw [listed, List.filter_eq_nil_iff, List.forall_mem_map]
  simp only [Prod.forall, Option.isNone_iff_eq_none, ← Option.not_isSome_iff_eq_none, not_not]
  exact forall₂_congr fun k row => imp_congr_left Db.mem_scan

/-- Every index entry is a copy of the canonical row that its key names. -/
structure Db.Copies (db : Db) : Prop where
  keyed : ∀ k row, db.get .dataFile k = some row → k = row.fileKey
  indexKeyed : db.IndexKeyed
  stored : ∀ k row, db.get .dataFileBySnapshot k = some row → db.get .dataFile row.fileKey = some row

/-- A clean report says that no entry is missing. If the entries there are are copies, then the index gives
exactly the canonical rows. -/
theorem clean_report_lists {db : Db} (clean : (checkSecondaryIndex db).1 = []) :
    (∀ k row, db.get .dataFile k = some row → (db.get .dataFileBySnapshot row.indexKey).isSome = true) ∧
    (db.Copies → ∀ tableId snapshot,
      ((CatalogReader.mk db snapshot).listDataFiles tableId).Nodup ∧
      ∀ row, row ∈ (CatalogReader.mk db snapshot).listDataFiles tableId ↔
        ∃ k, db.get .dataFile k = some row ∧ row.tableId = tableId ∧
          row.beginSnapshot.getD 0 ≤ snapshot ∧ ∀ ended, row.endSnapshot = some ended → snapshot < ended) := by
  have present := checkSecondaryIndex_clean.mp clean
  refine ⟨present, fun copies tableId snapshot => ?_⟩
  have mirrored : db.Mirrored := by
    refine ⟨fun k row found => ?_, copies.stored⟩
    obtain ⟨entry, indexed⟩ := Option.isSome_iff_exists.mp (present k row found)
    have same := copies.indexKeyed _ _ indexed
    simp only [DataFileRow.indexKey, keyDataFileBySnapshot, List.cons.injEq] at same
    have canonical := copies.stored _ _ indexed
    rw [DataFileRow.fileKey, ← same.1, ← same.2.2.1, ← DataFileRow.fileKey, ← copies.keyed k row found,
      found] at canonical
    exact indexed.trans canonical.symm
  exact ⟨CatalogReader.listDataFiles_nodup copies.indexKeyed tableId,
    fun row => CatalogReader.mem_listDataFiles copies.indexKeyed mirrored⟩

def sampleFile (endSnapshot : Option Nat) : DataFileRow :=
  ⟨1, 2, "f.parquet", "parquet", 1, 10, none, none, some 1, endSnapshot, none, none, none, none, none, none⟩

/-- A canonical row that is live, and the given row in the index. -/
def sampleIndex (entry : DataFileRow) : Db :=
  Db.empty.putAll [⟨.dataFile, keyDataFile 2 1, sampleFile none⟩,
    ⟨.dataFileBySnapshot, keyDataFileBySnapshot 2 1 1, entry⟩]

def laterFile : DataFileRow := { sampleFile none with dataFileId := 3 }

/-- A file that has ended and a later one that is live, each with its copy in the index. -/
def sampleCopies : Db :=
  Db.empty.putAll ([sampleFile (some 2), laterFile].flatMap fun row =>
    [⟨.dataFile, row.fileKey, row⟩, ⟨.dataFileBySnapshot, row.indexKey, row⟩])

theorem sampleCopies_copies : sampleCopies.Copies := by
  have files : (sampleCopies .dataFile).entries =
      [sampleFile (some 2), laterFile].map fun row => (row.fileKey, row) := rfl
  have index : (sampleCopies .dataFileBySnapshot).entries =
      [sampleFile (some 2), laterFile].map fun row => (row.indexKey, row) := rfl
  refine ⟨fun k row found => ?_, fun k row found => ?_, fun k row found => ?_⟩
  · obtain ⟨_, _, same⟩ := List.mem_map.mp (files ▸ OrderedMap.get_eq_some.mp found)
    cases same
    rfl
  all_goals
    obtain ⟨_, member, same⟩ := List.mem_map.mp (index ▸ OrderedMap.get_eq_some.mp found)
    cases same
  · rfl
  · exact OrderedMap.get_eq_some.mpr (files ▸ List.mem_map.mpr ⟨row, member, rfl⟩)

/-- The index lists both files at the first snapshot, and the live one only at the second. -/
theorem clean_report_lists_two : (checkSecondaryIndex sampleCopies).1 = [] ∧ sampleCopies.Copies ∧
    sampleFile (some 2) ∈ (CatalogReader.mk sampleCopies 1).listDataFiles 2 ∧
    laterFile ∈ (CatalogReader.mk sampleCopies 1).listDataFiles 2 ∧
    sampleFile (some 2) ∉ (CatalogReader.mk sampleCopies 2).listDataFiles 2 ∧
    laterFile ∈ (CatalogReader.mk sampleCopies 2).listDataFiles 2 := by
  have lists snapshot := ((@clean_report_lists sampleCopies rfl).2 sampleCopies_copies 2 snapshot).2
  refine ⟨rfl, sampleCopies_copies, ?_, ?_, fun listed => ?_, ?_⟩
  · exact (lists 1 _).mpr ⟨(sampleFile none).fileKey, rfl, rfl, by decide, by decide⟩
  · exact (lists 1 _).mpr ⟨laterFile.fileKey, rfl, rfl, by decide, by decide⟩
  · obtain ⟨_, _, _, _, live⟩ := (lists 2 _).mp listed
    exact absurd (live 2 rfl) (by decide)
  · exact (lists 2 _).mpr ⟨laterFile.fileKey, rfl, rfl, by decide, by decide⟩

/-- A stale entry: the row has ended in the index only. -/
theorem clean_report_stale : (checkSecondaryIndex (sampleIndex (sampleFile (some 2)))).1 = [] ∧
    (sampleIndex (sampleFile (some 2))).get .dataFile (keyDataFile 2 1) = some (sampleFile none) ∧
    (CatalogReader.mk (sampleIndex (sampleFile (some 2))) 2).listDataFiles 2 = [] :=
  ⟨rfl, rfl, rfl⟩

end RockLake
