import RockLake.Catalog.BulkLoad
import RockLake.Catalog.Listings
import RockLake.Catalog.Placement

/-! Exporting a catalog at a snapshot and importing the export into a fresh database. The export leaves
out fields of some rows and whole rows of others, and the import fills in what is missing; a reader of
the imported catalog gets the rows of the original one exactly when those had nothing to lose. -/
namespace RockLake

open List Db Option CatalogStore

def exportedFamilies : List Family :=
  [.snapshot, .schema, .table, .column, .dataFile, .deleteFile, .inlinedInsert, .snapshotChanges,
   .view, .macros, .macroImpl, .macroParameters, .tag, .columnTag, .partitionInfo, .sortInfo,
   .schemaVersions, .tableStats, .tableColumnStats, .fileColumnStats, .fileVariantStats]

/-- Versioned rows are exported if visible, snapshots and their change logs up to the snapshot, and
the other rows always. -/
def exports (snapshot : Nat) : (f : Family) → f.Row → Bool
  | .snapshot, row => row.snapshotId ≤ snapshot
  | .snapshotChanges, row => row.snapshotId ≤ snapshot
  | f, row => if f.versioned then isVisible (f.beginOf row) (f.endOf row) snapshot else true

def exportFamily (codec : Base64) (db : Db) (snapshot : Nat) (f : Family) : List ExportedRow :=
  match f.duckLakeTable with
  | some t => ((db.scanPrefix f []).filter fun e => exports snapshot f e.2).map fun e =>
    ⟨t.name, exportData codec f e.1 e.2⟩
  | none => []

structure ExportResult where
  rowsExported : Nat
  tablesExported : Nat
  deriving DecidableEq

/-- The snapshot to export, by default the one before the next snapshot id. -/
def exportSnapshotId (db : Db) : Option Nat → Nat
  | some id => id
  | none => (db.get .counter (keyCounter counterNextSnapshotId)).getD 1 - 1

def exportCatalog (codec : Base64) (db : Db) (snapshotId : Option Nat) :
    List ExportedRow × ExportResult :=
  let rows := exportedFamilies.flatMap (exportFamily codec db (exportSnapshotId db snapshotId))
  (rows, ⟨rows.length, DuckLakeTable.all.length - 1⟩)

def Family.kept : (f : Family) → f.Row → f.Row
  | .snapshot, row => { row with nextCatalogId := none, nextFileId := none }
  | .schema, row => { row with schemaUuid := none, path := none, pathIsRelative := none }
  | .table, row => { row with pathIsRelative := none }
  | .column, row =>
    { row with initialDefault := none, defaultValueType := none, defaultValueDialect := none
               parentColumn := none }
  | .dataFile, row | .dataFileBySnapshot, row =>
    { row with
      footerSize := row.footerSize.filter (· < 2 ^ 63), encryptionKey := none
      beginSnapshot := some (row.beginSnapshot.getD 0), fileOrder := none
      pathIsRelative := none, rowIdStart := none, partitionId := none, mappingId := none
      partialMax := none }
  | .deleteFile, row =>
    { row with
      tableId := none, beginSnapshot := some (row.beginSnapshot.getD row.snapshotId)
      pathIsRelative := none, format := none, footerSize := none, partialMax := none }
  | .tableStats, row => { row with internalFileCount := 0 }
  | .fileVariantStats, row => { row with deprecatedVariantPathHash := none }
  | _, row => row

def Family.homeKey : (f : Family) → Key → f.Row → Key
  | .snapshot, _, row => keySnapshot row.snapshotId
  | .schema, _, row => keySchema row.schemaId
  | .table, _, row => keyTable row.schemaId row.tableId row.beginSnapshot
  | .column, _, row => keyColumn row.tableId row.columnId row.beginSnapshot
  | .deleteFile, _, row => keyDeleteFile row.dataFileId row.deleteFileId
  | .inlinedInsert, _, row => keyInlinedInsert row.tableId row.schemaVersion row.rowId
  | .snapshotChanges, _, row => keySnapshotChanges row.snapshotId
  | .view, _, row => keyView row.schemaId row.viewId row.beginSnapshot
  | .macros, _, row => keyMacro row.schemaId row.macroId row.beginSnapshot
  | .macroImpl, _, row => keyMacroImpl row.macroId row.implId
  | .macroParameters, _, row => keyMacroParameters row.macroId row.implId row.columnId
  | .tag, k, row => keyTag row.objectId (keyWord k 1) row.beginSnapshot
  | .columnTag, k, row => keyColumnTag row.tableId row.columnId (keyWord k 2) row.beginSnapshot
  | .partitionInfo, _, row => keyPartitionInfo row.tableId row.partitionId row.beginSnapshot
  | .sortInfo, _, row => keySortInfo row.tableId row.sortId row.beginSnapshot
  | .schemaVersions, _, row => keySchemaVersions row.tableId row.beginSnapshot
  | .tableStats, _, row => keyTableStats row.tableId
  | .tableColumnStats, _, row => keyTableColumnStats row.tableId row.columnId
  | .fileColumnStats, _, row => keyFileColumnStats row.tableId row.columnId row.dataFileId
  | .fileVariantStats, k, row =>
    keyFileVariantStats row.tableId row.columnId (keyWord k 2) row.dataFileId
  | _, k, _ => k

def Family.exchanged : (f : Family) → Key → f.Row → List Write
  | .dataFile, _, row => dataFilePuts (Family.kept .dataFile row)
  | f, k, row => [⟨f, f.homeKey k row, f.kept row⟩]

theorem Family.kept_kept {f : Family} (row : f.Row) : f.kept (f.kept row) = f.kept row := by
  cases f <;> simp [kept, Option.filter_filter]

section Rows

variable {codec : Base64} {f : Family} {row : f.Row}

theorem Family.homeKey_eq (keyed : f.Keyed c k row) (placed : f.Placed k row) : f.homeKey k row = k := by
  cases f <;> simp only [Keyed, Placed] at keyed placed <;> try rfl
  case tag | columnTag =>
    obtain ⟨hash, rfl⟩ := keyed
    rfl
  case fileVariantStats =>
    obtain ⟨hash, rfl⟩ := placed
    rfl
  case schema | table | deleteFile | snapshotChanges => exact keyed.1.symm
  case column | view | macros | partitionInfo | sortInfo | inlinedInsert => exact keyed.symm
  all_goals exact placed.symm

theorem importRow_export (codec : Base64) (place : RowPlace) (named : f.duckLakeTable = some t) (k : Key)
    (row : f.Row) :
    importRow place (exportData codec f k row) codec t = .ok (f.exchanged k row) := by
  cases f <;> cases named
  all_goals
    simp [importRow, importSnapshot, importSchema, importTable, importColumn, importDataFile,
      importDeleteFile, importInlinedInsert, importSnapshotChanges, importView, importMacro,
      importMacroImpl, importMacroParameters, importTag, importColumnTag, importPartitionInfo,
      importSortInfo, importSchemaVersions, importTableStats, importTableColumnStats,
      importFileColumnStats, importFileVariantStats, snapshotOf, schemaOf, tableOf, columnOf, dataFileOf,
      deleteFileOf, viewOf, macroOf, snapshotChangesOf, exportData, exportSnapshot, exportSchema,
      exportTable, exportColumn, exportDataFile, exportDeleteFile, exportInlinedInsert,
      exportSnapshotChanges, exportView, exportMacro, exportMacroImpl, exportMacroParameters, exportTag,
      exportColumnTag, exportPartitionInfo, exportSortInfo, exportSchemaVersions, exportTableStats,
      exportTableColumnStats, exportFileColumnStats, exportFileVariantStats, Family.exchanged,
      Family.homeKey, Family.kept, reqU64, reqStr, required, Json.u64, Json.i64, Json.text, Json.boolean,
      codec.decode_encode, Except.mapError, bind, Except.bind, pure, Except.pure]

end Rows

/-! The import of a whole export. -/

theorem importLines_append (done : importLines codec lineNo rows db first = (.ok rows', db')) :
    importLines codec lineNo rows db (first ++ second) =
      importLines codec (lineNo + first.length) rows' db' second := by
  induction first generalizing lineNo rows db with
  | nil =>
    cases done
    rfl
  | cons line rest ih =>
    simp only [importLines, cons_append, length_cons] at done ⊢
    split at done
    · cases done
    all_goals
      simp only [ih done]
      congr 1
      omega

def familyPuts (db : Db) (snapshot : Nat) (f : Family) : List Write :=
  ((db.scanPrefix f []).filter fun e => exports snapshot f e.2).flatMap fun e => f.exchanged e.1 e.2

theorem importLines_family (codec : Base64) (named : f.duckLakeTable = some t) (lineNo rows : Nat)
    (db : Db) :
    ∃ rows', importLines codec lineNo rows db ((exportFamily codec source snapshot f).map .row) =
      (.ok rows', db.putAll (familyPuts source snapshot f)) := by
  simp only [exportFamily, named, familyPuts, List.map_map]
  induction (source.scanPrefix f []).filter fun e => exports snapshot f e.2
    generalizing lineNo rows db with
  | nil => exact ⟨rows, rfl⟩
  | cons e rest ih =>
    obtain ⟨rows', later⟩ := ih (lineNo + 1) (rows + 1) (db.putAll (f.exchanged e.1 e.2))
    refine ⟨rows', ?_⟩
    rw [flatMap_cons, putAll_append, ← later]
    simp [importLines, importLine, importRow_export codec _ named, Except.map]

def exportPuts (db : Db) (snapshot : Nat) : List Write :=
  exportedFamilies.flatMap (familyPuts db snapshot)

theorem importCatalog_export (codec : Base64) (source : Db) (snapshot : Nat) (db : Db) :
    ∃ result, importCatalog codec db ((exportCatalog codec source (some snapshot)).1.map .row) =
      (.ok result, db.putAll (exportPuts source snapshot)) := by
  have all : ∀ families : List Family, (∀ f ∈ families, f.duckLakeTable.isSome = true) →
      ∀ lineNo rows db, ∃ rows', importLines codec lineNo rows db
        ((families.flatMap (exportFamily codec source snapshot)).map .row) =
          (.ok rows', db.putAll (families.flatMap (familyPuts source snapshot))) := by
    intro families named
    induction families with
    | nil => exact fun lineNo rows db => ⟨rows, rfl⟩
    | cons f rest ih =>
      intro lineNo rows db
      obtain ⟨t, known⟩ := isSome_iff_exists.mp (named f mem_cons_self)
      obtain ⟨rows₁, first⟩ := importLines_family codec known lineNo rows db
      obtain ⟨rows₂, later⟩ := ih (fun g member => named g (mem_cons_of_mem _ member))
        (lineNo + ((exportFamily codec source snapshot f).map ImportLine.row).length) rows₁
        (db.putAll (familyPuts source snapshot f))
      refine ⟨rows₂, ?_⟩
      rw [flatMap_cons, map_append, importLines_append first, later, flatMap_cons, putAll_append]
  obtain ⟨rows, done⟩ := all exportedFamilies (by decide) 0 0 db
  simp only [importCatalog, exportCatalog, exportSnapshotId, done]
  exact ⟨_, rfl⟩

def Family.carried (f : Family) : Bool := f.duckLakeTable.isSome || f = .dataFileBySnapshot

theorem mem_exportPuts : x ∈ exportPuts db snapshot ↔
    ∃ f k row, f ∈ exportedFamilies ∧ db.get f k = some row ∧ exports snapshot f row = true ∧
      x ∈ f.exchanged k row := by
  simp only [exportPuts, familyPuts, mem_flatMap, mem_filter, mem_scanPrefix,
    nil_prefix, and_true, Prod.exists]
  constructor
  · rintro ⟨f, exported, k, row, ⟨found, kept⟩, put⟩
    exact ⟨f, k, row, exported, found, kept, put⟩
  · rintro ⟨f, k, row, exported, found, kept, put⟩
    exact ⟨f, exported, k, row, ⟨found, kept⟩, put⟩

theorem Family.exchanged_one {f : Family} (unfiled : f ≠ .dataFile) (k : Key) (row : f.Row) :
    f.exchanged k row = [⟨f, f.homeKey k row, f.kept row⟩] := by
  cases f <;> first | rfl | contradiction

theorem exportPuts_carried {db : Db} (put : x ∈ exportPuts db snapshot) :
    x.family.carried = true := by
  obtain ⟨f, k, row, exported, _, _, put⟩ := mem_exportPuts.mp put
  by_cases filed : f = .dataFile
  · subst filed
    rcases mem_pair.mp put with rfl | rfl <;> rfl
  · rw [Family.exchanged_one filed, mem_singleton] at put
    subst put
    have known : ∀ f ∈ exportedFamilies, f.carried = true := by decide
    exact known f exported

theorem exportPuts_family {source db : Db} (uncarried : f.carried = false) :
    (db.putAll (exportPuts source snapshot)) f = db f := by
  refine db.putAll_family fun x put same => ?_
  have carried := exportPuts_carried put
  rw [same, uncarried] at carried
  contradiction

theorem mem_exportPuts_key {source : Db} (consistent : source.Consistent c) (placed : source.Placed)
    (carried : f.carried = true) : (⟨f, k, row'⟩ : Write) ∈ exportPuts source snapshot ↔
      ∃ row, source.get f k = some row ∧ exports snapshot f row = true ∧ row' = f.kept row := by
  have mirrored := consistent.linked.mirrored
  rw [mem_exportPuts]
  constructor
  · rintro ⟨g, key, row, exported, found, chosen, put⟩
    by_cases filed : g = .dataFile
    · subst filed
      have home : key = row.fileKey := (consistent.sound .dataFile key row found).keyed.1
      rcases mem_pair.mp put with same | same
      · cases same
        rw [home] at found
        exact ⟨row, found, chosen, rfl⟩
      · cases same
        exact ⟨row, mirrored.indexed key row found, chosen, rfl⟩
    · rw [Family.exchanged_one filed, mem_singleton,
        Family.homeKey_eq (consistent.sound g key row found).keyed (placed g key row found)] at put
      cases put
      exact ⟨row, found, chosen, rfl⟩
  · rintro ⟨row, found, chosen, rfl⟩
    -- An entry of the index was put along with the row of its file.
    by_cases index : f = .dataFileBySnapshot
    · subst index
      have home : k = row.indexKey := (consistent.sound .dataFileBySnapshot k row found).keyed.1
      refine ⟨.dataFile, row.fileKey, row, by decide, mirrored.stored k row found, chosen, ?_⟩
      rw [home]
      exact mem_cons_of_mem _ mem_cons_self
    have exported : f ∈ exportedFamilies := by
      cases f <;> first | decide | contradiction
    refine ⟨f, k, row, exported, found, chosen, ?_⟩
    by_cases filed : f = .dataFile
    · subst filed
      have home : k = row.fileKey := (consistent.sound .dataFile k row found).keyed.1
      rw [home]
      exact mem_cons_self
    · rw [Family.exchanged_one filed,
        Family.homeKey_eq (consistent.sound f k row found).keyed (placed f k row found)]
      exact mem_cons_self

/-- What an import of an export leaves under a key: what the export keeps of the row there, if the
snapshot exports it. -/
theorem get_imported (consistent : source.Consistent c) (placed : source.Placed)
    (carried : f.carried = true) {db : Db} (snapshot : Nat) (fresh : db.get f k = none) :
    (db.putAll (exportPuts source snapshot)).get f k =
      ((source.get f k).filter (exports snapshot f)).map f.kept := by
  rcases db.get_putAll (f := f) (exportPuts source snapshot) k with ⟨row', member, stored⟩ | ⟨absent, kept⟩
  · obtain ⟨row, found, chosen, rfl⟩ := (mem_exportPuts_key consistent placed carried).mp member
    rw [stored, found]
    simp [chosen]
  · rw [kept, fresh]
    cases found : source.get f k with
    | none => rfl
    | some row =>
      have dropped : exports snapshot f row = false := by
        by_contra chosen
        exact absent _ ((mem_exportPuts_key consistent placed carried).mpr
          ⟨row, found, by simpa using chosen, rfl⟩)
      simp [dropped]

/-! Readers of the two catalogs. -/

/-- The listings of schemas, tables, columns, files, statistics, views, macros, tags and inlined
rows. -/
def Listing.exchanged : Listing → Bool
  | .allSortInfo | .allSnapshotChanges | .allMetadata | .filesScheduledForDeletion
  | .allSchemaVersions | .inlinedDataTables _ => false
  | _ => true

/-- The families of those listings, other than the inlined deletes. -/
def Family.read : Family → Bool
  | .schema | .table | .column | .dataFileBySnapshot | .deleteFile | .inlinedInsert | .view | .macros
  | .macroImpl | .macroParameters | .tag | .columnTag | .tableStats | .tableColumnStats
  | .fileColumnStats | .fileVariantStats => true
  | _ => false

/-- An export and an import leave the row as it is. Inlined deletes are not exported. -/
def Family.Whole (f : Family) (row : f.Row) : Prop := f ≠ .inlinedDelete ∧ f.kept row = row

/-- The family and the start key of a listing that is a plain scan. -/
def Listing.scan : Listing → Option (Family × Key)
  | .schemas => some (.schema, [])
  | .tables schemaId => some (.table, [schemaId])
  | .inlinedInserts tableId => some (.inlinedInsert, [tableId])
  | .inlinedDeletes tableId => some (.inlinedDelete, [tableId])
  | .views schemaId => some (.view, [schemaId])
  | .allViews => some (.view, [])
  | .macros schemaId => some (.macros, [schemaId])
  | .allMacros => some (.macros, [])
  | .tags objectId => some (.tag, [objectId])
  | .allTags => some (.tag, [])
  | .columnTags tableId columnId => some (.columnTag, [tableId, columnId])
  | .allColumnTags => some (.columnTag, [])
  | .allTableStats => some (.tableStats, [])
  | .allTableColumnStats => some (.tableColumnStats, [])
  | .fileColumnStats tableId columnId => some (.fileColumnStats, [tableId, columnId])
  | .fileVariantStats tableId columnId => some (.fileVariantStats, [tableId, columnId])
  | .macroImpls macroId => some (.macroImpl, [macroId])
  | .macroParameters macroId implId => some (.macroParameters, [macroId, implId])
  | _ => none

namespace CatalogReader

variable {r r' : CatalogReader} {hashOrder : List Nat → List Nat} {l : Listing}

theorem list_scan (r : CatalogReader) (scans : l.scan = some (f, start)) :
    r.list hashOrder l = tagged f (r.listVisible f start) := by
  cases l <;> cases scans <;> first | rfl | exact congrArg (tagged _) (listStored_eq rfl _)

theorem scan_read (scans : l.scan = some (f, start)) : f.read = true ∨ f = .inlinedDelete := by
  cases l <;> cases scans <;> first | exact .inl rfl | exact .inr rfl

theorem mem_tagged :
    x ∈ tagged f rows ↔ ∃ row ∈ rows, x = ⟨f, row⟩ := by
  simp only [tagged, List.mem_map, eq_comm]

theorem shown_of_mem (member : row ∈ r.listVisible f start) :
    ∃ k, r.shown f k = some row := by
  obtain ⟨k, found, _, visible⟩ := r.mem_listVisible.mp member
  exact ⟨k, by simp [shown, found, visible]⟩

theorem findTable_mem (found : r.findTable tableId = some row) :
    ∃ start, row ∈ r.listVisible .table start := by
  simp only [findTable] at found
  split at found
  · exact ⟨_, newest_mem found⟩
  · exact ⟨_, mem_of_mem_filter (newest_mem found)⟩

theorem mem_list (complete : ∀ parents, (hashOrder parents).Perm parents)
    (indexed : ∀ k row, r.db.get .dataFileBySnapshot k = some row → k = row.indexKey)
    (exchanged : l.exchanged = true) (member : x ∈ r.list hashOrder l) :
    (x.1.read = true ∨ x.1 = .inlinedDelete) ∧ ∃ k, r.shown x.1 k = some x.2 := by
  cases scans : l.scan with
  | some plain =>
    obtain ⟨f, start⟩ := plain
    rw [r.list_scan scans] at member
    obtain ⟨row, listed, rfl⟩ := mem_tagged.mp member
    exact ⟨scan_read scans, shown_of_mem listed⟩
  | none =>
    cases l <;> try contradiction
    case dataFiles tableId =>
      obtain ⟨row, listed, rfl⟩ := mem_tagged.mp member
      rw [listDataFiles_ofIndex indexed, sortByKey, mem_insertionSort] at listed
      exact ⟨.inl rfl, shown_of_mem listed⟩
    case deleteFiles tableId =>
      obtain ⟨row, listed, rfl⟩ := mem_tagged.mp member
      exact ⟨.inl rfl, shown_of_mem (mem_of_mem_filter listed)⟩
    case columns tableId =>
      simp only [list, describeTable] at member
      cases found : r.findTable tableId with
      | none => simp [found, described] at member
      | some table =>
        simp only [found, map_some, described, mem_cons] at member
        rcases member with rfl | column
        · obtain ⟨start, listed⟩ := findTable_mem found
          exact ⟨.inl rfl, shown_of_mem listed⟩
        · obtain ⟨row, listed, rfl⟩ := mem_tagged.mp column
          rw [mem_sortColumnsTree complete] at listed
          exact ⟨.inl rfl, shown_of_mem (mem_of_mem_currentColumns listed)⟩

section Imported

variable (complete : ∀ parents, (hashOrder parents).Perm parents)
  (shows : ∀ f, f.read = true → ∀ k, r'.shown f k = (r.shown f k).map f.kept)
  (deletes : ∀ k, r'.db.get .inlinedDelete k = none)
  (indexed' : ∀ k row, r'.db.get .dataFileBySnapshot k = some row → k = row.indexKey)

include complete shows deletes indexed' in
theorem imported_whole (exchanged : l.exchanged = true) (member : x ∈ r'.list hashOrder l) :
    x.1.Whole x.2 := by
  obtain ⟨read | deleted, k, shown⟩ := mem_list complete indexed' exchanged member
  · rw [shows x.1 read, map_eq_some_iff] at shown
    obtain ⟨row, _, same⟩ := shown
    refine ⟨fun deleted => ?_, ?_⟩
    · rw [deleted] at read
      contradiction
    · rw [← same, Family.kept_kept]
  · obtain ⟨g, row⟩ := x
    subst deleted
    simp [CatalogReader.shown, deletes] at shown

include shows in
theorem listVisible_whole (read : f.read = true)
    (whole : ∀ row ∈ r.listVisible f start, f.kept row = row) :
    r'.listVisible f start = r.listVisible f start := by
  rw [listVisible_shown (shows f read) start]
  exact (map_congr_left whole).trans (map_id _)

variable (sound : r.db.Sound c) (indexed : r.db.Indexed)
  (unindexed : ∀ k, r'.db.get .tableById k = none)
  (whole : ∀ l, l.exchanged = true → ∀ x ∈ r.list hashOrder l, x.1.Whole x.2)

include shows sound indexed unindexed whole in
theorem findTable_whole (tableId : Nat) : r'.findTable tableId = r.findTable tableId := by
  have tables : r'.listVisible .table [] = r.listVisible .table [] := by
    refine listVisible_whole shows rfl fun row member => ?_
    obtain ⟨k, found, _, visible⟩ := r.mem_listVisible.mp member
    have home := (sound .table k row found).keyed.1
    have listed : row ∈ r.listTables row.schemaId :=
      r.mem_listVisible.mpr ⟨k, found, home ▸ ⟨_, rfl⟩, visible⟩
    exact (whole (.tables row.schemaId) rfl ⟨.table, row⟩ (mem_tagged.mpr ⟨row, listed, rfl⟩)).2
  rw [findTable_eq sound indexed, ← tables]
  simp only [findTable, unindexed]

include complete shows sound indexed unindexed whole in
theorem describeTable_whole (tableId : Nat) :
    r'.describeTable hashOrder tableId = r.describeTable hashOrder tableId := by
  simp only [describeTable, findTable_whole shows sound indexed unindexed whole]
  cases found : r.findTable tableId with
  | none => rfl
  | some table =>
    -- the current columns are all listed, so none of them has anything to lose
    have current : ∀ row ∈ currentColumns (r.listVisible .column [tableId]),
        Family.kept .column row = row := by
      intro row member
      have listed := (mem_sortColumnsTree complete).mpr member
      refine (whole (.columns tableId) rfl ⟨.column, row⟩ ?_).2
      simp only [list, describeTable, found, map_some, described]
      exact mem_cons_of_mem _ (mem_tagged.mpr ⟨row, listed, rfl⟩)
    have kept : currentColumns ((r.listVisible .column [tableId]).map (Family.kept .column)) =
        (currentColumns (r.listVisible .column [tableId])).map (Family.kept .column) := by
      refine currentColumns_map ?_ ?_ _ <;> intro row <;> rfl
    rw [listVisible_shown (shows .column rfl), kept, (map_congr_left current).trans (map_id _)]

include complete shows deletes indexed' sound indexed unindexed whole in
theorem list_whole (exchanged : l.exchanged = true) : r'.list hashOrder l = r.list hashOrder l := by
  cases scans : l.scan with
  | some plain =>
    obtain ⟨f, start⟩ := plain
    have rows : ∀ row ∈ r.listVisible f start, f.Whole row := fun row member =>
      whole l exchanged ⟨f, row⟩ (r.list_scan scans ▸ mem_tagged.mpr ⟨row, member, rfl⟩)
    rw [r'.list_scan scans, r.list_scan scans]
    rcases scan_read scans with read | rfl
    · rw [listVisible_whole shows read fun row member => (rows row member).2]
    · have before : r.listVisible .inlinedDelete start = [] :=
        eq_nil_iff_forall_not_mem.mpr fun row member => (rows row member).1 rfl
      have after : r'.listVisible .inlinedDelete start = [] := by
        refine eq_nil_iff_forall_not_mem.mpr fun row member => ?_
        obtain ⟨k, found, _⟩ := r'.mem_listVisible.mp member
        rw [deletes] at found
        contradiction
      rw [before, after]
  | none =>
    cases l <;> try contradiction
    case columns tableId =>
      simp only [list, describeTable_whole complete shows sound indexed unindexed whole]
    case dataFiles tableId =>
      have listed := listDataFiles_eq sound tableId
      simp only [list]
      rw [listDataFiles_ofIndex indexed', listed, listVisible_whole shows rfl fun row member => ?_]
      refine (whole (.dataFiles tableId) rfl ⟨.dataFileBySnapshot, row⟩ (mem_tagged.mpr ⟨row, ?_, rfl⟩)).2
      rw [listed, sortByKey, mem_insertionSort]
      exact member
    case deleteFiles tableId =>
      simp only [list, listDeleteFiles]
      rw [listVisible_whole shows rfl fun row member => ?_]
      -- a delete file is listed for the table it names, or for every table
      refine (whole (.deleteFiles (row.tableId.getD 0)) rfl ⟨.deleteFile, row⟩
        (mem_tagged.mpr ⟨row, mem_filter.mpr ⟨member, ?_⟩, rfl⟩)).2
      cases row.tableId <;> simp

end Imported

end CatalogReader

def freshDb : Db := Db.empty.putAll initialWrites

theorem freshDb_get (carried : f.carried = true ∨ f = .inlinedDelete ∨ f = .tableById) (k : Key) :
    freshDb.get f k = none := by
  refine get_of_family (Db.empty.putAll_family fun x member => ?_) k
  simp only [initialWrites, CatalogWriter.counterWrites, cons_append, nil_append,
    mem_cons, not_mem_nil, or_false] at member
  rcases member with rfl | rfl | rfl | rfl | rfl <;> rintro rfl <;> simp [Family.carried, Family.duckLakeTable] at carried

/-- The first open of an initialised catalog takes over its counters, with the first epoch. -/
theorem openCatalog_counted {db : Db}
    (format : db.get .catalogFormatVersion keySystem = some catalogFormatVersion)
    (unheld : db.get .writerEpoch keySystem = none) (counters : loadCounters db = .ok c)
    (nonce : String) :
    ∃ db', openCatalog db nonce = .ok (finishOpen db' c 1 nonce, db') ∧
      ∀ f, f ≠ .writerEpoch → f ≠ .writerNonce → db' f = db f := by
  obtain ⟨db', acquired⟩ : ∃ db', acquireEpoch db nonce = .ok (1, db') := by
    rw [acquireEpoch, unheld]
    exact ⟨_, rfl⟩
  refine ⟨db', ?_, (acquireEpoch_ok acquired).2.2.2⟩
  simp [openCatalog, initializeCatalog, format, counters, Except.map, acquired, bind, Except.bind]

/-- Opening an imported catalog adds an epoch and a nonce, and its readers are not held back. -/
theorem openCatalog_imported (source : Db) (snapshot : Nat) (nonce : String) :
    ∃ store db, openCatalog (freshDb.putAll (exportPuts source snapshot)) nonce =
        .ok (store, db) ∧ store.readAt db snapshot = .ok ⟨db, snapshot⟩ ∧
      ∀ f, f ≠ .writerEpoch → f ≠ .writerNonce →
        db f = (freshDb.putAll (exportPuts source snapshot)) f := by
  have uncarried : ∀ {f : Family}, f.carried = false →
      (freshDb.putAll (exportPuts source snapshot)) f = freshDb f := exportPuts_family
  obtain ⟨db, opened, kept⟩ := openCatalog_counted (get_of_family (uncarried rfl) _)
    (get_of_family (uncarried rfl) _) ((loadCounters_congr fun id =>
      get_of_family (uncarried rfl) _).trans (loadCounters_initial _)) nonce
  have floor : db.get .retainFrom keySystem = some 0 :=
    (get_of_family ((kept .retainFrom (by decide) (by decide)).trans (uncarried rfl)) _).trans rfl
  exact ⟨_, db, opened, by simp [readAt, finishOpen, floor], kept⟩

namespace Catalog

variable {env : Env} {catalog : Catalog}

/-- A reader of an imported catalog is shown what the export kept of the rows that a reader of the
original is shown. -/
theorem Reachable.shown_imported (reachable : catalog.Reachable env) {snapshot : Nat} {db : Db}
    (kept : ∀ f, f ≠ .writerEpoch → f ≠ .writerNonce → db f = (freshDb.putAll (exportPuts catalog.db snapshot)) f)
    (read : f.read = true) (k : Key) :
    CatalogReader.shown ⟨db, snapshot⟩ f k =
      (CatalogReader.shown ⟨catalog.db, snapshot⟩ f k).map f.kept := by
  have carried : f.carried = true := by cases f <;> first | rfl | contradiction
  have same : db f = (freshDb.putAll (exportPuts catalog.db snapshot)) f :=
    kept f (by rintro rfl; contradiction) (by rintro rfl; contradiction)
  have imported := get_imported reachable.valid.consistent reachable.placed carried snapshot
    (freshDb_get (.inl carried) k)
  simp only [CatalogReader.shown, get_of_family same, imported]
  cases catalog.db.get f k with
  | none => rfl
  | some row =>
    have exported : exports snapshot f row = isVisible (f.beginOf row) (f.endOf row) snapshot := by
      cases f <;> first | rfl | contradiction
    have alike : isVisible (f.beginOf (f.kept row)) (f.endOf (f.kept row)) snapshot =
        exports snapshot f row := by
      rw [exported]
      cases f <;> rfl
    rw [filter_some, filter_some, ← exported]
    by_cases visible : exports snapshot f row = true <;> simp [visible, alike]

/-- Importing the export of a reachable catalog into a fresh database succeeds, and a reader of the
imported catalog gets the rows of the original one exactly when every row that the original lists is
exported whole. -/
theorem export_import_iff (reachable : catalog.Reachable env) (codec : Base64)
    {hashOrder : List Nat → List Nat} (complete : ∀ parents, (hashOrder parents).Perm parents)
    (snapshot : Nat) (nonce : String) :
    ∃ result db reader store db' reader',
      importCatalog codec freshDb ((exportCatalog codec catalog.db (some snapshot)).1.map .row) =
        (.ok result, db) ∧
      catalog.store.readAt catalog.db snapshot = .ok reader ∧
      openCatalog db nonce = .ok (store, db') ∧
      store.readAt db' snapshot = .ok reader' ∧
      ((∀ l : Listing, l.exchanged = true → reader'.list hashOrder l = reader.list hashOrder l) ↔
        ∀ l : Listing, l.exchanged = true → ∀ x ∈ reader.list hashOrder l, x.1.Whole x.2) := by
  have valid := reachable.valid
  obtain ⟨result, imported⟩ := importCatalog_export codec catalog.db snapshot freshDb
  obtain ⟨store, db', opened, read, kept⟩ := openCatalog_imported catalog.db snapshot nonce
  refine ⟨result, _, ⟨catalog.db, snapshot⟩, store, db', ⟨db', snapshot⟩, imported,
    by simp [readAt, valid.cached], opened, read, ?_⟩
  have shows : ∀ f, f.read = true → ∀ k, CatalogReader.shown ⟨db', snapshot⟩ f k =
      (CatalogReader.shown ⟨catalog.db, snapshot⟩ f k).map f.kept :=
    fun f read k => reachable.shown_imported kept read k
  have absent : ∀ f, f = .inlinedDelete ∨ f = .tableById → ∀ k, db'.get f k = none := by
    intro f either k
    have uncarried : f.carried = false ∧ f ≠ .writerEpoch ∧ f ≠ .writerNonce := by
      rcases either with rfl | rfl <;> decide
    rw [get_of_family (kept f uncarried.2.1 uncarried.2.2),
      get_of_family (exportPuts_family uncarried.1), freshDb_get (.inr either)]
  have indexed : ∀ k row, db'.get .dataFileBySnapshot k = some row → k = row.indexKey := by
    intro k row found
    rw [get_of_family (kept .dataFileBySnapshot (by decide) (by decide)),
      get_imported valid.consistent reachable.placed rfl snapshot (freshDb_get (.inl rfl) k),
      map_eq_some_iff] at found
    obtain ⟨old, stored, rfl⟩ := found
    exact (valid.consistent.sound .dataFileBySnapshot k old (filter_eq_some_iff.mp stored).1).keyed.1
  constructor
  · intro same l exchanged x member
    rw [← same l exchanged] at member
    exact CatalogReader.imported_whole complete shows (absent _ (.inl rfl)) indexed exchanged member
  · intro whole l exchanged
    exact CatalogReader.list_whole complete shows (absent _ (.inl rfl)) indexed valid.consistent.sound
      valid.consistent.linked.indexed (absent _ (.inr rfl)) whole exchanged

/-- A catalog with one view loses nothing. -/
theorem export_import_view : ∃ (catalog : Catalog) (result : ImportResult) (db : Db) (reader : CatalogReader)
    (store : CatalogStore) (db' : Db) (reader' : CatalogReader),
    catalog.Reachable Env.trivial ∧
    importCatalog Base64.sample freshDb
      ((exportCatalog Base64.sample catalog.db (some 1)).1.map .row) = (.ok result, db) ∧
    catalog.store.readAt catalog.db 1 = .ok reader ∧ reader.listAllViews.map (·.viewName) = ["totals"] ∧
    openCatalog db "b" = .ok (store, db') ∧ store.readAt db' 1 = .ok reader' ∧
    ∀ l : Listing, l.exchanged = true → reader'.list id l = reader.list id l := by
  obtain ⟨catalog, writes, reachable, written, views, listed⟩ :
      ∃ (catalog : Catalog) (writes : List Write), catalog.Reachable Env.trivial ∧
        catalog.db = Db.empty.putAll writes ∧
        (∀ x ∈ writes, x.family.read = true ∨ x.family = .inlinedDelete → x.family = .view) ∧
        (CatalogReader.mk catalog.db 1).listAllViews.map (·.viewName) = ["totals"] :=
    ⟨_, initialWrites ++ [⟨.writerEpoch, keySystem, 1⟩, ⟨.writerNonce, keySystem, "a"⟩] ++ _,
      .session (.opened "a" rfl) ⟨[.staging (.createView 1 ⟨"totals", "SELECT 1", none, none, none⟩
      "4b1d")], {}⟩ rfl, rfl, by decide, by decide +kernel⟩
  have complete : ∀ parents : List Nat, (id parents).Perm parents := fun _ => .refl _
  obtain ⟨result, db, reader, store, db', reader', imported, read, opened, read', same⟩ :=
    export_import_iff reachable Base64.sample complete 1 "b"
  have bound : reader = ⟨catalog.db, 1⟩ := by
    simp only [readAt, reachable.valid.cached] at read
    cases read
    rfl
  subst bound
  refine ⟨catalog, result, db, _, store, db', reader', reachable, imported, read, listed, opened, read',
    same.mpr fun l exchanged x member => ?_⟩
  obtain ⟨family, k, shown⟩ := CatalogReader.mem_list complete
    (fun k row found => (reachable.valid.consistent.sound .dataFileBySnapshot k row found).keyed.1)
    exchanged member
  have stored := (filter_eq_some_iff.mp shown).1
  simp only [written] at stored
  rcases Db.empty.get_putAll (f := x.1) writes k with ⟨row, put, _⟩ | ⟨_, kept⟩
  · obtain ⟨f, row'⟩ := x
    obtain rfl : f = .view := views _ put family
    exact ⟨(fun same => by cases same), rfl⟩
  · rw [kept] at stored
    contradiction

/-- The schema `main` loses its UUID. -/
theorem export_drops_uuid : ∃ (catalog : Catalog) (result : ImportResult) (db : Db),
    catalog.Reachable Env.trivial ∧
    importCatalog Base64.sample freshDb
      ((exportCatalog Base64.sample catalog.db (some 1)).1.map .row) = (.ok result, db) ∧
    (CatalogReader.mk catalog.db 1).listSchemas.map (·.schemaUuid) = [some "4b1d"] ∧
    (CatalogReader.mk db 1).listSchemas.map (·.schemaUuid) = [none] := by
  have reachable : Catalog.Reachable Env.trivial _ :=
    .session (.opened "a" rfl) createOrders rfl
  obtain ⟨result, imported⟩ := importCatalog_export Base64.sample _ 1 freshDb
  exact ⟨_, result, _, reachable, imported, by decide +kernel, by decide +kernel⟩

end Catalog

end RockLake
