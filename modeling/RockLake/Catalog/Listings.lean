import RockLake.Catalog.Reads

/-! The listings of a reader as one family of queries. Two readers that are shown the same rows of the
catalog under every key, up to end snapshots, give the same answers up to those end snapshots. -/
namespace RockLake

open List

abbrev AnyRow : Type := (f : Family) × f.Row

inductive Listing where
  | schemas
  | tables (schemaId : Nat)
  | columns (tableId : Nat)
  | dataFiles (tableId : Nat)
  | deleteFiles (tableId : Nat)
  | inlinedInserts (tableId : Nat)
  | inlinedDeletes (tableId : Nat)
  | views (schemaId : Nat)
  | allViews
  | macros (schemaId : Nat)
  | allMacros
  | tags (objectId : Nat)
  | allTags
  | columnTags (tableId columnId : Nat)
  | allColumnTags
  | allSortInfo
  | allSnapshotChanges
  | allTableStats
  | allTableColumnStats
  | fileColumnStats (tableId columnId : Nat)
  | fileVariantStats (tableId columnId : Nat)
  | allMetadata
  | macroImpls (macroId : Nat)
  | macroParameters (macroId implId : Nat)
  | filesScheduledForDeletion
  | allSchemaVersions
  | inlinedDataTables (tableId : Option Nat)

def tagged (f : Family) (rows : List f.Row) : List AnyRow := rows.map (Sigma.mk f)

namespace CatalogReader

/-- A table description as a list: the table row, then its columns. -/
def described : Option (TableRow × List ColumnRow) → List AnyRow
  | none => []
  | some (table, columns) => ⟨.table, table⟩ :: tagged .column columns

def list (hashOrder : List Nat → List Nat) (r : CatalogReader) : Listing → List AnyRow
  | .schemas => tagged .schema r.listSchemas
  | .tables schemaId => tagged .table (r.listTables schemaId)
  | .columns tableId => described (r.describeTable hashOrder tableId)
  | .dataFiles tableId => tagged .dataFileBySnapshot (r.listDataFiles tableId)
  | .deleteFiles tableId => tagged .deleteFile (r.listDeleteFiles tableId)
  | .inlinedInserts tableId => tagged .inlinedInsert (r.listInlinedInserts tableId)
  | .inlinedDeletes tableId => tagged .inlinedDelete (r.listInlinedDeletes tableId)
  | .views schemaId => tagged .view (r.listViews schemaId)
  | .allViews => tagged .view r.listAllViews
  | .macros schemaId => tagged .macros (r.listMacros schemaId)
  | .allMacros => tagged .macros r.listAllMacros
  | .tags objectId => tagged .tag (r.listTags objectId)
  | .allTags => tagged .tag r.listAllTags
  | .columnTags tableId columnId => tagged .columnTag (r.listColumnTags tableId columnId)
  | .allColumnTags => tagged .columnTag r.listAllColumnTags
  | .allSortInfo => tagged .sortInfo r.listAllSortInfo
  | .allSnapshotChanges => tagged .snapshotChanges r.listAllSnapshotChanges
  | .allTableStats => tagged .tableStats r.listAllTableStats
  | .allTableColumnStats => tagged .tableColumnStats r.listAllTableColumnStats
  | .fileColumnStats tableId columnId =>
    tagged .fileColumnStats (r.listFileColumnStats tableId columnId)
  | .fileVariantStats tableId columnId =>
    tagged .fileVariantStats (r.listFileVariantStats tableId columnId)
  | .allMetadata => tagged .metadata r.listAllMetadata
  | .macroImpls macroId => tagged .macroImpl (r.listMacroImpls macroId)
  | .macroParameters macroId implId =>
    tagged .macroParameters (r.listMacroParameters macroId implId)
  | .filesScheduledForDeletion =>
    tagged .filesScheduledForDeletion r.listFilesScheduledForDeletion
  | .allSchemaVersions => tagged .schemaVersions r.listAllSchemaVersions
  | .inlinedDataTables tableId => tagged .inlinedDataTables (r.listInlinedDataTables tableId)

def shown (r : CatalogReader) (f : Family) (k : Key) : Option f.Row :=
  (r.db.get f k).filter fun row => isVisible (f.beginOf row) (f.endOf row) r.snapshot

end CatalogReader

def Retouches (g : (f : Family) → f.Row → f.Row) : Prop :=
  ∀ f row, ∃ ended, g f row = f.setEnd ended row

/-- The families of the listings, other than the inlined deletes. -/
def Family.listed (f : Family) : Bool := !f.booked && f ≠ .inlinedDelete && f ≠ .snapshot

theorem Retouches.refl : Retouches fun _ row => row :=
  fun f row => ⟨f.endOf row, (Family.setEnd_endOf row).symm⟩

theorem Family.isVisible_unversioned {f : Family} (unversioned : f.versioned = false) (row : f.Row)
    (snapshot : Nat) : isVisible (f.beginOf row) (f.endOf row) snapshot = true := by
  have begun : f.beginOf row = 0 := by cases f <;> first | rfl | contradiction
  have live : f.endOf row = none := by cases f <;> first | rfl | contradiction
  simp [isVisible, begun, live]

theorem Retouches.unversioned (retouches : Retouches g) (unversioned : f.versioned = false) : g f = id := by
  funext row
  obtain ⟨ended, same⟩ := retouches f row
  rw [same]
  cases f <;> first | rfl | contradiction

namespace CatalogReader

variable {r r' : CatalogReader} {g : (f : Family) → f.Row → f.Row} {f : Family}

theorem listVisible_filterMap (r : CatalogReader) (f : Family) (start : Key) (g : f.Row → Option R) :
    (r.listVisible f start).filterMap g = (r.db f).collect fun k row =>
      if start <+: k ∧ isVisible (f.beginOf row) (f.endOf row) r.snapshot = true then g row
      else none := by
  rw [listVisible_eq, filterMap_map, OrderedMap.collect, filterMap_filter]
  refine filterMap_congr fun e _ => ?_
  simp [Function.comp]

theorem listVisible_collect (r : CatalogReader) (f : Family) (start : Key) (g : f.Row → f.Row) :
    (r.listVisible f start).map g = (r.db f).collect fun k row =>
      if start <+: k ∧ isVisible (f.beginOf row) (f.endOf row) r.snapshot = true then some (g row)
      else none := by
  rw [← filterMap_eq_map, listVisible_filterMap]
  rfl

/-- Scans of readers that are shown the same rows under the scanned keys, up to a change of rows. -/
theorem listVisible_shownFrom (shows : ∀ k, start <+: k → r'.shown f k = (r.shown f k).map h) :
    r'.listVisible f start = (r.listVisible f start).map h := by
  rw [← map_id (r'.listVisible f start), listVisible_collect, listVisible_collect]
  refine OrderedMap.collect_congr fun k => ?_
  by_cases starts : start <+: k
  · simp only [starts, true_and]
    have after : ((r'.db f).get k).bind (fun row =>
        if isVisible (f.beginOf row) (f.endOf row) r'.snapshot = true then some (id row) else none) =
        r'.shown f k := by
      rw [shown, Db.get]
      cases (r'.db f).get k <;> rfl
    have before : ((r.db f).get k).bind (fun row =>
        if isVisible (f.beginOf row) (f.endOf row) r.snapshot = true then some (h row) else none) =
        (r.shown f k).map h := by
      rw [shown, Db.get]
      cases (r.db f).get k with
      | none => rfl
      | some row =>
        by_cases visible : isVisible (f.beginOf row) (f.endOf row) r.snapshot = true <;>
          simp [Option.filter, visible]
    rw [after, before, shows k starts]
  · simp [starts]

theorem listVisible_shown (shows : ∀ k, r'.shown f k = (r.shown f k).map h) (start : Key) :
    r'.listVisible f start = (r.listVisible f start).map h :=
  listVisible_shownFrom fun k _ => shows k

theorem listStored_eq (unversioned : f.versioned = false) (start : Key) :
    r.listStored f start = r.listVisible f start := by
  rw [listStored, listVisible, filter_eq_self.mpr]
  intro e _
  exact Family.isVisible_unversioned unversioned e.2 r.snapshot

theorem get_shown (unversioned : f.versioned = false) (retouches : Retouches g)
    (shows : ∀ k, r'.shown f k = (r.shown f k).map (g f)) (k : Key) :
    r'.db.get f k = r.db.get f k := by
  have all : ∀ r : CatalogReader, r.shown f k = r.db.get f k := by
    intro r
    rw [shown]
    cases r.db.get f k with
    | none => rfl
    | some row => simp [Option.filter, Family.isVisible_unversioned unversioned]
  have under := shows k
  rwa [all, all, retouches.unversioned unversioned, Option.map_id_fun, id_eq] at under

theorem retouches_keepsOrder (retouches : Retouches g) : KeepsOrder (g .column) := by
  constructor <;> intro row <;> obtain ⟨ended, same⟩ := retouches .column row <;> rw [same] <;> rfl

def retouch (g : (f : Family) → f.Row → f.Row) (x : AnyRow) : AnyRow := ⟨x.1, g x.1 x.2⟩

theorem tagged_map (f : Family) (rows : List f.Row) : tagged f (rows.map (g f)) = (tagged f rows).map (retouch g) := by
  simp [tagged, retouch, Function.comp_def]

section Shown

variable (retouches : Retouches g)
  (shows : ∀ f, f.listed = true → ∀ k, r'.shown f k = (r.shown f k).map (g f))

include retouches shows

theorem findTable_shown (tableId : Nat) :
    r'.findTable tableId = (r.findTable tableId).map (g .table) := by
  have begun : ∀ row, (g .table row).beginSnapshot = row.beginSnapshot := by
    intro row
    obtain ⟨ended, same⟩ := retouches .table row
    rw [same]
    rfl
  have owner : ∀ row, (g .table row).tableId = row.tableId := by
    intro row
    obtain ⟨ended, same⟩ := retouches .table row
    rw [same]
    rfl
  rw [findTable, get_shown rfl retouches (shows .tableById rfl), findTable]
  cases r.db.get .tableById (keyTableById tableId) with
  | some schemaId => simp only [listVisible_shown (shows .table rfl), newest_map _ begun]
  | none =>
    simp [listVisible_shown (shows .table rfl), filter_map, Function.comp_def, owner, newest_map _
      begun]

theorem describeTable_shown (hashOrder : List Nat → List Nat) (tableId : Nat) :
    r'.describeTable hashOrder tableId = (r.describeTable hashOrder tableId).map
      fun d => (g .table d.1, d.2.map (g .column)) := by
  simp [describeTable, findTable_shown retouches shows, listVisible_shown (shows .column rfl),
    currentColumns_map (retouches_keepsOrder retouches).columnId (retouches_keepsOrder
    retouches).beginSnapshot, sortColumnsTree_map (retouches_keepsOrder retouches),
    Function.comp_def]

theorem listDataFiles_shown (sound : r.db.Sound c) (sound' : r'.db.Sound c') (tableId : Nat) :
    r'.listDataFiles tableId = (r.listDataFiles tableId).map (g .dataFileBySnapshot) := by
  rw [listDataFiles_eq sound, listDataFiles_eq sound', listVisible_shown (shows .dataFileBySnapshot rfl),
    sortByKey_map]
  intro row
  obtain ⟨ended, same⟩ := retouches .dataFileBySnapshot row
  rw [same]
  rfl

theorem listDeleteFiles_shown (tableId : Nat) :
    r'.listDeleteFiles tableId = (r.listDeleteFiles tableId).map (g .deleteFile) := by
  have owner : ∀ row, (g .deleteFile row).tableId = row.tableId := by
    intro row
    obtain ⟨ended, same⟩ := retouches .deleteFile row
    rw [same]
    rfl
  simp [listDeleteFiles, listVisible_shown (shows .deleteFile rfl), filter_map, Function.comp_def,
    owner]

theorem listInlinedDataTables_shown (tableId : Option Nat) :
    r'.listInlinedDataTables tableId = r.listInlinedDataTables tableId := by
  have rows := listVisible_shown (shows .inlinedDataTables rfl) []
  rw [retouches.unversioned rfl, map_id, ← listStored_eq rfl, ← listStored_eq rfl] at rows
  simp [listInlinedDataTables, rows]

/-- Readers with the same data files and inlined deletes that are shown the same other rows. -/
theorem list_shownApart (hashOrder : List Nat → List Nat)
    (files : ∀ tableId,
      r'.listDataFiles tableId = (r.listDataFiles tableId).map (g .dataFileBySnapshot))
    (deletes : ∀ tableId,
      r'.listInlinedDeletes tableId = (r.listInlinedDeletes tableId).map (g .inlinedDelete))
    (l : Listing) : r'.list hashOrder l = (r.list hashOrder l).map (retouch g) := by
  have visible : ∀ f start, f.listed = true → tagged f (r'.listVisible f start) =
      (tagged f (r.listVisible f start)).map (retouch g) := fun f start listed => by
    rw [listVisible_shown (shows f listed), tagged_map f]
  have stored : ∀ f start, f.listed = true → f.versioned = false →
      tagged f (r'.listStored f start) = (tagged f (r.listStored f start)).map (retouch g) :=
    fun f start listed unversioned => by
      rw [listStored_eq unversioned, listStored_eq unversioned, visible f start listed]
  cases l with
  | schemas | tables | inlinedInserts | views | allViews | macros | allMacros | tags | allTags
  | columnTags | allColumnTags | allSortInfo => exact visible _ _ rfl
  | allSnapshotChanges | allTableStats | allTableColumnStats | fileColumnStats | fileVariantStats
  | allMetadata | macroImpls | macroParameters | filesScheduledForDeletion | allSchemaVersions =>
    exact stored _ _ rfl rfl
  | columns tableId =>
    simp only [list, describeTable_shown retouches shows hashOrder]
    cases r.describeTable hashOrder tableId with
    | none => rfl
    | some d => exact congrArg (List.cons _) (tagged_map .column d.2)
  | dataFiles tableId =>
    rw [list, files]
    exact tagged_map .dataFileBySnapshot _
  | deleteFiles tableId =>
    rw [list, listDeleteFiles_shown retouches shows]
    exact tagged_map .deleteFile _
  | inlinedDeletes tableId =>
    rw [list, deletes]
    exact tagged_map .inlinedDelete _
  | inlinedDataTables tableId =>
    rw [list, list, listInlinedDataTables_shown retouches shows, ← tagged_map .inlinedDataTables,
      retouches.unversioned rfl, map_id]

end Shown

/-- Answers of two readers that are shown the same rows, up to a change of end snapshots. -/
theorem list_shown (hashOrder : List Nat → List Nat) (retouches : Retouches g)
    (sound : r.db.Sound c) (sound' : r'.db.Sound c')
    (shows : ∀ f, f.booked = false → ∀ k, r'.shown f k = (r.shown f k).map (g f)) (l : Listing) :
    r'.list hashOrder l = (r.list hashOrder l).map (retouch g) := by
  have listed : ∀ f, f.listed = true → ∀ k, r'.shown f k = (r.shown f k).map (g f) := by
    intro f listed
    exact shows f (by cases f <;> first | rfl | contradiction)
  exact list_shownApart retouches listed hashOrder
    (listDataFiles_shown retouches listed sound sound')
    (fun tableId => listVisible_shown (shows .inlinedDelete rfl) [tableId]) l

end CatalogReader

end RockLake
