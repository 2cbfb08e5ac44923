import RockLake.Catalog.Store

/-! Snapshot reads. Listings scan a family and keep the rows visible at the bound snapshot; data
files come from the snapshot index, and a table description joins the newest visible table row with
its columns in tree order. -/
namespace RockLake

structure SnapshotDiff where
  fromSnapshot : Nat
  toSnapshot : Nat
  addedSchemas : List SchemaRow
  retiredSchemas : List SchemaRow
  addedTables : List TableRow
  retiredTables : List TableRow
  addedColumns : List ColumnRow
  retiredColumns : List ColumnRow
  addedDataFiles : List DataFileRow
  retiredDataFiles : List DataFileRow

namespace CatalogReader

variable (r : CatalogReader)

def getSnapshot : Option SnapshotRow := r.db.get .snapshot (keySnapshot r.snapshot)

def listVisible (f : Family) (start : Key) : List f.Row :=
  ((r.db.scanPrefix f start).filter fun e =>
    isVisible (f.beginOf e.2) (f.endOf e.2) r.snapshot).map Prod.snd

def listSchemas : List SchemaRow := r.listVisible .schema []
def listTables (schemaId : Nat) : List TableRow := r.listVisible .table [schemaId]
def listInlinedInserts (tableId : Nat) : List InlinedInsertRow :=
  r.listVisible .inlinedInsert [tableId]
def listInlinedDeletes (tableId : Nat) : List InlinedDeleteRow :=
  r.listVisible .inlinedDelete [tableId]
def listViews (schemaId : Nat) : List ViewRow := r.listVisible .view [schemaId]
def listAllViews : List ViewRow := r.listVisible .view []
def listMacros (schemaId : Nat) : List MacroRow := r.listVisible .macros [schemaId]
def listAllMacros : List MacroRow := r.listVisible .macros []
def listTags (objectId : Nat) : List TagRow := r.listVisible .tag [objectId]
def listAllTags : List TagRow := r.listVisible .tag []
def listColumnTags (tableId columnId : Nat) : List ColumnTagRow :=
  r.listVisible .columnTag [tableId, columnId]
def listAllColumnTags : List ColumnTagRow := r.listVisible .columnTag []
def listAllSortInfo : List SortInfoRow := r.listVisible .sortInfo []

/-- The listings of rows without versions; they do not depend on the snapshot. -/
def listStored (f : Family) (start : Key) : List f.Row := (r.db.scanPrefix f start).map Prod.snd

def listAllSnapshotChanges : List SnapshotChangesRow := r.listStored .snapshotChanges []
def listAllTableStats : List TableStatsRow := r.listStored .tableStats []
def listAllTableColumnStats : List TableColumnStatsRow := r.listStored .tableColumnStats []
def listFileColumnStats (tableId columnId : Nat) : List FileColumnStatsRow :=
  r.listStored .fileColumnStats [tableId, columnId]
def listFileVariantStats (tableId columnId : Nat) : List FileVariantStatsRow :=
  r.listStored .fileVariantStats [tableId, columnId]
def listAllMetadata : List MetadataRow := r.listStored .metadata []
def listMacroImpls (macroId : Nat) : List MacroImplRow := r.listStored .macroImpl [macroId]
def listMacroParameters (macroId implId : Nat) : List MacroParametersRow :=
  r.listStored .macroParameters [macroId, implId]
def listFilesScheduledForDeletion : List FilesScheduledForDeletionRow :=
  r.listStored .filesScheduledForDeletion []
def listAllSchemaVersions : List SchemaVersionsRow := r.listStored .schemaVersions []

def listInlinedDataTables (tableId : Option Nat) : List InlinedDataTablesRow :=
  ((r.listStored .inlinedDataTables []).filter fun row =>
    match tableId with
    | some owner => owner = row.tableId
    | none => true).insertionSort fun a b =>
      a.tableId < b.tableId ∨ a.tableId = b.tableId ∧ a.schemaVersion ≤ b.schemaVersion

/-- A delete file without a table id is listed for every table. -/
def listDeleteFiles (tableId : Nat) : List DeleteFileRow :=
  (r.listVisible .deleteFile []).filter fun row =>
    match row.tableId with
    | some owner => owner = tableId
    | none => true

def sortByKey {R : Type} (key : R → Nat) (rows : List R) : List R :=
  rows.insertionSort fun a b => key a ≤ key b

/-- The scan of the snapshot index stops at the first key past the bound snapshot. -/
def listDataFiles (tableId : Nat) : List DataFileRow :=
  let scanned := (r.db.scanPrefix .dataFileBySnapshot [tableId]).takeWhile
    fun e => e.1 < [tableId, r.snapshot + 1]
  let files := (scanned.map Prod.snd).filter fun row =>
    match row.endSnapshot with
    | some ended => r.snapshot < ended
    | none => true
  sortByKey (fun row => row.fileOrder.getD row.dataFileId) files

def newer (best : Option TableRow) (row : TableRow) : Option TableRow :=
  match best with
  | none => some row
  | some existing => if row.beginSnapshot > existing.beginSnapshot then some row else best

def newest (rows : List TableRow) : Option TableRow := rows.foldl newer none

def findTable (tableId : Nat) : Option TableRow :=
  match r.db.get .tableById (keyTableById tableId) with
  | some schemaId => newest (r.listVisible .table [schemaId, tableId])
  | none => newest ((r.listVisible .table []).filter fun row => row.tableId = tableId)

def dedupColumns : List ColumnRow → List ColumnRow
  | [] => []
  | row :: rest => row :: (dedupColumns rest).dropWhile fun next => next.columnId = row.columnId

/-- Newest version first within a column, then one row for each column. -/
def currentColumns (rows : List ColumnRow) : List ColumnRow :=
  dedupColumns (rows.insertionSort fun a b =>
    a.columnId < b.columnId ∨ a.columnId = b.columnId ∧ b.beginSnapshot ≤ a.beginSnapshot)

/-- Preorder expansion of a column forest: the next column is emitted and its children, taken out
of the map from parent to children, are expanded before its siblings. The map is the list of the
rows still in it. One column is emitted for each unit of fuel. -/
def expand : Nat → List ColumnRow → List ColumnRow → List ColumnRow × List ColumnRow
  | 0, _, children => ([], children)
  | _, [], children => ([], children)
  | fuel + 1, col :: waiting, children =>
    let kids := children.filter fun c => c.parentColumn = some col.columnId
    let others := children.filter fun c => c.parentColumn ≠ some col.columnId
    let (out, left) := expand fuel (sortByKey (·.columnIndex) kids ++ waiting) others
    (col :: out, left)

/-- Top-level columns by index, each followed by its descendants. Children of absent parents come
last, parent by parent in the iteration order of the hash map that holds them. -/
def sortColumnsTree (hashOrder : List Nat → List Nat) (columns : List ColumnRow) :
    List ColumnRow :=
  let sorted := sortByKey (·.columnIndex) columns
  let roots := sorted.filter fun c => c.parentColumn.isNone
  let children := sorted.filter fun c => c.parentColumn.isSome
  let (out, orphans) := expand columns.length roots children
  let parents := hashOrder (orphans.filterMap (·.parentColumn)).dedup
  out ++ parents.flatMap fun parent => orphans.filter fun c => c.parentColumn = some parent

def addedBetween (f : Family) (fromSnapshot toSnapshot : Nat) : List f.Row :=
  (r.listStored f []).filter fun row =>
    f.beginOf row > fromSnapshot && f.beginOf row ≤ toSnapshot

def retiredBetween (f : Family) (fromSnapshot toSnapshot : Nat) : List f.Row :=
  (r.listStored f []).filter fun row =>
    (f.endOf row).any fun ended => ended > fromSnapshot && ended ≤ toSnapshot

/-- The whole store is looked at, whatever snapshot the reader is bound to. -/
def snapshotDiff (fromSnapshot toSnapshot : Nat) : SnapshotDiff :=
  { fromSnapshot, toSnapshot
    addedSchemas := r.addedBetween .schema fromSnapshot toSnapshot
    retiredSchemas := r.retiredBetween .schema fromSnapshot toSnapshot
    addedTables := r.addedBetween .table fromSnapshot toSnapshot
    retiredTables := r.retiredBetween .table fromSnapshot toSnapshot
    addedColumns := r.addedBetween .column fromSnapshot toSnapshot
    retiredColumns := r.retiredBetween .column fromSnapshot toSnapshot
    addedDataFiles := r.addedBetween .dataFile fromSnapshot toSnapshot
    retiredDataFiles := r.retiredBetween .dataFile fromSnapshot toSnapshot }

def describeTable (hashOrder : List Nat → List Nat) (tableId : Nat) :
    Option (TableRow × List ColumnRow) :=
  (r.findTable tableId).map fun table =>
    (table, sortColumnsTree hashOrder (currentColumns (r.listVisible .column [tableId])))

end CatalogReader

end RockLake
