import RockLake.Core.Db
import RockLake.Core.Mvcc

/-! Staging methods of the catalog writer. Every method reads the committed store only, appends
key-value pairs to the staged list and never touches the store; `createSnapshot` commits them.
Fresh UUIDs are arguments, since the writer draws them at random. -/
namespace RockLake

inductive CatalogError where
  | notInitialized
  | formatVersionMismatch (expected actual : Nat)
  | writerEpochMismatch
  | notFound (what : String)
  | valueTooLarge (size : Nat)
  | transactionConflict (message : String)
  | pinnedSnapshotBlocks (pinnedSnapshot requestedRetainFrom : Nat)
  | excisionUnsafe (retainFrom beforeSnapshot : Nat)
  | snapshotOutOfRetention (requested retainFrom : Nat)
  | internal (message : String)
  | invalidInput (message : String)
  | identifierTooLong (actual max : Nat)
  deriving DecidableEq

/-- Standard-library behaviour the writer depends on without looking inside: the hash of a tag key
and the comparison of two texts as finite floating-point numbers. -/
structure Env where
  hashTagKey : String → Nat
  finiteFloatLe : String → String → Option Bool

structure CatalogWriter where
  counters : CounterCache
  writerEpoch : Nat
  writerNonce : String
  schemaChanged : Bool
  currentSchemaVersion : Nat
  staged : List Write
  pendingSnapshotChanges : Option SnapshotChangesRow

/-- What a successful writer call returns. -/
inductive Reply where
  | unit
  | id (n : Nat)
  | column (row : ColumnRow)
  | range (start stop : Nat)
  deriving DecidableEq

namespace CatalogWriter

variable (db : Db) (w : CatalogWriter)

def stage (writes : List Write) : CatalogWriter := { w with staged := w.staged ++ writes }

def markSchemaChanged : CatalogWriter := { w with schemaChanged := true }

def snapshotId : Nat := w.counters.nextSnapshotId

def allocCatalogId : Nat × CatalogWriter :=
  let (id, counters) := w.counters.allocCatalogId
  (id, { w with counters })

def allocFileId : Nat × CatalogWriter :=
  let (id, counters) := w.counters.allocFileId
  (id, { w with counters })

/-- Retire one stored row by key: the row is read from the store, its end snapshot is set whatever
it was before, and the result is staged under the same key. -/
def retireRow (f : Family) (key : Key) (what : String) : Except CatalogError CatalogWriter :=
  match db.get f key with
  | none => .error (.notFound what)
  | some row => .ok (w.stage [⟨f, key, f.setEnd (some w.snapshotId) row⟩])

/-- The cascade over scanned entries: those still live and selected are staged as retired. -/
def retireLive (f : Family) (select : f.Row → Bool) (entries : List (Key × f.Row)) : List Write :=
  (entries.filter fun e => select e.2 && (f.endOf e.2).isNone).map
    fun e => ⟨f, e.1, f.setEnd (some w.snapshotId) e.2⟩

/-- The row `createSchema` stages: the next catalog id, beginning at the session's snapshot. -/
def newSchemaRow (schemaName uuid : String) : SchemaRow :=
  { schemaId := w.counters.nextCatalogId, schemaName, beginSnapshot := w.snapshotId,
    endSnapshot := none, schemaUuid := some uuid, path := none, pathIsRelative := some true }

def createSchema (schemaName uuid : String) : Nat × CatalogWriter :=
  let row := w.newSchemaRow schemaName uuid
  let (schemaId, w) := w.allocCatalogId
  (schemaId, (w.stage [⟨.schema, keySchema schemaId, row⟩]).markSchemaChanged)

def dropSchema (schemaId : Nat) : Except CatalogError CatalogWriter :=
  (w.retireRow db .schema (keySchema schemaId) s!"schema {schemaId}").map markSchemaChanged

def newTableRow (schemaId : Nat) (tableName : String) (dataPath : Option String) (uuid : String) :
    TableRow :=
  { tableId := w.counters.nextCatalogId, schemaId, tableName, beginSnapshot := w.snapshotId,
    endSnapshot := none, path := dataPath, tableUuid := some uuid, pathIsRelative := some true }

def createTable (schemaId : Nat) (tableName : String) (dataPath : Option String) (uuid : String) :
    Nat × CatalogWriter :=
  let row := w.newTableRow schemaId tableName dataPath uuid
  let (tableId, w) := w.allocCatalogId
  (tableId, (w.stage
    [⟨.table, keyTable schemaId tableId w.snapshotId, row⟩,
     ⟨.tableById, keyTableById tableId, schemaId⟩]).markSchemaChanged)

/-- Live data files of a table, as the cascade of `dropTable` finds them. -/
def liveDataFiles (tableId : Nat) : List (Key × DataFileRow) :=
  (db.scanPrefix .dataFile []).filter fun e => e.2.tableId = tableId && e.2.endSnapshot.isNone

/-- Each retired data file is staged twice: under its own key and in the snapshot index. -/
def retireDataFiles (tableId : Nat) (files : List (Key × DataFileRow)) : List Write :=
  files.flatMap fun e =>
    let row : DataFileRow := { e.2 with endSnapshot := some w.snapshotId }
    [⟨.dataFile, e.1, row⟩,
     ⟨.dataFileBySnapshot,
       keyDataFileBySnapshot tableId (e.2.beginSnapshot.getD 0) e.2.dataFileId, row⟩]

/-- A delete file belongs to the dropped table by its own table id or, without one, by its data
file. -/
def deleteFileBelongs (tableId : Nat) (retiredDataFileIds : List Nat) (row : DeleteFileRow) : Bool :=
  match row.tableId with
  | some owner => owner = tableId
  | none => row.dataFileId ∈ retiredDataFileIds

def dropTableCascade (tableId : Nat) : List Write :=
  let files := liveDataFiles db tableId
  let retiredDataFileIds := files.map (·.2.dataFileId)
  w.retireLive .column (fun _ => true) (db.scanPrefix .column [tableId]) ++
  w.retireDataFiles tableId files ++
  w.retireLive .partitionInfo (·.tableId = tableId) (db.scanPrefix .partitionInfo []) ++
  w.retireLive .tag (·.objectId = tableId) (db.scanPrefix .tag []) ++
  w.retireLive .columnTag (·.tableId = tableId) (db.scanPrefix .columnTag []) ++
  w.retireLive .sortInfo (·.tableId = tableId) (db.scanPrefix .sortInfo []) ++
  w.retireLive .deleteFile (deleteFileBelongs tableId retiredDataFileIds)
    (db.scanPrefix .deleteFile []) ++
  w.retireLive .inlinedInsert (fun _ => true) (db.scanPrefix .inlinedInsert [tableId])

def dropTable (schemaId tableId beginSnapshot : Nat) : Except CatalogError CatalogWriter :=
  (w.retireRow db .table (keyTable schemaId tableId beginSnapshot) s!"table {tableId}").map
    fun w' => (w'.stage (w.dropTableCascade db tableId)).markSchemaChanged

/-- The owning schema by the table index, else by the first live table row of a full scan. -/
def findTableSchemaId (tableId : Nat) : Option Nat :=
  match db.get .tableById (keyTableById tableId) with
  | some schemaId => some schemaId
  | none =>
    ((db.scanPrefix .table []).find? fun e => e.2.tableId = tableId && e.2.endSnapshot.isNone).map
      (·.2.schemaId)

structure ColumnSpec where
  columnName : String
  dataType : String
  columnIndex : Nat
  isNullable : Bool
  defaultValue : Option String
  initialDefault : Option String
  defaultValueType : Option String
  defaultValueDialect : Option String
  parentColumn : Option Nat
  deriving DecidableEq

def newColumnRow (tableId : Nat) (spec : ColumnSpec) : ColumnRow :=
  { columnId := w.counters.nextCatalogId, tableId, columnName := spec.columnName,
    dataType := spec.dataType, columnIndex := spec.columnIndex, beginSnapshot := w.snapshotId,
    endSnapshot := none, defaultValue := spec.defaultValue, isNullable := spec.isNullable,
    initialDefault := spec.initialDefault, defaultValueType := spec.defaultValueType,
    defaultValueDialect := spec.defaultValueDialect, parentColumn := spec.parentColumn }

def addColumnWithOpts (tableId : Nat) (spec : ColumnSpec) : Nat × CatalogWriter :=
  let row := w.newColumnRow tableId spec
  let (columnId, w) := w.allocCatalogId
  (columnId, (w.stage [⟨.column, keyColumn tableId columnId w.snapshotId, row⟩]).markSchemaChanged)

def addColumn (tableId : Nat) (columnName dataType : String) (columnIndex : Nat) (isNullable : Bool)
    (defaultValue : Option String) : Nat × CatalogWriter :=
  w.addColumnWithOpts tableId
    { columnName, dataType, columnIndex, isNullable, defaultValue, initialDefault := none,
      defaultValueType := none, defaultValueDialect := none, parentColumn := none }

def dropColumn (tableId columnId beginSnapshot : Nat) : Except CatalogError CatalogWriter :=
  (w.retireRow db .column (keyColumn tableId columnId beginSnapshot) s!"column {columnId}").map
    markSchemaChanged

/-- The table of the first live row of a column, in key order. -/
def findColumnTableId (columnId : Nat) : Option Nat :=
  ((db.scanPrefix .column []).find? fun e => e.2.columnId = columnId && e.2.endSnapshot.isNone).map
    (·.2.tableId)

def liveColumn (tableId columnId : Nat) : Option (Key × ColumnRow) :=
  (db.scanPrefix .column [tableId]).find?
    fun e => e.2.columnId = columnId && e.2.endSnapshot.isNone

/-- First half of a rename: the live row is staged as retired and handed back. -/
def renameColumn (tableId columnId : Nat) : Except CatalogError (ColumnRow × CatalogWriter) :=
  match liveColumn db tableId columnId with
  | none => .error (.notFound s!"column {columnId}")
  | some (key, row) =>
    .ok (row, w.stage [⟨.column, key, { row with endSnapshot := some w.snapshotId }⟩])

/-- Second half of a rename: the given row is staged under its new name and begin snapshot. -/
def insertRenamedColumn (row : ColumnRow) (newName : String) : CatalogWriter :=
  let renamed : ColumnRow :=
    { row with columnName := newName, beginSnapshot := w.snapshotId, endSnapshot := none }
  (w.stage [⟨.column, keyColumn row.tableId row.columnId w.snapshotId, renamed⟩]).markSchemaChanged

structure DataFileSpec where
  path : String
  fileFormat : String
  recordCount : Nat
  fileSizeBytes : Nat
  footerSize : Option Int := none
  encryptionKey : Option String := none
  partitionId : Option Nat := none
  mappingId : Option Nat := none
  partialMax : Option String := none
  deriving DecidableEq

abbrev DataFileSpec.parquet (path : String) (recordCount fileSizeBytes : Nat) : DataFileSpec :=
  { path, fileFormat := "parquet", recordCount, fileSizeBytes }

/-- The next row id of a table according to its statistics, zero without any. -/
def rowIdStart (tableId : Nat) : Nat :=
  match db.get .tableStats (keyTableStats tableId) with
  | some stats => stats.nextRowId.getD 0
  | none => 0

def newDataFileRow (tableId : Nat) (spec : DataFileSpec) : DataFileRow :=
  { dataFileId := w.counters.nextFileId, tableId, path := spec.path, fileFormat := spec.fileFormat,
    recordCount := spec.recordCount, fileSizeBytes := spec.fileSizeBytes,
    footerSize := spec.footerSize, encryptionKey := spec.encryptionKey,
    beginSnapshot := some w.snapshotId, endSnapshot := none,
    fileOrder := some w.counters.nextFileId, pathIsRelative := some false,
    rowIdStart := some (rowIdStart db tableId), partitionId := spec.partitionId,
    mappingId := spec.mappingId, partialMax := spec.partialMax }

/-- The three registration methods of the source differ only in which optional fields they set. -/
def registerDataFileWithMetadata (tableId : Nat) (spec : DataFileSpec) : Nat × CatalogWriter :=
  let row := w.newDataFileRow db tableId spec
  let (dataFileId, w) := w.allocFileId
  (dataFileId, w.stage
    [⟨.dataFile, keyDataFile tableId dataFileId, row⟩,
     ⟨.dataFileBySnapshot, keyDataFileBySnapshot tableId w.snapshotId dataFileId, row⟩])

def registerDataFile (tableId : Nat) (path fileFormat : String) (recordCount fileSizeBytes : Nat) :
    Nat × CatalogWriter :=
  w.registerDataFileWithMetadata db tableId { path, fileFormat, recordCount, fileSizeBytes }

structure DeleteFileSpec where
  path : String
  deleteCount : Nat
  fileSizeBytes : Nat
  footerSize : Option Int := none
  partialMax : Option String := none
  deriving DecidableEq

def registerDeleteFileWithMetadata (dataFileId : Nat) (spec : DeleteFileSpec) :
    Nat × CatalogWriter :=
  let (deleteFileId, w) := w.allocFileId
  let row : DeleteFileRow :=
    { deleteFileId, dataFileId, path := spec.path, deleteCount := spec.deleteCount,
      fileSizeBytes := spec.fileSizeBytes, snapshotId := w.snapshotId, tableId := none,
      beginSnapshot := some w.snapshotId, endSnapshot := none, pathIsRelative := some false,
      format := some "parquet", footerSize := spec.footerSize, partialMax := spec.partialMax }
  (deleteFileId, w.stage [⟨.deleteFile, keyDeleteFile dataFileId deleteFileId, row⟩])

def registerDeleteFile (dataFileId : Nat) (path : String) (deleteCount fileSizeBytes : Nat) :
    Nat × CatalogWriter :=
  w.registerDeleteFileWithMetadata dataFileId { path, deleteCount, fileSizeBytes }

def maxInlinedValueSize : Nat := 64 * 1024 * 1024

def registerInlinedInsert (tableId schemaVersion rowId : Nat) (payload : List UInt8) :
    Except CatalogError CatalogWriter :=
  let encodedSize := payload.length + 100
  if encodedSize > maxInlinedValueSize then .error (.valueTooLarge encodedSize)
  else
    let row : InlinedInsertRow :=
      { tableId, schemaVersion, rowId, payload, beginSnapshot := w.snapshotId, endSnapshot := none }
    .ok (w.stage [⟨.inlinedInsert, keyInlinedInsert tableId schemaVersion rowId, row⟩])

def inlinedInsertKeyExists (tableId schemaVersion rowId : Nat) : Bool :=
  let key := keyInlinedInsert tableId schemaVersion rowId
  (w.staged.any fun x => x.family = .inlinedInsert && x.key = key) ||
    (db.get .inlinedInsert key).isSome

def registerInlinedDataTable (tableId : Nat) (tableName : String) (schemaVersion : Nat) :
    CatalogWriter :=
  let row : InlinedDataTablesRow := { tableId, schemaVersion, sql := tableName }
  w.stage [⟨.inlinedDataTables, keyInlinedDataTables tableId schemaVersion, row⟩]

def registerSchemaVersion (beginSnapshot schemaVersion tableId : Nat) : CatalogWriter :=
  let row : SchemaVersionsRow := { tableId, beginSnapshot, schemaVersion }
  w.stage [⟨.schemaVersions, keySchemaVersions tableId beginSnapshot, row⟩]

def markInlinedInsertDeleted (tableId schemaVersion rowId : Nat) :
    Except CatalogError CatalogWriter :=
  w.retireRow db .inlinedInsert (keyInlinedInsert tableId schemaVersion rowId)
    s!"inlined row {rowId}"

def registerInlinedDelete (tableId dataFileId rowId : Nat) : CatalogWriter :=
  let row : InlinedDeleteRow := { tableId, dataFileId, rowId, beginSnapshot := w.snapshotId }
  w.stage [⟨.inlinedDelete, keyInlinedDelete tableId dataFileId rowId, row⟩]

structure ViewSpec where
  viewName : String
  sql : String
  viewUuid : Option String := none
  dialect : Option String := none
  columnAliases : Option String := none
  deriving DecidableEq

def createViewWithOpts (schemaId : Nat) (spec : ViewSpec) (uuid : String) : Nat × CatalogWriter :=
  let (viewId, w) := w.allocCatalogId
  let row : ViewRow :=
    { viewId, schemaId, viewName := spec.viewName, sql := spec.sql, beginSnapshot := w.snapshotId,
      endSnapshot := none, viewUuid := spec.viewUuid.or (some uuid), dialect := spec.dialect,
      columnAliases := spec.columnAliases }
  (viewId, (w.stage [⟨.view, keyView schemaId viewId w.snapshotId, row⟩]).markSchemaChanged)

def dropView (schemaId viewId beginSnapshot : Nat) : Except CatalogError CatalogWriter :=
  (w.retireRow db .view (keyView schemaId viewId beginSnapshot) s!"view {viewId}").map
    markSchemaChanged

def createMacro (schemaId : Nat) (macroName macroType uuid : String) : Nat × CatalogWriter :=
  let (macroId, w) := w.allocCatalogId
  let row : MacroRow :=
    { macroId, schemaId, macroName, macroType, beginSnapshot := w.snapshotId, endSnapshot := none,
      macroUuid := some uuid }
  (macroId, (w.stage [⟨.macros, keyMacro schemaId macroId w.snapshotId, row⟩]).markSchemaChanged)

def dropMacro (schemaId macroId beginSnapshot : Nat) : Except CatalogError CatalogWriter :=
  (w.retireRow db .macros (keyMacro schemaId macroId beginSnapshot) s!"macro {macroId}").map
    markSchemaChanged

def addMacroImplWithOpts (macroId : Nat) (sql : String) (dialect implType : Option String) :
    Nat × CatalogWriter :=
  let (implId, w) := w.allocCatalogId
  let row : MacroImplRow := { implId, macroId, sql, dialect, implType }
  (implId, w.stage [⟨.macroImpl, keyMacroImpl macroId implId, row⟩])

variable (env : Env)

def setTag (objectId : Nat) (tagKey tagValue : String) : CatalogWriter :=
  let row : TagRow :=
    { objectId, tagKey, tagValue, beginSnapshot := w.snapshotId, endSnapshot := none }
  w.stage [⟨.tag, keyTag objectId (env.hashTagKey tagKey) w.snapshotId, row⟩]

def removeTag (objectId : Nat) (tagKey : String) (beginSnapshot : Nat) :
    Except CatalogError CatalogWriter :=
  w.retireRow db .tag (keyTag objectId (env.hashTagKey tagKey) beginSnapshot)
    s!"tag {tagKey} on {objectId}"

def setColumnTag (tableId columnId : Nat) (tagKey tagValue : String) : CatalogWriter :=
  let row : ColumnTagRow :=
    { tableId, columnId, tagKey, tagValue, beginSnapshot := w.snapshotId, endSnapshot := none }
  w.stage [⟨.columnTag, keyColumnTag tableId columnId (env.hashTagKey tagKey) w.snapshotId, row⟩]

def removeColumnTag (tableId columnId : Nat) (tagKey : String) (beginSnapshot : Nat) :
    Except CatalogError CatalogWriter :=
  w.retireRow db .columnTag (keyColumnTag tableId columnId (env.hashTagKey tagKey) beginSnapshot)
    s!"column tag {tagKey} on {tableId}.{columnId}"

def addSortInfo (tableId sortId : Nat) : CatalogWriter :=
  let row : SortInfoRow := { sortId, tableId, beginSnapshot := w.snapshotId, endSnapshot := none }
  w.stage [⟨.sortInfo, keySortInfo tableId sortId w.snapshotId, row⟩]

end CatalogWriter

end RockLake
