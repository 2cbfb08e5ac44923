import RockLake.Lib.Json
import RockLake.Catalog.Staging

/-! Catalog rows in the form they are exchanged in: a table name and a JSON object. The export writes
one object for each row, the import and the migration from another catalog each read objects back with
parsers of their own. Rows of kinds that no reader or writer of the catalog touches (sort expressions,
column and name mappings, file partition values, secrets and encryption keys) are checked by the import
but not stored here. -/
namespace RockLake

structure ExportedRow where
  table : String
  data : Json

inductive DuckLakeTable where
  | snapshot | schema | table | column | dataFile | deleteFile | inlinedInsert | snapshotChanges
  | view | macros | macroImpl | macroParameters | tag | columnTag | partitionInfo | sortInfo
  | sortExpression | schemaVersion | tableStats | tableColumnStats | fileColumnStats | columnMapping
  | nameMapping | filePartitionValue | fileVariantStats | encryptedSecret | encryptionKey
  deriving DecidableEq

namespace DuckLakeTable

def name : DuckLakeTable → String
  | .snapshot => "ducklake_snapshot"
  | .schema => "ducklake_schema"
  | .table => "ducklake_table"
  | .column => "ducklake_column"
  | .dataFile => "ducklake_data_file"
  | .deleteFile => "ducklake_delete_file"
  | .inlinedInsert => "ducklake_inlined_insert"
  | .snapshotChanges => "ducklake_snapshot_changes"
  | .view => "ducklake_view"
  | .macros => "ducklake_macro"
  | .macroImpl => "ducklake_macro_impl"
  | .macroParameters => "ducklake_macro_parameters"
  | .tag => "ducklake_tag"
  | .columnTag => "ducklake_column_tag"
  | .partitionInfo => "ducklake_partition_info"
  | .sortInfo => "ducklake_sort_info"
  | .sortExpression => "ducklake_sort_expression"
  | .schemaVersion => "ducklake_schema_version"
  | .tableStats => "ducklake_table_stats"
  | .tableColumnStats => "ducklake_table_column_stats"
  | .fileColumnStats => "ducklake_file_column_stats"
  | .columnMapping => "ducklake_column_mapping"
  | .nameMapping => "ducklake_name_mapping"
  | .filePartitionValue => "ducklake_file_partition_value"
  | .fileVariantStats => "ducklake_file_variant_stats"
  | .encryptedSecret => "ducklake_encrypted_secret"
  | .encryptionKey => "ducklake_encryption_key"

def all : List DuckLakeTable :=
  [.snapshot, .schema, .table, .column, .dataFile, .deleteFile, .inlinedInsert, .snapshotChanges,
   .view, .macros, .macroImpl, .macroParameters, .tag, .columnTag, .partitionInfo, .sortInfo,
   .sortExpression, .schemaVersion, .tableStats, .tableColumnStats, .fileColumnStats,
   .columnMapping, .nameMapping, .filePartitionValue, .fileVariantStats, .encryptedSecret,
   .encryptionKey]

def ofName (text : String) : Option DuckLakeTable := all.find? fun t => t.name = text

@[simp] theorem ofName_name (t : DuckLakeTable) : ofName t.name = some t := by
  cases t <;> decide +kernel

end DuckLakeTable

inductive LoadError where
  | slateDb (message : String)
  | importRow (line : Nat) (table message : String)
  | unsupportedDuckLakeVersion (version : Nat) (message : String)
  | catalog (error : CatalogError)

/-- The base64 codec, which the catalog uses without looking inside. -/
structure Base64 where
  encode : List UInt8 → String
  decode : String → Except String (List UInt8)
  decode_encode : ∀ bytes, decode (encode bytes) = .ok bytes

def Base64.sample : Base64 where
  encode bytes := String.ofList (bytes.map fun b => Char.ofNat b.toNat)
  decode text := .ok (text.toList.map fun c => UInt8.ofNat c.toNat)
  decode_encode bytes := by
    have same : ∀ b : UInt8, UInt8.ofNat (Char.ofNat b.toNat).toNat = b := by
      intro b
      have valid : b.toNat.isValidChar := .inl (by have := b.toNat_lt; omega)
      have code : (Char.ofNat b.toNat).toNat = b.toNat := by
        rw [Char.ofNat, dif_pos valid]
        rfl
      rw [code, UInt8.ofNat_toNat]
    simp [Function.comp_def, same]

/-! What an export writes of a row. -/

section Export

open Json

def exportSnapshot (row : SnapshotRow) : Json := .obj
  [("snapshot_id", ofNat row.snapshotId),
   ("schema_version", ofNat row.schemaVersion),
   ("snapshot_time", .str row.snapshotTime),
   ("author", ofOption .str row.author),
   ("message", ofOption .str row.message)]

def exportSchema (row : SchemaRow) : Json := .obj
  [("schema_id", ofNat row.schemaId),
   ("schema_name", .str row.schemaName),
   ("begin_snapshot", ofNat row.beginSnapshot),
   ("end_snapshot", ofOption ofNat row.endSnapshot)]

def exportTable (row : TableRow) : Json := .obj
  [("table_id", ofNat row.tableId),
   ("schema_id", ofNat row.schemaId),
   ("table_name", .str row.tableName),
   ("begin_snapshot", ofNat row.beginSnapshot),
   ("end_snapshot", ofOption ofNat row.endSnapshot),
   ("path", ofOption .str row.path),
   ("table_uuid", ofOption .str row.tableUuid)]

def exportColumn (row : ColumnRow) : Json := .obj
  [("column_id", ofNat row.columnId),
   ("table_id", ofNat row.tableId),
   ("column_name", .str row.columnName),
   ("data_type", .str row.dataType),
   ("column_index", ofNat row.columnIndex),
   ("begin_snapshot", ofNat row.beginSnapshot),
   ("end_snapshot", ofOption ofNat row.endSnapshot),
   ("default_value", ofOption .str row.defaultValue),
   ("is_nullable", .bool row.isNullable)]

def exportDataFile (row : DataFileRow) : Json := .obj
  [("data_file_id", ofNat row.dataFileId),
   ("table_id", ofNat row.tableId),
   ("path", .str row.path),
   ("file_format", .str row.fileFormat),
   ("record_count", ofNat row.recordCount),
   ("file_size_bytes", ofNat row.fileSizeBytes),
   ("begin_snapshot", ofNat (row.beginSnapshot.getD 0)),
   ("end_snapshot", ofOption ofNat row.endSnapshot),
   ("footer_size", ofOption .int row.footerSize)]

def exportDeleteFile (row : DeleteFileRow) : Json := .obj
  [("delete_file_id", ofNat row.deleteFileId),
   ("data_file_id", ofNat row.dataFileId),
   ("path", .str row.path),
   ("delete_count", ofNat row.deleteCount),
   ("file_size_bytes", ofNat row.fileSizeBytes),
   ("snapshot_id", ofNat row.snapshotId),
   ("begin_snapshot", ofNat (row.beginSnapshot.getD row.snapshotId)),
   ("end_snapshot", ofOption ofNat row.endSnapshot)]

def exportInlinedInsert (codec : Base64) (row : InlinedInsertRow) : Json := .obj
  [("table_id", ofNat row.tableId),
   ("schema_version", ofNat row.schemaVersion),
   ("row_id", ofNat row.rowId),
   ("payload", .str (codec.encode row.payload)),
   ("begin_snapshot", ofNat row.beginSnapshot),
   ("end_snapshot", ofOption ofNat row.endSnapshot)]

def exportSnapshotChanges (row : SnapshotChangesRow) : Json := .obj
  [("snapshot_id", ofNat row.snapshotId),
   ("change_type", .str row.changeType),
   ("change_info", ofOption .str row.changeInfo),
   ("schema_id", ofOption ofNat row.schemaId),
   ("table_id", ofOption ofNat row.tableId),
   ("author", ofOption .str row.author),
   ("commit_message", ofOption .str row.commitMessage),
   ("commit_extra_info", ofOption .str row.commitExtraInfo),
   ("changes_made", ofOption .str row.changesMade)]

def exportView (row : ViewRow) : Json := .obj
  [("view_id", ofNat row.viewId),
   ("schema_id", ofNat row.schemaId),
   ("view_name", .str row.viewName),
   ("sql", .str row.sql),
   ("begin_snapshot", ofNat row.beginSnapshot),
   ("end_snapshot", ofOption ofNat row.endSnapshot),
   ("view_uuid", ofOption .str row.viewUuid),
   ("dialect", ofOption .str row.dialect),
   ("column_aliases", ofOption .str row.columnAliases)]

def exportMacro (row : MacroRow) : Json := .obj
  [("macro_id", ofNat row.macroId),
   ("schema_id", ofNat row.schemaId),
   ("macro_name", .str row.macroName),
   ("macro_type", .str row.macroType),
   ("begin_snapshot", ofNat row.beginSnapshot),
   ("end_snapshot", ofOption ofNat row.endSnapshot),
   ("macro_uuid", ofOption .str row.macroUuid)]

def exportMacroImpl (row : MacroImplRow) : Json := .obj
  [("impl_id", ofNat row.implId),
   ("macro_id", ofNat row.macroId),
   ("sql", .str row.sql),
   ("dialect", ofOption .str row.dialect),
   ("impl_type", ofOption .str row.implType)]

def exportMacroParameters (row : MacroParametersRow) : Json := .obj
  [("macro_id", ofNat row.macroId),
   ("impl_id", ofNat row.implId),
   ("column_id", ofNat row.columnId),
   ("parameter_name", .str row.parameterName),
   ("parameter_type", .str row.parameterType),
   ("default_value", ofOption .str row.defaultValue),
   ("default_value_type", ofOption .str row.defaultValueType)]

/-- A word of a key, zero when the key is too short to have it. The hashes of tag keys and variant
paths are exported from the key, since the row does not hold them. -/
def keyWord (k : Key) (position : Nat) : Nat := k.getD position 0

def exportTag (k : Key) (row : TagRow) : Json := .obj
  [("object_id", ofNat row.objectId),
   ("tag_key", .str row.tagKey),
   ("tag_value", .str row.tagValue),
   ("begin_snapshot", ofNat row.beginSnapshot),
   ("end_snapshot", ofOption ofNat row.endSnapshot),
   ("tag_key_hash", ofNat (keyWord k 1))]

def exportColumnTag (k : Key) (row : ColumnTagRow) : Json := .obj
  [("table_id", ofNat row.tableId),
   ("column_id", ofNat row.columnId),
   ("tag_key", .str row.tagKey),
   ("tag_value", .str row.tagValue),
   ("begin_snapshot", ofNat row.beginSnapshot),
   ("end_snapshot", ofOption ofNat row.endSnapshot),
   ("tag_key_hash", ofNat (keyWord k 2))]

def exportPartitionInfo (row : PartitionInfoRow) : Json := .obj
  [("partition_id", ofNat row.partitionId),
   ("table_id", ofNat row.tableId),
   ("begin_snapshot", ofNat row.beginSnapshot),
   ("end_snapshot", ofOption ofNat row.endSnapshot)]

def exportSortInfo (row : SortInfoRow) : Json := .obj
  [("sort_id", ofNat row.sortId),
   ("table_id", ofNat row.tableId),
   ("begin_snapshot", ofNat row.beginSnapshot),
   ("end_snapshot", ofOption ofNat row.endSnapshot)]

def exportSchemaVersions (row : SchemaVersionsRow) : Json := .obj
  [("table_id", ofNat row.tableId),
   ("begin_snapshot", ofNat row.beginSnapshot),
   ("schema_version", ofNat row.schemaVersion)]

def exportTableStats (row : TableStatsRow) : Json := .obj
  [("table_id", ofNat row.tableId),
   ("record_count", ofNat row.recordCount),
   ("file_size_bytes", ofNat row.fileSizeBytes),
   ("next_row_id", ofOption ofNat row.nextRowId)]

def exportTableColumnStats (row : TableColumnStatsRow) : Json := .obj
  [("table_id", ofNat row.tableId),
   ("column_id", ofNat row.columnId),
   ("contains_null", .bool row.containsNull),
   ("min_value", ofOption .str row.minValue),
   ("max_value", ofOption .str row.maxValue),
   ("contains_nan", ofOption .bool row.containsNan),
   ("extra_stats", ofOption .str row.extraStats)]

def exportFileColumnStats (row : FileColumnStatsRow) : Json := .obj
  [("table_id", ofNat row.tableId),
   ("column_id", ofNat row.columnId),
   ("data_file_id", ofNat row.dataFileId),
   ("contains_null", .bool row.containsNull),
   ("min_value", ofOption .str row.minValue),
   ("max_value", ofOption .str row.maxValue),
   ("contains_nan", .bool row.containsNan),
   ("column_size_bytes", ofOption ofNat row.columnSizeBytes),
   ("value_count", ofOption ofNat row.valueCount),
   ("null_count", ofOption ofNat row.nullCount),
   ("extra_stats", ofOption .str row.extraStats)]

def exportFileVariantStats (k : Key) (row : FileVariantStatsRow) : Json := .obj
  [("table_id", ofNat row.tableId),
   ("column_id", ofNat row.columnId),
   ("data_file_id", ofNat row.dataFileId),
   ("variant_key", .str row.variantKey),
   ("variant_path_hash", ofNat (keyWord k 2)),
   ("min_value", ofOption .str row.minValue),
   ("max_value", ofOption .str row.maxValue),
   ("shredded_type", ofOption .str row.shreddedType),
   ("column_size_bytes", ofOption ofNat row.columnSizeBytes),
   ("value_count", ofOption ofNat row.valueCount),
   ("null_count", ofOption ofNat row.nullCount),
   ("contains_nan", ofOption .bool row.containsNan),
   ("extra_stats", ofOption .str row.extraStats)]

end Export

def Family.duckLakeTable : Family → Option DuckLakeTable
  | .snapshot => some .snapshot
  | .schema => some .schema
  | .table => some .table
  | .column => some .column
  | .dataFile => some .dataFile
  | .deleteFile => some .deleteFile
  | .inlinedInsert => some .inlinedInsert
  | .snapshotChanges => some .snapshotChanges
  | .view => some .view
  | .macros => some .macros
  | .macroImpl => some .macroImpl
  | .macroParameters => some .macroParameters
  | .tag => some .tag
  | .columnTag => some .columnTag
  | .partitionInfo => some .partitionInfo
  | .sortInfo => some .sortInfo
  | .schemaVersions => some .schemaVersion
  | .tableStats => some .tableStats
  | .tableColumnStats => some .tableColumnStats
  | .fileColumnStats => some .fileColumnStats
  | .fileVariantStats => some .fileVariantStats
  | _ => none

def exportData (codec : Base64) : (f : Family) → Key → f.Row → Json
  | .snapshot, _, row => exportSnapshot row
  | .schema, _, row => exportSchema row
  | .table, _, row => exportTable row
  | .column, _, row => exportColumn row
  | .dataFile, _, row => exportDataFile row
  | .deleteFile, _, row => exportDeleteFile row
  | .inlinedInsert, _, row => exportInlinedInsert codec row
  | .snapshotChanges, _, row => exportSnapshotChanges row
  | .view, _, row => exportView row
  | .macros, _, row => exportMacro row
  | .macroImpl, _, row => exportMacroImpl row
  | .macroParameters, _, row => exportMacroParameters row
  | .tag, k, row => exportTag k row
  | .columnTag, k, row => exportColumnTag k row
  | .partitionInfo, _, row => exportPartitionInfo row
  | .sortInfo, _, row => exportSortInfo row
  | .schemaVersions, _, row => exportSchemaVersions row
  | .tableStats, _, row => exportTableStats row
  | .tableColumnStats, _, row => exportTableColumnStats row
  | .fileColumnStats, _, row => exportFileColumnStats row
  | .fileVariantStats, k, row => exportFileVariantStats k row
  | _, _, _ => .null

/-! Reading rows back. Both loaders fill the optional fields in the same way; they differ in the fields
they insist on. -/

section Rows

variable (d : Json)

def snapshotOf (snapshotId schemaVersion : Nat) (snapshotTime : String) : SnapshotRow :=
  { snapshotId, schemaVersion, snapshotTime
    author := d.text "author"
    message := d.text "message"
    nextCatalogId := d.u64 "next_catalog_id"
    nextFileId := d.u64 "next_file_id" }

def schemaOf (schemaId : Nat) (schemaName : String) (beginSnapshot : Nat) : SchemaRow :=
  { schemaId, schemaName, beginSnapshot
    endSnapshot := d.u64 "end_snapshot"
    schemaUuid := d.text "schema_uuid"
    path := d.text "path"
    pathIsRelative := d.boolean "path_is_relative" }

def tableOf (tableId schemaId : Nat) (tableName : String) (beginSnapshot : Nat) : TableRow :=
  { tableId, schemaId, tableName, beginSnapshot
    endSnapshot := d.u64 "end_snapshot"
    path := (d.text "path").or (d.text "data_path")
    tableUuid := d.text "table_uuid"
    pathIsRelative := d.boolean "path_is_relative" }

def columnOf (columnId tableId : Nat) (columnName dataType : String) (columnIndex beginSnapshot : Nat)
    (isNullable : Bool) : ColumnRow :=
  { columnId, tableId, columnName, dataType, columnIndex, beginSnapshot, isNullable
    endSnapshot := d.u64 "end_snapshot"
    defaultValue := d.text "default_value"
    initialDefault := d.text "initial_default"
    defaultValueType := d.text "default_value_type"
    defaultValueDialect := d.text "default_value_dialect"
    parentColumn := d.u64 "parent_column" }

def dataFileOf (dataFileId tableId : Nat) (path fileFormat : String) (fileSizeBytes : Nat) :
    DataFileRow :=
  { dataFileId, tableId, path, fileFormat, fileSizeBytes
    recordCount := ((d.u64 "record_count").or (d.u64 "row_count")).getD 0
    footerSize := d.i64 "footer_size"
    encryptionKey := d.text "encryption_key"
    beginSnapshot := (d.u64 "begin_snapshot").or (d.u64 "snapshot_id")
    endSnapshot := d.u64 "end_snapshot"
    fileOrder := d.u64 "file_order"
    pathIsRelative := d.boolean "path_is_relative"
    rowIdStart := d.u64 "row_id_start"
    partitionId := d.u64 "partition_id"
    mappingId := d.u64 "mapping_id"
    partialMax := d.text "partial_max" }

def deleteFileOf (deleteFileId dataFileId : Nat) (path : String) (fileSizeBytes : Nat) :
    DeleteFileRow :=
  { deleteFileId, dataFileId, path, fileSizeBytes
    deleteCount := ((d.u64 "delete_count").or (d.u64 "row_count")).getD 0
    snapshotId := (d.u64 "snapshot_id").getD 0
    tableId := d.u64 "table_id"
    beginSnapshot := d.u64 "begin_snapshot"
    endSnapshot := d.u64 "end_snapshot"
    pathIsRelative := d.boolean "path_is_relative"
    format := d.text "format"
    footerSize := d.i64 "footer_size"
    partialMax := d.text "partial_max" }

def viewOf (viewId schemaId : Nat) (viewName sql : String) (beginSnapshot : Nat) : ViewRow :=
  { viewId, schemaId, viewName, sql, beginSnapshot
    endSnapshot := d.u64 "end_snapshot"
    viewUuid := d.text "view_uuid"
    dialect := d.text "dialect"
    columnAliases := d.text "column_aliases" }

def macroOf (macroId schemaId : Nat) (macroName macroType : String) (beginSnapshot : Nat) : MacroRow :=
  { macroId, schemaId, macroName, macroType, beginSnapshot
    endSnapshot := d.u64 "end_snapshot"
    macroUuid := d.text "macro_uuid" }

def snapshotChangesOf (snapshotId : Nat) (changeType : String) : SnapshotChangesRow :=
  { snapshotId, changeType
    changeInfo := d.text "change_info"
    schemaId := d.u64 "schema_id"
    tableId := d.u64 "table_id"
    author := d.text "author"
    commitMessage := d.text "commit_message"
    commitExtraInfo := d.text "commit_extra_info"
    changesMade := d.text "changes_made" }

/-- A data file is put together with its entry in the snapshot index. -/
def dataFilePuts (row : DataFileRow) : List Write :=
  [⟨.dataFile, keyDataFile row.tableId row.dataFileId, row⟩,
   ⟨.dataFileBySnapshot,
    keyDataFileBySnapshot row.tableId (row.beginSnapshot.getD 0) row.dataFileId, row⟩]

end Rows

/-- Where a row comes from, for the text of an error. -/
structure RowPlace where
  line : Nat
  table : String

section Import

variable (place : RowPlace) (d : Json)

def required {α : Type} (message : String) : Option α → Except LoadError α
  | some value => .ok value
  | none => .error (.importRow place.line place.table message)

def reqU64 (name : String) : Except LoadError Nat :=
  required place ("missing or invalid u64 field '" ++ name ++ "'") (d.u64 name)

def reqStr (name : String) : Except LoadError String :=
  required place ("missing or invalid string field '" ++ name ++ "'") (d.text name)

/-! The parsers of the import: what each puts into the database. -/

def importSnapshot : Except LoadError (List Write) := do
  let snapshotId ← reqU64 place d "snapshot_id"
  let row := snapshotOf d snapshotId (← reqU64 place d "schema_version")
    (← reqStr place d "snapshot_time")
  return [⟨.snapshot, keySnapshot snapshotId, row⟩]

def importSchema : Except LoadError (List Write) := do
  let schemaId ← reqU64 place d "schema_id"
  let row := schemaOf d schemaId (← reqStr place d "schema_name") (← reqU64 place d "begin_snapshot")
  return [⟨.schema, keySchema schemaId, row⟩]

def importTable : Except LoadError (List Write) := do
  let tableId ← reqU64 place d "table_id"
  let schemaId ← reqU64 place d "schema_id"
  let beginSnapshot ← reqU64 place d "begin_snapshot"
  let row := tableOf d tableId schemaId (← reqStr place d "table_name") beginSnapshot
  return [⟨.table, keyTable schemaId tableId beginSnapshot, row⟩]

def importColumn : Except LoadError (List Write) := do
  let columnId ← reqU64 place d "column_id"
  let tableId ← reqU64 place d "table_id"
  let beginSnapshot ← reqU64 place d "begin_snapshot"
  let columnName ← reqStr place d "column_name"
  let dataType ← reqStr place d "data_type"
  let columnIndex ← reqU64 place d "column_index"
  let isNullable ← required place "missing or invalid bool field 'is_nullable'"
    (d.boolean "is_nullable")
  let row := columnOf d columnId tableId columnName dataType columnIndex beginSnapshot isNullable
  return [⟨.column, keyColumn tableId columnId beginSnapshot, row⟩]

def importDataFile : Except LoadError (List Write) := do
  let dataFileId ← reqU64 place d "data_file_id"
  let tableId ← reqU64 place d "table_id"
  let path ← reqStr place d "path"
  let fileFormat ← reqStr place d "file_format"
  let fileSizeBytes ← reqU64 place d "file_size_bytes"
  return dataFilePuts (dataFileOf d dataFileId tableId path fileFormat fileSizeBytes)

def importDeleteFile : Except LoadError (List Write) := do
  let deleteFileId ← reqU64 place d "delete_file_id"
  let dataFileId ← reqU64 place d "data_file_id"
  let path ← reqStr place d "path"
  let fileSizeBytes ← reqU64 place d "file_size_bytes"
  return [⟨.deleteFile, keyDeleteFile dataFileId deleteFileId,
    deleteFileOf d deleteFileId dataFileId path fileSizeBytes⟩]

def importInlinedInsert (codec : Base64) : Except LoadError (List Write) := do
  let tableId ← reqU64 place d "table_id"
  let schemaVersion ← reqU64 place d "schema_version"
  let rowId ← reqU64 place d "row_id"
  let encoded ← reqStr place d "payload"
  let payload ← (codec.decode encoded).mapError fun e =>
    .importRow place.line place.table ("invalid base64 in 'payload': " ++ e)
  let row : InlinedInsertRow :=
    { tableId, schemaVersion, rowId, payload
      beginSnapshot := ← reqU64 place d "begin_snapshot"
      endSnapshot := d.u64 "end_snapshot" }
  return [⟨.inlinedInsert, keyInlinedInsert tableId schemaVersion rowId, row⟩]

def importSnapshotChanges : Except LoadError (List Write) := do
  let snapshotId ← reqU64 place d "snapshot_id"
  let row := snapshotChangesOf d snapshotId (← reqStr place d "change_type")
  return [⟨.snapshotChanges, keySnapshotChanges snapshotId, row⟩]

def importView : Except LoadError (List Write) := do
  let viewId ← reqU64 place d "view_id"
  let schemaId ← reqU64 place d "schema_id"
  let beginSnapshot ← reqU64 place d "begin_snapshot"
  let row := viewOf d viewId schemaId (← reqStr place d "view_name") (← reqStr place d "sql")
    beginSnapshot
  return [⟨.view, keyView schemaId viewId beginSnapshot, row⟩]

def importMacro : Except LoadError (List Write) := do
  let macroId ← reqU64 place d "macro_id"
  let schemaId ← reqU64 place d "schema_id"
  let beginSnapshot ← reqU64 place d "begin_snapshot"
  let row := macroOf d macroId schemaId (← reqStr place d "macro_name")
    (← reqStr place d "macro_type") beginSnapshot
  return [⟨.macros, keyMacro schemaId macroId beginSnapshot, row⟩]

def importMacroImpl : Except LoadError (List Write) := do
  let implId ← reqU64 place d "impl_id"
  let macroId ← reqU64 place d "macro_id"
  let row : MacroImplRow :=
    { implId, macroId
      sql := ← reqStr place d "sql"
      dialect := d.text "dialect"
      implType := d.text "impl_type" }
  return [⟨.macroImpl, keyMacroImpl macroId implId, row⟩]

def importMacroParameters : Except LoadError (List Write) := do
  let macroId ← reqU64 place d "macro_id"
  let implId ← reqU64 place d "impl_id"
  let columnId ← reqU64 place d "column_id"
  let row : MacroParametersRow :=
    { macroId, implId, columnId
      parameterName := ← reqStr place d "parameter_name"
      parameterType := ← reqStr place d "parameter_type"
      defaultValue := d.text "default_value"
      defaultValueType := d.text "default_value_type" }
  return [⟨.macroParameters, keyMacroParameters macroId implId columnId, row⟩]

def importTag : Except LoadError (List Write) := do
  let objectId ← reqU64 place d "object_id"
  let beginSnapshot ← reqU64 place d "begin_snapshot"
  let tagKeyHash := (d.u64 "tag_key_hash").getD 0
  let row : TagRow :=
    { objectId, beginSnapshot
      tagKey := ← reqStr place d "tag_key"
      tagValue := ← reqStr place d "tag_value"
      endSnapshot := d.u64 "end_snapshot" }
  return [⟨.tag, keyTag objectId tagKeyHash beginSnapshot, row⟩]

def importColumnTag : Except LoadError (List Write) := do
  let tableId ← reqU64 place d "table_id"
  let columnId ← reqU64 place d "column_id"
  let beginSnapshot ← reqU64 place d "begin_snapshot"
  let tagKeyHash := (d.u64 "tag_key_hash").getD 0
  let row : ColumnTagRow :=
    { tableId, columnId, beginSnapshot
      tagKey := ← reqStr place d "tag_key"
      tagValue := ← reqStr place d "tag_value"
      endSnapshot := d.u64 "end_snapshot" }
  return [⟨.columnTag, keyColumnTag tableId columnId tagKeyHash beginSnapshot, row⟩]

def importPartitionInfo : Except LoadError (List Write) := do
  let partitionId ← reqU64 place d "partition_id"
  let tableId ← reqU64 place d "table_id"
  let beginSnapshot ← reqU64 place d "begin_snapshot"
  let row : PartitionInfoRow :=
    { partitionId, tableId, beginSnapshot, endSnapshot := d.u64 "end_snapshot" }
  return [⟨.partitionInfo, keyPartitionInfo tableId partitionId beginSnapshot, row⟩]

def importSortInfo : Except LoadError (List Write) := do
  let sortId ← reqU64 place d "sort_id"
  let tableId ← reqU64 place d "table_id"
  let beginSnapshot ← reqU64 place d "begin_snapshot"
  let row : SortInfoRow := { sortId, tableId, beginSnapshot, endSnapshot := d.u64 "end_snapshot" }
  return [⟨.sortInfo, keySortInfo tableId sortId beginSnapshot, row⟩]

def importSchemaVersions : Except LoadError (List Write) := do
  let tableId ← reqU64 place d "table_id"
  let beginSnapshot ← reqU64 place d "begin_snapshot"
  let row : SchemaVersionsRow :=
    { tableId, beginSnapshot, schemaVersion := ← reqU64 place d "schema_version" }
  return [⟨.schemaVersions, keySchemaVersions tableId beginSnapshot, row⟩]

def importTableStats : Except LoadError (List Write) := do
  let tableId ← reqU64 place d "table_id"
  let row : TableStatsRow :=
    { tableId
      recordCount := (d.u64 "record_count").getD 0
      internalFileCount := 0
      fileSizeBytes := (d.u64 "file_size_bytes").getD 0
      nextRowId := d.u64 "next_row_id" }
  return [⟨.tableStats, keyTableStats tableId, row⟩]

def importTableColumnStats : Except LoadError (List Write) := do
  let tableId ← reqU64 place d "table_id"
  let columnId ← reqU64 place d "column_id"
  let row : TableColumnStatsRow :=
    { tableId, columnId
      containsNull := (d.boolean "contains_null").getD false
      minValue := d.text "min_value"
      maxValue := d.text "max_value"
      containsNan := d.boolean "contains_nan"
      extraStats := d.text "extra_stats" }
  return [⟨.tableColumnStats, keyTableColumnStats tableId columnId, row⟩]

def importFileColumnStats : Except LoadError (List Write) := do
  let tableId ← reqU64 place d "table_id"
  let columnId ← reqU64 place d "column_id"
  let dataFileId ← reqU64 place d "data_file_id"
  let row : FileColumnStatsRow :=
    { tableId, columnId, dataFileId
      containsNull := (d.boolean "contains_null").getD false
      minValue := d.text "min_value"
      maxValue := d.text "max_value"
      containsNan := (d.boolean "contains_nan").getD false
      columnSizeBytes := d.u64 "column_size_bytes"
      valueCount := d.u64 "value_count"
      nullCount := d.u64 "null_count"
      extraStats := d.text "extra_stats" }
  return [⟨.fileColumnStats, keyFileColumnStats tableId columnId dataFileId, row⟩]

def importFileVariantStats : Except LoadError (List Write) := do
  let tableId ← reqU64 place d "table_id"
  let columnId ← reqU64 place d "column_id"
  let dataFileId ← reqU64 place d "data_file_id"
  let variantPathHash := (d.u64 "variant_path_hash").getD 0
  let row : FileVariantStatsRow :=
    { tableId, columnId
      deprecatedVariantPathHash := none
      dataFileId
      variantKey := ← reqStr place d "variant_key"
      minValue := d.text "min_value"
      maxValue := d.text "max_value"
      shreddedType := d.text "shredded_type"
      columnSizeBytes := d.u64 "column_size_bytes"
      valueCount := d.u64 "value_count"
      nullCount := d.u64 "null_count"
      containsNan := d.boolean "contains_nan"
      extraStats := d.text "extra_stats" }
  return [⟨.fileVariantStats, keyFileVariantStats tableId columnId variantPathHash dataFileId, row⟩]

/-- A row of a kind that is not stored here: its required fields, numbers first. -/
def importUnstored (numbers texts : List String) : Except LoadError (List Write) := do
  let _ ← numbers.mapM (reqU64 place d)
  let _ ← texts.mapM (reqStr place d)
  return []

def importRow (codec : Base64) : DuckLakeTable → Except LoadError (List Write)
  | .snapshot => importSnapshot place d
  | .schema => importSchema place d
  | .table => importTable place d
  | .column => importColumn place d
  | .dataFile => importDataFile place d
  | .deleteFile => importDeleteFile place d
  | .inlinedInsert => importInlinedInsert place d codec
  | .snapshotChanges => importSnapshotChanges place d
  | .view => importView place d
  | .macros => importMacro place d
  | .macroImpl => importMacroImpl place d
  | .macroParameters => importMacroParameters place d
  | .tag => importTag place d
  | .columnTag => importColumnTag place d
  | .partitionInfo => importPartitionInfo place d
  | .sortInfo => importSortInfo place d
  | .sortExpression => importUnstored place d ["sort_id", "sort_key_index", "column_id"] []
  | .schemaVersion => importSchemaVersions place d
  | .tableStats => importTableStats place d
  | .tableColumnStats => importTableColumnStats place d
  | .fileColumnStats => importFileColumnStats place d
  | .columnMapping => importUnstored place d ["mapping_id", "table_id"] []
  | .nameMapping => importUnstored place d ["mapping_id", "column_id"] ["name"]
  | .filePartitionValue =>
    importUnstored place d ["table_id", "partition_key_index", "data_file_id"] []
  | .fileVariantStats => importFileVariantStats place d
  | .encryptedSecret => importUnstored place d ["secret_id"] ["secret_name"]
  | .encryptionKey =>
    importUnstored place d ["catalog_id", "begin_snapshot"] ["encryption_type"]

/-! The parsers of the migration. Most fields have a default there, and older names are accepted. -/

def migrateSnapshot : Except LoadError (List Write) := do
  let snapshotId ← reqU64 place d "snapshot_id"
  let row := snapshotOf d snapshotId ((d.u64 "schema_version").getD 0)
    ((d.text "snapshot_time").getD "")
  return [⟨.snapshot, keySnapshot snapshotId, row⟩]

def migrateSchema : Except LoadError (List Write) := do
  let schemaId ← reqU64 place d "schema_id"
  let row := schemaOf d schemaId (← reqStr place d "schema_name")
    ((d.u64 "begin_snapshot").getD 0)
  return [⟨.schema, keySchema schemaId, row⟩]

def migrateTable : Except LoadError (List Write) := do
  let tableId ← reqU64 place d "table_id"
  let schemaId ← reqU64 place d "schema_id"
  let beginSnapshot := (d.u64 "begin_snapshot").getD 0
  let row := tableOf d tableId schemaId (← reqStr place d "table_name") beginSnapshot
  return [⟨.table, keyTable schemaId tableId beginSnapshot, row⟩]

def migrateColumn : Except LoadError (List Write) := do
  let columnId ← reqU64 place d "column_id"
  let tableId ← reqU64 place d "table_id"
  let beginSnapshot := (d.u64 "begin_snapshot").getD 0
  let columnName ← reqStr place d "column_name"
  let dataType ← required place "missing data_type" ((d.text "data_type").or (d.text "column_type"))
  let columnIndex := ((d.u64 "column_index").or (d.u64 "column_order")).getD 0
  let isNullable := ((d.boolean "is_nullable").or (d.boolean "nulls_allowed")).getD true
  let row := columnOf d columnId tableId columnName dataType columnIndex beginSnapshot isNullable
  return [⟨.column, keyColumn tableId columnId beginSnapshot, row⟩]

def migrateDataFile : Except LoadError (List Write) := do
  let dataFileId ← reqU64 place d "data_file_id"
  let tableId ← reqU64 place d "table_id"
  let path ← reqStr place d "path"
  return dataFilePuts (dataFileOf d dataFileId tableId path ((d.text "file_format").getD "parquet")
    ((d.u64 "file_size_bytes").getD 0))

def migrateDeleteFile : Except LoadError (List Write) := do
  let deleteFileId ← reqU64 place d "delete_file_id"
  let dataFileId ← reqU64 place d "data_file_id"
  let path ← reqStr place d "path"
  return [⟨.deleteFile, keyDeleteFile dataFileId deleteFileId,
    deleteFileOf d deleteFileId dataFileId path ((d.u64 "file_size_bytes").getD 0)⟩]

def migrateView : Except LoadError (List Write) := do
  let viewId ← reqU64 place d "view_id"
  let schemaId ← reqU64 place d "schema_id"
  let beginSnapshot := (d.u64 "begin_snapshot").getD 0
  let row := viewOf d viewId schemaId (← reqStr place d "view_name")
    (((d.text "sql").or (d.text "view_definition")).getD "") beginSnapshot
  return [⟨.view, keyView schemaId viewId beginSnapshot, row⟩]

def migrateMacro : Except LoadError (List Write) := do
  let macroId ← reqU64 place d "macro_id"
  let schemaId ← reqU64 place d "schema_id"
  let beginSnapshot := (d.u64 "begin_snapshot").getD 0
  let row := macroOf d macroId schemaId (← reqStr place d "macro_name")
    ((d.text "macro_type").getD "scalar") beginSnapshot
  return [⟨.macros, keyMacro schemaId macroId beginSnapshot, row⟩]

def migrateTag (env : Env) : Except LoadError (List Write) := do
  let objectId ← reqU64 place d "object_id"
  let tagKey ← reqStr place d "tag_key"
  let beginSnapshot := (d.u64 "begin_snapshot").getD 0
  let tagKeyHash := (d.u64 "tag_key_hash").getD (env.hashTagKey tagKey)
  let row : TagRow :=
    { objectId, tagKey, beginSnapshot
      tagValue := (d.text "tag_value").getD ""
      endSnapshot := d.u64 "end_snapshot" }
  return [⟨.tag, keyTag objectId tagKeyHash beginSnapshot, row⟩]

def migrateColumnTag (env : Env) : Except LoadError (List Write) := do
  let tableId ← reqU64 place d "table_id"
  let columnId ← reqU64 place d "column_id"
  let tagKey ← reqStr place d "tag_key"
  let beginSnapshot := (d.u64 "begin_snapshot").getD 0
  let tagKeyHash := (d.u64 "tag_key_hash").getD (env.hashTagKey tagKey)
  let row : ColumnTagRow :=
    { tableId, columnId, tagKey, beginSnapshot
      tagValue := (d.text "tag_value").getD ""
      endSnapshot := d.u64 "end_snapshot" }
  return [⟨.columnTag, keyColumnTag tableId columnId tagKeyHash beginSnapshot, row⟩]

def migrateSnapshotChanges : Except LoadError (List Write) := do
  let snapshotId ← reqU64 place d "snapshot_id"
  return [⟨.snapshotChanges, keySnapshotChanges snapshotId,
    snapshotChangesOf d snapshotId ((d.text "change_type").getD "")⟩]

/-- The puts of one migrated row. Rows of other tables are skipped silently. -/
def writeRowToBatch (env : Env) : DuckLakeTable → Except LoadError (List Write)
  | .snapshot => migrateSnapshot place d
  | .schema => migrateSchema place d
  | .table => migrateTable place d
  | .column => migrateColumn place d
  | .dataFile => migrateDataFile place d
  | .deleteFile => migrateDeleteFile place d
  | .view => migrateView place d
  | .macros => migrateMacro place d
  | .tag => migrateTag place d env
  | .columnTag => migrateColumnTag place d env
  | .snapshotChanges => migrateSnapshotChanges place d
  | _ => .ok []

end Import

end RockLake
