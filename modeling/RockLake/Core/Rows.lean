import Mathlib.Init

/-! Row types of the DuckLake tables and of the RockLake internal records, field by field.
Unsigned 64-bit identifiers and counts are natural numbers. -/
namespace RockLake

structure MetadataRow where
  key : String
  value : String
  scope : Option String
  scopeId : Option Nat
  deriving DecidableEq

structure SnapshotRow where
  snapshotId : Nat
  schemaVersion : Nat
  snapshotTime : String
  author : Option String
  message : Option String
  nextCatalogId : Option Nat
  nextFileId : Option Nat
  deriving DecidableEq

structure SnapshotChangesRow where
  snapshotId : Nat
  changeType : String
  changeInfo : Option String
  schemaId : Option Nat
  tableId : Option Nat
  author : Option String
  commitMessage : Option String
  commitExtraInfo : Option String
  changesMade : Option String
  deriving DecidableEq

structure SchemaRow where
  schemaId : Nat
  schemaName : String
  beginSnapshot : Nat
  endSnapshot : Option Nat
  schemaUuid : Option String
  path : Option String
  pathIsRelative : Option Bool
  deriving DecidableEq

structure TableRow where
  tableId : Nat
  schemaId : Nat
  tableName : String
  beginSnapshot : Nat
  endSnapshot : Option Nat
  path : Option String
  tableUuid : Option String
  pathIsRelative : Option Bool
  deriving DecidableEq

structure ColumnRow where
  columnId : Nat
  tableId : Nat
  columnName : String
  dataType : String
  columnIndex : Nat
  beginSnapshot : Nat
  endSnapshot : Option Nat
  defaultValue : Option String
  isNullable : Bool
  initialDefault : Option String
  defaultValueType : Option String
  defaultValueDialect : Option String
  parentColumn : Option Nat
  deriving DecidableEq

structure ViewRow where
  viewId : Nat
  schemaId : Nat
  viewName : String
  sql : String
  beginSnapshot : Nat
  endSnapshot : Option Nat
  viewUuid : Option String
  dialect : Option String
  columnAliases : Option String
  deriving DecidableEq

structure MacroRow where
  macroId : Nat
  schemaId : Nat
  macroName : String
  macroType : String
  beginSnapshot : Nat
  endSnapshot : Option Nat
  macroUuid : Option String
  deriving DecidableEq

structure MacroImplRow where
  implId : Nat
  macroId : Nat
  sql : String
  dialect : Option String
  implType : Option String
  deriving DecidableEq

structure MacroParametersRow where
  macroId : Nat
  implId : Nat
  columnId : Nat
  parameterName : String
  parameterType : String
  defaultValue : Option String
  defaultValueType : Option String
  deriving DecidableEq

structure DataFileRow where
  dataFileId : Nat
  tableId : Nat
  path : String
  fileFormat : String
  recordCount : Nat
  fileSizeBytes : Nat
  footerSize : Option Int
  encryptionKey : Option String
  beginSnapshot : Option Nat
  endSnapshot : Option Nat
  fileOrder : Option Nat
  pathIsRelative : Option Bool
  rowIdStart : Option Nat
  partitionId : Option Nat
  mappingId : Option Nat
  partialMax : Option String
  deriving DecidableEq

structure DeleteFileRow where
  deleteFileId : Nat
  dataFileId : Nat
  path : String
  deleteCount : Nat
  fileSizeBytes : Nat
  snapshotId : Nat
  tableId : Option Nat
  beginSnapshot : Option Nat
  endSnapshot : Option Nat
  pathIsRelative : Option Bool
  format : Option String
  footerSize : Option Int
  partialMax : Option String
  deriving DecidableEq

structure FilesScheduledForDeletionRow where
  dataFileId : Nat
  scheduleStart : Nat
  path : String
  fileType : Option String
  pathIsRelative : Option Bool
  deriving DecidableEq

structure InlinedDataTablesRow where
  tableId : Nat
  schemaVersion : Nat
  sql : String
  deriving DecidableEq

structure TableStatsRow where
  tableId : Nat
  recordCount : Nat
  internalFileCount : Nat
  fileSizeBytes : Nat
  nextRowId : Option Nat
  deriving DecidableEq

structure TableColumnStatsRow where
  tableId : Nat
  columnId : Nat
  containsNull : Bool
  minValue : Option String
  maxValue : Option String
  containsNan : Option Bool
  extraStats : Option String
  deriving DecidableEq

structure FileColumnStatsRow where
  tableId : Nat
  columnId : Nat
  dataFileId : Nat
  containsNull : Bool
  minValue : Option String
  maxValue : Option String
  containsNan : Bool
  columnSizeBytes : Option Nat
  valueCount : Option Nat
  nullCount : Option Nat
  extraStats : Option String
  deriving DecidableEq

structure FileVariantStatsRow where
  tableId : Nat
  columnId : Nat
  deprecatedVariantPathHash : Option Nat
  dataFileId : Nat
  variantKey : String
  minValue : Option String
  maxValue : Option String
  shreddedType : Option String
  columnSizeBytes : Option Nat
  valueCount : Option Nat
  nullCount : Option Nat
  containsNan : Option Bool
  extraStats : Option String
  deriving DecidableEq

structure PartitionInfoRow where
  partitionId : Nat
  tableId : Nat
  beginSnapshot : Nat
  endSnapshot : Option Nat
  deriving DecidableEq

structure SortInfoRow where
  sortId : Nat
  tableId : Nat
  beginSnapshot : Nat
  endSnapshot : Option Nat
  deriving DecidableEq

structure TagRow where
  objectId : Nat
  tagKey : String
  tagValue : String
  beginSnapshot : Nat
  endSnapshot : Option Nat
  deriving DecidableEq

structure ColumnTagRow where
  tableId : Nat
  columnId : Nat
  tagKey : String
  tagValue : String
  beginSnapshot : Nat
  endSnapshot : Option Nat
  deriving DecidableEq

structure SchemaVersionsRow where
  tableId : Nat
  beginSnapshot : Nat
  schemaVersion : Nat
  deriving DecidableEq

structure InlinedInsertRow where
  tableId : Nat
  schemaVersion : Nat
  rowId : Nat
  payload : List UInt8
  beginSnapshot : Nat
  endSnapshot : Option Nat
  deriving DecidableEq

structure InlinedDeleteRow where
  tableId : Nat
  dataFileId : Nat
  rowId : Nat
  beginSnapshot : Nat
  deriving DecidableEq

structure ExtensionSchemaRow where
  extensionId : Nat
  tableName : String
  rowId : Nat
  dataJson : String
  deriving DecidableEq

structure SnapshotLeaseRow where
  consumerId : String
  minSnapshotId : Nat
  expiresAtUnixMs : Nat
  deriving DecidableEq

/-- A checkpoint. A checkpoint pin is stored as one too, with identifier zero and its name as the
label. -/
structure CheckpointMetadata where
  id : Nat
  createdAt : String
  snapshotId : Nat
  label : Option String
  deriving DecidableEq

structure ExciseAuditEntry where
  timestampMillis : Nat
  beforeSnapshot : Nat
  keysDeleted : Nat
  keysFailed : Nat
  operator : String
  deriving DecidableEq

end RockLake
