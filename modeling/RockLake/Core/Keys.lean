import Mathlib.Algebra.Order.Ring.Nat
import Mathlib.Data.List.Lex
import RockLake.Core.Rows

/-! Key families and key builders. A family stands for the leading tag byte of a key, with the
subtype byte of inlined rows and the fixed suffix of a system key. The rest of a key is its list of
words: every big-endian `u64` and every character of a text is one word, so words compare as the
encoded bytes do and a byte prefix is a list prefix. -/
namespace RockLake

inductive Family where
  | metadata | snapshot | snapshotChanges | schema | table | column | view | macros | macroImpl
  | macroParameters | dataFile | deleteFile | filesScheduledForDeletion | inlinedDataTables
  | tableStats | tableColumnStats | fileColumnStats | fileVariantStats | partitionInfo | sortInfo
  | tag | columnTag | schemaVersions | dataFileBySnapshot | extensionSchema | tableById
  | inlinedInsert | inlinedDelete | counter | writerEpoch | writerNonce | retainFrom
  | catalogFormatVersion | snapshotLease | pinnedSnapshot | checkpoint | checkpointPin | exciseAudit
  deriving DecidableEq

/-- What is stored under the keys of a family. Decoding a stored value gives back the row that was
encoded, so the store holds rows. -/
abbrev Family.Row : Family → Type
  | .metadata => MetadataRow
  | .snapshot => SnapshotRow
  | .snapshotChanges => SnapshotChangesRow
  | .schema => SchemaRow
  | .table => TableRow
  | .column => ColumnRow
  | .view => ViewRow
  | .macros => MacroRow
  | .macroImpl => MacroImplRow
  | .macroParameters => MacroParametersRow
  | .dataFile => DataFileRow
  | .deleteFile => DeleteFileRow
  | .filesScheduledForDeletion => FilesScheduledForDeletionRow
  | .inlinedDataTables => InlinedDataTablesRow
  | .tableStats => TableStatsRow
  | .tableColumnStats => TableColumnStatsRow
  | .fileColumnStats => FileColumnStatsRow
  | .fileVariantStats => FileVariantStatsRow
  | .partitionInfo => PartitionInfoRow
  | .sortInfo => SortInfoRow
  | .tag => TagRow
  | .columnTag => ColumnTagRow
  | .schemaVersions => SchemaVersionsRow
  | .dataFileBySnapshot => DataFileRow
  | .extensionSchema => ExtensionSchemaRow
  | .tableById => Nat
  | .inlinedInsert => InlinedInsertRow
  | .inlinedDelete => InlinedDeleteRow
  | .counter => Nat
  | .writerEpoch => Nat
  | .writerNonce => String
  | .retainFrom => Nat
  | .catalogFormatVersion => Nat
  | .snapshotLease => SnapshotLeaseRow
  | .pinnedSnapshot => Nat
  | .checkpoint => CheckpointMetadata
  | .checkpointPin => CheckpointMetadata
  | .exciseAudit => ExciseAuditEntry

abbrev Key := List Nat

/-- The words of a text: its characters. UTF-8 orders texts as their code points do. -/
def textWords (text : String) : Key := text.toList.map Char.toNat

def utf8Length (text : String) : Nat := (text.toList.map Char.utf8Size).sum

inductive MetadataScope where
  | global | schema | table
  deriving DecidableEq

def MetadataScope.byte : MetadataScope → Nat
  | .global => 0
  | .schema => 1
  | .table => 2

/-- The length word is truncated to 16 bits, as the cast in the key builder does. -/
def keyMetadata (scope : MetadataScope) (scopeId : Nat) (key : String) : Key :=
  scope.byte :: scopeId :: utf8Length key % 2 ^ 16 :: textWords key

def keySnapshot (snapshotId : Nat) : Key := [snapshotId]
def keySnapshotChanges (snapshotId : Nat) : Key := [snapshotId]
def keySchema (schemaId : Nat) : Key := [schemaId]
def keyTable (schemaId tableId beginSnapshot : Nat) : Key := [schemaId, tableId, beginSnapshot]
def keyColumn (tableId columnId beginSnapshot : Nat) : Key := [tableId, columnId, beginSnapshot]
def keyView (schemaId viewId beginSnapshot : Nat) : Key := [schemaId, viewId, beginSnapshot]
def keyMacro (schemaId macroId beginSnapshot : Nat) : Key := [schemaId, macroId, beginSnapshot]
def keyMacroImpl (macroId implId : Nat) : Key := [macroId, implId]
def keyMacroParameters (macroId implId columnId : Nat) : Key := [macroId, implId, columnId]
def keyDataFile (tableId dataFileId : Nat) : Key := [tableId, dataFileId]
def keyDataFileBySnapshot (tableId snapshotId fileId : Nat) : Key := [tableId, snapshotId, fileId]
def keyDeleteFile (dataFileId deleteFileId : Nat) : Key := [dataFileId, deleteFileId]
def keyFilesScheduledForDeletion (scheduleStart dataFileId : Nat) : Key :=
  [scheduleStart, dataFileId]
def keyInlinedDataTables (tableId schemaVersion : Nat) : Key := [tableId, schemaVersion]
def keyTableStats (tableId : Nat) : Key := [tableId]
def keyTableColumnStats (tableId columnId : Nat) : Key := [tableId, columnId]
def keyFileColumnStats (tableId columnId dataFileId : Nat) : Key := [tableId, columnId, dataFileId]
def keyFileVariantStats (tableId columnId variantPathHash dataFileId : Nat) : Key :=
  [tableId, columnId, variantPathHash, dataFileId]
def keyPartitionInfo (tableId partitionId beginSnapshot : Nat) : Key :=
  [tableId, partitionId, beginSnapshot]
def keySortInfo (tableId sortId beginSnapshot : Nat) : Key := [tableId, sortId, beginSnapshot]
def keyTag (objectId tagKeyHash beginSnapshot : Nat) : Key := [objectId, tagKeyHash, beginSnapshot]
def keyColumnTag (tableId columnId tagKeyHash beginSnapshot : Nat) : Key :=
  [tableId, columnId, tagKeyHash, beginSnapshot]
def keySchemaVersions (tableId beginSnapshot : Nat) : Key := [tableId, beginSnapshot]
def keyInlinedInsert (tableId schemaVersion rowId : Nat) : Key := [tableId, schemaVersion, rowId]
def keyInlinedDelete (tableId dataFileId rowId : Nat) : Key := [tableId, dataFileId, rowId]
def keyTableById (tableId : Nat) : Key := [tableId]

def counterNextSnapshotId : Nat := 0x01
def counterNextCatalogId : Nat := 0x02
def counterNextFileId : Nat := 0x03
def counterNextCheckpointId : Nat := 0x04
def counterNextExcisionSeq : Nat := 0x05
def counterNextRowidTag : Nat := 0x11

def keyCounter (counterId : Nat) : Key := [counterId]
def keyCounterRowid (tableId : Nat) : Key := [counterNextRowidTag, tableId]

def keySystem : Key := []

/-! System keys with words after the suffix. -/

def keyPinnedSnapshot (snapshotId : Nat) : Key := [snapshotId]
def checkpointKey (id : Nat) : Key := [id]
def checkpointPinKey (name : String) : Key := textWords name
def exciseAuditKeyWithSeq (timestampMillis seq : Nat) : Key := [timestampMillis, seq]

end RockLake
