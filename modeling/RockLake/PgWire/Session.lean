import RockLake.Catalog.Snapshot

/-! Session state of a client connection. Write statements between BEGIN and COMMIT are buffered as
operations on the catalog; the buffer has a size limit. -/
namespace RockLake

open CatalogWriter in
inductive BufferedOp where
  | insertSchema (schemaName : String)
  | insertTable (schemaId : Nat) (tableName : String) (dataPath : Option String)
  | insertColumn (tableId : Nat) (spec : ColumnSpec)
  | insertDataFile (tableId : Nat) (path fileFormat : String) (rowCount fileSizeBytes : Nat)
  | insertDeleteFile (dataFileId : Nat) (path : String) (deleteCount fileSizeBytes : Nat)
  | insertSnapshot (author message : Option String)
  | insertSnapshotChanges (changeType : String) (changeInfo : Option String)
      (schemaId tableId : Option Nat)
  | updateEndSnapshot (tableName : String) (entityId beginSnapshot endSnapshot : Nat)
  | updateTableStats (tableId : Nat) (rowCountDelta : Int)
  | setTableStats (tableId recordCount fileSizeBytes nextRowId : Nat)
  | insertFileColumnStats (tableId columnId dataFileId : Nat) (containsNull : Bool)
      (minValue maxValue : Option String) (containsNan : Bool)
  | insertTableColumnStats (tableId columnId : Nat) (spec : ColumnStatsSpec)
  | insertMetadata (key value : String) (scope : Option String) (scopeId : Option Nat)
  | insertInlinedDataTables (tableId : Nat) (tableName : String) (schemaVersion : Nat)
  | insertSchemaVersions (beginSnapshot schemaVersion tableId : Nat)
  | insertInlinedRow (tableName : String) (rows : List (List (Option String)))
  | deleteInlinedRows (tableName : String) (rowIds : List Nat)
  | insertView (schemaId : Nat) (spec : ViewSpec)
  | insertMacro (schemaId : Nat) (macroName macroType : String) (macroUuid : Option String)
  | insertMacroImpl (macroId : Nat) (sql : String) (dialect implType : Option String)
  | insertMacroParams (row : MacroParametersRow)
  | insertTableStats (tableId recordCount nextRowId fileSizeBytes : Nat)
  deriving DecidableEq

def maxBatchSize : Nat := 64 * 1024 * 1024

structure PendingCatalogTxn where
  ops : List BufferedOp
  estimatedSize : Nat

namespace PendingCatalogTxn

def empty : PendingCatalogTxn := ⟨[], 0⟩

/-- Every operation is estimated at the size of the operation type and 128 more bytes; nothing is
returned when the batch would become too large. -/
def push (opSize : Nat) (txn : PendingCatalogTxn) (op : BufferedOp) : Option PendingCatalogTxn :=
  if txn.estimatedSize + (opSize + 128) > maxBatchSize then none
  else some ⟨txn.ops ++ [op], txn.estimatedSize + (opSize + 128)⟩

/-- Operations are pushed one by one; those before the one that does not fit stay. -/
def pushAll (opSize : Nat) (txn : PendingCatalogTxn) :
    List BufferedOp → PendingCatalogTxn × Bool
  | [] => (txn, true)
  | op :: rest =>
    match txn.push opSize op with
    | some txn => txn.pushAll opSize rest
    | none => (txn, false)

theorem pushAll_ops {txn : PendingCatalogTxn} {ops : List BufferedOp}
    (pushed : (txn.pushAll opSize ops).2 = true) :
    (txn.pushAll opSize ops).1.ops = txn.ops ++ ops := by
  induction ops generalizing txn with
  | nil => exact (List.append_nil _).symm
  | cons op rest ih =>
    simp only [pushAll, push] at pushed ⊢
    split at pushed
    · rename_i txn' fits
      split at fits
      · cases fits
      · cases fits
        simpa using ih pushed
    · cases pushed

end PendingCatalogTxn

/-- Rows received through COPY while a client attaches. -/
structure BootstrapState where
  hasSnapshot : Bool := false
  schemas : List String := []

structure SessionState where
  inTransaction : Bool := false
  pendingTxn : PendingCatalogTxn := .empty
  bootstrap : BootstrapState := {}

end RockLake
