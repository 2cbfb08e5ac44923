import RockLake.Catalog.Store
import RockLake.PgWire.Literals
import RockLake.PgWire.Session

/-! The commit of a transaction: the buffered operations become calls on one writer, in order, and a
snapshot is created at the end if some operation needs one. The first failing call ends the commit. -/
namespace RockLake

/-- What a commit takes from outside: hashing and float comparison, the identifier drawn for the
i-th operation, the JSON encoding of inlined values, the clock, and the outcome of the snapshot
transaction. -/
structure CommitContext where
  env : Env
  uuid : Nat → String
  encodeValues : List (Option String) → List UInt8
  now : String
  conflict : Option String

def CommitContext.trivial : CommitContext :=
  { env := .trivial, uuid := fun _ => "4b1d", encodeValues := fun _ => [], now := "", conflict := none }

/-- A commit fails with an error of the catalog. In one case it does not return at all: when every
row identifier from the requested one up to the largest is taken. -/
inductive CommitFailure where
  | failed (e : CatalogError)
  | endless
  deriving DecidableEq

structure CommitState where
  db : Db
  writer : CatalogWriter
  snapshotAuthor : Option String
  snapshotMessage : Option String
  needsSnapshot : Bool
  reservedInlinedRows : List (Nat × Nat × Nat)

/-- Table and schema version from the name of an inlined data table. -/
def parseInlinedTableIds (tableName : String) : Option (Nat × Nat) :=
  let normalized := Text.lower (Text.trimMatches '"' tableName.toList)
  (Text.stripPrefix "ducklake_inlined_data_".toList normalized).bind fun suffix =>
    (Text.rsplitOnce '_' suffix).bind fun (tableId, schemaVersion) =>
      (Text.parseUnsigned (2 ^ 64) tableId).bind fun tableId =>
        (Text.parseUnsigned (2 ^ 64) schemaVersion).map fun schemaVersion =>
          (tableId, schemaVersion)

def inlinedRowId (values : List (Option String)) : Option Nat :=
  values.head?.join.bind Literals.parseU64

def collectReplacedInlinedRows (ops : List BufferedOp) : List (Nat × Nat × Nat) :=
  ops.flatMap fun
    | .insertInlinedRow tableName rows =>
      match parseInlinedTableIds tableName with
      | some (tableId, version) => (rows.filterMap inlinedRowId).map fun id => (tableId, version, id)
      | none => []
    | _ => []

def collectDeletedInlinedRows (ops : List BufferedOp) : List (Nat × Nat × Nat) :=
  ops.flatMap fun
    | .deleteInlinedRows tableName rowIds =>
      match parseInlinedTableIds tableName with
      | some (tableId, version) => rowIds.map fun id => (tableId, version, id)
      | none => []
    | _ => []

/-- The first identifier that is not taken, trying as many as there is fuel. -/
def freeRowId (taken : Nat → Bool) : Nat → Nat → Option Nat
  | 0, _ => none
  | fuel + 1, id => if taken id then freeRowId taken fuel (id + 1) else some id

namespace CommitState

variable (ctx : CommitContext) (s : CommitState)

def staging (call : StagingCall) : Except CommitFailure CommitState :=
  match s.writer.staging ctx.env s.db call with
  | .ok (_, writer) => .ok { s with writer }
  | .error e => .error (.failed e)

def direct (call : DirectCall) : CommitState := { s with db := call.apply ctx.env s.db }

/-- One row of an inlined insert. A row whose identifier does not parse is skipped. An identifier in
use is advanced, unless the transaction deletes that row. -/
def insertInlinedValues (deleted : List (Nat × Nat × Nat)) (tableId version : Nat)
    (values : List (Option String)) : Except CommitFailure CommitState :=
  match inlinedRowId values with
  | none => .ok s
  | some rowId =>
    let taken := fun id => decide ((tableId, version, id) ∈ s.reservedInlinedRows) ||
      s.writer.inlinedInsertKeyExists s.db tableId version id
    let effective := if (tableId, version, rowId) ∈ deleted then some rowId
      else freeRowId taken (u64Max + 1 - rowId) rowId
    match effective with
    | none => .error .endless
    | some id =>
      { s with reservedInlinedRows := (tableId, version, id) :: s.reservedInlinedRows }.staging
        ctx (.registerInlinedInsert tableId version id (ctx.encodeValues (values.drop 3)))

def insertInlinedRows (deleted : List (Nat × Nat × Nat)) (tableId version : Nat) :
    CommitState → List (List (Option String)) → Except CommitFailure CommitState
  | s, [] => .ok s
  | s, values :: rest =>
    match s.insertInlinedValues ctx deleted tableId version values with
    | .ok s => insertInlinedRows deleted tableId version s rest
    | .error e => .error e

def markInlinedRows (replaced : List (Nat × Nat × Nat)) (tableId version : Nat) :
    CommitState → List Nat → Except CommitFailure CommitState
  | s, [] => .ok s
  | s, rowId :: rest =>
    if (tableId, version, rowId) ∈ replaced then
      markInlinedRows replaced tableId version s rest
    else match s.staging ctx (.markInlinedInsertDeleted tableId version rowId) with
      | .ok s => markInlinedRows replaced tableId version s rest
      | .error e => .error e

/-- The retirement of a table or a column under the key made of its identifiers and the given begin
snapshot. Updates of other tables are accepted and do nothing. -/
def updateEndSnapshot (tableName : String) (entityId beginSnapshot : Nat) :
    Except CommitFailure CommitState :=
  if tableName = "ducklake_table" then
    let schemaId := (CatalogWriter.findTableSchemaId s.db entityId).getD 0
    s.staging ctx (.dropTable schemaId entityId beginSnapshot)
  else if tableName = "ducklake_column" then
    let tableId := (CatalogWriter.findColumnTableId s.db entityId).getD entityId
    s.staging ctx (.dropColumn tableId entityId beginSnapshot)
  else .ok s

end CommitState

def resolveScope : Option String → MetadataScope
  | some "schema" => .schema
  | some "table" => .table
  | _ => .global

namespace BufferedOp

/-- Statistics inserts are the only operations that do not ask for a snapshot. -/
def needsSnapshot : BufferedOp → Bool
  | .insertTableColumnStats .. | .insertTableStats .. => false
  | _ => true

/-- One operation on the writer of the commit; `uuid` is the identifier drawn for it. -/
def apply (ctx : CommitContext) (replaced deleted : List (Nat × Nat × Nat)) (uuid : String)
    (s : CommitState) : BufferedOp → Except CommitFailure CommitState
  | .insertSchema name => s.staging ctx (.createSchema name uuid)
  | .insertTable schemaId name path => s.staging ctx (.createTable schemaId name path uuid)
  | .insertColumn tableId spec => s.staging ctx (.addColumn tableId spec)
  | .insertDataFile tableId path format rows bytes =>
    s.staging ctx (.registerDataFile tableId
      { path, fileFormat := format, recordCount := rows, fileSizeBytes := bytes })
  | .insertDeleteFile dataFileId path count bytes =>
    s.staging ctx (.registerDeleteFile dataFileId
      { path, deleteCount := count, fileSizeBytes := bytes })
  | .insertSnapshot author message =>
    .ok { s with snapshotAuthor := author, snapshotMessage := message }
  | .insertSnapshotChanges kind info schemaId tableId =>
    s.staging ctx (.addSnapshotChanges kind info schemaId tableId)
  | .updateEndSnapshot tableName entityId begun _ => s.updateEndSnapshot ctx tableName entityId begun
  | .updateTableStats tableId delta => .ok (s.direct ctx (.applyTableStatsDelta tableId delta))
  | .setTableStats tableId records bytes next =>
    .ok (s.direct ctx (.setTableStats tableId records bytes next))
  | .insertFileColumnStats tableId columnId dataFileId containsNull minValue maxValue containsNan =>
    .ok (s.direct ctx (.upsertFileColumnStats
      { tableId, columnId, dataFileId, containsNull, minValue, maxValue, containsNan,
        columnSizeBytes := none, valueCount := none, nullCount := none, extraStats := none }))
  | .insertTableColumnStats tableId columnId spec =>
    .ok (s.direct ctx (.upsertTableColumnStats tableId columnId spec))
  | .insertMetadata key value scope scopeId =>
    s.staging ctx (.setMetadata (resolveScope scope) (scopeId.getD 0) key value)
  | .insertInlinedDataTables tableId name version =>
    s.staging ctx (.registerInlinedDataTable tableId name version)
  | .insertSchemaVersions begun version tableId =>
    s.staging ctx (.registerSchemaVersion begun version tableId)
  | .insertInlinedRow tableName rows =>
    match parseInlinedTableIds tableName with
    | some (tableId, version) => s.insertInlinedRows ctx deleted tableId version rows
    | none => .ok s
  | .deleteInlinedRows tableName rowIds =>
    match parseInlinedTableIds tableName with
    | some (tableId, version) =>
      (s.markInlinedRows ctx replaced tableId version rowIds).map fun s =>
        s.direct ctx (.adjustTableRecordCount tableId (-(rowIds.length : Int)))
    | none => .ok s
  | .insertView schemaId spec => s.staging ctx (.createView schemaId spec uuid)
  | .insertMacro schemaId name kind _ => s.staging ctx (.createMacro schemaId name kind uuid)
  | .insertMacroImpl macroId sql dialect kind =>
    s.staging ctx (.addMacroImpl macroId sql dialect kind)
  | .insertMacroParams row => .ok (s.direct ctx (.addMacroParameter row))
  | .insertTableStats tableId records next bytes =>
    .ok (s.direct ctx (.updateTableStats tableId records next bytes))

end BufferedOp

/-- The operations from the i-th on. A failure comes with the store it leaves behind. -/
def runOps (ctx : CommitContext) (replaced deleted : List (Nat × Nat × Nat)) :
    Nat → CommitState → List BufferedOp → Except (Db × CommitFailure) CommitState
  | _, s, [] => .ok s
  | i, s, op :: rest =>
    match op.apply ctx replaced deleted (ctx.uuid i)
        { s with needsSnapshot := s.needsSnapshot || op.needsSnapshot } with
    | .ok s => runOps ctx replaced deleted (i + 1) s rest
    | .error e => .error (s.db, e)

def CommitState.start (catalog : Catalog) : CommitState :=
  { db := catalog.db, writer := catalog.store.beginWrite, snapshotAuthor := none,
    snapshotMessage := none, needsSnapshot := false, reservedInlinedRows := [] }

def CommitState.request (ctx : CommitContext) (s : CommitState) : SnapshotRequest :=
  { author := s.snapshotAuthor, message := s.snapshotMessage, now := ctx.now,
    conflict := ctx.conflict }

def executeCommit (ctx : CommitContext) (ops : List BufferedOp) (catalog : Catalog) :
    Catalog × Except CommitFailure Unit :=
  match runOps ctx (collectReplacedInlinedRows ops) (collectDeletedInlinedRows ops) 0
      (.start catalog) ops with
  | .error (db, e) => (⟨db, catalog.store⟩, .error e)
  | .ok s =>
    if s.needsSnapshot then
      match (s.writer.createSnapshot s.db (s.request ctx)).1 with
      | .ok (result, db) => (⟨db, catalog.store.commitWriter result⟩, .ok ())
      | .error e => (⟨s.db, catalog.store⟩, .error (.failed e))
    else (⟨s.db, catalog.store⟩, .ok ())

end RockLake
