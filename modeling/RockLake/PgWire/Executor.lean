import RockLake.Catalog.Extension
import RockLake.Catalog.Reader
import RockLake.PgWire.Commit
import RockLake.Sql.Params

/-! Execution of classified statements on one connection. Writes become buffered operations, taken
from the bound parameters and, where a parameter is missing, from the literal rows of the text.
Outside a transaction a statement commits its own operations. -/
namespace RockLake

inductive RockLakeError where
  | catalog (e : CatalogError)
  | sqlDispatch (e : SqlDispatchError)
  | readOnlyReplica
  | unsupported (what : String)
  | permissionDenied (what : String)
  | batchTooLarge
  | sqlState (code message : String)
  deriving DecidableEq

/-- The outcome of a statement: a command tag, the answer to a statement that is not modelled, an
error, or no answer ever. -/
inductive Response where
  | tag (text : String)
  | other (name : String)
  | error (e : RockLakeError)
  | silent
  deriving DecidableEq

def Response.acknowledged : Response → Bool
  | .tag _ | .other _ => true
  | .error _ | .silent => false

/-- The catalog as the connection finds it, and the state of the connection. -/
structure Connection where
  catalog : Catalog
  session : SessionState

/-- What execution takes from outside, beyond what a commit does: the size of the operation type,
the allowed extension schemas and the JSON encoding of named parameters. -/
structure ExecContext extends CommitContext where
  opSize : Nat
  extensionSchemas : List String
  encodeParams : ParamValues → List String → String

def ExecContext.trivial : ExecContext :=
  { CommitContext.trivial with
    opSize := 200, extensionSchemas := ["pgtrickle"], encodeParams := fun _ _ => "\x7b\x7d" }

namespace Executor

open Literals

/-! Operations of the insert statements, from parameters and one literal row. -/

section Ops

variable (params : ParamValues) (literals : List (Option String))

def textAt (param literal : Nat) : Option String :=
  (params.string? param).or (literalString literals literal)

def u64At (param literal : Nat) : Option Nat :=
  (params.u64? param).or (literalU64 literals literal)

def boolAt (param literal : Nat) : Option Bool :=
  (params.bool? param).or (literalBool literals literal)

def optionalTextAt (param literal : Nat) : Option String :=
  (params.getOptionalString param).or (literalString literals literal)

def snapshotChangesOp : BufferedOp :=
  .insertSnapshotChanges ((textAt params literals 0 1).getD "") (optionalTextAt params literals 1 4)
    (params.u64? 2) (params.u64? 3)

def schemaOp : BufferedOp := .insertSchema ((textAt params literals 0 4).getD "")

def tableOp : BufferedOp :=
  .insertTable ((u64At params literals 0 4).getD 1) ((textAt params literals 1 5).getD "")
    (optionalTextAt params literals 2 6)

def columnOp : BufferedOp :=
  .insertColumn ((u64At params literals 0 3).getD 0)
    { columnName := (textAt params literals 1 5).getD ""
      dataType := (textAt params literals 2 6).getD ""
      columnIndex := (u64At params literals 3 4).getD 0
      isNullable := (boolAt params literals 4 9).getD true
      defaultValue := optionalTextAt params literals 5 8
      initialDefault := optionalTextAt params literals 6 7
      defaultValueType := optionalTextAt params literals 7 11
      defaultValueDialect := optionalTextAt params literals 8 12
      parentColumn := u64At params literals 9 10 }

def dataFileOp : BufferedOp :=
  .insertDataFile ((u64At params literals 0 1).getD 0) ((textAt params literals 1 5).getD "")
    ((textAt params literals 2 7).getD "parquet") ((u64At params literals 3 8).getD 0)
    ((u64At params literals 4 9).getD 0)

def tableStatsOp : BufferedOp :=
  .insertTableStats ((u64At params literals 0 0).getD 0) ((u64At params literals 1 1).getD 0)
    ((u64At params literals 2 2).getD 0) ((u64At params literals 3 3).getD 0)

def tableColumnStatsOp : BufferedOp :=
  .insertTableColumnStats ((u64At params literals 0 0).getD 0) ((u64At params literals 1 1).getD 0)
    { containsNull := (boolAt params literals 2 2).getD false
      containsNan := boolAt params literals 3 3
      minValue := optionalTextAt params literals 4 4
      maxValue := optionalTextAt params literals 5 5
      extraStats := optionalTextAt params literals 6 6 }

def schemaVersionsOp : BufferedOp :=
  .insertSchemaVersions ((u64At params literals 0 0).getD 0) ((u64At params literals 1 1).getD 0)
    ((u64At params literals 2 2).getD 0)

def inlinedDataTablesOp : BufferedOp :=
  .insertInlinedDataTables ((u64At params literals 0 0).getD 0)
    ((textAt params literals 1 1).getD "") ((u64At params literals 2 2).getD 0)

/-! The remaining inserts read parameters only. -/

def snapshotOp : BufferedOp :=
  .insertSnapshot (params.getOptionalString 0) (params.getOptionalString 1)

def deleteFileOp : BufferedOp :=
  .insertDeleteFile ((params.u64? 0).getD 0) ((params.string? 1).getD "") ((params.u64? 2).getD 0)
    ((params.u64? 3).getD 0)

def fileColumnStatsOp : BufferedOp :=
  .insertFileColumnStats ((params.u64? 0).getD 0) ((params.u64? 1).getD 0) ((params.u64? 2).getD 0)
    ((params.bool? 3).getD false) (params.getOptionalString 4) (params.getOptionalString 5)
    ((params.bool? 6).getD false)

def metadataOp : BufferedOp :=
  .insertMetadata ((params.string? 0).getD "") ((params.string? 1).getD "")
    (params.getOptionalString 2) (params.u64? 3)

def viewOp : BufferedOp :=
  .insertView ((params.u64? 0).getD 0)
    { viewName := (params.string? 1).getD "", sql := (params.string? 2).getD ""
      viewUuid := params.getOptionalString 3, dialect := params.getOptionalString 4
      columnAliases := params.getOptionalString 5 }

def macroOp : BufferedOp :=
  .insertMacro ((params.u64? 0).getD 0) ((params.string? 1).getD "") ((params.string? 2).getD "")
    (params.getOptionalString 3)

def macroImplOp : BufferedOp :=
  .insertMacroImpl ((params.u64? 0).getD 0) ((params.string? 1).getD "")
    (params.getOptionalString 2) (params.getOptionalString 3)

def macroParametersOp : BufferedOp :=
  .insertMacroParams
    { macroId := (params.u64? 0).getD 0, implId := (params.u64? 1).getD 0
      columnId := (params.u64? 2).getD 0, parameterName := (params.string? 3).getD ""
      parameterType := (params.string? 4).getD "", defaultValue := params.getOptionalString 5
      defaultValueType := params.getOptionalString 6 }

end Ops

/-- With a numeric first parameter, or without literal rows, there is one operation; otherwise one
for each literal row, without parameters. -/
def perRow (op : ParamValues → List (Option String) → BufferedOp) (params : ParamValues)
    (rows : List (List (Option String))) : List BufferedOp :=
  if (params.u64? 0).isSome || rows.isEmpty then [op params (rows.head?.getD [])]
  else rows.map (op [])

def insertOps (into : MetadataTable) (sql : List Char) (params : ParamValues) : List BufferedOp :=
  match into with
  | .snapshot => [snapshotOp params]
  | .snapshotChanges => [snapshotChangesOp params (literalInsertValues sql)]
  | .schema => [schemaOp params (literalInsertValues sql)]
  | .table => [tableOp params (literalInsertValues sql)]
  | .column => perRow columnOp params (literalInsertRows sql)
  | .dataFile => [dataFileOp params (literalInsertValues sql)]
  | .deleteFile => [deleteFileOp params]
  | .tableStats => [tableStatsOp params (literalInsertValues sql)]
  | .tableColumnStats => perRow tableColumnStatsOp params (literalInsertRows sql)
  | .fileColumnStats => [fileColumnStatsOp params]
  | .metadata => [metadataOp params]
  | .inlinedDataTables => perRow inlinedDataTablesOp params (literalInsertRows sql)
  | .schemaVersions => perRow schemaVersionsOp params (literalInsertRows sql)
  | .view => [viewOp params]
  | .macros => [macroOp params]
  | .macroImpl => [macroImplOp params]
  | .macroParameters => [macroParametersOp params]

def normalizeTableRef (tableRef : List Char) : String :=
  let last := match Text.rsplitOnce '.' tableRef with
    | some (_, last) => last
    | none => tableRef
  String.ofList (Text.trimMatches '"' (Text.trim last))

def ducklakeInsertTableName (sql : List Char) : Option String :=
  (Text.find "insert into".toList (Text.lower sql)).bind fun start =>
    let after := Text.trimStart (sql.drop (start + 11))
    (Text.find " values".toList (Text.lower after)).map fun stop =>
      normalizeTableRef (Text.trim (after.take stop))

def inlinedTableNameFromSql (sql : List Char) : Option String :=
  (Text.find "ducklake_inlined_data_".toList (Text.lower sql)).map fun start =>
    let name := (sql.drop start).takeWhile fun c => c.isAlphanum || c = '_'
    String.ofList (Text.trimMatches '"' name)

/-- All four assignments as literals in the text set the statistics; otherwise the parameters give a
change of the row count. -/
def updateTableStatsOp (sql : List Char) (params : ParamValues) : BufferedOp :=
  match literalAssignmentU64 sql "table_id".toList, literalAssignmentU64 sql "record_count".toList,
    literalAssignmentU64 sql "file_size_bytes".toList, literalAssignmentU64 sql "next_row_id".toList
  with
  | some tableId, some recordCount, some fileSizeBytes, some nextRowId =>
    .setTableStats tableId recordCount fileSizeBytes nextRowId
  | _, _, _, _ => .updateTableStats ((params.u64? 1).getD 0) ((params.i64? 0).getD 0)

/-- The parameters of a retirement: end snapshot, identifier, begin snapshot. -/
def updateEndSnapshotOp (tableName : String) (params : ParamValues) : BufferedOp :=
  .updateEndSnapshot tableName ((params.u64? 1).getD 0) ((params.u64? 2).getD 0)
    ((params.u64? 0).getD 0)

variable (ctx : ExecContext)

def answer (result : Except CommitFailure Unit) (done : String) : Response :=
  match result with
  | .ok () => .tag done
  | .error (.failed e) => .error (.catalog e)
  | .error .endless => .silent

/-- Inside a transaction the operations are buffered, else they are committed at once. -/
def submit (conn : Connection) (ops : List BufferedOp) (done : String) : Connection × Response :=
  if conn.session.inTransaction then
    let (pendingTxn, fits) := conn.session.pendingTxn.pushAll ctx.opSize ops
    ({ conn with session := { conn.session with pendingTxn } },
      if fits then .tag done else .error .batchTooLarge)
  else
    let (catalog, result) := executeCommit ctx.toCommitContext ops conn.catalog
    ({ conn with catalog }, answer result done)

/-- Rows received while attaching become operations only on a catalog without a snapshot. -/
def bootstrapOps (conn : Connection) : List BufferedOp :=
  let bootstrap := conn.session.bootstrap
  if bootstrap.hasSnapshot || !bootstrap.schemas.isEmpty then
    match conn.catalog.db.get .snapshot (keySnapshot conn.catalog.store.latestSnapshot) with
    | some _ => []
    | none => bootstrap.schemas.map .insertSchema ++
        (if bootstrap.hasSnapshot then [.insertSnapshot none (some "DuckDB ATTACH bootstrap")] else [])
  else []

def commit (conn : Connection) : Connection × Response :=
  let ops := bootstrapOps conn ++ conn.session.pendingTxn.ops
  let (catalog, result) := executeCommit ctx.toCommitContext ops conn.catalog
  (⟨catalog, { inTransaction := false, pendingTxn := .empty, bootstrap := {} }⟩,
    answer result "COMMIT")

/-- An operation on an extension table of an allowed and known schema. -/
def onExtension (conn : Connection) (schemaName : String)
    (run : Nat → Db → Except CatalogError (String × Db)) : Connection × Response :=
  if isRegisteredExtension schemaName ctx.extensionSchemas then
    match resolveExtensionId schemaName with
    | some extensionId =>
      match run extensionId conn.catalog.db with
      | .ok (done, db) => (⟨{ conn.catalog with db }, conn.session⟩, .tag done)
      | .error e => (conn, .error (.catalog e))
    | none => (conn, .error (.unsupported s!"extension schema '{schemaName}' is not registered"))
  else
    (conn, .error (.permissionDenied s!"extension schema '{schemaName}' is not in the allowed list"))

def executeCreateExtensionTable (tableName : String) (extensionId : Nat) (db : Db) :
    Except CatalogError (String × Db) :=
  (createExtensionTable db extensionId tableName).map fun (_, db) => ("CREATE TABLE", db)

def executeInsertExtensionRow (tableName dataJson : String) (extensionId : Nat) (db : Db) :
    Except CatalogError (String × Db) :=
  (insertExtensionRow db extensionId tableName dataJson).map fun (_, db) => ("INSERT 0 1", db)

def executeDeleteExtensionRows (tableName : String) (extensionId : Nat) (db : Db) :
    Except CatalogError (String × Db) :=
  (deleteExtensionRows db extensionId tableName).map fun (deleted, db) => ("DELETE " ++ toString deleted, db)

/-- Queries, settings, notifications, COPY, leases and the allocation of row identifiers are left
out: they are answered by their name. -/
def executeClassified (conn : Connection) (sql : List Char) (params : ParamValues) :
    StatementKind → Connection × Response
  | .begin => (⟨conn.catalog, { conn.session with inTransaction := true }⟩, .tag "BEGIN")
  | .commit => commit ctx conn
  | .rollback =>
    (⟨conn.catalog, { conn.session with inTransaction := false, pendingTxn := .empty }⟩,
      .tag "ROLLBACK")
  | .insert into =>
    let ops := insertOps into sql params
    let count := ops.length
    submit ctx conn ops ("INSERT 0 " ++ toString count)
  | .insertInlinedRow =>
    let rows := literalInsertRows sql
    let count := rows.length
    submit ctx conn [.insertInlinedRow ((ducklakeInsertTableName sql).getD "") rows]
      ("INSERT 0 " ++ toString count)
  | .updateEndSnapshot tableName =>
    submit ctx conn [updateEndSnapshotOp tableName params] "UPDATE 1"
  | .updateTableStats => submit ctx conn [updateTableStatsOp sql params] "UPDATE 1"
  | .updateTableColumnStats =>
    let ops := (literalInsertRows sql).map (tableColumnStatsOp [])
    let count := ops.length
    submit ctx conn ops ("UPDATE " ++ toString count)
  | .updateInlinedRowEndSnapshot =>
    let tableName := (inlinedTableNameFromSql sql).getD ""
    let rowIds := (literalInsertRows sql).filterMap fun row => literalU64 row 0
    let count := rowIds.length
    if tableName ≠ "" ∧ rowIds ≠ [] then
      submit ctx conn [.deleteInlinedRows tableName rowIds] ("UPDATE " ++ toString count)
    else (conn, .tag ("UPDATE " ++ toString count))
  | .createInlinedTable => (conn, .tag "CREATE TABLE")
  | .createExtensionTable schemaName tableName =>
    onExtension ctx conn schemaName (executeCreateExtensionTable tableName)
  | .insertExtensionRow schemaName tableName columns =>
    onExtension ctx conn schemaName
      (executeInsertExtensionRow tableName (ctx.encodeParams params columns))
  | .deleteExtensionRows schemaName tableName =>
    onExtension ctx conn schemaName (executeDeleteExtensionRows tableName)
  | .virtualCatalogMutation _ => (conn, .error .readOnlyReplica)
  | .copyToStdout query =>
    (conn, .error (.unsupported ("COPY TO STDOUT not yet implemented: " ++ query)))
  | .other name => (conn, .other name)
  | .unsupported what => (conn, .error (.unsupported what))

variable {E : Type} (parse : SqlParser E)

def executeSql (conn : Connection) (sql : List Char) (params : ParamValues) :
    Connection × Response :=
  match classifyStatement parse sql with
  | .error e => (conn, .error (.sqlDispatch e))
  | .ok kind => executeClassified ctx conn sql params kind

end Executor

end RockLake
