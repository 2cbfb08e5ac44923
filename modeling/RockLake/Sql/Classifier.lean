import RockLake.Lib.Text

/-! Classification of SQL statements. A few tests look at the text before it is parsed; every other
statement is classified by its syntax tree, of which the classifier reads the table name and, for
inserts into extension tables, the column list. Upper and lower case are those of ASCII. -/
namespace RockLake

open Option Text

/-- DuckLake metadata tables with an insert of their own. -/
inductive MetadataTable where
  | snapshot | snapshotChanges | schema | table | column | dataFile | deleteFile | tableStats
  | tableColumnStats | fileColumnStats | metadata | inlinedDataTables | schemaVersions | view
  | macros | macroImpl | macroParameters
  deriving DecidableEq

namespace MetadataTable

def name : MetadataTable → String
  | .snapshot => "ducklake_snapshot"
  | .snapshotChanges => "ducklake_snapshot_changes"
  | .schema => "ducklake_schema"
  | .table => "ducklake_table"
  | .column => "ducklake_column"
  | .dataFile => "ducklake_data_file"
  | .deleteFile => "ducklake_delete_file"
  | .tableStats => "ducklake_table_stats"
  | .tableColumnStats => "ducklake_table_column_stats"
  | .fileColumnStats => "ducklake_file_column_stats"
  | .metadata => "ducklake_metadata"
  | .inlinedDataTables => "ducklake_inlined_data_tables"
  | .schemaVersions => "ducklake_schema_versions"
  | .view => "ducklake_view"
  | .macros => "ducklake_macro"
  | .macroImpl => "ducklake_macro_impl"
  | .macroParameters => "ducklake_macro_parameters"

def all : List MetadataTable :=
  [.snapshot, .snapshotChanges, .schema, .table, .column, .dataFile, .deleteFile, .tableStats,
   .tableColumnStats, .fileColumnStats, .metadata, .inlinedDataTables, .schemaVersions, .view,
   .macros, .macroImpl, .macroParameters]

def ofName (text : List Char) : Option MetadataTable := all.find? fun t => t.name.toList = text

end MetadataTable

/-- Kinds of statements that write. Queries, settings and notifications are one kind with a name,
since nothing else of them is modelled. -/
inductive StatementKind where
  | begin | commit | rollback
  | insert (into : MetadataTable)
  | insertInlinedRow
  | updateEndSnapshot (tableName : String)
  | updateTableStats
  | updateTableColumnStats
  | updateInlinedRowEndSnapshot
  | createInlinedTable
  | createExtensionTable (schemaName tableName : String)
  | insertExtensionRow (schemaName tableName : String) (columns : List String)
  | deleteExtensionRows (schemaName tableName : String)
  | virtualCatalogMutation (tableName : String)
  | copyToStdout (query : String)
  | other (name : String)
  | unsupported (what : String)
  deriving DecidableEq

inductive SqlDispatchError where
  | parseError (message : String)
  | missingParam (position : Nat)
  | typeMismatch (position : Nat) (expected actual : String)
  | invalidChannelName (channel reason : String)
  deriving DecidableEq

/-- The parsed statement, as far as it matters here. Expressions are whatever the parser makes of
them, and a table factor that is not a plain table has no name. -/
inductive Statement (E : Type) where
  | startTransaction | commit | rollback
  | insert (table : String) (columns : List String)
  | insertFunction
  | update (table : Option String) (assignments : List (String × E)) (selection : Option E)
  | createTable (name : String)
  | delete (tables : List (Option String)) (selection : Option E)
  | passive (name : String)
  | unsupported (text : String)

namespace Classifier

/-- A leading `public` schema is dropped, and so are the quotes of a single quoted identifier. -/
def stripPublicSchema (s : List Char) : List Char :=
  match stripPrefix "\"public\".".toList s with
  | some rest => trimMatches '"' rest
  | none =>
    match stripPrefix "public.".toList s with
    | some rest => trimMatches '"' rest
    | none =>
      if s.head? = some '"' ∧ s.getLast? = some '"' ∧ 2 ≤ s.length then
        let inner := (s.drop 1).dropLast
        if '"' ∈ inner then s else inner
      else s

def isDuckLake (name : List Char) : Bool := "ducklake_".toList.isPrefixOf name

def splitQualified (name : List Char) : Option (String × String) :=
  (splitOnce '.' name).map fun (schema, table) =>
    (String.ofList (trimMatches '"' schema), String.ofList (trimMatches '"' table))

def virtualCatalog (name : List Char) : Option StatementKind :=
  (stripPrefix "rocklake_catalog.".toList name).map fun table =>
    .virtualCatalogMutation (String.ofList table)

def classifyInsert (tableName : String) (columns : List String) : StatementKind :=
  let raw := lower tableName.toList
  let name := stripPublicSchema raw
  match virtualCatalog name with
  | some rejected => rejected
  | none =>
    match MetadataTable.ofName name with
    | some into => .insert into
    | none =>
      -- any other DuckLake table is taken for an inlined data table
      if isDuckLake name then .insertInlinedRow
      else match splitQualified name with
        | some (schema, table) => .insertExtensionRow schema table columns
        | none => .unsupported ("INSERT INTO " ++ String.ofList raw)

/-- Neither the assignments nor the condition of an update are looked at. -/
def classifyUpdate (tableName : Option String) : StatementKind :=
  let name := stripPublicSchema (lower (tableName.getD "").toList)
  match virtualCatalog name with
  | some rejected => rejected
  | none =>
    if name = "ducklake_table_stats".toList then .updateTableStats
    else if "ducklake_inlined_".toList.isPrefixOf name then .updateInlinedRowEndSnapshot
    else if isDuckLake name then .updateEndSnapshot (String.ofList name)
    else .unsupported ("UPDATE " ++ String.ofList name)

def classifyCreateTable (tableName : String) : StatementKind :=
  let name := lower tableName.toList
  let unquoted := trimMatches '"' name
  if contains "ducklake_inlined".toList unquoted || isDuckLake unquoted then .createInlinedTable
  else match splitQualified name with
    | some (schema, table) =>
      if schema = "public" && isDuckLake table.toList then .createInlinedTable
      else .createExtensionTable schema table
    | none => .unsupported ("CREATE TABLE " ++ String.ofList name)

/-- Only the first table of a delete is looked at, and never its condition. -/
def classifyDelete (tables : List (Option String)) : StatementKind :=
  match tables with
  | [] => .unsupported "DELETE"
  | first :: _ =>
    match splitQualified (lower (first.getD "").toList) with
    | none => .unsupported "DELETE"
    | some (schema, table) =>
      if schema = "rocklake_catalog" then .virtualCatalogMutation table
      else .deleteExtensionRows schema table

variable {E : Type}

def classifyAst : Statement E → StatementKind
  | .startTransaction => .begin
  | .commit => .commit
  | .rollback => .rollback
  | .insert table columns => classifyInsert table columns
  | .insertFunction => .unsupported "INSERT into function"
  | .update table _ _ => classifyUpdate table
  | .createTable name => classifyCreateTable name
  | .delete tables _ => classifyDelete tables
  | .passive name => .other name
  | .unsupported text => .unsupported text

/-! Tests on the text. -/

def dropPublic (text : List Char) : Option (List Char) :=
  let low := lower text
  if "\"public\".".toList.isPrefixOf low then some (text.drop 9)
  else if "public.".toList.isPrefixOf low then some (text.drop 7)
  else none

/-- Every `public` qualifier is cut out, once some DuckLake table is qualified by it. The number of
characters bounds the number of steps. -/
def stripPublicPrefix : Nat → List Char → List Char
  | 0, text => text
  | _, [] => []
  | fuel + 1, c :: rest =>
    match dropPublic (c :: rest) with
    | some after => stripPublicPrefix fuel after
    | none => c :: stripPublicPrefix fuel rest

def normalizeSql (sql : List Char) : List Char :=
  let low := lower sql
  if contains "\"public\".\"ducklake_".toList low || contains "\"public\".ducklake_".toList low ||
      contains "public.ducklake_".toList low then stripPublicPrefix sql.length sql
  else sql

/-- Channel names have a size of up to 63 and are letters, digits and underscores, no digit first. -/
def validateChannelName (size : List Char → Nat) (alphabetic alphanumeric : Char → Bool)
    (channel : List Char) : Except SqlDispatchError Unit :=
  let reject := fun reason => .error (.invalidChannelName (String.ofList channel) reason)
  match channel with
  | [] => reject "channel name must be 1–63 characters"
  | first :: rest =>
    if size channel > 63 then reject "channel name must be 1–63 characters"
    else if !alphabetic first && first ≠ '_' then
      reject "channel name must start with a letter or underscore"
    else match rest.find? fun c => !alphanumeric c && c ≠ '_' with
      | some c => reject ("invalid character '" ++ String.ofList [c] ++ "' in channel name")
      | none => .ok ()

def classifyListen (sql : List Char) : Option (Except SqlDispatchError StatementKind) :=
  let trimmed := trim sql
  let validate := fun (rest : List Char) => validateChannelName List.length Char.isAlpha Char.isAlphanum
    (trim (dropEndWhile (· = ';') (trim rest)))
  if "LISTEN ".toList.isPrefixOf (upper trimmed) then
    some ((validate (trimmed.drop 7)).map fun _ => .other "Listen")
  else if "UNLISTEN ".toList.isPrefixOf (upper trimmed) then
    some ((validate (trimmed.drop 9)).map fun _ => .other "Unlisten")
  else none

/-- The two tests for statistics and inlined rows. They hold for any text that has both words in it,
wherever they stand. -/
def updateByText (low : List Char) : Option StatementKind :=
  if contains "update".toList low && contains "ducklake_table_column_stats".toList low then
    some .updateTableColumnStats
  else if contains "update".toList low && contains "ducklake_inlined_data_".toList low then
    some .updateInlinedRowEndSnapshot
  else none

def stripColumnList (inQuote : Bool) : List Char → List Char
  | [] => []
  | c :: rest =>
    if c = '(' && !inQuote then []
    else c :: stripColumnList (if c = '"' then !inQuote else inQuote) rest

end Classifier

namespace CopyText

def stripColumnList (s : List Char) : List Char :=
  let name := Classifier.stripColumnList false s
  if name.length = s.length then name else trim name

/-- The table of a COPY as it is written, without column list, quotes and schema. -/
def tableName (s : List Char) : List Char :=
  let s := trimMatches '"' (stripColumnList (trim s))
  match stripPrefix "public.".toList s with
  | some rest => trimMatches '"' rest
  | none =>
    match stripPrefix "\"public\".".toList s with
    | some rest => trimMatches '"' rest
    | none =>
      match splitOnce '.' s with
      | some (_, table) => trimMatches '"' table
      | none => s

/-- The query inside the parentheses between COPY and TO STDOUT. -/
def copiedQuery (uppercase : List Char → List Char) (queryPart : List Char) : Option (List Char) :=
  let queryPart := trim queryPart
  if queryPart.head? = some '(' ∧ queryPart.getLast? = some ')' then
    let inner := trim (queryPart.drop 1).dropLast
    if "SELECT".toList.isPrefixOf (uppercase inner) then some inner else none
  else none

end CopyText

namespace Classifier

/-- The text between COPY and the given end, when both occur and something stands between. -/
def copyBetween (stop : String) (sql : List Char) : Option (List Char) :=
  (find "COPY".toList (upper sql)).bind fun start =>
    (find stop.toList (upper sql)).bind fun stop =>
      if stop ≤ start + 4 then none else some ((sql.drop (start + 4)).take (stop - (start + 4)))

def classifyCopyFromStdin (sql : List Char) : Option StatementKind :=
  (copyBetween "FROM STDIN" sql).bind fun table =>
    if isDuckLake (lower (CopyText.tableName table)) then some (.other "CopyFromStdin") else none

def classifyCopyToStdout (sql : List Char) : Option StatementKind :=
  (copyBetween "TO STDOUT" sql).bind fun query =>
    (CopyText.copiedQuery upper query).map fun inner => .copyToStdout (String.ofList inner)

/-- The words of the query that DuckLake sends for the latest snapshot with statistics and changes. -/
def unionsStats (low : List Char) : Bool :=
  contains "union all".toList low && contains "ducklake_snapshot".toList low &&
    contains "ducklake_snapshot_changes".toList low && contains "ducklake_table_stats".toList low &&
    contains "ducklake_table_column_stats".toList low

/-- The tests for statements that do not write, after the ones for updates. -/
def classifyText (sql : List Char) : Option StatementKind :=
  let low := lower sql
  if "set time zone".toList.isPrefixOf low then some (.other "SetVariable")
  else if unionsStats low then some (.other "SelectSnapshotStatsAndChanges")
  else if contains "pg_namespace".toList sql && contains "pg_class".toList sql then
    some (.other "PgCatalogScan")
  else (classifyCopyFromStdin sql).or (classifyCopyToStdout sql)

end Classifier

abbrev SqlParser (E : Type) := List Char → Except String (Statement E)

def classifyStatement {E : Type} (parse : SqlParser E) (text : List Char) :
    Except SqlDispatchError StatementKind :=
  let sql := Classifier.normalizeSql text
  match Classifier.classifyListen sql with
  | some result => result
  | none =>
    match (Classifier.updateByText (Text.lower sql)).or (Classifier.classifyText sql) with
    | some kind => .ok kind
    | none =>
      match parse sql with
      | .ok statement => .ok (Classifier.classifyAst statement)
      | .error message => .error (.parseError message)

namespace Classifier

variable {E : Type} {parse : SqlParser E} {sql : List Char}

/-- No test on the text takes the statement before it is parsed. -/
structure ReachesParser (sql : List Char) : Prop where
  listen : classifyListen (normalizeSql sql) = none
  update : updateByText (Text.lower (normalizeSql sql)) = none
  text : classifyText (normalizeSql sql) = none

theorem classify_parsed (reaches : ReachesParser sql)
    (parsed : parse (normalizeSql sql) = .ok statement) :
    classifyStatement parse sql = .ok (classifyAst statement) := by
  simp [classifyStatement, reaches.listen, reaches.update, reaches.text, parsed]

end Classifier

end RockLake
