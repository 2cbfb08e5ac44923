import RockLake.Lib.Unicode
import RockLake.Sql.Classifier
import RockLake.Sql.Lifting

/-! Classification of statements by their syntax trees, with all kinds of statements. Most of it reads
names; a few tests read printed expressions, in which string literals stand with their contents. -/
namespace RockLake.Sql

open Text Unicode

/-- How a string literal is delimited. -/
inductive Quoting where
  | apostrophes (lead : List Char)
  | dollars (tag : List Char)
  deriving DecidableEq

namespace Quoting

def opening : Quoting → List Char
  | .apostrophes lead => lead ++ ['\'']
  | .dollars tag => '$' :: tag ++ ['$']

def closing : Quoting → List Char
  | .apostrophes _ => ['\'']
  | .dollars tag => '$' :: tag ++ ['$']

end Quoting

/-- A piece of printed code: a string literal, or what stands between two of them. -/
inductive Piece where
  | code (text : List Char)
  | literal (quoting : Quoting) (content : List Char)
  deriving DecidableEq

def Piece.display : Piece → List Char
  | .code text => text
  | .literal quoting content => quoting.opening ++ content ++ quoting.closing

abbrev Printed := List Piece

def Printed.display (printed : Printed) : List Char := printed.flatMap Piece.display

/-- Expressions, as far as they are looked into. Arguments of functions and subqueries are only read as
they are printed. -/
inductive Expr where
  | identifier (id : Ident)
  | compoundIdentifier (parts : List Ident)
  | number (digits : List Char) (long : Bool)
  | function (name : ObjectName) (args : Option (List (FunctionArg Printed))) (text : Printed)
  | existsQuery (subquery text : Printed)
  | subquery (text : Printed)
  | cast (inner : Expr) (text : Printed)
  | nested (inner : Expr)
  | other (text : Printed)

def Expr.display : Expr → List Char
  | .identifier id => id.text
  | .compoundIdentifier parts => ObjectName.display parts
  | .number digits long => digits ++ if long then ['L'] else []
  | .function _ _ text | .existsQuery _ text | .subquery text | .cast _ text | .other text => text.display
  | .nested inner => '(' :: inner.display ++ [')']

inductive Statement (E : Type) where
  | startTransaction | commit | rollback | discard
  | setVariable (names : List ObjectName) (value : List E)
  | showVariable (name : List Ident)
  | query (query : Query E)
  | insert (table : ObjectName) (columns : List Ident)
  | insertFunction
  | update (table : TableFactor E)
  | createTable (name : ObjectName)
  | delete (tables : List (TableFactor E))
  | other (text : E)

/-- Metadata tables that have a SELECT of their own. -/
inductive CatalogTable where
  | snapshotChanges | schemas | tables | columns | deleteFiles | fileColumnStats | tableStats
  | tableColumnStats | metadata | inlinedData | views | macros | macroImpls | macroParameters | tags
  | columnTags | sortInfo | schemaVersion
  deriving DecidableEq

namespace CatalogTable

def name : CatalogTable → String
  | .snapshotChanges => "ducklake_snapshot_changes"
  | .schemas => "ducklake_schema"
  | .tables => "ducklake_table"
  | .columns => "ducklake_column"
  | .deleteFiles => "ducklake_delete_file"
  | .fileColumnStats => "ducklake_file_column_stats"
  | .tableStats => "ducklake_table_stats"
  | .tableColumnStats => "ducklake_table_column_stats"
  | .metadata => "ducklake_metadata"
  | .inlinedData => "ducklake_inlined_data_tables"
  | .views => "ducklake_view"
  | .macros => "ducklake_macro"
  | .macroImpls => "ducklake_macro_impl"
  | .macroParameters => "ducklake_macro_parameters"
  | .tags => "ducklake_tag"
  | .columnTags => "ducklake_column_tag"
  | .sortInfo => "ducklake_sort_info"
  | .schemaVersion => "ducklake_schema_version"

def all : List CatalogTable :=
  [.snapshotChanges, .schemas, .tables, .columns, .deleteFiles, .fileColumnStats, .tableStats,
   .tableColumnStats, .metadata, .inlinedData, .views, .macros, .macroImpls, .macroParameters, .tags,
   .columnTags, .sortInfo, .schemaVersion]

def ofName (text : List Char) : Option CatalogTable := all.find? fun t => t.name.toList = text

end CatalogTable

/-- Kinds of statements that do not write. -/
inductive PassiveKind where
  | selectVersion | selectVersionWithRdsCheck | selectOne | selectCurrentSchema | selectCurrentDatabase
  | selectPgType
  | showVariable (name : List Char)
  | setVariable (name value : List Char)
  | discardAll | selectToRegclass | selectExistsInfoSchema | selectPgDatabaseSize | pgCatalogScan
  | selectMaxSnapshot | selectLatestSnapshotInfo | selectSnapshotStatsAndChanges | selectMaxSnapshotAfter
  | select (table : CatalogTable)
  | selectDataFiles | selectDataFilesWithLimit | selectSnapshot | selectFirstSnapshot
  | selectGenRandomUuid | selectLatestSnapshotId
  | selectDuckLakeMetadataTable (tableName : List Char)
  | selectInlinedRows
  | virtualCatalogScan (tableName : List Char)
  | tableChanges (tableRef : List Char) (startSnapshot endSnapshot : Nat)
  | nextRowidRange (tableRef : List Char) (count : Nat)
  | holdSnapshot (minSnapshotId : Nat) (consumerId : List Char) (ttlSeconds : Nat)
  | releaseSnapshot (consumerId : List Char)
  | listen (channel : List Char)
  | unlisten (channel : List Char)
  | selectExtensionTable (schemaName tableName : List Char)
  | copyFromStdin (table : List Char)
  deriving DecidableEq

inductive Kind where
  | passive (kind : PassiveKind)
  | write (kind : StatementKind)
  deriving DecidableEq

def Kind.unsupported (text : List Char) : Kind := .write (.unsupported (String.ofList text))

/-! Parts of the trees. -/

section Parts

variable {E : Type}

def Query.orderBy : Query E → Option (List (SortKey E))
  | .mk _ _ orderBy _ _ _ => orderBy

def Query.limit : Query E → Option E
  | .mk _ _ _ limit _ _ => limit

def Select.projection : Select E → List (SelectItem E)
  | .mk _ projection _ _ _ _ _ => projection

def Select.sources : Select E → Sources E
  | .mk _ _ sources _ _ _ _ => sources

def Select.selection : Select E → Option E
  | .mk _ _ _ selection _ _ _ => selection

def Sources.first : Sources E → Option (TableFactor E)
  | .nil => none
  | .cons relation _ _ => some relation

/-- The SELECT in parentheses that a SELECT reads from, with the query it is the body of. -/
def Select.derived (select : Select E) : Option (Query E × Select E) :=
  match select.sources.first with
  | some (.derived _ subquery _) =>
    match subquery.body with
    | .select inner => some (subquery, inner)
    | .other _ => none
  | _ => none

def SelectItem.expr : SelectItem E → Option E
  | .unnamedExpr e | .exprWithAlias e _ => some e
  | .qualifiedWildcard | .wildcard => none

def SelectItem.isWildcard : SelectItem E → Bool
  | .unnamedExpr _ | .exprWithAlias _ _ => false
  | .qualifiedWildcard | .wildcard => true

def extractTableName : TableFactor E → Option (List Char)
  | .table name _ _ => some name.display
  | .derived _ _ _ | .other _ => none

mutual

def TableFactor.innermost : TableFactor E → Option (List Char)
  | .table name _ _ => some name.display
  | .derived _ subquery _ => subquery.innermost
  | .other _ => none

def Query.innermost : Query E → Option (List Char)
  | .mk _ body _ _ _ _ => body.innermost

def SetExpr.innermost : SetExpr E → Option (List Char)
  | .select select => select.innermost
  | .other _ => none

def Select.innermost : Select E → Option (List Char)
  | .mk _ _ sources _ _ _ _ => sources.innermost

def Sources.innermost : Sources E → Option (List Char)
  | .nil => none
  | .cons relation _ _ => relation.innermost

end

def extractArgValue (display : E → List Char) : ArgExpr E → List Char
  | .expr e => display e
  | .wildcard => []

end Parts

/-! Names in a text. -/

/-- The text after the opening quote, up to the closing one. Doubled quotes stand for one. Without a
closing quote the rest is what follows the last doubled one. -/
def takeQuoted (taken rest : List Char) : List Char → List Char × List Char
  | [] => (taken, rest)
  | '"' :: '"' :: text => takeQuoted (taken ++ ['"']) text text
  | '"' :: text => (taken, text)
  | c :: text => takeQuoted (taken ++ [c]) rest text

section Classification

variable (unicode : CharData)

def takeSqlIdentifier (s : List Char) : List Char × List Char :=
  match s with
  | '"' :: afterQuote => takeQuoted [] afterQuote afterQuote
  | _ =>
    let token := s.takeWhile fun c => unicode.alphanumeric c || c = '_'
    (token, s.drop token.length)

def splitQualifiedName (s : List Char) : Option (List Char) × List Char :=
  let (first, rest) := takeSqlIdentifier unicode (trim s)
  match trimStart rest with
  | '.' :: afterDot => (some first, (takeSqlIdentifier unicode (trimStart afterDot)).1)
  | _ => (none, first)

/-! Selects from a table. -/

def exprLastIdentifier : Expr → List Char
  | .identifier id => unicode.lowercase id.value
  | .compoundIdentifier parts => (parts.getLast?.map fun id => unicode.lowercase id.value).getD []
  | e => unicode.lowercase e.display

def projectionItemName : SelectItem Expr → List Char
  | .unnamedExpr e => exprLastIdentifier unicode e
  | .exprWithAlias _ name => unicode.lowercase name.value
  | .qualifiedWildcard | .wildcard => ['*']

def snapshotTuple : List String := ["snapshot_id", "schema_version", "next_catalog_id", "next_file_id"]

def selectsLatestSnapshotTuple (select : Select Expr) : Bool :=
  snapshotTuple.all fun name => select.projection.any fun item =>
    projectionItemName unicode item = name.toList

def outerProjectionLooksLikeSnapshotTuple (select : Select Expr) : Bool :=
  selectsLatestSnapshotTuple unicode select

def isMax : Expr → Bool
  | .identifier id => lower id.value = "max".toList
  | .compoundIdentifier parts => parts.getLast?.any fun id => lower id.value = "max".toList
  | _ => false

def outerProjectionLooksLikeMax (select : Select Expr) : Bool :=
  (select.projection.head?.bind SelectItem.expr).any isMax

def hasOrderByAscLimit1 (query : Query Expr) : Bool :=
  query.orderBy.isSome && query.limit.any fun limit => limit.display = ['1']

/-- Whether the printed condition has `snapshot_id` and a `>` somewhere in it. -/
def hasWhereSnapshotGt (selection : Option Expr) : Bool :=
  selection.any fun e =>
    let text := unicode.lowercase e.display
    contains "snapshot_id".toList text && contains ">".toList text

def hasParameterizedLimit (query : Query Expr) : Bool :=
  query.limit.any fun limit => limit.display.head? = some '$'

def classifySnapshotSelect (query : Query Expr) (select : Select Expr) : PassiveKind :=
  if hasOrderByAscLimit1 query then .selectFirstSnapshot
  else if hasWhereSnapshotGt unicode select.selection then .selectMaxSnapshotAfter
  else if selectsLatestSnapshotTuple unicode select then .selectLatestSnapshotInfo
  else if select.projection.any SelectItem.isWildcard then .selectSnapshot
  else .selectMaxSnapshot

def classifyDataFileSelect (query : Query Expr) : PassiveKind :=
  if hasParameterizedLimit query then .selectDataFilesWithLimit else .selectDataFiles

def classifyTableSelectWithQuery (tableName : List Char) (query : Query Expr) (select : Select Expr) :
    Kind :=
  let low := unicode.lowercase tableName
  if low = "ducklake_snapshot".toList then .passive (classifySnapshotSelect unicode query select)
  else if low = "ducklake_data_file".toList then .passive (classifyDataFileSelect query)
  else match CatalogTable.ofName low with
    | some table => .passive (.select table)
    | none =>
      if "ducklake_inlined_".toList.isPrefixOf low then .passive .selectInlinedRows
      else if Classifier.isDuckLake low then .passive (.selectDuckLakeMetadataTable low)
      else if "pg_catalog.pg_type".toList.isPrefixOf low || low = "pg_type".toList then
        .passive .selectPgType
      else match stripPrefix "rocklake_catalog.".toList low with
        | some table => .passive (.virtualCatalogScan table)
        | none =>
          if '.' ∈ low && !"pg_catalog".toList.isPrefixOf low then
            match splitQualifiedName unicode tableName with
            | (some schema, table) =>
              .passive (.selectExtensionTable (unicode.lowercase schema) (unicode.lowercase table))
            | (none, _) => .unsupported ("SELECT from ".toList ++ low)
          else .unsupported ("SELECT from ".toList ++ tableName)

/-! Selects without a table, and table functions. -/

structure ChangesArgs where
  tableRef : List Char
  startSnapshot : Nat
  endSnapshot : Nat

def u64Max : Nat := 2 ^ 64 - 1

def parseU64 (text : List Char) (otherwise : Nat) : Nat := (parseUnsigned (2 ^ 64) text).getD otherwise

def ChangesArgs.setNamed (args : ChangesArgs) (name value : List Char) : ChangesArgs :=
  if name = "start_snapshot".toList then { args with startSnapshot := parseU64 value 0 }
  else if name = "end_snapshot".toList then { args with endSnapshot := parseU64 value u64Max }
  else args

def ChangesArgs.read (args : ChangesArgs) : FunctionArg Expr × Nat → ChangesArgs
  | (.named name arg, _) =>
    args.setNamed (unicode.lowercase name.text) (extractArgValue Expr.display arg)
  | (.exprNamed name arg, _) =>
    args.setNamed (unicode.lowercase name.display) (extractArgValue Expr.display arg)
  | (.unnamed arg, 0) => { args with tableRef := trimMatches '\'' (extractArgValue Expr.display arg) }
  | (.unnamed arg, 1) => { args with startSnapshot := parseU64 (extractArgValue Expr.display arg) 0 }
  | (.unnamed arg, 2) => { args with endSnapshot := parseU64 (extractArgValue Expr.display arg) u64Max }
  | (.unnamed _, _ + 3) => args

def parseTableChangesArgs (args : List (FunctionArg Expr)) : PassiveKind :=
  let read := args.zipIdx.foldl (ChangesArgs.read unicode) ⟨[], 0, u64Max⟩
  .tableChanges read.tableRef read.startSnapshot read.endSnapshot

def classifyTableFunctionFrom : TableFactor Expr → Option PassiveKind
  | .table name _ (some args) =>
    if unicode.lowercase name.display = "table_changes".toList then
      some (parseTableChangesArgs unicode args)
    else none
  | _ => none

def namedArg (name : String) (args : List (FunctionArg Printed)) : Option (List Char) :=
  args.foldl (fun found arg =>
    match arg with
    | .named id arg =>
      if unicode.lowercase id.text = name.toList then some (extractArgValue Printed.display arg)
      else found
    | _ => found) none

/-- The table that the first argument names, unless the argument has a name itself. -/
def firstTableRef : List (FunctionArg Printed) → List Char
  | .unnamed arg :: _ => trimMatches '\'' (extractArgValue Printed.display arg)
  | _ => []

def classifyNextRowidRangeCall (args : List (FunctionArg Printed)) : PassiveKind :=
  .nextRowidRange (firstTableRef args) (((namedArg unicode "count" args).map (parseU64 · 1)).getD 1)

def classifyHoldSnapshotCall (args : List (FunctionArg Printed)) : PassiveKind :=
  .holdSnapshot (((namedArg unicode "min_snapshot_id" args).map (parseU64 · 0)).getD 0)
    (((namedArg unicode "consumer_id" args).map (trimMatches '\'')).getD [])
    (((namedArg unicode "ttl_seconds" args).map (parseU64 · 300)).getD 300)

def classifyReleaseSnapshotCall (args : List (FunctionArg Printed)) : PassiveKind :=
  .releaseSnapshot (((namedArg unicode "consumer_id" args).map (trimMatches '\'')).getD [])

/-- Functions that are a kind of their own, whatever their arguments. -/
def functionKinds : List (String × PassiveKind) :=
  [("version", .selectVersion), ("current_schema", .selectCurrentSchema),
   ("current_database", .selectCurrentDatabase), ("gen_random_uuid", .selectGenRandomUuid),
   ("ducklake_latest_snapshot_id", .selectLatestSnapshotId), ("to_regclass", .selectToRegclass),
   ("pg_database_size", .selectPgDatabaseSize)]

def classifyFunctionCall (name : List Char) (args : List (FunctionArg Printed)) : Option PassiveKind :=
  match functionKinds.find? fun entry => entry.1.toList = name with
  | some (_, kind) => some kind
  | none =>
    if name = "rocklake.next_rowid_range".toList then some (classifyNextRowidRangeCall unicode args)
    else if name = "rocklake.hold_snapshot".toList then some (classifyHoldSnapshotCall unicode args)
    else if name = "rocklake.release_snapshot".toList then
      some (classifyReleaseSnapshotCall unicode args)
    else none

def isVersionCall : Expr → Bool
  | .function name _ _ => unicode.lowercase name.display = "version".toList
  | _ => false

def Expr.isSubquery : Expr → Bool
  | .subquery _ => true
  | _ => false

def isVersionWithRdsCheck : List (SelectItem Expr) → Bool
  | first :: second :: _ => first.expr.any (isVersionCall unicode) && second.expr.any Expr.isSubquery
  | _ => false

def noFrom : Kind := .unsupported "SELECT without FROM".toList

def classifyFirstItem : Option Expr → Kind
  | some (.number digits _) => if digits = ['1'] then .passive .selectOne else noFrom
  | some (.function name args _) =>
    ((classifyFunctionCall unicode (unicode.lowercase name.display) (args.getD [])).map
      Kind.passive).getD noFrom
  | some (.existsQuery subquery _) =>
    if contains "information_schema".toList (unicode.lowercase subquery.display) then
      .passive .selectExistsInfoSchema
    else noFrom
  | _ => noFrom

def classifyNoFromSelect (projection : List (SelectItem Expr)) : Kind :=
  if isVersionWithRdsCheck unicode projection then .passive .selectVersionWithRdsCheck
  else classifyFirstItem unicode (projection.head?.bind SelectItem.expr)

/-! Queries. -/

def normalizedName (name : List Char) : List Char := Classifier.stripPublicSchema (unicode.lowercase name)

def classifyDerivedSnapshotSelect (select : Select Expr) : Option PassiveKind :=
  select.derived.bind fun (_, inner) => (inner.sources.first.bind extractTableName).bind fun name =>
    if normalizedName unicode name = "ducklake_snapshot".toList then
      if outerProjectionLooksLikeMax select then some .selectMaxSnapshot
      else if outerProjectionLooksLikeSnapshotTuple unicode select then some .selectLatestSnapshotInfo
      else none
    else none

/-- The DuckLake table behind a SELECT in parentheses, with the SELECT that it is classified by. -/
def derivedDucklakeTable (select : Select Expr) : Option (List Char × Query Expr × Select Expr) :=
  select.derived.bind fun (subquery, inner) =>
    (inner.sources.first.bind TableFactor.innermost).bind fun name =>
      let name := normalizedName unicode name
      if name = "ducklake_snapshot".toList then none
      else if Classifier.isDuckLake name then some (name, subquery, inner)
      else none

def classifyDerivedDucklakeSelect (select : Select Expr) : Option Kind :=
  (derivedDucklakeTable unicode select).map fun (name, subquery, inner) =>
    classifyTableSelectWithQuery unicode name subquery inner

def classifyQuery (query : Query Expr) : Kind :=
  match query.body with
  | .other _ => .unsupported "non-SELECT query body".toList
  | .select select =>
    match select.sources.first with
    | none => classifyNoFromSelect unicode select.projection
    | some relation =>
      match classifyDerivedSnapshotSelect unicode select with
      | some kind => .passive kind
      | none =>
        match classifyDerivedDucklakeSelect unicode select with
        | some kind => kind
        | none =>
          match classifyTableFunctionFrom unicode relation with
          | some kind => .passive kind
          | none =>
            match extractTableName relation with
            | some name =>
              classifyTableSelectWithQuery unicode (normalizedName unicode name) query select
            | none => .unsupported "unrecognized SELECT".toList

/-- Writing statements are classified by the lower case of the table name. -/
def lowerName (name : List Char) : String := String.ofList (unicode.lowercase name)

def classifyAst : Statement Expr → Kind
  | .startTransaction => .write .begin
  | .commit => .write .commit
  | .rollback => .write .rollback
  | .discard => .passive .discardAll
  | .setVariable names value =>
    .passive (.setVariable (['.'].intercalate (names.map ObjectName.display))
      ([',', ' '].intercalate (value.map Expr.display)))
  | .showVariable name => .passive (.showVariable (ObjectName.display name))
  | .query query => classifyQuery unicode query
  | .insert table columns =>
    .write (Classifier.classifyInsert (lowerName unicode table.display)
      (columns.map fun column => String.ofList column.text))
  | .insertFunction => .unsupported "INSERT into function".toList
  | .update table => .write (Classifier.classifyUpdate ((extractTableName table).map (lowerName unicode)))
  | .createTable name => .write (Classifier.classifyCreateTable (lowerName unicode name.display))
  | .delete tables =>
    .write (Classifier.classifyDelete (tables.map fun table =>
      (extractTableName table).map (lowerName unicode)))
  | .other text => .unsupported text.display

end Classification

/-- The statement that is classified: a query that only wraps another one is replaced by it. -/
def Statement.lifted : Statement Expr → Statement Expr
  | .query outer => .query ((tryLiftTrivialSubquery outer).getD outer)
  | statement => statement

end RockLake.Sql
