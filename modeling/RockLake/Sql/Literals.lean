import RockLake.Sql.Statements

/-! What the classification of a syntax tree takes from the contents of string literals. Trees are
compared with the contents emptied. -/
namespace RockLake.Sql

open Text Unicode List Option

variable {E F : Type}

/-! The trees with their expressions replaced. -/

def ArgExpr.map (f : E → F) : ArgExpr E → ArgExpr F
  | .expr e => .expr (f e)
  | .wildcard => .wildcard

def FunctionArg.map (f : E → F) : FunctionArg E → FunctionArg F
  | .named name arg => .named name (arg.map f)
  | .exprNamed name arg => .exprNamed (f name) (arg.map f)
  | .unnamed arg => .unnamed (arg.map f)

def SelectItem.map (f : E → F) : SelectItem E → SelectItem F
  | .unnamedExpr e => .unnamedExpr (f e)
  | .exprWithAlias e name => .exprWithAlias (f e) name
  | .qualifiedWildcard => .qualifiedWildcard
  | .wildcard => .wildcard

def GroupBy.map (f : E → F) : GroupBy E → GroupBy F
  | .expressions exprs modifiers => .expressions (exprs.map f) modifiers
  | .all modifiers => .all modifiers

def SortKey.map (f : E → F) (key : SortKey E) : SortKey F := ⟨f key.expr, key.descending⟩

mutual

def Query.map (f : E → F) : Query E → Query F
  | .mk ctes body orderBy limit offset fetch =>
    .mk (ctes.map f) (body.map f) (orderBy.map (List.map (SortKey.map f))) (limit.map f) (offset.map f)
      (fetch.map f)

def Ctes.map (f : E → F) : Ctes E → Ctes F
  | .nil => .nil
  | .cons name columns query rest => .cons name columns (query.map f) (rest.map f)

def SetExpr.map (f : E → F) : SetExpr E → SetExpr F
  | .select select => .select (select.map f)
  | .other text => .other (f text)

def Select.map (f : E → F) : Select E → Select F
  | .mk distinct projection sources selection groupBy having namedWindow =>
    .mk distinct (projection.map (SelectItem.map f)) (sources.map f) (selection.map f) (groupBy.map f)
      (having.map f) namedWindow

def Sources.map (f : E → F) : Sources E → Sources F
  | .nil => .nil
  | .cons relation joins rest => .cons (relation.map f) (joins.map f) (rest.map f)

def Joins.map (f : E → F) : Joins E → Joins F
  | .nil => .nil
  | .cons relation on rest => .cons (relation.map f) (on.map f) (rest.map f)

def TableFactor.map (f : E → F) : TableFactor E → TableFactor F
  | .table name tableAlias args => .table name tableAlias (args.map (List.map (FunctionArg.map f)))
  | .derived lateral subquery tableAlias => .derived lateral (subquery.map f) tableAlias
  | .other text => .other (f text)

end

def Statement.map (f : E → F) : Statement E → Statement F
  | .startTransaction => .startTransaction
  | .commit => .commit
  | .rollback => .rollback
  | .discard => .discard
  | .setVariable names value => .setVariable names (value.map f)
  | .showVariable name => .showVariable name
  | .query q => .query (q.map f)
  | .insert table columns => .insert table columns
  | .insertFunction => .insertFunction
  | .update table => .update (table.map f)
  | .createTable name => .createTable name
  | .delete tables => .delete (tables.map (TableFactor.map f))
  | .other text => .other (f text)

section Parts

open List Option

variable {f : E → F} {query : Query E} {select : Select E} {sources : Sources E} {relation : TableFactor E}

mutual

theorem TableFactor.innermost_map (f : E → F) :
    ∀ relation : TableFactor E, (relation.map f).innermost = relation.innermost
  | .table name tableAlias args => by rw [TableFactor.map, TableFactor.innermost, TableFactor.innermost]
  | .derived lateral subquery tableAlias => by
      rw [TableFactor.map, TableFactor.innermost, TableFactor.innermost, Query.innermost_map f subquery]
  | .other text => by rw [TableFactor.map, TableFactor.innermost, TableFactor.innermost]

theorem Query.innermost_map (f : E → F) : ∀ query : Query E, (query.map f).innermost = query.innermost
  | .mk ctes body orderBy limit offset fetch => by
      rw [Query.map, Query.innermost, Query.innermost, SetExpr.innermost_map f body]

theorem SetExpr.innermost_map (f : E → F) : ∀ body : SetExpr E, (body.map f).innermost = body.innermost
  | .select select => by
      rw [SetExpr.map, SetExpr.innermost, SetExpr.innermost, Select.innermost_map f select]
  | .other text => by rw [SetExpr.map, SetExpr.innermost, SetExpr.innermost]

theorem Select.innermost_map (f : E → F) :
    ∀ select : Select E, (select.map f).innermost = select.innermost
  | .mk distinct projection sources selection groupBy having namedWindow => by
      rw [Select.map, Select.innermost, Select.innermost, Sources.innermost_map f sources]

theorem Sources.innermost_map (f : E → F) :
    ∀ sources : Sources E, (sources.map f).innermost = sources.innermost
  | .nil => by rw [Sources.map, Sources.innermost, Sources.innermost]
  | .cons relation joins rest => by
      rw [Sources.map, Sources.innermost, Sources.innermost, TableFactor.innermost_map f relation]

end

end Parts

/-! Erasure of the contents. -/

def Piece.erase : Piece → Piece
  | .code text => .code text
  | .literal quoting _ => .literal quoting []

def Printed.erase (printed : Printed) : Printed := printed.map Piece.erase

def Expr.erase : Expr → Expr
  | .identifier id => .identifier id
  | .compoundIdentifier parts => .compoundIdentifier parts
  | .number digits long => .number digits long
  | .function name args text =>
    .function name (args.map (List.map (FunctionArg.map Printed.erase))) text.erase
  | .existsQuery inner text => .existsQuery inner.erase text.erase
  | .subquery text => .subquery text.erase
  | .cast inner text => .cast inner.erase text.erase
  | .nested inner => .nested inner.erase
  | .other text => .other text.erase

def Statement.erase : Statement Expr → Statement Expr := Statement.map Expr.erase

def Delimited (text : List Char) : Prop := '\'' ∈ text ∨ '$' ∈ text

theorem Delimited.append_left (delimited : Delimited text) (rest : List Char) :
    Delimited (text ++ rest) := by
  rcases delimited with here | here
  · exact .inl (mem_append_left rest here)
  · exact .inr (mem_append_left rest here)

theorem Delimited.append_right (delimited : Delimited text) (front : List Char) :
    Delimited (front ++ text) := by
  rcases delimited with here | here
  · exact .inl (mem_append_right front here)
  · exact .inr (mem_append_right front here)

theorem Delimited.lowercase (unicode : CharData) (delimited : Delimited text) :
    Delimited (unicode.lowercase text) := by
  rcases delimited with here | here
  · exact .inl (unicode.mem_lowercase (by decide) (by decide) here)
  · exact .inr (unicode.mem_lowercase (by decide) (by decide) here)

instance : DecidablePred Delimited := fun text => inferInstanceAs (Decidable ('\'' ∈ text ∨ '$' ∈ text))

/-- Two texts are the same, or both have a delimiter, so that neither is a plain word. -/
def SameWord (a b : List Char) : Prop := a = b ∨ Delimited a ∧ Delimited b

theorem SameWord.refl (a : List Char) : SameWord a a := .inl rfl

theorem SameWord.append (first : SameWord a b) (second : SameWord c d) :
    SameWord (a ++ c) (b ++ d) := by
  rcases first with rfl | ⟨left, right⟩
  · rcases second with rfl | ⟨left, right⟩
    · exact .inl rfl
    · exact .inr ⟨left.append_right a, right.append_right a⟩
  · exact .inr ⟨left.append_left c, right.append_left d⟩

theorem SameWord.lowercase (unicode : CharData) (same : SameWord a b) :
    SameWord (unicode.lowercase a) (unicode.lowercase b) := by
  rcases same with rfl | ⟨left, right⟩
  · exact .inl rfl
  · exact .inr ⟨left.lowercase unicode, right.lowercase unicode⟩

def PassiveKind.outline : PassiveKind → PassiveKind
  | .showVariable _ => .showVariable []
  | .setVariable _ _ => .setVariable [] []
  | .tableChanges tableRef _ _ => .tableChanges tableRef 0 0
  | .nextRowidRange tableRef _ => .nextRowidRange tableRef 0
  | .holdSnapshot _ _ _ => .holdSnapshot 0 [] 0
  | .releaseSnapshot _ => .releaseSnapshot []
  | .listen _ => .listen []
  | .unlisten _ => .unlisten []
  | kind => kind

def Kind.outline : Kind → Kind
  | .passive kind => .passive kind.outline
  | .write (.insertExtensionRow schemaName tableName _) =>
    .write (.insertExtensionRow schemaName tableName [])
  | .write (.copyToStdout _) => .write (.copyToStdout "")
  | .write (.unsupported _) => .write (.unsupported "")
  | .write kind => .write kind

/-! Where the classification reads contents of literals. -/

/-- A statement as it is classified. Apart from its kind only four shapes have a part that literals are
read in: the condition of a SELECT from the snapshots, the subquery of an EXISTS, and the arguments of
two functions. -/
inductive Shape where
  | fixed (kind : Kind)
  | snapshots (selection : Option Expr) (otherwise : PassiveKind)
  | infoSchema (subquery : Printed)
  | tableChanges (args : List (FunctionArg Expr))
  | nextRowidRange (args : List (FunctionArg Printed))

section Shape

variable (unicode : CharData)

namespace Shape

open List Option

end Shape

def snapshotShape (select : Select Expr) : PassiveKind :=
  if selectsLatestSnapshotTuple unicode select then .selectLatestSnapshotInfo
  else if select.projection.any SelectItem.isWildcard then .selectSnapshot
  else .selectMaxSnapshot

def tableShape (tableName : List Char) (query : Query Expr) (select : Select Expr) : Shape :=
  if unicode.lowercase tableName = "ducklake_snapshot".toList ∧ hasOrderByAscLimit1 query = false then
    .snapshots select.selection (snapshotShape unicode select)
  else .fixed (classifyTableSelectWithQuery unicode tableName query select)

def firstItemShape : Option Expr → Shape
  | some (.existsQuery subquery _) => .infoSchema subquery
  | some (.function name args text) =>
    if unicode.lowercase name.display = "rocklake.next_rowid_range".toList then
      .nextRowidRange (args.getD [])
    else .fixed (classifyFirstItem unicode (some (.function name args text)))
  | first => .fixed (classifyFirstItem unicode first)

def noFromShape (projection : List (SelectItem Expr)) : Shape :=
  if isVersionWithRdsCheck unicode projection then .fixed (.passive .selectVersionWithRdsCheck)
  else firstItemShape unicode (projection.head?.bind SelectItem.expr)

def changesArgs : TableFactor Expr → Option (List (FunctionArg Expr))
  | .table name _ args => if unicode.lowercase name.display = "table_changes".toList then args else none
  | _ => none

def queryShape (query : Query Expr) : Shape :=
  match query.body with
  | .other _ => .fixed (.unsupported "non-SELECT query body".toList)
  | .select select =>
    match select.sources.first with
    | none => noFromShape unicode select.projection
    | some relation =>
      match classifyDerivedSnapshotSelect unicode select with
      | some kind => .fixed (.passive kind)
      | none =>
        match derivedDucklakeTable unicode select with
        | some (name, subquery, inner) => tableShape unicode name subquery inner
        | none =>
          match changesArgs unicode relation with
          | some args => .tableChanges args
          | none =>
            match extractTableName relation with
            | some name => tableShape unicode (normalizedName unicode name) query select
            | none => .fixed (.unsupported "unrecognized SELECT".toList)

def shape : Statement Expr → Shape
  | .query query => queryShape unicode query
  | statement => .fixed (classifyAst unicode statement)

end Shape

section Results

variable {unicode : CharData} {query : Query Expr} {select : Select Expr} {tableName : List Char}

/-- Shapes that are the same up to outlines and to the parts that literals are read in. -/
inductive Shape.Alike : Shape → Shape → Prop where
  | fixed {kind kind'} : kind.outline = kind'.outline → Alike (.fixed kind) (.fixed kind')
  | snapshots {selection selection' otherwise} : otherwise.outline ≠ .selectMaxSnapshotAfter →
      Alike (.snapshots selection otherwise) (.snapshots selection' otherwise)
  | infoSchema {subquery subquery'} : Alike (.infoSchema subquery) (.infoSchema subquery')
  | tableChanges {args args'} : Alike (.tableChanges args) (.tableChanges args')
  | nextRowidRange {args args'} : Alike (.nextRowidRange args) (.nextRowidRange args')

namespace Shape.Alike

open List Option

variable {a b c : Shape}

theorem symm (alike : Alike a b) : Alike b a := by
  cases alike with
  | fixed same => exact .fixed same.symm
  | snapshots other => exact .snapshots other
  | infoSchema => exact .infoSchema
  | tableChanges => exact .tableChanges
  | nextRowidRange => exact .nextRowidRange

theorem trans (first : Alike a b) (second : Alike b c) : Alike a c := by
  cases first with
  | fixed same =>
    cases second with
    | fixed same' => exact .fixed (same.trans same')
  | snapshots other =>
    cases second with
    | snapshots => exact .snapshots other
  | infoSchema =>
    cases second with
    | infoSchema => exact .infoSchema
  | tableChanges =>
    cases second with
    | tableChanges => exact .tableChanges
  | nextRowidRange =>
    cases second with
    | nextRowidRange => exact .nextRowidRange

end Shape.Alike

def treeKind (unicode : CharData) (statement : Statement Expr) : Kind := classifyAst unicode statement.lifted

end Results

end RockLake.Sql
