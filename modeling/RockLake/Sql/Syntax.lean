import RockLake.Lib.Text

/-! Syntax trees of queries, as the SQL parser builds them. Expressions are a parameter, and so are
parts that are only printed. Parts that nothing looks at are left out. -/
namespace RockLake.Sql

/-- An identifier, and how it is printed. -/
structure Ident where
  value : List Char
  text : List Char
  deriving DecidableEq

abbrev ObjectName := List Ident

def ObjectName.display (name : ObjectName) : List Char := ['.'].intercalate (name.map Ident.text)

inductive ArgExpr (E : Type) where
  | expr (e : E)
  | wildcard
  deriving DecidableEq

inductive FunctionArg (E : Type) where
  | named (name : Ident) (arg : ArgExpr E)
  | exprNamed (name : E) (arg : ArgExpr E)
  | unnamed (arg : ArgExpr E)
  deriving DecidableEq

inductive SelectItem (E : Type) where
  | unnamedExpr (e : E)
  | exprWithAlias (e : E) (name : Ident)
  | qualifiedWildcard
  | wildcard
  deriving DecidableEq

/-- The modifiers are those after the expressions, such as WITH ROLLUP. -/
inductive GroupBy (E : Type) where
  | expressions (exprs : List E) (modifiers : List String)
  | all (modifiers : List String)
  deriving DecidableEq

structure TableAlias where
  name : Ident
  columns : List Ident
  deriving DecidableEq

structure SortKey (E : Type) where
  expr : E
  descending : Bool
  deriving DecidableEq

mutual

inductive Query (E : Type) where
  | mk (ctes : Ctes E) (body : SetExpr E) (orderBy : Option (List (SortKey E)))
      (limit offset fetch : Option E)

inductive Ctes (E : Type) where
  | nil
  | cons (name : Ident) (columns : List Ident) (query : Query E) (rest : Ctes E)

/-- The body of a query: a SELECT, or anything else, such as a UNION. -/
inductive SetExpr (E : Type) where
  | select (select : Select E)
  | other (text : E)

inductive Select (E : Type) where
  | mk (distinct : Bool) (projection : List (SelectItem E)) (sources : Sources E)
      (selection : Option E) (groupBy : GroupBy E) (having : Option E) (namedWindow : List Ident)

/-- The FROM clause: relations, each with what is joined to it. -/
inductive Sources (E : Type) where
  | nil
  | cons (relation : TableFactor E) (joins : Joins E) (rest : Sources E)

inductive Joins (E : Type) where
  | nil
  | cons (relation : TableFactor E) (on : Option E) (rest : Joins E)

inductive TableFactor (E : Type) where
  | table (name : ObjectName) (tableAlias : Option TableAlias) (args : Option (List (FunctionArg E)))
  | derived (lateral : Bool) (subquery : Query E) (tableAlias : Option TableAlias)
  | other (text : E)

end

end RockLake.Sql
