import Mathlib.Data.List.Dedup
import Mathlib.Data.List.TakeDrop
import Mathlib.Logic.Function.Basic
import RockLake.Sql.Syntax

/-! A query that only wraps another one, `SELECT * FROM (query)`, is replaced by the inner query before
it is classified. The meaning of both is compared: what the wrapping query adds to a SELECT is its
own. -/
namespace RockLake.Sql

open List

variable {E V : Type}

def Query.body : Query E → SetExpr E
  | .mk _ body _ _ _ _ => body

def GroupBy.isTrivial : GroupBy E → Bool
  | .expressions [] [] | .all [] => true
  | _ => false

/-- The inner query, if the statement wraps it. The guards look at the grouping, HAVING, windows and
DISTINCT of the outer SELECT, at its sources and at its projection, and at nothing else of it. -/
def tryLiftTrivialSubquery : Query E → Option (Query E)
  | .mk _ (.select (.mk distinct projection sources _ groupBy having namedWindow)) _ _ _ _ =>
    if !groupBy.isTrivial then none
    else if having.isSome || !namedWindow.isEmpty then none
    else if distinct then none
    else match sources with
      | .cons (.derived _ subquery _) .nil .nil =>
        match subquery.body, projection with
        | .select _, [.wildcard] => some subquery
        | _, _ => none
      | _ => none
  | _ => none

/-! Meaning of queries. -/

/-- Rows in an order, under the names of their columns. -/
structure Relation (V : Type) where
  columns : List (List Char)
  rows : List (List V)
  deriving DecidableEq

abbrev Database (V : Type) := List (List Char) → Option (Relation V)

/-- What expressions mean, and everything of a query that is not spelled out here: SELECTs of another
shape than `SELECT * FROM relation`, other bodies and table functions. -/
structure Meaning (E V : Type) where
  holds : E → List (List Char) → List V → Bool
  before : List (SortKey E) → List (List Char) → List V → List V → Bool
  count : E → Option Nat
  select : Select E → Database V → Option (Relation V)
  body : E → Database V → Option (Relation V)
  function : ObjectName → List (FunctionArg E) → Database V → Option (Relation V)
  factor : E → Database V → Option (Relation V)

def Relation.rename (names : List Ident) (r : Relation V) : Relation V :=
  { r with columns := names.map Ident.value ++ r.columns.drop names.length }

def Relation.aliased (tableAlias : Option TableAlias) (r : Relation V) : Relation V :=
  r.rename ((tableAlias.map TableAlias.columns).getD [])

namespace Meaning

variable (m : Meaning E V)

def filter (selection : Option E) (r : Relation V) : List (List V) :=
  match selection with
  | none => r.rows
  | some e => r.rows.filter (m.holds e r.columns)

def sort (orderBy : Option (List (SortKey E))) (columns : List (List Char)) (rows : List (List V)) :
    List (List V) :=
  match orderBy with
  | none => rows
  | some keys => rows.mergeSort (m.before keys columns)

def limit (e : Option E) (rows : List (List V)) : List (List V) :=
  match e.bind m.count with
  | none => rows
  | some n => rows.take n

def offset (e : Option E) (rows : List (List V)) : List (List V) :=
  match e.bind m.count with
  | none => rows
  | some n => rows.drop n

theorem filter_sublist (selection : Option E) (r : Relation V) :
    (m.filter selection r).Sublist r.rows := by
  cases selection with
  | none => exact Sublist.refl _
  | some e => exact List.filter_sublist

theorem filter_eq :
    m.filter selection r = r.rows ↔
      ∀ e, selection = some e → ∀ row ∈ r.rows, m.holds e r.columns row = true := by
  cases selection with
  | none => simp [filter]
  | some e => simp [filter, filter_eq_self]

theorem length_sort (orderBy : Option (List (SortKey E))) (columns : List (List Char))
    (rows : List (List V)) : (m.sort orderBy columns rows).length = rows.length := by
  cases orderBy with
  | none => rfl
  | some keys => exact length_mergeSort rows

theorem sort_eq : m.sort orderBy columns rows = rows ↔
      ∀ keys, orderBy = some keys → rows.mergeSort (m.before keys columns) = rows := by
  cases orderBy with
  | none => simp [sort]
  | some keys => simp [sort]

theorem offset_sublist (e : Option E) (rows : List (List V)) : (m.offset e rows).Sublist rows := by
  rw [offset]
  split
  · exact Sublist.refl _
  · exact drop_sublist _ _

theorem offset_eq :
    m.offset e rows = rows ↔ ∀ n, e.bind m.count = some n → n = 0 ∨ rows = [] := by
  rw [offset]
  split
  · rename_i none
    simp [none]
  · rename_i n some
    simp only [some, Option.some.injEq, forall_eq']
    constructor
    · intro same
      have lengths := congrArg length same
      rw [length_drop] at lengths
      rw [← length_eq_zero_iff]
      omega
    · rintro (rfl | rfl) <;> simp

theorem limit_sublist (e : Option E) (rows : List (List V)) : (m.limit e rows).Sublist rows := by
  rw [limit]
  split
  · exact Sublist.refl _
  · exact take_sublist _ _

theorem limit_eq :
    m.limit e rows = rows ↔ ∀ n, e.bind m.count = some n → rows.length ≤ n := by
  rw [limit]
  split
  · rename_i none
    simp [none]
  · rename_i n some
    simp [some, take_eq_self_iff]

end Meaning

variable [DecidableEq V]

mutual

/-- A query sees its common table expressions, each of which sees those before it. -/
def Query.eval (m : Meaning E V) : Query E → Database V → Option (Relation V)
  | .mk ctes body orderBy limit offset fetch, db =>
    (ctes.extend m db).bind fun db => (body.eval m db).map fun r =>
      { r with rows := m.limit fetch (m.limit limit (m.offset offset (m.sort orderBy r.columns r.rows))) }

def Ctes.extend (m : Meaning E V) : Ctes E → Database V → Option (Database V)
  | .nil, db => some db
  | .cons name columns query rest, db =>
    (query.eval m db).bind fun r =>
      rest.extend m (Function.update db [name.value] (some (r.rename columns)))

def SetExpr.eval (m : Meaning E V) : SetExpr E → Database V → Option (Relation V)
  | .select select, db => select.eval m db
  | .other text, db => m.body text db

def Select.eval (m : Meaning E V) : Select E → Database V → Option (Relation V)
  | .mk false [.wildcard] (.cons relation .nil .nil) selection (.expressions [] []) none [], db =>
    (relation.eval m db).map fun r => { r with rows := m.filter selection r }
  | .mk false [.wildcard] (.cons relation .nil .nil) selection (.all []) none [], db =>
    -- one row of every kind
    (relation.eval m db).map fun r => { r with rows := (m.filter selection r).dedup }
  | select, db => m.select select db

def TableFactor.eval (m : Meaning E V) : TableFactor E → Database V → Option (Relation V)
  | .table name tableAlias none, db => (db (name.map Ident.value)).map (·.aliased tableAlias)
  | .table name tableAlias (some args), db => (m.function name args db).map (·.aliased tableAlias)
  | .derived _ subquery tableAlias, db => (subquery.eval m db).map (·.aliased tableAlias)
  | .other text, db => m.factor text db

end

/-! The wrapping query. -/

/-- What a query that wraps another one can have of its own. -/
structure Wrapper (E : Type) where
  ctes : Ctes E
  lateral : Bool
  tableAlias : Option TableAlias
  selection : Option E
  grouped : Bool
  orderBy : Option (List (SortKey E))
  limit : Option E
  offset : Option E
  fetch : Option E

namespace Wrapper

open List

def query (w : Wrapper E) (inner : Query E) : Query E :=
  .mk w.ctes
    (.select (.mk false [.wildcard] (.cons (.derived w.lateral inner w.tableAlias) .nil .nil) w.selection
      (if w.grouped then .all [] else .expressions [] []) none []))
    w.orderBy w.limit w.offset w.fetch

end Wrapper

theorem GroupBy.isTrivial_iff {groupBy : GroupBy E} :
    groupBy.isTrivial = true ↔ ∃ grouped : Bool, groupBy = if grouped then .all [] else .expressions [] [] := by
  constructor
  · intro trivial
    rcases groupBy with ⟨_ | _, _ | _⟩ | ⟨_ | _⟩ <;> cases trivial
    · exact ⟨false, rfl⟩
    · exact ⟨true, rfl⟩
  · rintro ⟨grouped, rfl⟩
    cases grouped <;> rfl

theorem tryLift_eq_some {q inner : Query E} (lifted : tryLiftTrivialSubquery q = some inner) :
    ∃ (w : Wrapper E) (select : Select E), inner.body = .select select ∧ q = w.query inner := by
  unfold tryLiftTrivialSubquery at lifted
  split at lifted
  · rename_i ctes distinct projection sources selection groupBy having namedWindow orderBy limit offset fetch
    split at lifted
    · cases lifted
    rename_i trivial
    split at lifted
    · cases lifted
    rename_i plain
    split at lifted
    · cases lifted
    rename_i undistinct
    split at lifted
    · rename_i lateral subquery tableAlias
      split at lifted
      · rename_i select body
        cases lifted
        obtain ⟨grouped, rfl⟩ := GroupBy.isTrivial_iff.mp (by simpa using trivial)
        simp only [Bool.or_eq_true, not_or, Option.isSome_iff_ne_none, ne_eq, not_not,
          Bool.not_eq_true, Bool.not_eq_false', List.isEmpty_iff] at plain undistinct
        obtain ⟨rfl, rfl⟩ := plain
        subst undistinct
        exact ⟨⟨ctes, lateral, tableAlias, selection, grouped, orderBy, limit, offset, fetch⟩, select,
          body, rfl⟩
      · cases lifted
    · cases lifted
  · cases lifted

namespace Wrapper

open List

variable (m : Meaning E V) (w : Wrapper E) (r : Relation V)

def columns : List (List Char) := (r.aliased w.tableAlias).columns

def filtered : List (List V) := m.filter w.selection (r.aliased w.tableAlias)

def distinctRows : List (List V) := if w.grouped then (w.filtered m r).dedup else w.filtered m r

def sorted : List (List V) := m.sort w.orderBy (w.columns r) (w.distinctRows m r)

/-- What the outer query makes of the relation of the inner one. -/
def apply : Relation V where
  columns := w.columns r
  rows := m.limit w.fetch (m.limit w.limit (m.offset w.offset (w.sorted m r)))

theorem eval_query (inner : Query E) (db : Database V) :
    (w.query inner).eval m db =
      (w.ctes.extend m db).bind fun db => (inner.eval m db).map (w.apply m) := by
  rw [query, Query.eval]
  congr 1
  funext db
  cases grouped : w.grouped with
  | false =>
    simp only [Bool.false_eq_true, if_false, SetExpr.eval, Select.eval, TableFactor.eval, Option.map_map]
    congr 1
    funext r
    simp [apply, sorted, distinctRows, filtered, columns, grouped]
  | true =>
    simp only [if_true, SetExpr.eval, Select.eval, TableFactor.eval, Option.map_map]
    congr 1
    funext r
    simp [apply, sorted, distinctRows, filtered, columns, grouped]

/-- The outer clauses leave the rows as they are: none is filtered out or left out as a duplicate, none
is moved, none is skipped and none is cut off. -/
structure Keeps : Prop where
  filter : ∀ e, w.selection = some e → ∀ row ∈ r.rows, m.holds e (w.columns r) row = true
  group : w.grouped = true → r.rows.Nodup
  sort : ∀ keys, w.orderBy = some keys → r.rows.mergeSort (m.before keys (w.columns r)) = r.rows
  offset : ∀ n, w.offset.bind m.count = some n → n = 0 ∨ r.rows = []
  limit : ∀ n, w.limit.bind m.count = some n → r.rows.length ≤ n
  fetch : ∀ n, w.fetch.bind m.count = some n → r.rows.length ≤ n

/-- Clauses that cut rows or move them give back all the rows only if none of them does anything. -/
theorem rows_apply_iff : (w.apply m r).rows = r.rows ↔ w.Keeps m r := by
  have filtered : (w.filtered m r).Sublist r.rows := m.filter_sublist w.selection (r.aliased w.tableAlias)
  have distinct : (w.distinctRows m r).Sublist (w.filtered m r) := by
    rw [distinctRows]
    split
    · exact dedup_sublist _
    · exact Sublist.refl _
  have sorted := m.length_sort w.orderBy (w.columns r) (w.distinctRows m r)
  have skipped := m.offset_sublist w.offset (w.sorted m r)
  have limited := m.limit_sublist w.limit (m.offset w.offset (w.sorted m r))
  have fetched := m.limit_sublist w.fetch (m.limit w.limit (m.offset w.offset (w.sorted m r)))
  constructor
  · intro same
    -- every step leaves at most as many rows, and in the end all are left
    have lengths : (m.limit w.fetch (m.limit w.limit (m.offset w.offset (w.sorted m r)))).length =
        r.rows.length := congrArg length same
    have order : (w.sorted m r).length = (w.distinctRows m r).length := sorted
    have fewer := filtered.length_le
    have kinds := distinct.length_le
    have left := skipped.length_le
    have first := limited.length_le
    have next := fetched.length_le
    have whole : w.filtered m r = r.rows := filtered.eq_of_length (by omega)
    have each : w.distinctRows m r = r.rows := (distinct.eq_of_length (by omega)).trans whole
    have rest : m.offset w.offset (w.sorted m r) = w.sorted m r := skipped.eq_of_length (by omega)
    have cut : m.limit w.limit (w.sorted m r) = w.sorted m r := by
      rw [rest] at limited first next lengths
      exact limited.eq_of_length (by omega)
    have last : m.limit w.fetch (w.sorted m r) = w.sorted m r := by
      rw [rest, cut] at fetched next lengths
      exact fetched.eq_of_length (by omega)
    have inOrder : w.sorted m r = r.rows := by
      have result : m.limit w.fetch (m.limit w.limit (m.offset w.offset (w.sorted m r))) = r.rows := same
      rwa [rest, cut, last] at result
    rw [inOrder] at rest cut last
    refine ⟨m.filter_eq.mp whole, fun grouped => ?_, ?_, m.offset_eq.mp rest, m.limit_eq.mp cut,
      m.limit_eq.mp last⟩
    · rw [distinctRows, if_pos grouped, whole] at each
      exact dedup_eq_self.mp each
    · rw [Wrapper.sorted, each] at inOrder
      exact m.sort_eq.mp inOrder
  · intro keeps
    have whole : w.filtered m r = r.rows := m.filter_eq.mpr keeps.filter
    have each : w.distinctRows m r = r.rows := by
      rw [distinctRows, whole]
      split
      · rename_i grouped
        exact dedup_eq_self.mpr (keeps.group grouped)
      · rfl
    have inOrder : w.sorted m r = r.rows := by
      rw [Wrapper.sorted, each]
      exact m.sort_eq.mpr keeps.sort
    rw [apply, inOrder]
    show m.limit w.fetch (m.limit w.limit (m.offset w.offset r.rows)) = r.rows
    rw [m.offset_eq.mpr keeps.offset, m.limit_eq.mpr keeps.limit, m.limit_eq.mpr keeps.fetch]

/-- The outer query makes no difference on a database. It names the columns as the inner query does, and
its own tables do not change what the inner query returns, or they do and the other clauses undo just
that. -/
def Idle (inner : Query E) (db : Database V) : Prop :=
  match (w.ctes.extend m db).bind (inner.eval m), inner.eval m db with
  | none, none => True
  | some seen, some r => w.columns seen = r.columns ∧
      (seen.rows = r.rows ∧ w.Keeps m seen ∨ seen.rows ≠ r.rows ∧ (w.apply m seen).rows = r.rows)
  | _, _ => False

theorem eval_eq_iff (inner : Query E) (db : Database V) :
    (w.query inner).eval m db = inner.eval m db ↔ w.Idle m inner db := by
  have closed : (w.query inner).eval m db =
      ((w.ctes.extend m db).bind (inner.eval m)).map (w.apply m) := by
    rw [eval_query, Option.map_bind]
    rfl
  rw [closed, Idle]
  cases (w.ctes.extend m db).bind (inner.eval m) with
  | none => cases inner.eval m db <;> simp
  | some seen =>
    cases inner.eval m db with
    | none => simp
    | some r =>
      have parts : w.apply m seen = r ↔ w.columns seen = r.columns ∧ (w.apply m seen).rows = r.rows := by
        constructor
        · rintro rfl
          exact ⟨rfl, rfl⟩
        · rintro ⟨columns, rows⟩
          cases r
          cases columns
          cases rows
          rfl
      simp only [Option.map_some, Option.some.injEq, parts]
      by_cases unchanged : seen.rows = r.rows
      · simp only [unchanged, true_and, ne_eq, not_true_eq_false, false_and, or_false]
        rw [← unchanged, rows_apply_iff]
      · simp [unchanged]

/-- An outer query without clauses of its own. -/
structure Bare : Prop where
  ctes : w.ctes = .nil
  names : (w.tableAlias.map TableAlias.columns).getD [] = []
  selection : w.selection = none
  grouped : w.grouped = false
  orderBy : w.orderBy = none
  limit : w.limit = none
  offset : w.offset = none
  fetch : w.fetch = none

variable {w}

theorem Bare.idle (bare : w.Bare) (inner : Query E) (db : Database V) : w.Idle m inner db := by
  have keeps (r : Relation V) : w.Keeps m r := by
    refine ⟨?_, ?_, ?_, ?_, ?_, ?_⟩
    · simp [bare.selection]
    · simp [bare.grouped]
    · simp [bare.orderBy]
    · simp [bare.offset]
    · simp [bare.limit]
    · simp [bare.fetch]
  rw [Idle, bare.ctes, Ctes.extend, Option.bind_some]
  cases inner.eval m db with
  | none => trivial
  | some r =>
    refine ⟨?_, .inl ⟨rfl, keeps r⟩⟩
    simp [columns, Relation.aliased, Relation.rename, bare.names]

end Wrapper

/-- A query that is lifted wraps the inner query, and both have the same result on every database exactly
if the clauses of the wrapper make no difference on any. Without such clauses they make none. -/
theorem lift_preserves_iff {q inner : Query E} (lifted : tryLiftTrivialSubquery q = some inner) :
    ∃ w : Wrapper E, q = w.query inner ∧
      (∀ m : Meaning E V, (∀ db, q.eval m db = inner.eval m db) ↔ ∀ db, w.Idle m inner db) ∧
      (w.Bare → ∀ (m : Meaning E V) (db : Database V), q.eval m db = inner.eval m db) := by
  obtain ⟨w, _, _, rfl⟩ := tryLift_eq_some lifted
  refine ⟨w, rfl, fun m => ?_, fun bare m db => ?_⟩
  · exact forall_congr' fun db => w.eval_eq_iff m inner db
  · exact (w.eval_eq_iff m inner db).mpr (bare.idle m inner db)

/-! Wrappers of `SELECT * FROM t` that make a difference. -/

def ident (name : String) : Ident := ⟨name.toList, name.toList⟩

def allOf (name : String) : Query Nat :=
  .mk .nil (.select (.mk false [.wildcard] (.cons (.table [ident name] none none) .nil .nil) none
    (.expressions [] []) none [])) none none none none

def Wrapper.bare : Wrapper Nat := ⟨.nil, false, none, none, false, none, none, none, none⟩

/-- A filter that every row passes, and an offset of nothing. -/
def Wrapper.idle : Wrapper Nat := { Wrapper.bare with selection := some 1, offset := some 0 }

/-- Numbers as expressions: a condition holds unless it is zero, and a number counts as itself. -/
def numbers : Meaning Nat Nat where
  holds e _ _ := e ≠ 0
  before _ _ a b := b.headD 0 ≤ a.headD 0
  count := some
  select _ _ := none
  body _ _ := none
  function _ _ _ := none
  factor _ _ := none

theorem lift_preserves_bare : tryLiftTrivialSubquery (Wrapper.idle.query (allOf "t")) = some (allOf "t") ∧
    ∀ db, (Wrapper.idle.query (allOf "t")).eval numbers db = (allOf "t").eval numbers db := by
  have lifted : tryLiftTrivialSubquery (Wrapper.idle.query (allOf "t")) = some (allOf "t") := rfl
  obtain ⟨⟨ctes, lateral, tableAlias, selection, grouped, orderBy, limit, offset, fetch⟩, same, idle, -⟩ :=
    lift_preserves_iff (V := Nat) lifted
  refine ⟨lifted, (idle numbers).mpr fun db => ?_⟩
  simp only [Wrapper.query, Wrapper.idle, Wrapper.bare] at same
  cases grouped <;> cases same
  rw [Wrapper.Idle]
  cases found : (allOf "t").eval numbers db with
  | none => simp [Ctes.extend, found]
  | some r =>
    simp only [Ctes.extend, Option.bind_some, found]
    refine ⟨?_, .inl ⟨trivial, ?_, ?_, ?_, ?_, ?_, ?_⟩⟩ <;>
      simp [numbers, Wrapper.columns, Relation.aliased, Relation.rename]

def twoTables : Database Nat := fun name =>
  if name = ["t".toList] then some ⟨["a".toList], [[1], [2]]⟩
  else if name = ["u".toList] then some ⟨["a".toList], [[3]]⟩
  else none

/-- A filter, a limit, an offset, a common table expression and new column names are all dropped. -/
theorem lift_drops_clauses :
    [{ Wrapper.bare with selection := some 0 }, { Wrapper.bare with limit := some 1 },
      { Wrapper.bare with offset := some 1 },
      { Wrapper.bare with ctes := .cons (ident "t") [] (allOf "u") .nil },
      { Wrapper.bare with tableAlias := some ⟨ident "s", [ident "b"]⟩ }].Forall fun w =>
      tryLiftTrivialSubquery (w.query (allOf "t")) = some (allOf "t") ∧
        (w.query (allOf "t")).eval numbers twoTables ≠ (allOf "t").eval numbers twoTables := by
  refine ⟨?_, ?_, ?_, ?_, ?_⟩
  all_goals
    refine ⟨rfl, ?_⟩
    decide

end RockLake.Sql
