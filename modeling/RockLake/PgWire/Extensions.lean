import RockLake.PgWire.Executor

/-! DELETE on extension tables. The condition is parsed and never evaluated, so a delete does what it
says exactly when every row satisfies the condition. -/
namespace RockLake.Executor

open Classifier

variable {E : Type}

def selected (holds : E → ExtensionSchemaRow → Bool) (selection : Option E)
    (row : ExtensionSchemaRow) : Bool :=
  match selection with
  | none => true
  | some p => holds p row

variable {ctx : ExecContext}

/-- Conditions as predicates on rows, for concrete statements. -/
abbrev RowPredicate := ExtensionSchemaRow → Bool

def RowPredicate.holds (p : RowPredicate) (row : ExtensionSchemaRow) : Bool := p row

end RockLake.Executor
