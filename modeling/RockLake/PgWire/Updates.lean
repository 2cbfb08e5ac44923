import RockLake.PgWire.Effects

/-! UPDATE statements. An update of any DuckLake table, whatever it sets, is executed as a retirement
of the row its parameters name: a table with everything below it, or a column. -/
namespace RockLake

open CatalogWriter Option List CommitState BufferedOp Family

/-- Schemas, tables, columns, views and data files in sight before are in sight after. -/
def Catalog.KeepsVisible (before after : Catalog) : Prop :=
  ∀ f, f ∈ [schema, .table, .column, .view, .dataFile] → ∀ k row,
    before.shows f k = some row → after.shows f k = some row

theorem Family.versioned_of_visible
    (visible : f ∈ [schema, .table, .column, .view, .dataFile]) : f.versioned = true := by
  cases f <;> first | rfl | simp at visible

namespace Executor

open Classifier

section Retiring

variable {ctx : CommitContext} {before after : Catalog} {params : ParamValues}

end Retiring

variable {E : Type} {parse : SqlParser E} {sql : List Char} {params : ParamValues}
  {before after : Catalog}

theorem Catalog.KeepsVisible.ofOps (valid : before.Valid)
    (done : executeCommit ctx ops before = (after, .ok ()))
    (outside : ∀ op ∈ ops, ∀ f ∈ op.families, f = .inlinedInsert) : before.KeepsVisible after := by
  intro f visible k row shown
  rw [executeCommit_shows valid done (versioned_of_visible visible)]
  · exact shown
  · intro op member family
    have inlined := outside op member f family
    subst inlined
    simp at visible

end Executor

end RockLake
