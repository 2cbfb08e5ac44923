import RockLake.PgWire.Allocation

/-! INSERT statements on tables whose rows have an identifier. The value a client gives for the
identifier is not looked at: the row gets the next one of the catalog's counter. -/
namespace RockLake

open List

def IdTable.metadata : IdTable → MetadataTable
  | .schema => .schema
  | .table => .table
  | .column => .column
  | .dataFile => .dataFile

namespace Executor

open Literals

variable {E : Type} {parse : SqlParser E} {sql : List Char} {params : ParamValues}
  {earlier later : List BufferedOp} {before after : Catalog}

theorem perRow_mem (member : made ∈ perRow op params rows) : ∃ params row, made = op params row := by
  simp only [perRow] at member
  split at member
  · exact ⟨_, _, mem_singleton.mp member⟩
  · obtain ⟨row, _, rfl⟩ := mem_map.mp member
    exact ⟨_, _, rfl⟩

theorem insertOps_inserts {t : IdTable} (member : op ∈ insertOps t.metadata sql params) :
    t.inserts op = true := by
  cases t with
  | schema | table | dataFile =>
    rw [mem_singleton.mp member]
    rfl
  | column =>
    obtain ⟨_, _, rfl⟩ := perRow_mem member
    rfl

/-- Whatever identifier the statement gives, the row of each of its operations gets the counter's
value at the commit, advanced by the operations before it. -/
theorem insert_assigns_id {env : Env} {t : IdTable} (reachable : before.Reachable env)
    (classified : classifyStatement parse sql = .ok (.insert t.metadata))
    (acknowledged : Acknowledged parse sql params earlier later before after) {i : Nat}
    {op : BufferedOp} (made : (insertOps t.metadata sql params)[i]? = some op) :
    ∃ k row, before.db.get t.family k = none ∧ after.shows t.family k = some row ∧
      t.Inserts op row ∧ t.idOf row = t.counter before.store.counters +
        ((earlier ++ (insertOps t.metadata sql params).take i).map t.taken).sum := by
  obtain ⟨ctx, done⟩ := acknowledged.commits classified rfl
  have inserts : t.inserts op = true := insertOps_inserts (mem_of_getElem? made)
  have split : earlier ++ (insertOps t.metadata sql params ++ later) =
      (earlier ++ (insertOps t.metadata sql params).take i) ++
        op :: ((insertOps t.metadata sql params).drop (i + 1) ++ later) := by
    obtain ⟨bound, here⟩ := List.getElem?_eq_some_iff.mp made
    have rest : (insertOps t.metadata sql params).drop i =
        op :: (insertOps t.metadata sql params).drop (i + 1) := by
      rw [drop_eq_getElem_cons bound, here]
    rw [append_assoc, ← cons_append, ← rest, ← append_assoc (take _ _), take_append_drop]
  rw [split] at done
  exact executeCommit_created reachable.valid inserts done

def insertMain : List Char :=
  "INSERT INTO ducklake_schema VALUES (7, NULL, 1, NULL, 'main', NULL, true)".toList

/-- A parser that gives every text the syntax tree of an insert into this table. -/
def insertParser (table : String) : SqlParser String := fun _ => .ok (.insert table [])

theorem insertMain_kind :
    classifyStatement (insertParser "ducklake_schema") insertMain = .ok (.insert .schema) := by
  decide +kernel

theorem insert_assigns_id_main : ∃ before after, before.Reachable Env.trivial ∧
    Acknowledged (insertParser "ducklake_schema") insertMain [] [] [] before after ∧
    ∃ k row, before.db.get .schema k = none ∧ after.shows .schema k = some row ∧
      row.schemaName = "main" ∧ row.schemaId = before.store.counters.nextCatalogId := by
  have reachable : Catalog.Reachable Env.trivial _ := .opened "a" rfl
  have made : (insertOps IdTable.schema.metadata insertMain [])[0]? =
      some (.insertSchema "main") := by decide +kernel
  exact ⟨_, _, reachable, (fun acknowledged => ⟨acknowledged,
    insert_assigns_id (t := .schema) reachable insertMain_kind acknowledged made⟩)
    (.ofClassified ExecContext.trivial (.insert .schema) insertMain_kind rfl rfl)⟩

theorem insert_ignores_id : ∃ before after, before.Reachable Env.trivial ∧
    Acknowledged (insertParser "ducklake_schema") insertMain [] [] [] before after ∧
    literalU64 (literalInsertValues insertMain) 0 = some 7 ∧
    after.shows .schema (keySchema 7) = none ∧
    (after.shows .schema (keySchema 1)).map (fun row => (row.schemaId, row.schemaName)) =
      some (1, "main") := by
  refine ⟨_, _, .opened "a" rfl,
    .ofClassified ExecContext.trivial (.insert .schema) insertMain_kind rfl rfl, ?_, ?_, ?_⟩
  · decide +kernel
  · decide +kernel
  · decide +kernel

end Executor

end RockLake
