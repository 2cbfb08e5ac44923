import RockLake.PgWire.Rollback
import RockLake.PgWire.Transactions
import RockLake.System.RowIds

/-! Any number of connections to one catalog. Its lock admits one writing statement at a time. -/
namespace RockLake

open Db CatalogWriter

/-- What a valid catalog turns into is valid, and its counters have not gone back. -/
def Catalog.Keeps (before after : Catalog) : Prop :=
  before.Valid → after.Valid ∧ before.store.counters.Le after.store.counters

namespace Catalog.Keeps

variable {catalog : Catalog} {db : Db}

theorem refl (catalog : Catalog) : catalog.Keeps catalog := fun valid => ⟨valid, .refl _⟩

theorem ofAside (same : ∀ f, f.unread = false → db f = catalog.db f)
    (counters : ∀ id, db.get .counter (keyCounter id) = catalog.db.get .counter (keyCounter id)) :
    catalog.Keeps ⟨db, catalog.store⟩ :=
  fun valid => ⟨valid.ofAside same (loadCounters_congr counters), .refl _⟩

theorem ofFamily (unread : g.unread = true) (other : g ≠ .counter)
    (same : ∀ f, f ≠ g → db f = catalog.db f) : catalog.Keeps ⟨db, catalog.store⟩ := by
  refine ofAside (fun f read => same f ?_) fun id => get_of_family (same _ other.symm) _
  rintro rfl
  rw [unread] at read
  contradiction

/-- A commit that fails leaves the direct writes of the operations before the failure. -/
theorem ofCommit (ctx : CommitContext) (ops : List BufferedOp) (catalog : Catalog) :
    catalog.Keeps (executeCommit ctx ops catalog).1 := by
  intro valid
  rcases done : executeCommit ctx ops catalog with ⟨after, result⟩
  cases result with
  | ok =>
    refine ⟨executeCommit_valid valid done, ?_⟩
    obtain ⟨s, _, session, ⟨_, rfl⟩ | ⟨_, rfl⟩⟩ := executeCommit_ok valid done
    · exact session.le.trans ⟨Nat.le_succ _, le_rfl, le_rfl⟩
    · exact .refl _
  | error e =>
    obtain ⟨k, _, rfl⟩ := executeCommit_error done
    refine ofAside (fun f read => DirectCall.applyAll_family _ _ _ ?_) (fun id => ?_) valid
    · cases f <;> first | rfl | contradiction
    · exact get_of_family (DirectCall.applyAll_family _ _ _ rfl) _

end Catalog.Keeps

open Catalog.Keeps

theorem Executor.executeClassified_keeps (ctx : ExecContext) (conn : Connection) (sql : List Char)
    (params : ParamValues) (kind : StatementKind) :
    conn.catalog.Keeps (executeClassified ctx conn sql params kind).1.catalog := by
  have submitted (ops : List BufferedOp) (done : String) :
      conn.catalog.Keeps (submit ctx conn ops done).1.catalog := by
    unfold submit
    split
    · exact refl _
    · exact ofCommit _ _ _
  have extended {schema : String} {run : Nat → Db → Except CatalogError (String × Db)}
      (kept : ∀ n db done db' f, run n db = .ok (done, db') → f ≠ .extensionSchema → db' f = db f) :
      conn.catalog.Keeps (onExtension ctx conn schema run).1.catalog := by
    unfold onExtension
    repeat' split
    · exact ofFamily rfl (by decide) fun f => kept _ _ _ _ f ‹_›
    all_goals exact refl _
  cases kind with
  | commit => exact ofCommit _ _ _
  | insert | insertInlinedRow | updateEndSnapshot | updateTableStats | updateTableColumnStats =>
    exact submitted _ _
  | updateInlinedRowEndSnapshot =>
    simp only [executeClassified]
    split
    · exact submitted _ _
    · exact refl _
  | insertExtensionRow =>
    refine extended fun n db done db' f ran other => ?_
    obtain ⟨_, called, same⟩ := map_ok.mp ran
    cases same
    obtain ⟨_, _, called⟩ := bind_ok.mp called
    obtain ⟨_, _, called⟩ := bind_ok.mp called
    split_ifs at called
    cases called
    exact (put_family _ _ other).trans (put_family _ _ other)
  | createExtensionTable | deleteExtensionRows =>
    refine extended fun n db done db' f ran other => ?_
    obtain ⟨_, called, same⟩ := map_ok.mp ran
    cases same
    obtain ⟨_, _, same⟩ := map_ok.mp called
    first
    | cases same
      exact deleteKeys_family other
    | split at same <;> cases same
      · rfl
      · exact put_family _ _ other
  | _ => exact refl _

namespace ClientState

theorem execute_keeps (state : ClientState) (ctx : ClientContext) (sql : List Char)
    (params : ParamValues) (statement : ClientStatement) :
    state.conn.catalog.Keeps (state.execute ctx sql params statement).1.conn.catalog := by
  cases statement with
  | classified kind => exact Executor.executeClassified_keeps _ _ _ _ _
  | nextRowidRange tableRef count =>
    simp only [execute, direct]
    split
    · rename_i called
      obtain ⟨⟨_, _, _⟩, given, same⟩ := map_ok.mp called
      cases same
      obtain ⟨_, _, _, _, rfl⟩ := nextRowidRange_ok.mp given
      refine ofAside (fun f read => put_family _ _ ?_) fun id => ?_
      · rintro rfl
        contradiction
      · exact get_put_key _ _ (by simp [keyCounter, keyCounterRowid])
    · exact refl _
  | holdSnapshot =>
    simp only [execute, direct]
    split
    · rename_i held
      obtain ⟨_, rfl⟩ := holdSnapshot_ok held
      exact ofFamily (g := .snapshotLease) rfl (by decide) fun f other => put_family _ _ other
    · exact refl _
  | releaseSnapshot =>
    simp only [execute, direct]
    split
    · rename_i released
      obtain rfl := releaseSnapshot_ok released
      exact ofFamily rfl (by decide) fun f => delete_family _ _
    · exact refl _
  | _ => exact refl _

end ClientState

/-- The connections of a server, each with its session, and the catalog they share. -/
structure Clients (ι : Type) where
  catalog : Catalog
  client : ι → ClientState

namespace Clients

variable {ι : Type} [DecidableEq ι]

/-- A client finds the catalog as the clients have left it. -/
def state (s : Clients ι) (i : ι) : ClientState :=
  { s.client i with conn := ⟨s.catalog, (s.client i).conn.session⟩ }

def handle (s : Clients ι) (i : ι) (ctx : ClientContext) (event : ClientEvent) : Clients ι :=
  let after := ((s.state i).handle ctx event).1
  ⟨after.conn.catalog, Function.update s.client i after⟩

/-- The COMMIT of a client that looked for a snapshot in the given catalog. -/
def commit (s : Clients ι) (i : ι) (ctx : ClientContext) (seen : Catalog) : Clients ι :=
  let session := (s.client i).conn.session
  let (catalog, _) := executeCommit ctx.toCommitContext
    (Executor.bootstrapOps ⟨seen, session⟩ ++ session.pendingTxn.ops) s.catalog
  ⟨catalog, Function.update s.client i { s.client i with conn := ⟨catalog, {}⟩ }⟩

/-- A client sends an event of its own. What happens elsewhere is what the others send. -/
inductive Step (s : Clients ι) : ι × ClientContext × ClientEvent → Clients ι → Prop
  | issued {i ctx event} (own : ∀ change, event ≠ .elsewhere change) :
      Step s (i, ctx, event) (s.handle i ctx event)
  -- a snapshot is looked for without the lock, so others may have changed the catalog since
  | commit {i ctx sql params} (seen : Catalog) :
      Step s (i, ctx, .statement sql params (.classified .commit)) (s.commit i ctx seen)

theorem Step.keeps {s t : Clients ι} (stepped : Step s sent t) : s.catalog.Keeps t.catalog := by
  cases stepped with
  | @issued i ctx event own =>
    cases event with
    | statement | copyOut => exact (s.state i).execute_keeps ctx _ _ _
    | copyIn table chunks finished =>
      obtain ⟨bootstrap, after, _⟩ := (s.state i).transfer_session ctx table chunks finished
      exact (congrArg (·.conn.catalog) after : _ = s.catalog) ▸ refl _
    | elsewhere change => exact absurd rfl (own change)
  | commit seen => exact ofCommit _ _ _

/-- Whatever the clients send, in whatever order, the catalog stays valid and its counters never go
back. -/
theorem clients_keep_valid {s t : Clients ι} (valid : s.catalog.Valid) (ran : Run Step s sent t) :
    t.catalog.Valid ∧ s.catalog.store.counters.Le t.catalog.store.counters := by
  induction ran with
  | done => exact refl _ valid
  | next stepped _ ih =>
    obtain ⟨valid, first⟩ := stepped.keeps valid
    obtain ⟨valid, rest⟩ := ih valid
    exact ⟨valid, first.trans rest⟩

/-- A client gets row identifiers within the transaction of another. -/
theorem clients_keep_valid_two : ∃ s t : Clients Bool, Run Step s
    [(true, ClientState.plain (.classified .begin)), (true, ClientState.insertMain),
      (false, ClientState.plain (.nextRowidRange "t" 1)), (true, ClientState.plain (.classified .commit))] t ∧
    t.catalog.Valid := by
  obtain ⟨store, db, opened⟩ : ∃ store db, Catalog.Opens "a" store db := ⟨_, _, rfl⟩
  exact ⟨⟨⟨db, store⟩, fun _ => .fresh ⟨db, store⟩⟩, _,
    (fun ran => ⟨ran, (clients_keep_valid (Catalog.initial_valid opened) ran).1⟩)
      (.next (.issued nofun) (.next (.issued nofun) (.next (.issued nofun)
        (.next (.commit ⟨db, store⟩) .done))))⟩

end Clients
end RockLake
