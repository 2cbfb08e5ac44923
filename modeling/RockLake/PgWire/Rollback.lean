import RockLake.PgWire.Client

/-! What ROLLBACK undoes. Statements that go through the buffer leave nothing behind, and neither do
queries; statements that take effect at once keep it. The state that ROLLBACK leaves is a projection
of the state before, and every event of a transaction either keeps that projection or acts on it as
it does outside. -/
namespace RockLake

open List Executor Bool

/-- Kinds that write to the store at once, in a transaction as well. -/
def StatementKind.immediate : StatementKind → Bool
  | .createExtensionTable .. | .insertExtensionRow .. | .deleteExtensionRows .. => true
  | _ => false

def StatementKind.control : StatementKind → Bool
  | .begin | .commit | .rollback => true
  | _ => false

def ClientStatement.immediate : ClientStatement → Bool
  | .classified kind => kind.immediate
  | .setVariable .. | .listen _ | .unlisten _ | .nextRowidRange .. | .holdSnapshot ..
  | .releaseSnapshot _ => true
  | _ => false

def ClientStatement.ends : ClientStatement → Bool
  | .classified .commit | .classified .rollback => true
  | _ => false

/-- A finished transfer that parses to at least one row of a bootstrap table. -/
def bootstraps (table : String) (chunks : List Bytes) : Bool :=
  bootstrapTable table && match Copy.parseBinaryCopyRows chunks.flatten with
    | .ok rows => !rows.isEmpty
    | .error _ => false

def ClientEvent.immediate : ClientEvent → Bool
  | .statement _ _ inner | .copyOut _ _ inner => inner.immediate
  | .copyIn .. => false
  | .elsewhere _ => true

/-- Events within a transaction: nothing ends it, and no transfer brings bootstrap rows. -/
def ClientEvent.inside : ClientEvent → Bool
  | .statement _ _ inner | .copyOut _ _ inner => !inner.ends
  | .copyIn table chunks finished => !(finished && bootstraps table chunks)
  | .elsewhere _ => true

namespace Executor

variable {ctx : ExecContext} {conn : Connection} {kind : StatementKind}

theorem submit_buffers (inside : conn.session.inTransaction = true) :
    ∃ pendingTxn, (submit ctx conn ops done).1 =
      ⟨conn.catalog, { conn.session with pendingTxn }⟩ := by
  simp only [submit, inside, if_true]
  exact ⟨_, rfl⟩

theorem submit_session (idle : conn.session.inTransaction = false) :
    (submit ctx conn ops done).1.session = conn.session := by
  simp [submit, idle]

/-- In a transaction a statement changes the buffer and nothing else, unless it takes effect at
once. -/
theorem executeClassified_buffers (ctx : ExecContext) (conn : Connection) (sql : List Char)
    (params : ParamValues) (inside : conn.session.inTransaction = true)
    (plain : kind.control = false) (buffered : kind.immediate = false) :
    ∃ pendingTxn, (executeClassified ctx conn sql params kind).1 =
      ⟨conn.catalog, { conn.session with pendingTxn }⟩ := by
  cases kind with
  | begin | commit | rollback | createExtensionTable | insertExtensionRow | deleteExtensionRows =>
      contradiction
  | insert | insertInlinedRow | updateEndSnapshot | updateTableStats | updateTableColumnStats =>
      exact submit_buffers inside
  | updateInlinedRowEndSnapshot =>
    simp only [executeClassified]
    split
    · exact submit_buffers inside
    · exact ⟨_, rfl⟩
  | _ => exact ⟨_, rfl⟩

theorem onExtension_session :
    (onExtension ctx conn schemaName run).1.session = conn.session := by
  simp only [onExtension]
  repeat' split
  all_goals rfl

/-- Outside a transaction a statement leaves the session alone, unless it begins or ends one. -/
theorem executeClassified_session (ctx : ExecContext) (conn : Connection) (sql : List Char)
    (params : ParamValues) (idle : conn.session.inTransaction = false)
    (plain : kind.control = false) :
    (executeClassified ctx conn sql params kind).1.session = conn.session := by
  cases kind with
  | begin | commit | rollback => contradiction
  | createExtensionTable | insertExtensionRow | deleteExtensionRows => exact onExtension_session
  | insert | insertInlinedRow | updateEndSnapshot | updateTableStats | updateTableColumnStats =>
      exact submit_session idle
  | updateInlinedRowEndSnapshot =>
    simp only [executeClassified]
    split
    · exact submit_session idle
    · rfl
  | _ => rfl

theorem onExtension_catalog :
    (onExtension ctx ⟨conn.catalog, session⟩ schemaName run).1 =
      ⟨(onExtension ctx conn schemaName run).1.catalog, session⟩ := by
  simp only [onExtension]
  repeat' split
  all_goals rfl

end Executor

namespace ClientState

variable {ctx : ClientContext} {state : ClientState}

def settled (state : ClientState) : ClientState := { state with pendingCopy := none }

def outside (state : ClientState) : ClientState :=
  { state with
    conn := ⟨state.conn.catalog, { bootstrap := state.conn.session.bootstrap }⟩
    pendingCopy := none }

theorem outside_settled : state.settled.outside = state.outside := rfl

section Settled

theorem execute_settled (ctx : ClientContext) (state : ClientState) (sql : List Char)
    (params : ParamValues) (statement : ClientStatement) :
    (state.settled.execute ctx sql params statement).1.settled =
      (state.execute ctx sql params statement).1.settled ∧
    (state.settled.execute ctx sql params statement).2 =
      (state.execute ctx sql params statement).2 := by
  cases statement with
  | nextRowidRange | holdSnapshot | releaseSnapshot =>
    simp only [execute, direct, settled]
    split <;> exact ⟨rfl, rfl⟩
  | _ => exact ⟨rfl, rfl⟩

theorem handle_settled (ctx : ClientContext) (state : ClientState) (event : ClientEvent) :
    (state.settled.handle ctx event).1.settled = (state.handle ctx event).1.settled ∧
    (state.settled.handle ctx event).2 = (state.handle ctx event).2 := by
  cases event with
  | statement sql params statement =>
    obtain ⟨same, responded⟩ := execute_settled ctx state sql params statement
    exact ⟨same, congrArg (fun response => [response]) responded⟩
  | copyOut sql params statement =>
    obtain ⟨same, responded⟩ := execute_settled ctx state sql params statement
    refine ⟨same, ?_⟩
    simp [handle, copyToStdout, responded]
  | copyIn | elsewhere => exact ⟨rfl, rfl⟩

/-- States that differ in a given-up transfer only get the same responses ever after. -/
theorem run_settled {state other : ClientState} (same : state.settled = other.settled)
    (events : List Sent) : (state.run events).2 = (other.run events).2 ∧
      (state.run events).1.settled = (other.run events).1.settled := by
  induction events generalizing state other with
  | nil => exact ⟨rfl, same⟩
  | cons sent rest ih =>
    obtain ⟨here, responded⟩ := handle_settled sent.1 state sent.2
    obtain ⟨there, responded'⟩ := handle_settled sent.1 other sent.2
    rw [same] at here responded
    obtain ⟨later, final⟩ := ih (here.symm.trans there)
    refine ⟨?_, final⟩
    simp only [run]
    rw [later, ← responded, responded']

end Settled

section Transaction

theorem direct_outside :
    (state.outside.direct call reply).1 = (state.direct call reply).1.outside := by
  simp only [direct, outside]
  split <;> rfl

theorem direct_session :
    (state.direct call reply).1.conn.session = state.conn.session := by
  simp only [direct]
  split <;> rfl

theorem execute_immediate (ctx : ClientContext) (state : ClientState) (sql : List Char)
    (params : ParamValues) (immediate : statement.immediate = true) :
    (state.outside.execute ctx sql params statement).1 =
      (state.execute ctx sql params statement).1.outside ∧
    (state.execute ctx sql params statement).1.conn.session = state.conn.session := by
  cases statement with
  | classified kind =>
    have run : (executeClassified ctx.toExecContext state.outside.conn sql params kind).1 =
          ⟨(executeClassified ctx.toExecContext state.conn sql params kind).1.catalog,
            { bootstrap := state.conn.session.bootstrap }⟩ ∧
        (executeClassified ctx.toExecContext state.conn sql params kind).1.session =
          state.conn.session := by
      cases kind with
      | createExtensionTable | deleteExtensionRows => exact ⟨onExtension_catalog, onExtension_session⟩
      | insertExtensionRow => exact ⟨onExtension_catalog, onExtension_session⟩
      | _ => contradiction
    refine ⟨?_, run.2⟩
    simp only [execute, outside, run.2]
    rw [← run.1]
    rfl
  | setVariable | listen | unlisten => exact ⟨rfl, rfl⟩
  | nextRowidRange | holdSnapshot | releaseSnapshot => exact ⟨direct_outside, direct_session⟩
  | _ => contradiction

/-- A statement of a transaction that does not take effect at once keeps what is outside. -/
theorem execute_undone (ctx : ClientContext) (state : ClientState) (sql : List Char)
    (params : ParamValues) (inside : state.conn.session.inTransaction = true)
    (buffered : statement.immediate = false) (goesOn : statement.ends = false) :
    (state.execute ctx sql params statement).1.outside = state.outside ∧
    (state.execute ctx sql params statement).1.conn.session.inTransaction = true := by
  cases statement with
  | classified kind =>
    by_cases control : kind.control = true
    · cases kind with
      | begin => exact ⟨rfl, rfl⟩
      | commit | rollback | _ => contradiction
    · obtain ⟨pendingTxn, after⟩ := executeClassified_buffers ctx.toExecContext
        state.conn sql params inside (eq_false_iff.mpr control) buffered
      simp only [execute, after, outside]
      exact ⟨trivial, inside⟩
  | query | tableChanges | showVariable | copyFromStdin => exact ⟨rfl, inside⟩
  | _ => contradiction

theorem foldl_onCopyData (state : ClientState) (chunks : List Bytes)
    (pending : state.pendingCopy = some acc) : chunks.foldl onCopyData state =
      { state with pendingCopy := some ⟨acc.table, acc.data ++ chunks.flatten⟩ } := by
  induction chunks generalizing state acc with
  | nil =>
    simp only [foldl_nil, flatten_nil, append_nil]
    rw [← pending]
  | cons chunk rest ih =>
    have next : (state.onCopyData chunk).pendingCopy = some ⟨acc.table, acc.data ++ chunk⟩ := by
      simp [onCopyData, pending]
    rw [foldl_cons, ih _ next]
    simp [onCopyData, append_assoc]

theorem transfer_session (ctx : ClientContext) (state : ClientState) (table : String)
    (chunks : List Bytes) (finished : Bool) :
    ∃ bootstrap, (state.transfer ctx table chunks finished).1.settled =
        { state.settled with conn := ⟨state.conn.catalog, { state.conn.session with bootstrap }⟩ } ∧
      (ClientEvent.inside (.copyIn table chunks finished) = true →
        bootstrap = state.conn.session.bootstrap) := by
  have collected := foldl_onCopyData { state with pendingCopy := some ⟨table, []⟩ } chunks rfl
  cases finished with
  | false =>
    refine ⟨state.conn.session.bootstrap, ?_, fun _ => rfl⟩
    simp only [transfer, execute, collected]
    rfl
  | true =>
    simp only [transfer, execute, collected, onCopyDone, nil_append, if_true]
    cases parsed : Copy.parseBinaryCopyRows chunks.flatten with
    | error e => exact ⟨state.conn.session.bootstrap, rfl, fun _ => rfl⟩
    | ok rows =>
      refine ⟨_, rfl, fun inside => ?_⟩
      simp only [ClientEvent.inside, bootstraps, parsed, Bool.true_and, Bool.not_and,
        Bool.or_eq_true, Bool.not_eq_true', Bool.not_not, List.isEmpty_iff] at inside
      rcases inside with other | rfl
      · exact BootstrapState.receive_other other
      · exact BootstrapState.receive_empty

/-- One event of a transaction: what is outside is kept, or the event acts on it as it does there. -/
theorem handle_inside (ctx : ClientContext) (open_ : state.conn.session.inTransaction = true)
    (inside : event.inside = true) :
    (state.handle ctx event).1.outside =
        (if event.immediate then (state.outside.handle ctx event).1 else state.outside) ∧
      (state.handle ctx event).1.conn.session.inTransaction = true := by
  cases event with
  | statement sql params statement | copyOut sql params statement =>
    simp only [ClientEvent.inside, Bool.not_eq_true'] at inside
    by_cases immediate : statement.immediate = true
    · obtain ⟨same, session⟩ := execute_immediate ctx state sql params immediate
      rw [ClientEvent.immediate, if_pos immediate]
      exact ⟨same.symm, session ▸ open_⟩
    · rw [ClientEvent.immediate, if_neg immediate]
      exact execute_undone ctx state sql params open_ (eq_false_iff.mpr immediate) inside
  | copyIn table chunks finished =>
    obtain ⟨bootstrap, after, kept⟩ := transfer_session ctx state table chunks finished
    cases kept inside
    simp only [handle, ClientEvent.immediate]
    refine ⟨?_, ?_⟩
    · exact outside_settled.symm.trans ((congrArg outside after).trans rfl)
    · exact (congrArg (fun s => s.conn.session.inTransaction) after).trans open_
  | elsewhere change => exact ⟨rfl, open_⟩

/-- A whole transaction up to its end acts on what is outside by the immediate events alone. -/
theorem run_inside {body : List Sent} (state : ClientState)
    (open_ : state.conn.session.inTransaction = true) (inside : ∀ sent ∈ body, sent.2.inside = true) :
    (state.run body).1.outside = (state.outside.run (body.filter (·.2.immediate))).1 := by
  induction body generalizing state with
  | nil => rfl
  | cons sent rest ih =>
    rw [forall_mem_cons] at inside
    obtain ⟨here, still⟩ := handle_inside sent.1 open_ inside.1
    have later := ih _ still inside.2
    simp only [run, later, here]
    by_cases immediate : sent.2.immediate = true
    · simp only [immediate, filter_cons, if_true, run]
    · simp only [immediate, filter_cons, false_eq_true, if_false]

theorem run_append (state : ClientState) (first second : List Sent) :
    (state.run (first ++ second)).1 = ((state.run first).1.run second).1 := by
  induction first generalizing state with
  | nil => rfl
  | cons sent rest ih => exact ih _

end Transaction

def Idle (state : ClientState) : Prop :=
  state.conn.session.inTransaction = false → state.conn.session.pendingTxn = .empty

theorem Idle.settled_eq (idle : state.Idle) (closed : state.conn.session.inTransaction = false) :
    state.settled = state.outside := by
  obtain ⟨⟨catalog, inTransaction, pendingTxn, bootstrap⟩, settings, subscriptions, pendingCopy⟩ :=
    state
  cases closed
  cases idle rfl
  rfl

theorem Idle.execute (idle : state.Idle) (ctx : ClientContext) (sql : List Char) (params : ParamValues)
    (statement : ClientStatement) : (state.execute ctx sql params statement).1.Idle := by
  by_cases immediate : statement.immediate = true
  · have session := (execute_immediate ctx state sql params immediate).2
    intro closed
    rw [session] at closed ⊢
    exact idle closed
  · cases statement with
    | classified kind =>
      by_cases control : kind.control = true
      · cases kind with
        | begin => exact nofun
        | commit | rollback => exact fun _ => rfl
        | _ => contradiction
      · by_cases inside : state.conn.session.inTransaction = true
        · obtain ⟨pendingTxn, after⟩ := executeClassified_buffers ctx.toExecContext
            state.conn sql params inside (eq_false_iff.mpr control)
            (eq_false_iff.mpr immediate)
          intro closed
          simp only [ClientState.execute, after, inside] at closed
          contradiction
        · have session := executeClassified_session ctx.toExecContext state.conn sql
            params (eq_false_iff.mpr inside) (eq_false_iff.mpr control)
          intro closed
          simp only [ClientState.execute, session] at closed ⊢
          exact idle closed
    | nextRowidRange | holdSnapshot | releaseSnapshot => exact absurd rfl immediate
    | _ => exact idle

theorem Idle.handle (idle : state.Idle) (ctx : ClientContext) (event : ClientEvent) :
    (state.handle ctx event).1.Idle := by
  cases event with
  | statement sql params statement => exact idle.execute ctx sql params statement
  | copyOut sql params statement => exact idle.execute ctx sql params statement
  | copyIn table chunks finished =>
    obtain ⟨bootstrap, after, _⟩ := transfer_session ctx state table chunks finished
    have session := congrArg (fun s => s.conn.session) after
    intro closed
    simp only [ClientState.handle, settled] at session closed ⊢
    rw [session] at closed ⊢
    exact idle closed
  | elsewhere change => exact idle

theorem Idle.run (idle : state.Idle) (events : List Sent) :
    (state.run events).1.Idle := by
  induction events generalizing state with
  | nil => exact idle
  | cons sent rest ih => exact ih (idle.handle sent.1 sent.2)

/-- After a rolled-back transaction every later run has the effects and the responses it would have
if, of the transaction, only what takes effect at once had been issued. -/
theorem rollback_undoes (catalog : Catalog) (before body : List Sent)
    (closed : ((fresh catalog).run before).1.conn.session.inTransaction = false)
    (inside : ∀ sent ∈ body, sent.2.inside = true) :
    ∀ ctx ctx' beginSql beginParams rollbackSql rollbackParams later,
      let state := ((fresh catalog).run before).1
      let undone := (state.run ((ctx, .statement beginSql beginParams (.classified .begin)) ::
        body ++ [(ctx', .statement rollbackSql rollbackParams (.classified .rollback))])).1
      let kept := (state.run (body.filter (·.2.immediate))).1
      (undone.run later).2 = (kept.run later).2 ∧
        (undone.run later).1.conn.catalog = (kept.run later).1.conn.catalog := by
  intro ctx ctx' beginSql beginParams rollbackSql rollbackParams later
  have idle : ((fresh catalog).run before).1.Idle := Idle.run (fun _ => rfl) before
  generalize ((fresh catalog).run before).1 = state at closed idle
  dsimp only
  have begun : (state.handle ctx (.statement beginSql beginParams (.classified .begin))).1.outside =
    state.outside := rfl
  have transaction := run_inside
    (state.handle ctx (.statement beginSql beginParams (.classified .begin))).1 rfl inside
  have ended : ∀ s : ClientState, (s.run
      [(ctx', .statement rollbackSql rollbackParams (.classified .rollback))]).1.settled = s.outside :=
    fun _ => rfl
  have undone : (state.run ((ctx, .statement beginSql beginParams (.classified .begin)) ::
      body ++ [(ctx', .statement rollbackSql rollbackParams (.classified .rollback))])).1.settled =
      (state.settled.run (body.filter (·.2.immediate))).1 := by
    rw [run_append, ended, idle.settled_eq closed, ← begun]
    exact transaction
  have settledTwice : (state.settled.run (body.filter (·.2.immediate))).1.settled =
      (state.settled.run (body.filter (·.2.immediate))).1 := by
    rw [← undone]
    rfl
  have same : state.settled = state.settled.settled := rfl
  have kept := (run_settled same (body.filter (·.2.immediate))).2
  obtain ⟨responses, final⟩ :=
    run_settled (undone.trans (settledTwice.symm.trans kept.symm)) later
  exact ⟨responses, congrArg (fun s => s.conn.catalog) final⟩

def plain (statement : ClientStatement) : Sent := (.trivial, .statement [] [] statement)

def insertMain : Sent :=
  (.trivial, .statement [] [some "main"] (.classified (.insert .schema)))

/-- A schema that was inserted is gone, the time zone that was set stays, and the rows of a table
that is not part of the bootstrap are dropped. -/
theorem rollback_undoes_insert : ∃ store db, Catalog.Opens "a" store db ∧
    let body : List Sent := [insertMain, plain (.setVariable "timezone" "CET"),
        (.trivial, .copyIn "ducklake_metadata" [[1, 2, 3]] true)]
    let later := [plain (.classified .begin), plain (.showVariable "timezone"),
      plain (.classified .commit)]
    let undone := ((fresh ⟨db, store⟩).run (plain (.classified .begin) :: body ++
      [plain (.classified .rollback)])).1
    let kept := ((fresh ⟨db, store⟩).run [plain (.setVariable "timezone" "CET")]).1
    (undone.run later).2 = (kept.run later).2 ∧
      (undone.run later).1.conn.catalog = (kept.run later).1.conn.catalog :=
  ⟨_, _, rfl, rollback_undoes _ [] _ rfl (by decide) .trivial .trivial [] [] [] [] _⟩

/-- Row identifiers taken in a rolled-back transaction stay taken. Schema rows received in one are
committed by the next transaction of the session. -/
theorem rollback_keeps : ∃ store db, Catalog.Opens "a" store db ∧
    let state := fresh ⟨db, store⟩
    let transaction (body : List Sent) (last : StatementKind) :=
      plain (.classified .begin) :: body ++ [plain (.classified last)]
    let range := [plain (.nextRowidRange "t" 1)]
    let copied : List Sent := [(.trivial, .copyIn "ducklake_schema" [Copy.mainSchemaRow] true)]
    (state.run (transaction range .commit)).2 = [[.executed (.tag "BEGIN")],
      [.rows [[some "0", some "1"]]], [.executed (.tag "COMMIT")]] ∧
    (((state.run (transaction range .rollback)).1).run
      (transaction range .commit)).2 = [[.executed (.tag "BEGIN")],
      [.rows [[some "1", some "2"]]], [.executed (.tag "COMMIT")]] ∧
    ((state.run (transaction [] .commit)).1.conn.catalog.db.scanPrefix .schema []) = [] ∧
    (((state.run (transaction copied .rollback)).1.run
      (transaction [] .commit)).1.conn.catalog.db.scanPrefix .schema []).map
        (fun entry => entry.2.schemaName) = ["main"] :=
  ⟨_, _, rfl, by decide +kernel, by decide +kernel, rfl, by decide +kernel⟩

end ClientState

end RockLake
