import RockLake.PgWire.Atomicity
import RockLake.PgWire.Executor

/-! Statements and their commit. Whatever the buffered operations are, a commit is a write session of
the catalog: it keeps the catalog valid, and a statement that is acknowledged together with its
commit amounts to one commit of the operations it was turned into. -/
namespace RockLake

open BufferedOp

/-- A property of a commit in progress that no single effect of an operation destroys: a staging
call, a direct write, or a change to the commit's own notes. -/
structure KeptByCalls (ctx : CommitContext) (P : CommitState → Prop) : Prop where
  staging : ∀ {s : CommitState} {writer call reply}, P s →
    s.writer.staging ctx.env s.db call = .ok (reply, writer) → P { s with writer }
  direct : ∀ {s : CommitState} (call : DirectCall), P s → P (s.direct ctx call)
  notes : ∀ {s : CommitState} (author message : Option String) (reserved : List (Nat × Nat × Nat)),
    P s → P { s with snapshotAuthor := author, snapshotMessage := message,
                     reservedInlinedRows := reserved }

section Kept

variable {ctx : CommitContext} {P : CommitState → Prop} {s s' : CommitState}

theorem KeptByCalls.ofOp (kept : KeptByCalls ctx P) (before : P s) {op : BufferedOp}
    (applied : op.apply ctx replaced deleted uuid s = .ok s') : P s' :=
  apply_kept (P := fun _ => P) ⟨fun _ => kept.staging, kept.direct, kept.notes⟩ before applied

theorem KeptByCalls.ofOps (kept : KeptByCalls ctx P)
    (marked : ∀ {s : CommitState} (needsSnapshot : Bool), P s → P { s with needsSnapshot })
    (before : P s) {ops : List BufferedOp} (ran : runOps ctx replaced deleted i s ops = .ok s') : P s' := by
  induction ops generalizing i s with
  | nil =>
    cases ran
    exact before
  | cons op rest ih =>
    obtain ⟨middle, applied, ran⟩ := runOps_cons.mp ran
    exact ih (kept.ofOp (marked _ before) applied) ran

theorem BufferedOp.apply_needsSnapshot {op : BufferedOp}
    (applied : op.apply ctx replaced deleted uuid s = .ok s') :
    s'.needsSnapshot = s.needsSnapshot := by
  have kept : KeptByCalls ctx fun t => t.needsSnapshot = s.needsSnapshot :=
    ⟨fun same _ => same, fun _ same => same, fun _ _ _ same => same⟩
  exact kept.ofOp rfl applied

theorem runOps_needsSnapshot {ops : List BufferedOp}
    (ran : runOps ctx replaced deleted i s ops = .ok s') :
    s'.needsSnapshot = (s.needsSnapshot || ops.any BufferedOp.needsSnapshot) := by
  induction ops generalizing i s with
  | nil =>
    cases ran
    simp
  | cons op rest ih =>
    obtain ⟨middle, applied, ran⟩ := runOps_cons.mp ran
    have marked := apply_needsSnapshot applied
    rw [ih ran, marked, List.any_cons, Bool.or_assoc]

end Kept

theorem runOps_append (ran : runOps ctx replaced deleted i s (first ++ second) = .ok s') :
    ∃ middle, runOps ctx replaced deleted i s first = .ok middle ∧
      runOps ctx replaced deleted (i + first.length) middle second = .ok s' := by
  induction first generalizing i s with
  | nil => exact ⟨s, rfl, ran⟩
  | cons op rest ih =>
    rw [List.cons_append] at ran
    obtain ⟨next, applied, ran⟩ := runOps_cons.mp ran
    obtain ⟨middle, early, late⟩ := ih ran
    refine ⟨middle, ?_, ?_⟩
    · simp only [runOps, applied]
      exact early
    · rwa [List.length_cons, Nat.add_comm rest.length, ← Nat.add_assoc]

theorem InSession.keptByCalls (consistent : base.Consistent c) :
    KeptByCalls ctx fun s => InSession base False c s.db s.writer where
  staging session called := session.staging consistent False.elim called
  direct call session := session.ofCore (fun _ core => call.apply_core ctx.env _ core)
    fun _ => Db.get_of_family (call.apply_counter ctx.env _) _
  notes _ _ _ session := session

/-- A commit that goes through is a write session: the operations lead to a session in progress,
which is committed if one of them asks for a snapshot and dropped otherwise. -/
theorem executeCommit_ok (valid : before.Valid)
    (done : executeCommit ctx ops before = (after, .ok ())) :
    ∃ s, runOps ctx (collectReplacedInlinedRows ops) (collectDeletedInlinedRows ops) 0
        (.start before) ops = .ok s ∧
      InSession before.db False before.store.counters s.db s.writer ∧
      (s.needsSnapshot = true ∧
          after = ⟨s.db.putAll (s.writer.commitWrites (s.request ctx)),
            before.store.commitWriter s.writer.commitResult⟩ ∨
        s.needsSnapshot = false ∧ after = ⟨s.db, before.store⟩) := by
  simp only [executeCommit] at done
  split at done
  · cases done
  rename_i s ran
  have session : InSession before.db False before.store.counters s.db s.writer :=
    (InSession.keptByCalls valid.consistent).ofOps (fun _ session => session)
      (InSession.begin False before.store valid.consistent) ran
  refine ⟨s, ran, session, ?_⟩
  split at done
  · rename_i needs
    split at done
    · rename_i result db created
      obtain ⟨_, _, rfl, rfl⟩ := (s.writer.createSnapshot_ok s.db).mp created
      cases done
      exact .inl ⟨needs, rfl⟩
    · cases done
  · rename_i needs
    cases done
    exact .inr ⟨Bool.eq_false_iff.mpr needs, rfl⟩

theorem executeCommit_valid (valid : before.Valid)
    (done : executeCommit ctx ops before = (after, .ok ())) :
    after.Valid := by
  obtain ⟨s, _, session, ⟨_, rfl⟩ | ⟨_, rfl⟩⟩ := executeCommit_ok valid done
  · exact valid.ofInSession session _
  · exact valid.ofDropped session

namespace Executor

open Literals

/-- The operations and the tag of a statement that writes through the buffer. -/
def writeOps (sql : List Char) (params : ParamValues) : StatementKind → Option (List BufferedOp × String)
  | .insert into =>
    let ops := insertOps into sql params
    some (ops, "INSERT 0 " ++ toString ops.length)
  | .insertInlinedRow =>
    let rows := literalInsertRows sql
    some ([.insertInlinedRow ((ducklakeInsertTableName sql).getD "") rows],
      "INSERT 0 " ++ toString rows.length)
  | .updateEndSnapshot tableName => some ([updateEndSnapshotOp tableName params], "UPDATE 1")
  | .updateTableStats => some ([updateTableStatsOp sql params], "UPDATE 1")
  | .updateTableColumnStats =>
    let ops := (literalInsertRows sql).map (tableColumnStatsOp [])
    some (ops, "UPDATE " ++ toString ops.length)
  | .updateInlinedRowEndSnapshot =>
    let tableName := (inlinedTableNameFromSql sql).getD ""
    let rowIds := (literalInsertRows sql).filterMap fun row => literalU64 row 0
    if tableName ≠ "" ∧ rowIds ≠ [] then
      some ([.deleteInlinedRows tableName rowIds], "UPDATE " ++ toString rowIds.length)
    else none
  | _ => none

theorem executeClassified_writes (writes : writeOps sql params kind = some (ops, done)) :
    executeClassified ctx conn sql params kind = submit ctx conn ops done := by
  cases kind with
  | insert | insertInlinedRow | updateEndSnapshot | updateTableStats | updateTableColumnStats =>
    simp only [writeOps, Option.some.injEq, Prod.mk.injEq] at writes
    obtain ⟨rfl, rfl⟩ := writes
    rfl
  | updateInlinedRowEndSnapshot =>
    simp only [writeOps, executeClassified] at writes ⊢
    split at writes
    · rename_i named
      cases writes
      rw [if_pos named]
    · contradiction
  | _ => contradiction

/-- A statement and the commit that includes it, both acknowledged: the statement on its own outside
a transaction, or inside one, where it stands between the operations `earlier` and `later` of other
statements. Other connections may have changed the catalog in the meantime; `before` is the catalog
the commit finds. -/
inductive Acknowledged {E : Type} (parse : SqlParser E) (sql : List Char) (params : ParamValues)
    (earlier later : List BufferedOp) (before after : Catalog) : Prop
  | single {ctx} {session : SessionState} {session' response} (alone : earlier = [] ∧ later = []) (outside : session.inTransaction = false)
      (executed : executeSql ctx parse ⟨before, session⟩ sql params = (⟨after, session'⟩, response))
      (accepted : response.acknowledged = true)
  | transaction {ctx ctx' started found} {session session₁ session₂ : SessionState}
      {session₃ response response'} (inside : session.inTransaction = true)
      (executed : executeSql ctx parse ⟨started, session⟩ sql params =
        (⟨found, session₁⟩, response))
      (accepted : response.acknowledged = true)
      (first : bootstrapOps ⟨before, session₂⟩ ++ session.pendingTxn.ops = earlier)
      (rest : session₂.pendingTxn.ops = session₁.pendingTxn.ops ++ later)
      (committed : commit ctx' ⟨before, session₂⟩ = (⟨after, session₃⟩, response'))
      (accepted' : response'.acknowledged = true)

theorem Acknowledged.ofClassified (ctx : ExecContext) (kind : StatementKind)
    (classified : classifyStatement parse sql = .ok kind)
    (executed : executeClassified ctx ⟨before, {}⟩ sql params kind = (⟨after, session⟩, response))
    (accepted : response.acknowledged = true) :
    Acknowledged parse sql params [] [] before after := by
  have answered : executeSql ctx parse ⟨before, {}⟩ sql params = (⟨after, session⟩, response) := by
    rw [executeSql, classified]
    exact executed
  exact .single ⟨rfl, rfl⟩ rfl answered accepted

theorem answer_acknowledged (accepted : (answer result done).acknowledged = true) : result = .ok () := by
  cases result with
  | ok u => rfl
  | error e => cases e <;> contradiction

theorem commit_acknowledged
    (committed : commit ctx ⟨before, session⟩ = (⟨after, session'⟩, response))
    (accepted : response.acknowledged = true) :
    executeCommit ctx.toCommitContext
      (bootstrapOps ⟨before, session⟩ ++ session.pendingTxn.ops) before = (after, .ok ()) := by
  simp only [commit] at committed
  cases committed
  exact Prod.ext rfl (answer_acknowledged accepted)

section Acknowledged

variable {E : Type} {parse : SqlParser E} {sql : List Char} {params : ParamValues}
  {earlier later : List BufferedOp} {before after : Catalog} {kind : StatementKind}

theorem Acknowledged.accepted
    (acknowledged : Acknowledged parse sql params earlier later before after) :
    ∃ ctx conn, (executeSql ctx parse conn sql params).2.acknowledged = true := by
  cases acknowledged with
  | single alone outside executed accepted => exact ⟨_, _, by rw [executed]; exact accepted⟩
  | transaction inside executed accepted => exact ⟨_, _, by rw [executed]; exact accepted⟩

theorem Acknowledged.classified
    (acknowledged : Acknowledged parse sql params earlier later before after) :
    ∃ kind, classifyStatement parse sql = .ok kind := by
  obtain ⟨ctx, conn, accepted⟩ := acknowledged.accepted
  cases classified : classifyStatement parse sql with
  | ok kind => exact ⟨kind, rfl⟩
  | error e => simp [executeSql, classified, Response.acknowledged] at accepted

theorem Acknowledged.idle (acknowledged : Acknowledged parse sql params [] [] before after)
    (classified : classifyStatement parse sql = .ok kind)
    (idle : ∀ ctx conn, (executeClassified ctx conn sql params kind).1 = conn) : after = before := by
  cases acknowledged with
  | @single ctx session session' response alone outside executed accepted =>
    have same := idle ctx ⟨before, session⟩
    simp only [executeSql, classified] at executed
    rw [executed] at same
    cases same
    rfl
  | @transaction ctx ctx' started found session session₁ session₂ session₃ response response'
      inside executed accepted first rest committed accepted' =>
      have same := idle ctx ⟨started, session⟩
      simp only [executeSql, classified] at executed
      rw [executed] at same
      cases same
      obtain ⟨noBootstrap, nothing⟩ := List.append_eq_nil_iff.mp first
      have through := commit_acknowledged committed accepted'
      rw [noBootstrap, rest, nothing] at through
      cases through
      rfl

section

variable (acknowledged : Acknowledged parse sql params earlier later before after) (classified : classifyStatement parse sql = .ok kind)
include acknowledged classified

theorem Acknowledged.refused
    (refused : ∀ ctx conn, (executeClassified ctx conn sql params kind).2.acknowledged = false) :
    False := by
  obtain ⟨ctx, conn, accepted⟩ := acknowledged.accepted
  simp only [executeSql, classified] at accepted
  rw [refused] at accepted
  contradiction

/-- The statement amounts to one commit of its operations, between those of other statements. -/
theorem Acknowledged.commits
    (writes : writeOps sql params kind = some (ops, done)) :
    ∃ ctx, executeCommit ctx (earlier ++ (ops ++ later)) before = (after, .ok ()) := by
  cases acknowledged with
  | @single ctx session session' response alone outside executed accepted =>
    simp only [executeSql, classified, executeClassified_writes writes, submit, outside,
      Bool.false_eq_true, if_false, Prod.mk.injEq] at executed
    obtain ⟨same, rfl⟩ := executed
    cases same
    refine ⟨ctx.toCommitContext, ?_⟩
    rw [alone.1, alone.2, List.nil_append, List.append_nil, ← answer_acknowledged accepted]
  | @transaction ctx ctx' started found session session₁ session₂ session₃ response response'
      inside executed accepted first rest committed accepted' =>
      simp only [executeSql, classified, executeClassified_writes writes, submit, inside, if_true,
        Prod.mk.injEq] at executed
      obtain ⟨same, rfl⟩ := executed
      cases same
      have pushed : (session.pendingTxn.pushAll ctx.opSize ops).2 = true := by
        cases fits : (session.pendingTxn.pushAll ctx.opSize ops).2 with
        | true => rfl
        | false => simp [fits, Response.acknowledged] at accepted
      have buffered : (session.pendingTxn.pushAll ctx.opSize ops).1.ops =
          session.pendingTxn.ops ++ ops := PendingCatalogTxn.pushAll_ops pushed
      have through := commit_acknowledged committed accepted'
      rw [rest, buffered, List.append_assoc, ← List.append_assoc, first] at through
      exact ⟨ctx'.toCommitContext, through⟩

end

end Acknowledged

end Executor

end RockLake
