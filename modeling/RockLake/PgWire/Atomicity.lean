import RockLake.Catalog.History
import RockLake.PgWire.Commit

/-! What a writer leaves behind without a successful commit. Staged pairs vanish with the writer;
the direct writes of statistics, macro parameters and scheduled deletions stay. A failing commit of
buffered operations leaves exactly the direct writes of the operations before the failing one. -/
namespace RockLake

open List DirectCall CommitState

def DirectCall.applyAll (env : Env) (calls : List DirectCall) (db : Db) : Db :=
  calls.foldl (fun db call => call.apply env db) db

theorem DirectCall.applyAll_append (env : Env) (first second : List DirectCall) (db : Db) :
    applyAll env (first ++ second) db = applyAll env second (applyAll env first db) :=
  foldl_append

theorem DirectCall.applyAll_family (env : Env) (calls : List DirectCall) (db : Db)
    (other : f.ancillary = false) : applyAll env calls db f = db f := by
  induction calls generalizing db with
  | nil => rfl
  | cons call rest ih =>
    refine (ih _).trans (call.apply_family env db ?_)
    rintro rfl
    rw [call.family_ancillary] at other
    contradiction

/-- Calls on a writer, with attempts to commit among them. -/
inductive WriterEvent where
  | call (made : WriterCall)
  | createSnapshot (request : SnapshotRequest)

namespace WriterEvent

def direct : WriterEvent → List DirectCall
  | .call (.direct made) => [made]
  | _ => []

/-- The allocation of row identifiers is documented to take effect at once. -/
def allocates : WriterEvent → Bool
  | .call (.nextRowidRange ..) => true
  | _ => false

end WriterEvent

namespace CatalogWriter

variable {env : Env}

/-- One event of a writer that never commits: a call, or an attempt to commit that fails. -/
inductive Uncommitted (env : Env) : Db × CatalogWriter → WriterEvent → Db × CatalogWriter → Prop
  | call {db w made} :
      Uncommitted env (db, w) (.call made)
        ((w.call env db made).db, (w.call env db made).writer)
  | reject {db} {w : CatalogWriter} {request e} (failed : (w.createSnapshot db request).1 = .error e) :
      Uncommitted env (db, w) (.createSnapshot request) (db, w.drained)

theorem Uncommitted.db_eq (stepped : Uncommitted env s event s')
    (allocates : event.allocates = false) :
    s'.1 = applyAll env event.direct s.1 := by
  cases stepped with
  | @call db w made =>
    cases made with
    | staging made =>
      simp only [CatalogWriter.call]
      split <;> rfl
    | direct made => rfl
    | nextRowidRange tableId count => contradiction
  | reject => rfl

/-- Along a run without a commit, the store receives the direct writes and nothing else. -/
theorem uncommitted_run (ran : Run (Uncommitted env) s events s')
    (allocates : ∀ event ∈ events, event.allocates = false) :
    s'.1 = applyAll env (events.flatMap WriterEvent.direct) s.1 := by
  induction ran with
  | done => rfl
  | @next s middle s' event events stepped _ ih =>
    have first := stepped.db_eq (allocates event mem_cons_self)
    have rest := ih fun later member => allocates later (mem_cons_of_mem _ member)
    rw [rest, first, flatMap_cons, applyAll_append]

end CatalogWriter

/-- The direct writes that an operation makes when it goes through. -/
def BufferedOp.direct : BufferedOp → List DirectCall
  | .updateTableStats tableId delta => [.applyTableStatsDelta tableId delta]
  | .setTableStats tableId records bytes next => [.setTableStats tableId records bytes next]
  | .insertFileColumnStats tableId columnId dataFileId containsNull minValue maxValue containsNan =>
    [.upsertFileColumnStats
      { tableId, columnId, dataFileId, containsNull, minValue, maxValue, containsNan,
        columnSizeBytes := none, valueCount := none, nullCount := none, extraStats := none }]
  | .insertTableColumnStats tableId columnId spec => [.upsertTableColumnStats tableId columnId spec]
  | .insertMacroParams row => [.addMacroParameter row]
  | .insertTableStats tableId records next bytes => [.updateTableStats tableId records next bytes]
  | .deleteInlinedRows tableName rowIds =>
    match parseInlinedTableIds tableName with
    | some (tableId, _) => [.adjustTableRecordCount tableId (-(rowIds.length : Int))]
    | none => []
  | _ => []

namespace BufferedOp

def call (uuid : String) : BufferedOp → Option StagingCall
  | .insertSchema name => some (.createSchema name uuid)
  | .insertTable schemaId name path => some (.createTable schemaId name path uuid)
  | .insertColumn tableId spec => some (.addColumn tableId spec)
  | .insertDataFile tableId path format rows bytes =>
    some (.registerDataFile tableId
      { path, fileFormat := format, recordCount := rows, fileSizeBytes := bytes })
  | .insertDeleteFile dataFileId path count bytes =>
    some (.registerDeleteFile dataFileId { path, deleteCount := count, fileSizeBytes := bytes })
  | .insertSnapshotChanges kind info schemaId tableId =>
    some (.addSnapshotChanges kind info schemaId tableId)
  | .insertMetadata key value scope scopeId =>
    some (.setMetadata (resolveScope scope) (scopeId.getD 0) key value)
  | .insertInlinedDataTables tableId name version =>
    some (.registerInlinedDataTable tableId name version)
  | .insertSchemaVersions begun version tableId =>
    some (.registerSchemaVersion begun version tableId)
  | .insertView schemaId spec => some (.createView schemaId spec uuid)
  | .insertMacro schemaId name kind _ => some (.createMacro schemaId name kind uuid)
  | .insertMacroImpl macroId sql dialect kind => some (.addMacroImpl macroId sql dialect kind)
  | _ => none

def MayCall (uuid : String) (op : BufferedOp) (call : StagingCall) : Prop :=
  op.call uuid = some call ∨
    match op, call with
    | .insertInlinedRow .., .registerInlinedInsert .. => True
    | .deleteInlinedRows .., .markInlinedInsertDeleted .. => True
    | .updateEndSnapshot tableName .., .dropTable .. => tableName = "ducklake_table"
    | .updateEndSnapshot tableName .., .dropColumn .. => tableName = "ducklake_column"
    | _, _ => False

end BufferedOp

section Commit

variable {ctx : CommitContext} {s s' : CommitState}

theorem CommitState.staging_ok :
    s.staging ctx call = .ok s' ↔ ∃ reply writer,
      s.writer.staging ctx.env s.db call = .ok (reply, writer) ∧ s' = { s with writer } := by
  simp only [staging]
  cases s.writer.staging ctx.env s.db call with
  | error e => simp
  | ok result =>
    obtain ⟨reply, writer⟩ := result
    simp [eq_comm]

theorem runOps_cons {op : BufferedOp} :
    runOps ctx replaced deleted i s (op :: rest) = .ok s' ↔ ∃ middle,
      op.apply ctx replaced deleted (ctx.uuid i)
        { s with needsSnapshot := s.needsSnapshot || op.needsSnapshot } = .ok middle ∧
      runOps ctx replaced deleted (i + 1) middle rest = .ok s' := by
  simp only [runOps]
  split <;> simp_all

/-- A property of a commit in progress and of the direct writes made that no effect of one operation
destroys: a staging call, a direct write after them, or a change to the commit's own notes. -/
structure KeptByOp (ctx : CommitContext) (may : StagingCall → Prop)
    (P : List DirectCall → CommitState → Prop) : Prop where
  staging : ∀ {s : CommitState} {writer call reply},
    may call → P [] s → s.writer.staging ctx.env s.db call = .ok (reply, writer) → P [] { s with writer }
  direct : ∀ {s : CommitState} (call : DirectCall), P [] s → P [call] (s.direct ctx call)
  notes : ∀ {s : CommitState} (author message : Option String) (reserved : List (Nat × Nat × Nat)),
    P [] s → P [] { s with snapshotAuthor := author, snapshotMessage := message,
                           reservedInlinedRows := reserved }

section Kept

variable {P : List DirectCall → CommitState → Prop}

section

variable (kept : KeptByOp ctx may P) (before : P [] s)
include kept before

theorem KeptByOp.ofStaging (allowed : may call)
    (staged : s.staging ctx call = .ok s') : P [] s' := by
  obtain ⟨reply, writer, called, rfl⟩ := staging_ok.mp staged
  exact kept.staging allowed before called

theorem KeptByOp.ofInlinedRows
    (allowed : ∀ rowId payload, may (.registerInlinedInsert tableId version rowId payload))
    (inserted : s.insertInlinedRows ctx deleted tableId version rows = .ok s') : P [] s' := by
  induction rows generalizing s with
  | nil =>
    cases inserted
    exact before
  | cons values rest ih =>
    simp only [insertInlinedRows] at inserted
    split at inserted
    · rename_i middle first
      refine ih ?_ inserted
      simp only [insertInlinedValues] at first
      split at first
      · cases first
        exact before
      · split at first
        · contradiction
        · exact kept.ofStaging (kept.notes _ _ _ before) (allowed _ _) first
    · contradiction

theorem KeptByOp.ofMarkedRows
    (allowed : ∀ rowId, may (.markInlinedInsertDeleted tableId version rowId))
    (marked : s.markInlinedRows ctx replaced tableId version rowIds = .ok s') : P [] s' := by
  induction rowIds generalizing s with
  | nil =>
    cases marked
    exact before
  | cons rowId rest ih =>
    simp only [markInlinedRows] at marked
    split at marked
    · exact ih before marked
    · split at marked
      · rename_i middle first
        exact ih (kept.ofStaging before (allowed rowId) first) marked
      · contradiction

end

theorem BufferedOp.apply_kept {op : BufferedOp} (kept : KeptByOp ctx (op.MayCall uuid) P) (before : P [] s)
    (applied : op.apply ctx replaced deleted uuid s = .ok s') : P op.direct s' := by
  cases op with
  | insertInlinedRow tableName rows =>
    simp only [apply] at applied
    split at applied
    · exact kept.ofInlinedRows before (fun _ _ => .inr trivial) applied
    · cases applied
      exact before
  | deleteInlinedRows tableName rowIds =>
    cases named : parseInlinedTableIds tableName with
    | none =>
      simp only [apply, direct, named] at applied ⊢
      cases applied
      exact before
    | some ids =>
      simp only [apply, direct, named] at applied ⊢
      cases marked : s.markInlinedRows ctx replaced ids.1 ids.2 rowIds with
      | error e => simp [marked, Except.map] at applied
      | ok middle =>
        simp only [marked, Except.map, Except.ok.injEq] at applied
        subst applied
        exact kept.direct _ (kept.ofMarkedRows before (fun _ => .inr trivial) marked)
  | updateEndSnapshot tableName =>
    simp only [apply, CommitState.updateEndSnapshot] at applied
    split at applied
    · rename_i table
      exact kept.ofStaging before (.inr table) applied
    · split at applied
      · rename_i column
        exact kept.ofStaging before (.inr column) applied
      · cases applied
        exact before
  | insertSnapshot author message =>
    cases applied
    exact kept.notes author message s.reservedInlinedRows before
  | updateTableStats | setTableStats | insertFileColumnStats | insertTableColumnStats
  | insertMacroParams | insertTableStats =>
    cases applied
    exact kept.direct _ before
  | _ =>
    simp only [apply] at applied
    exact kept.ofStaging before (.inl rfl) applied

end Kept

theorem BufferedOp.apply_db {op : BufferedOp}
    (applied : op.apply ctx replaced deleted uuid s = .ok s') :
    s'.db = applyAll ctx.env op.direct s.db := by
  have kept : KeptByOp ctx (op.MayCall uuid) fun written t =>
      t.db = applyAll ctx.env written s.db :=
    ⟨fun _ same _ => same, fun call same => congrArg (call.apply ctx.env) same, fun _ _ _ same => same⟩
  exact apply_kept kept rfl applied

theorem runOps_db (ran : runOps ctx replaced deleted i s ops = .ok s') :
    s'.db = applyAll ctx.env (ops.flatMap BufferedOp.direct) s.db := by
  induction ops generalizing i s with
  | nil =>
    cases ran
    rfl
  | cons op rest ih =>
    obtain ⟨middle, applied, later⟩ := runOps_cons.mp ran
    rw [ih later, BufferedOp.apply_db applied, flatMap_cons, applyAll_append]

/-- Operations that fail do so at one of them, after those before it have gone through. -/
theorem runOps_error {left : Db} (failed : runOps ctx replaced deleted i s ops = .error (left, e)) :
    ∃ k middle op, runOps ctx replaced deleted i s (ops.take k) = .ok middle ∧ ops[k]? = some op ∧
      op.apply ctx replaced deleted (ctx.uuid (i + k))
        { middle with needsSnapshot := middle.needsSnapshot || op.needsSnapshot } = .error e ∧
      left = middle.db := by
  induction ops generalizing i s with
  | nil => cases failed
  | cons op rest ih =>
    simp only [runOps] at failed
    split at failed
    · rename_i next applied
      obtain ⟨k, middle, op', ran, found, refused, same⟩ := ih failed
      refine ⟨k + 1, middle, op', runOps_cons.mpr ⟨next, applied, ran⟩, found, ?_, same⟩
      rwa [Nat.add_right_comm] at refused
    · rename_i refused
      cases failed
      exact ⟨0, s, op, rfl, rfl, refused, rfl⟩

/-- Where a commit fails: at the operation with the given number, after those before it have gone
through, or at the snapshot, after all of them. -/
def FailsAt (ctx : CommitContext) (ops : List BufferedOp) (catalog : Catalog) (e : CommitFailure)
    (k : Nat) : Prop :=
  let replaced := collectReplacedInlinedRows ops
  let deleted := collectDeletedInlinedRows ops
  ∃ s, runOps ctx replaced deleted 0 (.start catalog) (ops.take k) = .ok s ∧
    ((∃ op, ops[k]? = some op ∧ op.apply ctx replaced deleted (ctx.uuid k)
        { s with needsSnapshot := s.needsSnapshot || op.needsSnapshot } = .error e) ∨
      k = ops.length ∧ s.needsSnapshot = true ∧
        ∃ cause, (s.writer.createSnapshot s.db (s.request ctx)).1 = .error cause ∧ e = .failed cause)

/-- A commit that fails leaves the direct writes of the operations before the failing one; the
store handle stays as it was. -/
theorem executeCommit_error (failed : executeCommit ctx ops catalog = (catalog', .error e)) :
    ∃ k, FailsAt ctx ops catalog e k ∧ catalog' =
      ⟨applyAll ctx.env ((ops.take k).flatMap BufferedOp.direct) catalog.db, catalog.store⟩ := by
  simp only [executeCommit] at failed
  split at failed
  · rename_i stopped
    obtain ⟨k, s, op, ran, found, refused, rfl⟩ := runOps_error stopped
    cases failed
    rw [Nat.zero_add] at refused
    exact ⟨k, ⟨s, ran, .inl ⟨op, found, refused⟩⟩, by rw [runOps_db ran]; rfl⟩
  · rename_i s ran
    split at failed
    · rename_i needed
      split at failed
      · cases failed
      · rename_i cause refused
        cases failed
        refine ⟨ops.length, ⟨s, ?_, .inr ⟨rfl, needed, cause, refused, rfl⟩⟩, ?_⟩
        · rwa [take_length]
        · rw [runOps_db ran, take_length]
          rfl
    · cases failed

end Commit

/-- Atomicity up to the direct writes. A writer dropped without a successful commit leaves the direct
writes among its calls, and a failing commit leaves those of the operations before the failing one.
No other family changes. -/
theorem uncommitted_leaves_direct_writes (ctx : CommitContext) :
    (∀ s events s', Run (CatalogWriter.Uncommitted ctx.env) s events s' →
      (∀ event ∈ events, event.allocates = false) →
      s'.1 = applyAll ctx.env (events.flatMap WriterEvent.direct) s.1 ∧
        ∀ f, f.ancillary = false → s'.1 f = s.1 f) ∧
    ∀ ops catalog catalog' e, executeCommit ctx ops catalog = (catalog', .error e) →
      (∃ k, FailsAt ctx ops catalog e k ∧
        catalog'.db = applyAll ctx.env ((ops.take k).flatMap BufferedOp.direct) catalog.db) ∧
      ∀ f, f.ancillary = false → catalog'.db f = catalog.db f := by
  constructor
  · intro s events s' ran allocates
    have dropped := CatalogWriter.uncommitted_run ran allocates
    refine ⟨dropped, fun f other => ?_⟩
    rw [dropped]
    exact applyAll_family _ _ _ other
  · intro ops catalog catalog' e failed
    obtain ⟨k, stopped, rfl⟩ := executeCommit_error failed
    exact ⟨⟨k, stopped, rfl⟩, fun f other => applyAll_family _ _ _ other⟩

/-- A writer that creates a schema, updates statistics and is dropped, and a commit that fails at its
second operation. -/
theorem uncommitted_leaves_direct_writes_stats : ∃ s s' catalog catalog' e,
    Run (CatalogWriter.Uncommitted Env.trivial) s
      [.call (.staging (.createSchema "main" "4b1d")),
       .call (.direct (.updateTableStats 1 10 10 100))] s' ∧
    s'.1 = applyAll .trivial [.updateTableStats 1 10 10 100] s.1 ∧
    executeCommit .trivial [.insertTableStats 1 10 10 100, .insertMetadata "" "" none none,
      .insertTableStats 2 10 10 100] catalog = (catalog', .error e) ∧
    catalog'.db = applyAll .trivial [.updateTableStats 1 10 10 100] catalog.db := by
  refine ⟨(Db.empty, (finishOpen Db.empty initialCounters 1 "a").beginWrite), _,
    ⟨Db.empty, finishOpen Db.empty initialCounters 1 "a"⟩, _, _,
    (fun ran => ⟨ran, ((uncommitted_leaves_direct_writes .trivial).1 _ _ _ ran (by decide)).1,
      (fun failed => ⟨failed, ?_⟩) rfl⟩) (.next .call (.next .call .done))⟩
  obtain ⟨⟨k, ⟨s, ran, stopped⟩, left⟩, _⟩ :=
    (uncommitted_leaves_direct_writes .trivial).2 _ _ _ _ failed
  match k with
  | 0 =>
    rcases stopped with ⟨op, found, refused⟩ | ⟨all, _⟩
    · cases ran
      cases found
      cases refused
    · cases all
  | 1 => exact left
  | k + 2 => cases ran

/-- Statistics written by a commit that then fails stay in the store. -/
theorem failed_commit_keeps_stats : ∃ catalog catalog' e, catalog.Reachable Env.trivial ∧
    executeCommit .trivial [.insertTableStats 1 10 10 100, .insertMetadata "" "" none none] catalog =
      (catalog', .error e) ∧
    catalog.db.get .tableStats (keyTableStats 1) = none ∧
    (catalog'.db.get .tableStats (keyTableStats 1)).map (·.recordCount) = some 10 := by
  refine ⟨_, _, _, .opened "a" rfl, rfl, ?_, ?_⟩
  · decide
  · decide

end RockLake
