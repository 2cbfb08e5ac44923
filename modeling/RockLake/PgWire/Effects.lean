import RockLake.Catalog.Retirement
import RockLake.PgWire.Transactions

/-! What the operations of a commit do to its writer. Each operation makes one staging call, or one
for each inlined row; so it stages into the families of its calls, allocates their identifiers and
leaves everything else a reader of the latest snapshot sees as it is. -/
namespace RockLake

open CatalogWriter

def CatalogWriter.Stages (env : Env) (db : Db) (w : CatalogWriter) (call : StagingCall)
    (w' : CatalogWriter) : Prop :=
  ∃ reply, w.staging env db call = .ok (reply, w')

/-- What a call does to the writer besides staging: it allocates its identifiers and may add to the
change log. -/
theorem CatalogWriter.staging_effect {call : StagingCall} (staged : w.Stages env db call w') :
    w'.counters = w.counters.advance call.catalogIds call.fileIds ∧
      w'.pendingSnapshotChanges = call.changes w := by
  obtain ⟨reply, called⟩ := staged
  rw [(staging_spec called).2]
  exact ⟨rfl, rfl⟩

theorem CatalogWriter.staging_counters {w w' : CatalogWriter} {call : StagingCall}
    (staged : w.Stages env db call w') :
    w'.counters = w.counters.advance call.catalogIds call.fileIds :=
  (staging_effect staged).1

namespace BufferedOp

def families : BufferedOp → List Family
  | .insertSchema .. => [.schema]
  | .insertTable .. => [.table, .tableById]
  | .insertColumn .. => [.column]
  | .insertDataFile .. => [.dataFile, .dataFileBySnapshot]
  | .insertDeleteFile .. => [.deleteFile]
  | .updateEndSnapshot tableName .. =>
    if tableName = "ducklake_table" then cascadeFamilies
    else if tableName = "ducklake_column" then [.column] else []
  | .insertMetadata .. => [.metadata]
  | .insertInlinedDataTables .. => [.inlinedDataTables]
  | .insertSchemaVersions .. => [.schemaVersions]
  | .insertInlinedRow .. | .deleteInlinedRows .. => [.inlinedInsert]
  | .insertView .. => [.view]
  | .insertMacro .. => [.macros]
  | .insertMacroImpl .. => [.macroImpl]
  | .insertSnapshot .. | .insertSnapshotChanges .. | .updateTableStats .. | .setTableStats ..
  | .insertFileColumnStats .. | .insertTableColumnStats .. | .insertMacroParams ..
  | .insertTableStats .. => []

theorem MayCall.families {op : BufferedOp} {call : StagingCall} (may : op.MayCall uuid call) :
    call.families = op.families := by
  rcases may with exactly | among
  · cases op <;> simp only [BufferedOp.call, Option.some.injEq, reduceCtorEq] at exactly <;>
      subst exactly <;> rfl
  · split at among
    · rfl
    · rfl
    · simp [among, StagingCall.families, BufferedOp.families]
    · simp [among, StagingCall.families, BufferedOp.families]
    · contradiction

def catalogIds : BufferedOp → Nat
  | .insertSchema .. | .insertTable .. | .insertColumn .. | .insertView .. | .insertMacro ..
  | .insertMacroImpl .. => 1
  | _ => 0

def fileIds : BufferedOp → Nat
  | .insertDataFile .. | .insertDeleteFile .. => 1
  | _ => 0

end BufferedOp

section Calls

variable {ctx : CommitContext} {s s' : CommitState}

theorem BufferedOp.apply_call {op : BufferedOp} (single : op.call uuid = some made) :
    op.apply ctx replaced deleted uuid s = s.staging ctx made := by
  cases op <;> cases single <;> rfl

theorem BufferedOp.apply_run {op : BufferedOp}
    (applied : op.apply ctx replaced deleted uuid s = .ok s') :
    ∃ calls, Run (CatalogWriter.Stages ctx.env s.db) s.writer calls s'.writer ∧
      (∀ call ∈ calls, op.MayCall uuid call) ∧ ∀ call, op.call uuid = some call → calls = [call] := by
  cases single : op.call uuid with
  | some call =>
    rw [apply_call single] at applied
    obtain ⟨reply, writer, called, rfl⟩ := CommitState.staging_ok.mp applied
    refine ⟨[call], .single ⟨reply, called⟩, fun other member => ?_, fun other same => ?_⟩
    · rw [List.mem_singleton.mp member]
      exact .inl single
    · rw [Option.some.inj same]
  | none =>
    have kept : KeptByOp ctx (op.MayCall uuid) fun written t => (written = [] → t.db = s.db) ∧
        ∃ calls, Run (Stages ctx.env s.db) s.writer calls t.writer ∧
          ∀ call ∈ calls, op.MayCall uuid call := by
      refine ⟨?_, fun call before => ⟨nofun, before.2⟩, fun _ _ _ before => before⟩
      rintro t writer call reply may ⟨same, calls, ran, each⟩ called
      rw [same rfl] at called
      refine ⟨same, calls ++ [call], ran.append (.single ⟨reply, called⟩), fun other member => ?_⟩
      rcases List.mem_append.mp member with earlier | last
      · exact each other earlier
      · exact List.mem_singleton.mp last ▸ may
    obtain ⟨_, calls, ran, each⟩ := apply_kept kept ⟨fun _ => rfl, [], .done, nofun⟩ applied
    exact ⟨calls, ran, each, nofun⟩

theorem CatalogWriter.run_families (ran : Run (CatalogWriter.Stages ctx.env db) w calls w')
    (inside : ∀ call ∈ calls, call.families = families) :
    CatalogWriter.StagedIn families w w' := by
  induction ran with
  | done => exact .refl
  | @next w w₁ w₂ call calls staged _ ih =>
    obtain ⟨reply, called⟩ := staged
    have first := staging_families called
    rw [inside call List.mem_cons_self] at first
    exact first.trans (ih fun later member => inside later (List.mem_cons_of_mem _ member))

theorem BufferedOp.apply_families {op : BufferedOp}
    (applied : op.apply ctx replaced deleted uuid s = .ok s') :
    CatalogWriter.StagedIn op.families s.writer s'.writer := by
  obtain ⟨calls, ran, may, _⟩ := BufferedOp.apply_run applied
  exact run_families ran fun call member => (may call member).families

theorem CatalogWriter.run_counters {calls : List StagingCall}
    (ran : Run (CatalogWriter.Stages ctx.env db) w calls w')
    (idle : ∀ call ∈ calls, call.catalogIds = 0 ∧ call.fileIds = 0) : w'.counters = w.counters := by
  induction ran with
  | done => rfl
  | @next w w₁ w₂ call calls staged _ ih =>
    have first := staging_counters staged
    obtain ⟨noCatalog, noFile⟩ := idle call List.mem_cons_self
    rw [ih fun later member => idle later (List.mem_cons_of_mem _ member), first, noCatalog, noFile]
    rfl

theorem BufferedOp.apply_counters {op : BufferedOp}
    (applied : op.apply ctx replaced deleted uuid s = .ok s') :
    s'.writer.counters = s.writer.counters.advance op.catalogIds op.fileIds := by
  obtain ⟨calls, ran, may, exactly⟩ := BufferedOp.apply_run applied
  cases single : op.call uuid with
  | some call =>
    rw [exactly call single] at ran
    cases ran with
    | next staged rest =>
      cases rest
      have ids : call.catalogIds = op.catalogIds ∧ call.fileIds = op.fileIds := by
        cases op <;> simp only [BufferedOp.call, Option.some.injEq, reduceCtorEq] at single <;>
          subst single <;> exact ⟨rfl, rfl⟩
      rw [staging_counters staged, ids.1, ids.2]
  | none =>
    have none : op.catalogIds = 0 ∧ op.fileIds = 0 := by
      cases op <;> first | contradiction | exact ⟨rfl, rfl⟩
    rw [none.1, none.2]
    refine run_counters ran fun call member => ?_
    rcases may call member with same | among
    · rw [single] at same
      contradiction
    · split at among <;> first | exact ⟨rfl, rfl⟩ | contradiction

theorem runOps_families {ops : List BufferedOp} (ran : runOps ctx replaced deleted i s ops = .ok s') :
    CatalogWriter.StagedIn (ops.flatMap BufferedOp.families) s.writer s'.writer := by
  induction ops generalizing i s with
  | nil =>
    cases ran
    exact .refl
  | cons op rest ih =>
    obtain ⟨middle, applied, ran⟩ := runOps_cons.mp ran
    rw [List.flatMap_cons]
    exact ((BufferedOp.apply_families applied).mono (List.subset_append_left ..)).trans
      ((ih ran).mono (List.subset_append_right ..))

theorem runOps_counters {ops : List BufferedOp} (ran : runOps ctx replaced deleted i s ops = .ok s') :
    s'.writer.counters = s.writer.counters.advance (ops.map BufferedOp.catalogIds).sum
      (ops.map BufferedOp.fileIds).sum := by
  induction ops generalizing i s with
  | nil =>
    cases ran
    rfl
  | cons op rest ih =>
    obtain ⟨middle, applied, ran⟩ := runOps_cons.mp ran
    have first := BufferedOp.apply_counters applied
    rw [ih ran, first]
    simp [CounterCache.advance, Nat.add_assoc]

theorem executeCommit_shows (valid : before.Valid)
    (done : executeCommit ctx ops before = (after, .ok ())) (versioned : f.versioned = true)
    (outside : ∀ op ∈ ops, f ∉ op.families) (k : Key) :
    after.shows f k = before.shows f k := by
  obtain ⟨s, ran, session, outcome⟩ := executeCommit_ok valid done
  have unstaged : ∀ x ∈ s.writer.staged, x.family ≠ f := by
    obtain ⟨new, staged, inside⟩ := runOps_families ran
    intro x member same
    rw [staged] at member
    have family := inside x (by simpa [CommitState.start, CatalogStore.beginWrite] using member)
    obtain ⟨op, among, mine⟩ := List.mem_flatMap.mp family
    exact outside op among (same ▸ mine)
  rcases outcome with ⟨_, rfl⟩ | ⟨_, rfl⟩
  · exact valid.shows_unstaged session _ versioned unstaged k
  · rw [Catalog.shows, Catalog.shows,
      Db.get_of_family (session.core f (Family.core_of_versioned versioned))]

end Calls

end RockLake
