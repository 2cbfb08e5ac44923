import RockLake.Catalog.Restore

/-! Maintenance and write sessions together. As long as each committed session was begun by a handle
that holds the stored counters, the store stays consistent with these counters. A handle that was
open during a restore holds older ones. -/
namespace RockLake

theorem Db.Consistent.excised {db db' : Db} {keep : (f : Family) → Key → f.Row → Bool}
    (consistent : db.Consistent c)
    (kept : ∀ f, f.booked = false → ∀ k, db'.get f k = (db.get f k).filter (keep f k))
    (linked : ∀ f, f.linked = true → f ≠ .table → db' f = db f) : db'.Consistent c := by
  have before : ∀ {f k} {row : f.Row}, f.booked = false → db'.get f k = some row →
      db.get f k = some row := by
    intro f k row unbooked found
    rw [kept f unbooked] at found
    exact (Option.filter_eq_some_iff.mp found).1
  have same : ∀ f, f.linked = true → f ≠ .table → ∀ k, db'.get f k = db.get f k :=
    fun f isLinked other => Db.get_of_family (linked f isLinked other)
  refine ⟨fun f k row found => ?_, ⟨⟨?_, ?_⟩, ?_, ?_⟩⟩
  · cases booked : f.booked with
    | true => exact Family.fits_of_aside (by simp [Family.aside, booked]) c k row
    | false => exact consistent.sound f k row (before booked found)
  · intro k row found
    rw [same .dataFileBySnapshot rfl (by decide)]
    exact consistent.linked.mirrored.indexed k row (before rfl found)
  · intro k row found
    rw [same .dataFile rfl (by decide)]
    exact consistent.linked.mirrored.stored k row (before rfl found)
  · intro k row found
    rw [same .tableById rfl (by decide)]
    exact consistent.linked.indexed k row (before rfl found)
  · intro k row k' row' found found'
    exact consistent.linked.single k row k' row' (before rfl found) (before rfl found')

namespace UpkeepCall

variable {db db' : Db} {call : UpkeepCall} {c : CounterCache}

theorem apply_consistent (loaded : loadCounters db = .ok c) (consistent : db.Consistent c)
    (applied : call.apply db = .ok db') :
    ∃ d, loadCounters db' = .ok d ∧ db'.Consistent d ∧ c.nextSnapshotId ≤ d.nextSnapshotId := by
  cases call with
  | restoreCheckpoint checkpointId =>
    obtain ⟨info, restored⟩ := apply_snd applied
    rcases (restoreCheckpoint_ok restored).2 with ⟨_, rfl⟩ | ⟨_, rfl⟩
    · exact ⟨c, loaded, consistent, le_rfl⟩
    · rw [hideSnapshot_eq loaded]
      exact ⟨_, loadCounters_hidden loaded _ _ _, consistent.restored fun f unbooked k => hidden_get
        (by rintro rfl; contradiction) k, Nat.le_succ _⟩
  | exciseApply beforeSnapshot operator timestampMillis fails =>
    obtain ⟨result, excised⟩ := apply_snd applied
    refine ⟨c, (apply_counters applied rfl).trans loaded, ?_, le_rfl⟩
    refine consistent.excised (fun f unbooked k => (exciseApply_ok excised).2.2.1 f k ?_ ?_)
      fun f isLinked other => apply_family applied ?_
    · rintro rfl
      contradiction
    · rintro rfl
      contradiction
    · cases f <;> first | contradiction | simp [touched, Family.excised]
  | _ =>
    refine ⟨c, (apply_counters applied rfl).trans loaded,
      consistent.ofAside fun f apart => apply_family applied ?_, le_rfl⟩
    simp only [touched]
    cases f <;> first | contradiction | simp

end UpkeepCall

namespace Catalog

variable {env : Env} {catalog catalog' : Catalog}

def InStep (catalog : Catalog) : Prop := loadCounters catalog.db = .ok catalog.store.counters

/-- Maintenance in which every committed session was begun by a handle with the stored counters. -/
def MaintainInStep (env : Env) (catalog : Catalog) (event : MaintenanceEvent) (catalog' : Catalog) :
    Prop :=
  (∀ session, event = .writer (.session session) → catalog.InStep) ∧
    Maintain env catalog event catalog'

def MaintainedInStep (env : Env) (catalog : Catalog) : Prop := catalog.ReachedBy (MaintainInStep env)

/-- The database is consistent with the counters it stores, which are past the first snapshot. -/
structure Upheld (catalog : Catalog) : Prop where
  tended : catalog.Tended
  stored : ∃ c, loadCounters catalog.db = .ok c ∧ catalog.db.Consistent c ∧ 0 < c.nextSnapshotId

theorem Upheld.step (upheld : catalog.Upheld) (stepped : MaintainInStep env catalog event catalog') :
    catalog'.Upheld := by
  obtain ⟨inStep, stepped⟩ := stepped
  refine ⟨upheld.tended.step stepped, ?_⟩
  obtain ⟨c, loaded, consistent, positive⟩ := upheld.stored
  cases stepped with
  | writer stepped =>
    cases stepped with
    | @session _ session result committed =>
      obtain ⟨db, w, ran, rfl, stored, _⟩ := session.commit_ok committed
      have same : c = catalog.store.counters :=
        Except.ok.inj (loaded.symm.trans (inStep session rfl))
      subst same
      have begun := (InSession.begin False catalog.store consistent).runCalls env consistent
        session.calls False.elim
      rw [ran] at begun
      rw [stored]
      exact ⟨_, loadCounters_commit db w session.request, begun.commit consistent session.request,
        Nat.succ_pos _⟩
    | @abandon calls =>
      have core := fun f => CatalogWriter.runCalls_core env catalog.db catalog.store.beginWrite
        calls (f := f)
      refine ⟨c, ?_, consistent.ofCore core, positive⟩
      exact (loadCounters_congr fun id => CatalogWriter.runCalls_counter _ _ _ _ id).trans loaded
    | reopen opened =>
      obtain ⟨d, epoch, _, acquired, rfl⟩ := CatalogStore.openCatalog_ok upheld.tended.format opened
      obtain ⟨_, _, _, other⟩ := acquireEpoch_ok acquired
      refine ⟨c, ?_, consistent.ofAside fun f apart => ?_, positive⟩
      · exact (loadCounters_congr fun id =>
          Db.get_of_family (other .counter (by decide) (by decide)) _).trans loaded
      · exact other f (by rintro rfl; contradiction) (by rintro rfl; contradiction)
  | upkeep applied =>
    obtain ⟨d, loaded', consistent', later⟩ :=
      UpkeepCall.apply_consistent loaded consistent applied
    exact ⟨d, loaded', consistent', positive.trans_le later⟩
  | updateRetainFromCache => exact ⟨c, loaded, consistent, positive⟩

theorem MaintainedInStep.upheld (reached : catalog.MaintainedInStep env) : catalog.Upheld := by
  obtain ⟨nonce, store, db, events, opened, ran⟩ := reached
  have valid := initial_valid opened
  refine ran.invariant Upheld (fun _ _ _ upheld stepped => upheld.step stepped) ?_
  exact ⟨(initial_tended opened).1, _, valid.loaded, valid.consistent, valid.positive⟩

end Catalog

end RockLake
