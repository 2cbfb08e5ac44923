import RockLake.System.Stores

/-! Snapshot identifiers and persisted counters across any interleaving of stores and writers. The
commit transaction checks the epoch and nothing else, so a writer whose counters were loaded before
another commit repeats that commit's identifier. When every commit finds the persisted counters
that its writer was given, identifiers are unique, snapshot rows stay and counters grow. -/
namespace RockLake.System

open CatalogWriter Db

variable {env : Env} {s t : System}

/-- A commit that goes through finds the persisted counters its writer was given: nobody else has
committed since they were loaded or taken over. -/
def Fresh (s : System) : SystemEvent → Prop
  | .createSnapshot j request => ∀ w, s.writers j = some w →
      (w.writer.createSnapshot s.db request).1.isOk = true → loadCounters s.db = .ok w.base
  | _ => True

def FreshStep (env : Env) (s : System) (event : SystemEvent) (t : System) : Prop :=
  Step env s event t ∧ s.Fresh event

/-- Everything committed is below the persisted counters. -/
structure Numbered (s : System) (c : CounterCache) : Prop where
  format : s.db.get .catalogFormatVersion keySystem = some catalogFormatVersion
  loaded : loadCounters s.db = .ok c
  rows : ∀ k row, s.db.get .snapshot k = some row → ∃ id, k = keySnapshot id ∧ id < c.nextSnapshotId
  returned : ∀ result ∈ s.results, result.snapshotId < c.nextSnapshotId
  distinct : (s.results.map (·.snapshotId)).Nodup

/-- Before the first open has written the initial catalog. -/
structure Unwritten (s : System) : Prop where
  format : s.db.get .catalogFormatVersion keySystem = none
  counters : ∀ k, s.db.get .counter k = none
  rows : ∀ k, s.db.get .snapshot k = none
  results : s.results = []
  handles : ∀ i, s.handles i = none
  writers : ∀ j, s.writers j = none

/-- The state of the numbering at any time. -/
structure Ordered (s : System) : Prop where
  registered : s.Registered
  numbered : s.Unwritten ∨ ∃ c, s.Numbered c

theorem empty_ordered : empty.Ordered :=
  ⟨empty_registered, .inl ⟨rfl, fun _ => rfl, fun _ => rfl, rfl, fun _ => rfl, fun _ => rfl⟩⟩

/-- What a later state keeps of an earlier one. -/
structure Extends (s t : System) : Prop where
  rows : ∀ k row, s.db.get .snapshot k = some row → t.db.get .snapshot k = some row
  counters : ∀ c, loadCounters s.db = .ok c → ∃ d, loadCounters t.db = .ok d ∧ c.Le d

theorem Extends.refl (s : System) : s.Extends s :=
  ⟨fun _ _ found => found, fun c loaded => ⟨c, loaded, .refl c⟩⟩

theorem Extends.trans (first : s.Extends t) (second : t.Extends u) : s.Extends u := by
  refine ⟨fun k row found => second.rows k row (first.rows k row found), fun c loaded => ?_⟩
  obtain ⟨d, loaded', le⟩ := first.counters c loaded
  obtain ⟨e, loaded'', le'⟩ := second.counters d loaded'
  exact ⟨e, loaded'', le.trans le'⟩

/-- A step that leaves the format version, the counters, the snapshot rows and the log of results
alone keeps the numbering. -/
theorem Numbered.unchanged (numbered : s.Numbered c)
    (format : t.db.get .catalogFormatVersion keySystem = s.db.get .catalogFormatVersion keySystem)
    (counter : ∀ id, t.db.get .counter (keyCounter id) = s.db.get .counter (keyCounter id))
    (rows : ∀ k, t.db.get .snapshot k = s.db.get .snapshot k) (results : t.results = s.results) :
    t.Numbered c ∧ s.Extends t := by
  have loaded := loadCounters_congr counter
  refine ⟨⟨format.trans numbered.format, loaded.trans numbered.loaded, ?_, ?_, ?_⟩, ?_, ?_⟩
  · intro k row found
    exact numbered.rows k row (rows k ▸ found)
  · rw [results]
    exact numbered.returned
  · rw [results]
    exact numbered.distinct
  · intro k row found
    rw [rows k]
    exact found
  · intro d before
    exact ⟨d, loaded.trans before, .refl d⟩

theorem Numbered.commit {c : CounterCache} {j : Nat} {w : WriterHandle} {request : SnapshotRequest}
    {result : CommitResult} {db : Db} {writers : Nat → Option WriterHandle}
    (numbered : s.Numbered c) (registered : s.Registered) (obtained : s.writers j = some w)
    (fresh : loadCounters s.db = .ok w.base)
    (created : (w.writer.createSnapshot s.db request).1 = .ok (result, db)) :
    Numbered ⟨db, s.handles, writers, result :: s.results⟩ w.writer.drained.counters ∧
      s.Extends ⟨db, s.handles, writers, result :: s.results⟩ := by
  obtain ⟨_, _, rfl, rfl⟩ := (w.writer.createSnapshot_ok s.db).mp created
  have current : c = w.base := by
    have both := numbered.loaded.symm.trans fresh
    cases both
    rfl
  have base := registered.base j w obtained
  have below : c.nextSnapshotId ≤ w.writer.snapshotId := current ▸ base.snapshot
  have stageable := registered.staged j w obtained
  have rows : ∀ k, (s.db.putAll (w.writer.commitWrites request)).get .snapshot k = _ :=
    commitWrites_snapshot stageable
  have kept : ∀ k row, s.db.get .snapshot k = some row →
      (s.db.putAll (w.writer.commitWrites request)).get .snapshot k = some row := by
    intro k row found
    obtain ⟨id, rfl, earlier⟩ := numbered.rows k row found
    rw [rows, if_neg]
    · exact found
    · simp only [keySnapshot, List.cons.injEq, and_true]
      omega
  refine ⟨⟨?_, loadCounters_commit _ _ _, ?_, ?_, ?_⟩, kept, ?_⟩
  · refine (get_of_family ?_ _).trans numbered.format
    exact commitWrites_family stageable rfl (by decide) (by decide) (by decide)
  · intro k row found
    rw [rows] at found
    split at found
    · rename_i same
      exact ⟨_, same, Nat.lt_succ_self _⟩
    · obtain ⟨id, same, earlier⟩ := numbered.rows k row found
      exact ⟨id, same, (earlier.trans_le below).trans (Nat.lt_succ_self _)⟩
  · intro r member
    rcases List.mem_cons.mp member with rfl | before
    · exact Nat.lt_succ_self _
    · exact ((numbered.returned r before).trans_le below).trans (Nat.lt_succ_self _)
  · refine List.nodup_cons.mpr ⟨fun repeated => ?_, numbered.distinct⟩
    obtain ⟨r, before, same⟩ := List.mem_map.mp repeated
    have earlier := numbered.returned r before
    have own : r.snapshotId = w.writer.snapshotId := same
    omega
  · intro d loaded
    have same := fresh.symm.trans loaded
    cases same
    exact ⟨_, loadCounters_commit _ _ _, base.trans ⟨Nat.le_succ _, le_rfl, le_rfl⟩⟩

theorem Ordered.load {i : Nat} {counters : CounterCache} {db : Db} (ordered : s.Ordered)
    (loaded : initializeCatalog s.db = .ok (counters, db)) :
    (∃ c, Numbered ((s.setDb db).setHandle i (.loaded counters)) c) ∧
      s.Extends ((s.setDb db).setHandle i (.loaded counters)) := by
  rcases initializeCatalog_ok loaded with ⟨format, _, rfl⟩ | ⟨format, rfl, rfl⟩
  · rcases ordered.numbered with unwritten | ⟨c, numbered⟩
    · rw [unwritten.format] at format
      contradiction
    · have same := numbered.unchanged (t := (s.setDb s.db).setHandle i (.loaded counters)) rfl
        (fun _ => rfl) (fun _ => rfl) rfl
      exact ⟨⟨c, same.1⟩, same.2⟩
  · rcases ordered.numbered with unwritten | ⟨c, numbered⟩
    · refine ⟨⟨initialCounters, ?_, loadCounters_initial s.db, ?_, ?_, ?_⟩, ?_, ?_⟩
      · exact get_put_same (f := .catalogFormatVersion) s.db keySystem catalogFormatVersion
      · intro k row found
        have absent : (s.db.putAll initialWrites).get .snapshot k = none := unwritten.rows k
        exact absurd (absent.symm.trans found) (by simp)
      · simp [setHandle, setDb, unwritten.results]
      · simp [setHandle, setDb, unwritten.results]
      · intro k row found
        rw [unwritten.rows k] at found
        contradiction
      · intro c before
        simp [loadCounters, unwritten.counters] at before
    · rw [numbered.format] at format
      contradiction

theorem Ordered.step (ordered : s.Ordered) (stepped : FreshStep env s event t) :
    t.Ordered ∧ s.Extends t := by
  obtain ⟨stepped, fresh⟩ := stepped
  have registered := ordered.registered.step stepped
  -- a handle or a writer exists only once the catalog is written
  have written : (∀ i, s.handles i = none) → (∀ j, s.writers j = none) →
      (∃ i, event = .load i) := by
    intro noHandle noWriter
    cases stepped <;> first | exact ⟨_, rfl⟩ | simp_all
  rcases ordered.numbered with unwritten | ⟨c, numbered⟩
  · obtain ⟨i, rfl⟩ := written unwritten.handles unwritten.writers
    cases stepped with
    | load unused loaded =>
      obtain ⟨numbered, kept⟩ := ordered.load loaded
      exact ⟨⟨registered, .inr numbered⟩, kept⟩
  · have untouched : t.db .catalogFormatVersion = s.db .catalogFormatVersion →
        (∀ id, t.db.get .counter (keyCounter id) = s.db.get .counter (keyCounter id)) →
        t.db .snapshot = s.db .snapshot → t.results = s.results → t.Ordered ∧ s.Extends t := by
      intro format counter rows results
      obtain ⟨numbered', kept⟩ := numbered.unchanged (get_of_family format keySystem) counter
        (get_of_family rows) results
      exact ⟨⟨registered, .inr ⟨c, numbered'⟩⟩, kept⟩
    cases stepped with
    | load unused loaded =>
      obtain ⟨numbered, kept⟩ := ordered.load loaded
      exact ⟨⟨registered, .inr numbered⟩, kept⟩
    | acquire opening acquired =>
      obtain ⟨_, _, _, other⟩ := acquireEpoch_ok acquired
      exact untouched (other _ (by decide) (by decide))
        (fun id => get_of_family (other .counter (by decide) (by decide)) _)
        (other _ (by decide) (by decide)) rfl
    | call obtained =>
      exact untouched (call_core _ rfl) (call_counter _)
        (call_core _ rfl) rfl
    | @commit j w request result db obtained created =>
      have current := fresh w obtained (by rw [created]; rfl)
      obtain ⟨numbered', kept⟩ := numbered.commit ordered.registered obtained current created
      exact ⟨⟨registered, .inr ⟨_, numbered'⟩⟩, kept⟩
    | finish | beginWrite | reject | commitWriter => exact untouched rfl (fun _ => rfl) rfl rfl

/-- Unique snapshots and growing counters, in every run whose commits find fresh counters: no two
commits returned one identifier, a committed snapshot row stays as it is, and the persisted
counters do not decrease. -/
theorem snapshots_unique {opening later : List SystemEvent}
    (ran : Run (FreshStep env) empty opening s) (ran' : Run (FreshStep env) s later t) :
    (t.results.map (·.snapshotId)).Nodup ∧
    (∀ k row, s.db.get .snapshot k = some row → t.db.get .snapshot k = some row) ∧
    ∀ c, loadCounters s.db = .ok c → ∃ d, loadCounters t.db = .ok d ∧ c.Le d := by
  have kept := fun (s : System) event t (ordered : s.Ordered) (stepped : FreshStep env s event t) =>
    (ordered.step stepped).1
  have ordered := ran.invariant Ordered kept empty_ordered
  have orderedLater := ran'.invariant Ordered kept ordered
  have extended := ran'.relates Ordered Extends Extends.refl (fun _ _ _ => Extends.trans) kept
    (fun _ _ _ before stepped => (before.step stepped).2) ordered
  refine ⟨?_, extended.rows, extended.counters⟩
  rcases orderedLater.numbered with unwritten | ⟨_, numbered⟩
  · simp [unwritten.results]
  · exact numbered.distinct

/-- Two commits of one store with everything in order. -/
theorem snapshots_unique_two_commits : ∃ s t : System,
    Run (FreshStep Env.trivial) empty
      [.load 0, .acquire 0 "a", .finish 0, .beginWrite 0 0, .createSnapshot 0 {}] s ∧
    Run (FreshStep Env.trivial) s
      [.commitWriter 0 ⟨1, 2, 1, 1, 0⟩, .beginWrite 0 1, .createSnapshot 1 {}] t ∧
    t.results.length = 2 ∧ (t.results.map (·.snapshotId)).Nodup := by
  refine ⟨_, _, (fun ran => ⟨ran, (fun ran' => ⟨ran', ?_, (snapshots_unique ran ran').1⟩)
      (.next ⟨.commitWriter rfl (by decide), trivial⟩ (.next ⟨.beginWrite rfl rfl, trivial⟩
        (.next ⟨.commit rfl rfl, ?_⟩ .done)))⟩)
    (.next ⟨.load rfl rfl, trivial⟩ (.next ⟨.acquire rfl rfl, trivial⟩ (.next ⟨.finish rfl, trivial⟩
      (.next ⟨.beginWrite rfl rfl, trivial⟩ (.next ⟨.commit rfl rfl, ?_⟩ .done)))))⟩
  · rintro w ⟨⟩ _
    rfl
  · rfl
  · rintro w ⟨⟩ _
    rfl

/-- Store 1 loads its counters, store 0 commits, and then store 1 acquires its epoch and commits:
both commits return the identifier 1. -/
theorem stale_counters_repeat_snapshot : ∃ s : System,
    Run (Step Env.trivial) empty
      [.load 0, .acquire 0 "a", .finish 0, .beginWrite 0 0, .load 1, .createSnapshot 0 {},
       .commitWriter 0 ⟨1, 2, 1, 1, 0⟩, .acquire 1 "b", .finish 1, .beginWrite 1 1,
       .createSnapshot 1 {}] s ∧
    s.results.map (·.snapshotId) = [1, 1] := by
  refine ⟨_, .next (.load rfl rfl) (.next (.acquire rfl rfl) (.next (.finish rfl)
    (.next (.beginWrite rfl rfl) (.next (.load rfl rfl) (.next (.commit rfl rfl)
    (.next (.commitWriter rfl (by decide)) (.next (.acquire rfl rfl) (.next (.finish rfl)
    (.next (.beginWrite rfl rfl) (.next (.commit rfl rfl) .done)))))))))), ?_⟩
  decide

end RockLake.System
