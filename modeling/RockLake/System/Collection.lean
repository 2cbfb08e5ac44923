import RockLake.Lib.Optimistic
import RockLake.Catalog.Retention

/-! Garbage collection among concurrent leases and pins. A collection call loops over serializable
transactions: each reads the floor, the pins and the leases from one view of the store and commits
the new floor, unless something it read was put in the meantime. Leases and pins are plain writes.
Whether a deletion is noticed as well is left open. -/
namespace RockLake

/-- The collection calls are named by numbers, and the argument of a call is its target. -/
abbrev Collections := OptimisticStore Db Nat

inductive CollectionEvent where
  | hold (nowMs : Nat) (consumerId : String) (minSnapshotId ttlSeconds : Nat)
  | release (consumerId : String) (noticed : Bool)
  | pin (snapshotId : Nat)
  | unpin (snapshotId : Nat) (noticed : Bool)
  | begin (call newRetainFrom : Nat)
  | retry (call nowMs : Nat)
  | finish (call nowMs : Nat) (answer : Except CatalogError GcApplyResult)

namespace Collections

inductive Step (s : Collections) : CollectionEvent → Collections → Prop
  | hold
      (held : holdSnapshot s.store nowMs consumerId minSnapshotId ttlSeconds = .ok (row, db)) :
      Step s (.hold nowMs consumerId minSnapshotId ttlSeconds) (s.write db true)
  | holdRefused
      (refused : holdSnapshot s.store nowMs consumerId minSnapshotId ttlSeconds = .error e) :
      Step s (.hold nowMs consumerId minSnapshotId ttlSeconds) s
  | release (released : releaseSnapshot s.store consumerId = .ok (existed, db)) :
      Step s (.release consumerId noticed) (s.write db noticed)
  | releaseRefused (refused : releaseSnapshot s.store consumerId = .error e) :
      Step s (.release consumerId noticed) s
  | pin : Step s (.pin snapshotId) (s.write (pinSnapshot s.store snapshotId) true)
  | unpin :
      Step s (.unpin snapshotId noticed) (s.write (unpinSnapshot s.store snapshotId) noticed)
  | begin (unused : s.running call = none) :
      Step s (.begin call newRetainFrom) (s.begin call newRetainFrom)
  -- a commit that fails, for a conflict or for any other reason, begins the loop again
  | retry (running : s.running call = some tx)
      (attempted : gcAttempt tx.view tx.argument nowMs = .ok (result, x :: writes)) :
      Step s (.retry call nowMs) (s.begin call tx.argument)
  | refuse (running : s.running call = some tx)
      (attempted : gcAttempt tx.view tx.argument nowMs = .error e) :
      Step s (.finish call nowMs (.error e)) (s.finish call)
  -- without anything to write the call returns without a commit
  | keep (running : s.running call = some tx)
      (attempted : gcAttempt tx.view tx.argument nowMs = .ok (result, [])) :
      Step s (.finish call nowMs (.ok result)) (s.finish call)
  | commit (running : s.running call = some tx)
      (attempted : gcAttempt tx.view tx.argument nowMs = .ok (result, x :: writes))
      (unnoticed : tx.conflicted = false) :
      Step s (.finish call nowMs (.ok result))
        ((s.write (s.store.putAll (x :: writes)) true).finish call)

end Collections

/-- The floor is the one that was read, and all pins and leases were read. -/
structure Db.HeldWithin (view store : Db) : Prop where
  floor : readRetainFrom store = readRetainFrom view
  pinned : ∀ k snapshotId, store.get .pinnedSnapshot k = some snapshotId →
    view.get .pinnedSnapshot k = some snapshotId
  leased : ∀ k lease, store.get .snapshotLease k = some lease →
    view.get .snapshotLease k = some lease

namespace Db.HeldWithin

variable {view store : Db}

theorem refl (store : Db) : store.HeldWithin store := ⟨rfl, fun _ _ => id, fun _ _ => id⟩

theorem unheld (within : view.HeldWithin store) (free : view.Unheld newRetainFrom nowMs) :
    store.Unheld newRetainFrom nowMs :=
  ⟨fun k id found => free.pinned k id (within.pinned k id found),
    fun k lease found => free.leased k lease (within.leased k lease found)⟩

end Db.HeldWithin

namespace Collections

variable {s t : Collections} {event : CollectionEvent}

/-- A transaction that has noticed nothing knows the floor and every pin and lease. -/
abbrev Informed (s : Collections) : Prop := s.Tracks Db.HeldWithin

theorem Informed.step (informed : s.Informed) (stepped : Step s event t) : t.Informed := by
  cases stepped with
  | hold | pin => exact informed.noticed _
  | release released =>
    rw [releaseSnapshot_ok released]
    exact informed.write fun _ view within => ⟨within.floor, within.pinned,
      fun k lease found => within.leased k lease (Db.get_of_delete _ found)⟩
  | unpin =>
    exact informed.write fun _ view within => ⟨within.floor,
      fun k id found => within.pinned k id (Db.get_of_delete _ found), within.leased⟩
  | holdRefused | releaseRefused => exact informed
  | begin | retry => exact informed.begin Db.HeldWithin.refl _ _
  | refuse | keep => exact informed.finish _
  | commit => exact (informed.noticed _).finish _

/-- A commit finds the floor it has read, below its target, and nothing that holds the target. -/
theorem Informed.commit (informed : s.Informed) {call nowMs : Nat}
    {tx : OptimisticTransaction Db Nat} {result : GcApplyResult} {x : Write} {writes : List Write}
    (running : s.running call = some tx)
    (attempted : gcAttempt tx.view tx.argument nowMs = .ok (result, x :: writes))
    (unnoticed : tx.conflicted = false) :
    readRetainFrom s.store < tx.argument ∧ s.store.Unheld tx.argument nowMs ∧
      result = ⟨readRetainFrom s.store, tx.argument, tx.argument - readRetainFrom s.store⟩ ∧
      readRetainFrom (s.store.putAll (x :: writes)) = tx.argument := by
  have within := informed call tx running unnoticed
  rcases gcAttempt_ok.mp attempted with ⟨_, _, none⟩ | ⟨high, free, rfl, rest⟩
  · cases none
  · cases rest
    rw [← within.floor] at high ⊢
    refine ⟨high, within.unheld free, rfl, ?_⟩
    exact congrArg (Option.getD · 0) (Db.get_put_same (f := .retainFrom) _ keySystem _)

theorem Step.floor_le (informed : s.Informed) (stepped : Step s event t) :
    readRetainFrom s.store ≤ readRetainFrom t.store := by
  cases stepped with
  | hold held =>
    obtain ⟨_, rfl⟩ := holdSnapshot_ok held
    exact le_rfl
  | release released =>
    rw [releaseSnapshot_ok released]
    exact le_rfl
  | commit running attempted unnoticed =>
    obtain ⟨high, _, _, floor⟩ := informed.commit running attempted unnoticed
    exact high.le.trans floor.ge
  | holdRefused | releaseRefused | pin | unpin | begin | retry | refuse | keep => exact le_rfl

theorem Informed.run (informed : s.Informed) (ran : Run Step s events t) : t.Informed :=
  ran.invariant (·.Informed) (fun _ _ _ before stepped => before.step stepped) informed

/-- Along every interleaving the floor does not go down, and a collection that advances it leaves
it at its target, which no pin and no lease held at the moment of the commit. -/
theorem collection_respects_holds {start : Db} {earlier later : List CollectionEvent}
    (before : Run Step (.idle start) earlier s) (after : Run Step s later t) :
    readRetainFrom s.store ≤ readRetainFrom t.store ∧
      ∀ {call nowMs : Nat} {result : GcApplyResult} {u : Collections},
        Step t (.finish call nowMs (.ok result)) u →
        result.previousRetainFrom < result.newRetainFrom →
        (∃ tx, t.running call = some tx ∧ tx.argument = result.newRetainFrom) ∧
          readRetainFrom t.store = result.previousRetainFrom ∧
          readRetainFrom u.store = result.newRetainFrom ∧
          t.store.Unheld result.newRetainFrom nowMs := by
  have informed : s.Informed := Informed.run (OptimisticStore.tracks_idle start) before
  refine ⟨after.relates (·.Informed) (fun s t => readRetainFrom s.store ≤ readRetainFrom t.store)
    (fun _ => le_rfl) (fun _ _ _ => le_trans) (fun _ _ _ known stepped => known.step stepped)
    (fun _ _ _ known stepped => stepped.floor_le known) informed, ?_⟩
  intro call nowMs result u stepped advances
  cases stepped with
  | keep running attempted =>
    rcases gcAttempt_ok.mp attempted with ⟨_, rfl, _⟩ | ⟨_, _, _, written⟩
    · exact absurd advances (lt_irrefl _)
    · cases written
  | commit running attempted unnoticed =>
    obtain ⟨_, free, rfl, floor⟩ := (informed.run after).commit running attempted unnoticed
    exact ⟨⟨_, running, rfl⟩, rfl, floor, free⟩

theorem collection_respects_holds_leased : ∃ s u : Collections,
    Run Step (.idle Db.empty) [.hold 0 "a" 3 60, .pin 9, .begin 0 2] s ∧
    Step s (.finish 0 1 (.ok ⟨0, 2, 2⟩)) u ∧ readRetainFrom u.store = 2 ∧ s.store.Unheld 2 1 := by
  have ran : Run Step (.idle Db.empty) [.hold 0 "a" 3 60, .pin 9, .begin 0 2] _ :=
    .next (.hold rfl) (.next .pin (.next (.begin rfl) .done))
  refine ⟨_, _, ran, (fun stepped => ⟨stepped, ?_⟩) (.commit rfl rfl rfl)⟩
  obtain ⟨_, _, floor, free⟩ := (collection_respects_holds ran .done).2 stepped (by decide)
  exact ⟨floor, free⟩

end Collections

end RockLake
