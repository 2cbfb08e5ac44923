import RockLake.Catalog.Frame

/-! Several store handles on one database. An open takes three steps with anything in between:
loading the counters, acquiring the epoch, and completing the handle. A snapshot commit is one
serializable transaction, hence one step; so is every other call on a writer. -/
namespace RockLake

open CatalogWriter Function

inductive Handle where
  | loaded (counters : CounterCache)
  | acquired (counters : CounterCache) (epoch : Nat) (nonce : String)
  | ready (store : CatalogStore)

def Handle.epoch : Handle → Option Nat
  | .loaded _ => none
  | .acquired _ epoch _ => some epoch
  | .ready store => some store.writerEpoch

/-- A writer with the store it was obtained from. `base` are the counters it was given, or the ones
it stored in its last successful commit. -/
structure WriterHandle where
  handle : Nat
  writer : CatalogWriter
  base : CounterCache

structure System where
  db : Db
  handles : Nat → Option Handle
  writers : Nat → Option WriterHandle
  /-- What the successful commits returned, the last one first. -/
  results : List CommitResult

inductive SystemEvent where
  | load (handle : Nat)
  | acquire (handle : Nat) (nonce : String)
  | finish (handle : Nat)
  | beginWrite (handle writer : Nat)
  | call (writer : Nat) (call : WriterCall)
  | createSnapshot (writer : Nat) (request : SnapshotRequest)
  | commitWriter (handle : Nat) (result : CommitResult)

/-- The one key that a call on a writer may change outside a snapshot commit. -/
def SystemEvent.target (env : Env) : SystemEvent → Option (Family × Key)
  | .call _ made => CatalogWriter.target env made
  | _ => none

def SystemEvent.writer : SystemEvent → Option Nat
  | .call writer _ => some writer
  | .createSnapshot writer _ => some writer
  | _ => none

namespace System

def empty : System := ⟨Db.empty, fun _ => none, fun _ => none, []⟩

variable (s : System)

def setHandle (i : Nat) (handle : Handle) : System :=
  { s with handles := update s.handles i (some handle) }

def setWriter (j : Nat) (writer : WriterHandle) : System :=
  { s with writers := update s.writers j (some writer) }

def setDb (db : Db) : System := { s with db }

inductive Step (env : Env) (s : System) : SystemEvent → System → Prop
  | load {i counters db}
      (unused : s.handles i = none) (loaded : initializeCatalog s.db = .ok (counters, db)) :
      Step env s (.load i) ((s.setDb db).setHandle i (.loaded counters))
  | acquire {i epoch counters nonce db}
      (opening : s.handles i = some (.loaded counters))
      (acquired : acquireEpoch s.db nonce = .ok (epoch, db)) :
      Step env s (.acquire i nonce) ((s.setDb db).setHandle i (.acquired counters epoch nonce))
  | finish {i epoch counters nonce}
      (opening : s.handles i = some (.acquired counters epoch nonce)) :
      Step env s (.finish i) (s.setHandle i (.ready (finishOpen s.db counters epoch nonce)))
  | beginWrite {i j store}
      (opened : s.handles i = some (.ready store)) (unused : s.writers j = none) :
      Step env s (.beginWrite i j) (s.setWriter j ⟨i, store.beginWrite, store.counters⟩)
  | call {j w call} (obtained : s.writers j = some w) :
      Step env s (.call j call)
        ((s.setDb (w.writer.call env s.db call).db).setWriter j
          { w with writer := (w.writer.call env s.db call).writer })
  | commit {j w request result db} (obtained : s.writers j = some w)
      (created : (w.writer.createSnapshot s.db request).1 = .ok (result, db)) :
      Step env s (.createSnapshot j request)
        { (s.setDb db).setWriter j
            { w with writer := w.writer.drained, base := w.writer.drained.counters } with
          results := result :: s.results }
  | reject {j w request e} (obtained : s.writers j = some w)
      (failed : (w.writer.createSnapshot s.db request).1 = .error e) :
      Step env s (.createSnapshot j request) (s.setWriter j { w with writer := w.writer.drained })
  | commitWriter {i store result}
      (opened : s.handles i = some (.ready store)) (returned : result ∈ s.results) :
      Step env s (.commitWriter i result) (s.setHandle i (.ready (store.commitWriter result)))

/-- Facts about the handles that hold in every state: staged pairs are of stageable families, a
writer carries the epoch of its store and has not fallen behind the counters it was given, and no
epoch is ahead of the stored one. -/
structure Registered (s : System) : Prop where
  staged : ∀ j w, s.writers j = some w → ∀ x ∈ w.writer.staged, x.family.stageable = true
  base : ∀ j w, s.writers j = some w → w.base.Le w.writer.counters
  owner : ∀ j w, s.writers j = some w →
    ∃ store, s.handles w.handle = some (.ready store) ∧ w.writer.writerEpoch = store.writerEpoch
  epoch : ∀ i h epoch, s.handles i = some h → h.epoch = some epoch →
    epoch ≤ (s.db.get .writerEpoch keySystem).getD 0

theorem empty_registered : empty.Registered := by
  refine ⟨?_, ?_, ?_, ?_⟩ <;> intros <;> contradiction

variable {s} {t : System}

theorem Registered.ofDb {db : Db} (registered : s.Registered)
    (grows : (s.db.get .writerEpoch keySystem).getD 0 ≤ (db.get .writerEpoch keySystem).getD 0) :
    (s.setDb db).Registered :=
  ⟨registered.staged, registered.base, registered.owner,
    fun i h epoch found own => (registered.epoch i h epoch found own).trans grows⟩

theorem Registered.ofHandle (registered : s.Registered)
    (bound : ∀ epoch, handle.epoch = some epoch → epoch ≤ (s.db.get .writerEpoch keySystem).getD 0)
    (kept : ∀ store, s.handles i = some (.ready store) → ∃ store', handle = .ready store' ∧ store'.writerEpoch = store.writerEpoch) :
    (s.setHandle i handle).Registered := by
  refine ⟨registered.staged, registered.base, ?_, ?_⟩
  · intro j w found
    obtain ⟨store, opened, own⟩ := registered.owner j w found
    by_cases same : w.handle = i
    · rw [same] at opened
      obtain ⟨store', rfl, epoch⟩ := kept store opened
      exact ⟨store', by simp [setHandle, same], own.trans epoch.symm⟩
    · exact ⟨store, by simp [setHandle, same, opened], own⟩
  · intro k h epoch found own
    by_cases same : k = i
    · subst same
      simp only [setHandle, update_self, Option.some.injEq] at found
      subst found
      exact bound epoch own
    · simp only [setHandle, update_of_ne same] at found
      exact registered.epoch k h epoch found own

theorem Registered.ofWriter (registered : s.Registered)
    (staged : ∀ x ∈ w.writer.staged, x.family.stageable = true) (base : w.base.Le w.writer.counters)
    (owner : ∃ store, s.handles w.handle = some (.ready store) ∧ w.writer.writerEpoch = store.writerEpoch) :
    (s.setWriter j w).Registered := by
  have either : ∀ k v, (s.setWriter j w).writers k = some v → v = w ∨ s.writers k = some v := by
    intro k v found
    by_cases same : k = j
    · subst same
      simp only [setWriter, update_self, Option.some.injEq] at found
      exact .inl found.symm
    · simp only [setWriter, update_of_ne same] at found
      exact .inr found
  refine ⟨?_, ?_, ?_, registered.epoch⟩
  · intro k v found
    rcases either k v found with rfl | before
    · exact staged
    · exact registered.staged k v before
  · intro k v found
    rcases either k v found with rfl | before
    · exact base
    · exact registered.base k v before
  · intro k v found
    rcases either k v found with rfl | before
    · exact owner
    · exact registered.owner k v before

def storedEpoch (s : System) : Nat := (s.db.get .writerEpoch keySystem).getD 0

theorem Step.acquire_lt (stepped : Step env s (.acquire i nonce) t) : s.storedEpoch < t.storedEpoch := by
  cases stepped with
  | acquire _ acquired =>
    obtain ⟨next, stored, _, _⟩ := acquireEpoch_ok acquired
    rw [storedEpoch, storedEpoch]
    simp only [setHandle, setDb, stored, Option.getD_some]
    omega

theorem Step.epoch_le (registered : s.Registered) (stepped : Step env s event t) :
    s.storedEpoch ≤ t.storedEpoch := by
  have kept : t.db .writerEpoch = s.db .writerEpoch → s.storedEpoch ≤ t.storedEpoch := fun same => by
    rw [storedEpoch, storedEpoch, Db.get_of_family same]
  cases stepped with
  | load _ loaded =>
    rcases initializeCatalog_ok loaded with ⟨_, _, rfl⟩ | ⟨_, _, rfl⟩
    · exact kept rfl
    · exact kept rfl
  | @acquire i epoch counters nonce db opening acquired =>
    have advance : Step env s (.acquire i nonce) _ := .acquire opening acquired
    exact advance.acquire_lt.le
  | call => exact kept (call_core _ rfl)
  | @commit j w request result db obtained created =>
    obtain ⟨_, _, _, rfl⟩ := (w.writer.createSnapshot_ok s.db).mp created
    exact kept (commitWrites_family (registered.staged j w obtained) rfl (by decide)
      (by decide) (by decide))
  | finish | beginWrite | reject | commitWriter => exact kept rfl

theorem Registered.step {env : Env} (registered : s.Registered) (stepped : Step env s event t) :
    t.Registered := by
  have grows := stepped.epoch_le registered
  cases stepped with
  | @load i counters db unused loaded =>
    refine (registered.ofDb grows).ofHandle (fun _ own => nomatch own) fun store opened => ?_
    rw [setDb, unused] at opened
    contradiction
  | @acquire i epoch counters nonce db opening acquired =>
    obtain ⟨_, stored, _, _⟩ := acquireEpoch_ok acquired
    refine (registered.ofDb grows).ofHandle ?_ fun store opened => ?_
    · rintro _ ⟨⟩
      simp [setHandle, setDb, stored]
    · rw [setDb, opening] at opened
      cases opened
  | @finish i epoch counters nonce opening =>
    refine registered.ofHandle ?_ fun store opened => ?_
    · rintro _ ⟨⟩
      exact registered.epoch i _ epoch opening rfl
    · rw [opening] at opened
      cases opened
  | beginWrite opened unused =>
    exact registered.ofWriter (by simp [CatalogStore.beginWrite]) (.refl _) ⟨_, opened, rfl⟩
  | @call j w call obtained =>
    have frame := call_frame env s.db w.writer call
    obtain ⟨store, opened, own⟩ := registered.owner j w obtained
    refine (registered.ofDb grows).ofWriter ?_ ((registered.base j w obtained).trans frame.le)
      ⟨store, opened, frame.epoch.trans own⟩
    intro x member
    obtain ⟨new, staged, stageable⟩ := frame.staged
    rw [staged] at member
    rcases List.mem_append.mp member with earlier | later
    · exact registered.staged j w obtained x earlier
    · exact stageable x later
  | @commit j w request result db obtained created =>
    have kept := (registered.ofDb grows).ofWriter (j := j)
      (w := { w with writer := w.writer.drained, base := w.writer.drained.counters })
      (by simp [drained]) (.refl _) (registered.owner j w obtained)
    exact ⟨kept.staged, kept.base, kept.owner, kept.epoch⟩
  | @reject j w request e obtained failed =>
    refine registered.ofWriter (by simp [drained]) ?_ (registered.owner j w obtained)
    exact (registered.base j w obtained).trans ⟨Nat.le_succ _, le_rfl, le_rfl⟩
  | @commitWriter i store result opened returned =>
    refine registered.ofHandle ?_ fun store' opened' => ?_
    · rintro _ ⟨⟩
      exact registered.epoch i _ _ opened rfl
    · rw [opened] at opened'
      cases opened'
      exact ⟨_, rfl, rfl⟩

theorem Registered.run (registered : s.Registered) (ran : Run (Step env) s events t) : t.Registered :=
  ran.invariant Registered (fun _ _ _ before stepped => before.step stepped) registered

end System

end RockLake
