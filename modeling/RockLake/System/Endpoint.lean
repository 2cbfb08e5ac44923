import RockLake.Catalog.Store

/-! Processes that open one catalog and publish their address. An open initialises or loads the
catalog in one transaction and acquires the next epoch in another; publishing puts an epoch and an
address in a third, without reading either. The address has a key of its own that nothing else
writes, and stands beside the database here. -/
namespace RockLake

structure Publication where
  process : Nat
  epoch : Nat
  endpoint : String
  deriving DecidableEq

structure Processes where
  db : Db
  endpoint : Option String
  /-- The processes that have loaded the catalog and acquire an epoch next. -/
  opening : Nat → Bool
  /-- The epochs a process obtained from its opens. -/
  epochs : Nat → List Nat
  /-- The last one first. -/
  published : List Publication

inductive ProcessEvent where
  | load (process : Nat)
  | acquire (process : Nat) (nonce : String)
  | publish (publication : Publication) (committed : Bool)

namespace Processes

def start (db : Db) : Processes := ⟨db, none, fun _ => false, fun _ => [], []⟩

variable (s : Processes)

def readWriterEpoch : Nat := (s.db.get .writerEpoch keySystem).getD 0

def publishWriterEndpoint (publication : Publication) : Processes :=
  { s with
    db := s.db.put ⟨.writerEpoch, keySystem, publication.epoch⟩
    endpoint := some publication.endpoint
    published := publication :: s.published }

inductive Step : Processes → ProcessEvent → Processes → Prop
  | load {s : Processes} {db : Db} (loaded : initializeCatalog s.db = .ok (counters, db)) :
      Step s (.load process)
        { s with db, opening := Function.update s.opening process true }
  | notLoaded {s : Processes} (failed : initializeCatalog s.db = .error e) : Step s (.load process) s
  | acquire {s : Processes} {db : Db}
      (opening : s.opening process = true) (acquired : acquireEpoch s.db nonce = .ok (epoch, db)) :
      Step s (.acquire process nonce)
        { s with
          db
          opening := Function.update s.opening process false
          epochs := Function.update s.epochs process (epoch :: s.epochs process) }
  | notAcquired {s : Processes}
      (opening : s.opening process = true) (failed : acquireEpoch s.db nonce = .error e) :
      Step s (.acquire process nonce)
        { s with opening := Function.update s.opening process false }
  | publish {s : Processes} (obtained : publication.epoch ∈ s.epochs publication.process) :
      Step s (.publish publication true) (s.publishWriterEndpoint publication)
  | notPublished {s : Processes} (obtained : publication.epoch ∈ s.epochs publication.process) :
      Step s (.publish publication false) s

/-- The stored address is that of the last process to publish, and nobody has published a higher
epoch. -/
structure Agrees : Prop where
  endpoint : s.endpoint = s.published.head?.map (·.endpoint)
  newest : ∀ last ∈ s.published.head?, ∀ earlier ∈ s.published, earlier.epoch ≤ last.epoch

/-- A step that does not lower the stored epoch and leaves the address of the newest publisher. -/
def Keeps (t : Processes) : Prop := s.readWriterEpoch ≤ t.readWriterEpoch ∧ t.Agrees

def Current : ProcessEvent → Prop
  | .publish publication committed => committed = true → s.readWriterEpoch ≤ publication.epoch
  | _ => True

/-- Nobody has published a higher epoch than the stored one. -/
structure Bounded : Prop extends Agrees s where
  bound : ∀ publication ∈ s.published, publication.epoch ≤ s.readWriterEpoch

variable {s} {t : Processes} {event : ProcessEvent} {events : List ProcessEvent}

theorem start_bounded (db : Db) : (start db).Bounded := ⟨⟨rfl, by simp [start]⟩, by simp [start]⟩

theorem readWriterEpoch_publish (publication : Publication) :
    (s.publishWriterEndpoint publication).readWriterEpoch = publication.epoch :=
  congrArg (Option.getD · 0) (s.db.get_put_same (f := .writerEpoch) keySystem publication.epoch)

theorem Step.epoch_le (stepped : Step s event t) (current : s.Current event) :
    s.readWriterEpoch ≤ t.readWriterEpoch := by
  cases stepped with
  | load loaded =>
    rcases initializeCatalog_ok loaded with ⟨_, _, rfl⟩ | ⟨_, _, rfl⟩
    · exact le_rfl
    · exact (congrArg (Option.getD · 0)
        (Db.get_of_family (s.db.putAll_family (by decide)) keySystem)).ge
  | notLoaded | notAcquired | notPublished => exact le_rfl
  | acquire opening acquired =>
    obtain ⟨epoch, stored, _, _⟩ := acquireEpoch_ok acquired
    simp only [readWriterEpoch, stored, Option.getD_some, epoch]
    omega
  | publish =>
    rw [readWriterEpoch_publish]
    exact current rfl

theorem Bounded.step (bounded : s.Bounded) (stepped : Step s event t) (current : s.Current event) :
    t.Bounded := by
  have grows := stepped.epoch_le current
  cases stepped with
  | load | notLoaded | acquire | notAcquired | notPublished =>
    exact ⟨⟨bounded.endpoint, bounded.newest⟩, fun publication member =>
      (bounded.bound publication member).trans grows⟩
  | @publish publication obtained =>
    rw [readWriterEpoch_publish] at grows
    have all : ∀ earlier ∈ publication :: s.published, earlier.epoch ≤ publication.epoch :=
      List.forall_mem_cons.mpr ⟨le_rfl, fun earlier member =>
        (bounded.bound earlier member).trans grows⟩
    refine ⟨⟨rfl, fun last first => ?_⟩, fun earlier member => ?_⟩
    · cases first
      exact all
    · rw [readWriterEpoch_publish]
      exact all earlier member

theorem Step.current (stepped : Step s event t) (grows : s.readWriterEpoch ≤ t.readWriterEpoch) :
    s.Current event := by
  cases stepped with
  | publish =>
    rw [readWriterEpoch_publish] at grows
    exact fun _ => grows
  | notPublished => simp [Current]
  | _ => trivial

/-- The stored epoch never goes down and the stored address is never that of an earlier publisher,
exactly in the runs where every publication is under an epoch not below the stored one. -/
theorem publications_agree_iff (db : Db) :
    Run (fun s event t => Step s event t ∧ s.Keeps t) (start db) events s ↔
      Run (fun s event t => Step s event t ∧ s.Current event) (start db) events s := by
  constructor
  · exact Run.mono fun _ _ _ kept => ⟨kept.1, kept.1.current kept.2.1⟩
  intro ran
  have bounded := start_bounded db
  generalize start db = first at ran bounded
  induction ran with
  | done => exact .done
  | next stepped _ ih =>
    have after := bounded.step stepped.1 stepped.2
    exact .next ⟨stepped.1, stepped.1.epoch_le stepped.2, after.toAgrees⟩ (ih after)

/-- Two processes open the catalog, the second publishes, and the first opens the catalog again. -/
def reopened : List ProcessEvent :=
  [.load 0, .acquire 0 "a", .load 1, .acquire 1 "b", .publish ⟨1, 2, "b:5432"⟩ true, .load 0,
    .acquire 0 "c"]

/-- If the first process then publishes the epoch of its first open, the stored epoch falls from 3 to
1, and the address of epoch 2 is replaced by that of epoch 1. -/
theorem late_publication_lowers_epoch : ∃ s t, Run Step (start .empty) reopened s ∧
    Step s (.publish ⟨0, 1, "a:5432"⟩ true) t ∧ s.readWriterEpoch = 3 ∧ t.readWriterEpoch = 1 ∧
    t.endpoint = some "a:5432" ∧ t.published = [⟨0, 1, "a:5432"⟩, ⟨1, 2, "b:5432"⟩] ∧
    ¬ t.Agrees := by
  refine ⟨_, _, .next (.load rfl) (.next (.acquire rfl rfl) (.next (.load rfl) (.next
    (.acquire rfl rfl) (.next (.publish (by decide)) (.next (.load rfl)
      (.single (.acquire rfl rfl))))))), .publish (by decide), rfl, rfl, rfl, rfl, fun agrees => ?_⟩
  have newest := agrees.newest ⟨0, 1, "a:5432"⟩ rfl ⟨1, 2, "b:5432"⟩ (by decide)
  exact absurd newest (by decide)

end Processes

end RockLake
