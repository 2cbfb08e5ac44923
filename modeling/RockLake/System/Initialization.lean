import RockLake.Catalog.History
import RockLake.Lib.Optimistic

/-! Stores that are opened on one empty database at the same time. Every call of `initialize_catalog` is a
serializable transaction that reads the format version, which only the initial metadata set. -/
namespace RockLake

open OptimisticStore

def Db.Initialized (db : Db) : Prop :=
  db.get .catalogFormatVersion keySystem = some catalogFormatVersion ∧ ∃ c, loadCounters db = .ok c

/-- The running calls, and those that wrote the initial metadata. -/
structure Initializations where
  calls : OptimisticStore Db Unit
  creators : List Nat

inductive InitializationEvent where
  | begin (call : Nat)
  | finish (call : Nat) (answer : Except CatalogError CounterCache)
  | elsewhere

namespace Initializations

inductive Step (s : Initializations) : InitializationEvent → Initializations → Prop
  | begin {call} (unused : s.calls.running call = none) :
      Step s (.begin call) { s with calls := s.calls.begin call () }
  -- a transaction that has nothing to write is rolled back
  | load {call tx c db} (running : s.calls.running call = some tx) (loaded : initializeCatalog tx.view = .ok (c, db))
      (version : (tx.view.get .catalogFormatVersion keySystem).isSome = true) :
      Step s (.finish call (.ok c)) { s with calls := s.calls.finish call }
  | refuse {call tx e} (running : s.calls.running call = some tx) (failed : initializeCatalog tx.view = .error e) :
      Step s (.finish call (.error e)) { s with calls := s.calls.finish call }
  | conflict {call tx} (message : String) (running : s.calls.running call = some tx)
      (fresh : tx.view.get .catalogFormatVersion keySystem = none) :
      Step s (.finish call (.error (.transactionConflict message))) { s with calls := s.calls.finish call }
  | create {call tx} (running : s.calls.running call = some tx)
      (fresh : tx.view.get .catalogFormatVersion keySystem = none) (unnoticed : tx.conflicted = false) :
      Step s (.finish call (.ok initialCounters))
        ⟨(s.calls.write (s.calls.store.putAll initialWrites) true).finish call, call :: s.creators⟩
  -- commits of stores that are open, and anything else that leaves the metadata there
  | elsewhere {db} (noticed : Bool) (open_ : s.calls.store.Initialized) (kept : db.Initialized) :
      Step s .elsewhere { s with calls := s.calls.write db noticed }

def empty : Initializations := ⟨.idle Db.empty, []⟩

/-- A session of a store that is open, or another open of it. -/
theorem Step.ofCatalog {s : Initializations} (valid : Catalog.Valid ⟨s.calls.store, handle⟩)
    (noticed : Bool) (stepped : Catalog.Step env ⟨s.calls.store, handle⟩ event catalog) :
    Step s .elsewhere { s with calls := s.calls.write catalog.db noticed } :=
  .elsewhere noticed ⟨valid.format, _, valid.loaded⟩
    ⟨(valid.step stepped).format, _, (valid.step stepped).loaded⟩

/-- Views are of an empty or of an initialized database, and a call that saw it empty has noticed if it is
not. -/
structure Converging (s : Initializations) : Prop where
  tracks : s.calls.Tracks fun view store => view = Db.empty → store = Db.empty
  views : ∀ call tx, s.calls.running call = some tx → tx.view = Db.empty ∨ tx.view.Initialized
  store : s.calls.store = Db.empty ∧ s.creators = [] ∨ s.calls.store.Initialized ∧ s.creators.length = 1

variable {s t : Initializations}

theorem not_initialized_empty : ¬ Db.empty.Initialized := fun done => by
  cases done.1

theorem view_of_finish {calls : OptimisticStore Db Unit}
    (running : (calls.finish call).running i = some tx) : calls.running i = some tx := by
  by_cases same : i = call
  · simp [finish, same] at running
  · simpa [finish, Function.update_of_ne same] using running

theorem Converging.finish (converging : s.Converging) (call : Nat) :
    Converging { s with calls := s.calls.finish call } :=
  ⟨converging.tracks.finish call, fun i tx running => converging.views i tx (view_of_finish running),
    converging.store⟩

/-- A call that sees no format version and has noticed nothing writes to an empty database. -/
theorem Converging.fresh (converging : s.Converging) (running : s.calls.running call = some tx)
    (fresh : tx.view.get .catalogFormatVersion keySystem = none) (unnoticed : tx.conflicted = false) :
    s.calls.store = Db.empty := by
  rcases converging.views call tx running with empty | done
  · exact converging.tracks call tx running unnoticed empty
  · cases fresh.symm.trans done.1

theorem Converging.step (converging : s.Converging) (stepped : Step s event t) : t.Converging := by
  have written : ∀ {db noticed i tx}, (s.calls.write db noticed).running i = some tx →
      tx.view = Db.empty ∨ tx.view.Initialized := fun {_ _ i _} running => by
    obtain ⟨before, found, rfl⟩ := Option.map_eq_some_iff.mp running
    exact converging.views i before found
  cases stepped with
  | @begin call unused =>
    refine ⟨converging.tracks.begin (fun _ => id) call (), fun i tx running => ?_, converging.store⟩
    by_cases same : i = call
    · simp only [begin, same, Function.update_self, Option.some.injEq] at running
      exact running ▸ converging.store.imp And.left And.left
    · simp only [begin, Function.update_of_ne same] at running
      exact converging.views i tx running
  | load running | refuse running | conflict message running => exact converging.finish _
  | @create call tx running fresh unnoticed =>
    have empty := converging.fresh running fresh unnoticed
    have none : s.creators = [] := by
      rcases converging.store with ⟨_, none⟩ | ⟨done, _⟩
      · exact none
      · exact absurd (empty ▸ done) not_initialized_empty
    refine ⟨(converging.tracks.noticed _).finish call, fun i tx running => written (view_of_finish running),
      .inr ⟨⟨?_, initialCounters, loadCounters_initial _⟩, by rw [none]; rfl⟩⟩
    show (s.calls.store.putAll initialWrites).get _ _ = _
    rw [empty]
    rfl
  | elsewhere noticed open_ kept =>
    refine ⟨converging.tracks.write fun _ view same empty => ?_, fun i tx running => written running, ?_⟩
    · exact absurd (same empty ▸ open_) not_initialized_empty
    · refine .inr ⟨kept, (converging.store.resolve_left fun empty => ?_).2⟩
      exact not_initialized_empty (empty.1 ▸ open_)

/-- What a call may answer: the counters of the database that it saw, without a change; the initial ones,
which it has written to an empty database; or a conflict. -/
def Answers (s t : Initializations) (call : Nat) : Except CatalogError CounterCache → Prop
  | .ok c => (∃ tx, s.calls.running call = some tx ∧ loadCounters tx.view = .ok c ∧
      t.calls.store = s.calls.store) ∨
    s.calls.store = Db.empty ∧ t.calls.store = Db.empty.putAll initialWrites ∧ loadCounters t.calls.store = .ok c
  | .error e => (∃ message, e = .transactionConflict message) ∧ t.calls.store = s.calls.store

/-- However calls and commits interleave: once the database is not empty any more exactly one call has
written the initial metadata, and no call resets anything. -/
theorem initialization_converges (ran : Run Step empty events s) :
    (s.calls.store = Db.empty ∧ s.creators = [] ∨ s.calls.store.Initialized ∧ s.creators.length = 1) ∧
      ∀ call answer t, Step s (.finish call answer) t → s.Answers t call answer := by
  have converging : s.Converging := ran.invariant Converging (fun _ _ _ before stepped => before.step stepped)
    ⟨tracks_idle _, fun _ _ running => (by cases running), .inl ⟨rfl, rfl⟩⟩
  refine ⟨converging.store, fun call answer t stepped => ?_⟩
  cases stepped with
  | @load _ tx c db running loaded version =>
    rcases initializeCatalog_ok loaded with ⟨_, counters, _⟩ | ⟨none, _⟩
    · exact .inl ⟨tx, running, counters, rfl⟩
    · rw [none] at version
      cases version
  | @refuse _ tx e running failed =>
    rcases converging.views call tx running with empty | ⟨version, c, counters⟩
    · rw [empty] at failed
      cases failed
    · simp [initializeCatalog, version, counters, Except.map] at failed
  | conflict message running fresh => exact ⟨⟨message, rfl⟩, rfl⟩
  | create running fresh unnoticed =>
    have empty := converging.fresh running fresh unnoticed
    exact .inr ⟨empty, congrArg (Db.putAll · initialWrites) empty, loadCounters_initial _⟩

/-- Two calls begin before either commits: one creates the catalog, the other one meets a conflict. A
store is then opened, and a session commits. -/
theorem initialization_converges_race : ∃ s, Run Step empty [.begin 0, .begin 1, .finish 0 (.ok initialCounters),
      .finish 1 (.error (.transactionConflict "write conflict")), .elsewhere, .elsewhere] s ∧
      s.creators.length = 1 := by
  obtain ⟨store, db, opened⟩ : ∃ store db, Catalog.Opens "a" store db := ⟨_, _, rfl⟩
  have valid := Catalog.initial_valid opened
  obtain ⟨_, _, committed⟩ := valid.commits .trivial [.staging (.createSchema "main" "4b1d")]
    (rfl : SnapshotRequest.conflict {} = none)
  refine ⟨_, (fun ran => ⟨ran, ?_⟩) (.next (.begin rfl) (.next (.begin rfl) (.next (.create rfl rfl rfl)
    (.next (.conflict _ rfl rfl) (.next (.elsewhere true ⟨rfl, _, loadCounters_initial _⟩
      ⟨valid.format, _, valid.loaded⟩) (.next (.ofCatalog valid true (.session committed)) .done))))))⟩
  rcases (initialization_converges ran).1 with ⟨_, none⟩ | ⟨_, one⟩
  · cases none
  · exact one

end Initializations

end RockLake
