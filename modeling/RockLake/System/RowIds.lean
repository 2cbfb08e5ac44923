import RockLake.Lib.Optimistic
import RockLake.Lib.Ranges
import RockLake.Lib.Run
import RockLake.Catalog.DirectWrites

/-! Row-id ranges under concurrency. A call loops over serializable transactions: each reads the
counter of its table, adds the count and commits, unless the counter it read was put in the
meantime. The method of the writer and the standalone function run the same loop. -/
namespace RockLake

open OptimisticStore
open CatalogWriter (nextRowidRange)

def rowIdCounter (db : Db) (tableId : Nat) : Nat :=
  (db.get .counter (keyCounterRowid tableId)).getD 0

theorem rowIdCounter_put_same (db : Db) (tableId next : Nat) :
    rowIdCounter (db.put ⟨.counter, keyCounterRowid tableId, next⟩) tableId = next :=
  congrArg (Option.getD · 0) (db.get_put_same (f := .counter) (keyCounterRowid tableId) next)

theorem rowIdCounter_put_other (db : Db) (next : Nat) (different : other ≠ tableId) :
    rowIdCounter (db.put ⟨.counter, keyCounterRowid tableId, next⟩) other = rowIdCounter db other := by
  have keys : keyCounterRowid other ≠ keyCounterRowid tableId := by
    intro same
    exact different (by simpa [keyCounterRowid] using same)
  exact congrArg (Option.getD · 0) (db.get_put_key (f := .counter) next keys)

theorem CatalogWriter.nextRowidRange_ok :
    nextRowidRange db tableId count = .ok (start, stop, db') ↔
      0 < count ∧ start = rowIdCounter db tableId ∧ stop = start + count ∧ stop ≤ u64Max ∧
        db' = db.put ⟨.counter, keyCounterRowid tableId, stop⟩ := by
  simp only [nextRowidRange, rowIdCounter]
  split
  · rename_i zero
    simp [zero]
  · rename_i positive
    split
    · rename_i exceeds
      simp only [reduceCtorEq, false_iff]
      rintro ⟨_, rfl, rfl, fits, _⟩
      exact absurd fits exceeds.not_ge
    · rename_i fits
      simp only [Except.ok.injEq, Prod.mk.injEq]
      constructor
      · rintro ⟨rfl, rfl, rfl⟩
        exact ⟨Nat.pos_of_ne_zero positive, rfl, rfl, Nat.le_of_not_gt fits, rfl⟩
      · rintro ⟨_, rfl, rfl, _, rfl⟩
        exact ⟨rfl, rfl, rfl⟩

structure RowIdRequest where
  tableId : Nat
  count : Nat

abbrev RowIdCalls := OptimisticStore Db RowIdRequest

inductive RowIdEvent where
  | begin (call : Nat) (request : RowIdRequest)
  | retry (call : Nat)
  | finish (call : Nat) (request : RowIdRequest) (answer : Except CatalogError (Nat × Nat))
  | elsewhere

namespace RowIdCalls

/-- The running calls that have read the counter of the table. -/
def readers (s : RowIdCalls) (tableId call : Nat) : Bool :=
  (s.running call).any fun tx => tx.argument.tableId == tableId

inductive Step (s : RowIdCalls) : RowIdEvent → RowIdCalls → Prop
  -- a count of zero is refused before the first transaction
  | refuse {request : RowIdRequest} (zero : request.count = 0)
      (refused : nextRowidRange s.store request.tableId request.count = .error e) :
      Step s (.finish call request (.error e)) s
  | begin {request : RowIdRequest} (positive : 0 < request.count)
      (unused : s.running call = none) : Step s (.begin call request) (s.begin call request)
  -- a commit that fails, for a conflict or for any other reason, begins the loop again
  | retry {request : RowIdRequest}
      (running : s.running call = some ⟨request, view, conflicted⟩)
      (attempted : nextRowidRange view request.tableId request.count = .ok (start, stop, db)) :
      Step s (.retry call) (s.begin call request)
  | overflow {request : RowIdRequest} (running : s.running call = some ⟨request, view, conflicted⟩)
      (attempted : nextRowidRange view request.tableId request.count = .error e) :
      Step s (.finish call request (.error e)) (s.finish call)
  | commit {call start stop} {request : RowIdRequest} {view db}
      (unnoticed : s.running call = some ⟨request, view, false⟩)
      (attempted : nextRowidRange view request.tableId request.count =
        .ok (start, stop, db)) :
      Step s (.finish call request (.ok (start, stop)))
        ((s.writeTo (s.store.put ⟨.counter, keyCounterRowid request.tableId, stop⟩)
          (s.readers request.tableId)).finish call)
  -- everything else that is written to the store
  | elsewhere (kept : ∀ tableId, rowIdCounter db tableId = rowIdCounter s.store tableId) :
      Step s .elsewhere (s.writeTo db noticed)

/-- The ranges that the calls for one table have returned, in the order of their commits. -/
def ranges (tableId : Nat) : List RowIdEvent → List (Nat × Nat)
  | [] => []
  | .finish _ request (.ok range) :: events =>
    if request.tableId = tableId then range :: ranges tableId events else ranges tableId events
  | _ :: events => ranges tableId events

variable {s t : RowIdCalls} {event : RowIdEvent} {events : List RowIdEvent}

/-- A transaction that has noticed nothing knows the counter of its table. -/
abbrev Current (s : RowIdCalls) : Prop :=
  s.TracksEach fun request view store =>
    rowIdCounter view request.tableId = rowIdCounter store request.tableId

theorem Current.step (current : s.Current) (stepped : Step s event t) : t.Current := by
  cases stepped with
  | refuse => exact current
  | begin | retry => exact current.begin (fun _ _ => rfl) _ _
  | overflow => exact current.finish _
  | commit unnoticed attempted =>
    refine TracksEach.finish (current.writeTo fun i other found unread known => ?_) _
    rw [rowIdCounter_put_other]
    · exact known
    · rintro same
      simp [readers, found, same] at unread
  | elsewhere kept => exact current.writeTo fun _ other _ _ known => known.trans (kept _).symm

theorem Current.consecutive (current : s.Current) (stepped : Step s event t) (tableId : Nat) :
    Consecutive (rowIdCounter s.store tableId) (ranges tableId [event])
      (rowIdCounter t.store tableId) := by
  cases stepped with
  | refuse | begin | retry | overflow => exact rfl
  | elsewhere kept => exact (kept tableId).symm
  | @commit call start stop request view db unnoticed attempted =>
    obtain ⟨_, first, last, _, _⟩ := CatalogWriter.nextRowidRange_ok.mp attempted
    have known := current call _ unnoticed rfl
    by_cases same : request.tableId = tableId
    · subst same
      simp only [ranges, if_true]
      refine ⟨first.trans known, by omega, ?_⟩
      exact (rowIdCounter_put_same s.store request.tableId stop).symm
    · simp only [ranges, same, if_false]
      exact (rowIdCounter_put_other s.store stop (Ne.symm same)).symm

theorem ranges_cons (tableId : Nat) (event : RowIdEvent) (events : List RowIdEvent) :
    ranges tableId (event :: events) = ranges tableId [event] ++ ranges tableId events := by
  cases event with
  | finish call request answer =>
    cases answer with
    | error e => rfl
    | ok range =>
      simp only [ranges]
      split <;> rfl
  | _ => rfl

/-- The ranges of a run lead from the counter at its start to the counter at its end. -/
theorem Current.run (current : s.Current) (ran : Run Step s events t) (tableId : Nat) :
    Consecutive (rowIdCounter s.store tableId) (ranges tableId events)
      (rowIdCounter t.store tableId) := by
  induction ran with
  | done => exact rfl
  | next stepped _ ih =>
    rw [ranges_cons]
    exact (current.consecutive stepped tableId).append (ih (current.step stepped))

theorem Step.answered (stepped : Step s (.finish call request (.ok (lo, hi))) t) :
    0 < request.count ∧ hi = lo + request.count ∧ hi ≤ u64Max := by
  cases stepped with
  | commit unnoticed attempted =>
    obtain ⟨positive, _, last, fits, _⟩ := CatalogWriter.nextRowidRange_ok.mp attempted
    exact ⟨positive, last, fits⟩

theorem Step.refused (stepped : Step s (.finish call request (.error e)) t) : t.store = s.store := by
  cases stepped with
  | refuse | overflow => rfl

theorem answered_of_mem (ran : Run Step s events t)
    (member : .finish call request (.ok (lo, hi)) ∈ events) :
    0 < request.count ∧ hi = lo + request.count ∧ hi ≤ u64Max := by
  induction ran with
  | done => cases member
  | next stepped _ ih =>
    cases member with
    | head => exact stepped.answered
    | tail _ later => exact ih later

/-- Whatever the calls running at the same time: the ranges returned for a table have the length
asked for and no number in common, and together they are the row ids from the counter before the
calls, which is zero for a new table, up to the counter after them. A call that is refused leaves
the store alone. -/
theorem nextRowidRange_tiles {start : Db} (ran : Run Step (.idle start) events s) :
    (∀ call request lo hi, .finish call request (.ok (lo, hi)) ∈ events →
      hi = lo + request.count) ∧
    (∀ tableId, (ranges tableId events).Pairwise DisjointRanges ∧
      ⋃ range ∈ ranges tableId events, Set.Ico range.1 range.2 =
        Set.Ico (rowIdCounter start tableId) (rowIdCounter s.store tableId)) ∧
    ∀ call request e t, Step s (.finish call request (.error e)) t → t.store = s.store := by
  refine ⟨fun _ _ _ _ member => (answered_of_mem ran member).2.1, fun tableId => ?_,
    fun _ _ _ _ stepped => stepped.refused⟩
  have chain := Current.run (tracksEach_idle start) ran tableId
  exact ⟨chain.pairwise, chain.iUnion⟩

/-- Two calls for one table begin together, and the second to commit has to retry. -/
def crossing : List RowIdEvent :=
  [.begin 0 ⟨7, 5⟩, .begin 1 ⟨7, 3⟩, .finish 0 ⟨7, 5⟩ (.ok (0, 5)), .retry 1,
    .finish 1 ⟨7, 3⟩ (.ok (5, 8))]

theorem crossing_runs : ∃ s, Run Step (.idle .empty) crossing s := by
  refine ⟨_, .next (.begin (by decide) rfl) (.next (.begin (by decide) rfl) (.next
    (.commit rfl rfl) (.next (.retry rfl rfl) (.next (.commit rfl rfl) .done))))⟩

theorem nextRowidRange_tiles_crossing : ∃ s, Run Step (.idle .empty) crossing s ∧
    [(0, 5), (5, 8)].Pairwise DisjointRanges ∧
    ⋃ range ∈ [(0, 5), (5, 8)], Set.Ico range.1 range.2 = Set.Ico 0 (rowIdCounter s.store 7) := by
  obtain ⟨s, ran⟩ := crossing_runs
  exact ⟨s, ran, (nextRowidRange_tiles ran).2.1 7⟩

theorem ranges_sublist (tableId : Nat) {some all : List RowIdEvent} (sub : some.Sublist all) :
    (ranges tableId some).Sublist (ranges tableId all) := by
  induction sub with
  | slnil => exact .slnil
  | cons event _ ih =>
    rw [ranges_cons]
    exact ih.trans (List.sublist_append_right _ _)
  | @cons_cons _ rest event _ ih =>
    rw [ranges_cons, ranges_cons tableId event rest]
    exact (List.Sublist.refl _).append ih

theorem run_alone (call : Nat) (request : RowIdRequest)
    (answered : nextRowidRange db request.tableId request.count = .ok (start, stop, db')) :
    Run Step (.idle db) [.begin call request, .finish call request (.ok (start, stop))]
      (.idle db') := by
  obtain ⟨positive, _, _, _, rfl⟩ := CatalogWriter.nextRowidRange_ok.mp answered
  have begun : ((idle db).begin call request).running call =
      some ⟨request, db, false⟩ := Function.update_self ..
  have ended := Step.commit begun answered
  -- nothing else is running, so the commit leaves the store as idle as it found it
  have idle : ∀ after noticed,
      ((((idle db).begin call request).writeTo after noticed).finish call) =
        .idle after := by
    intro after noticed
    simp only [idle, begin, writeTo, finish, OptimisticStore.mk.injEq, true_and]
    funext other
    by_cases same : other = call
    · rw [same, Function.update_self]
    · simp [Function.update_of_ne same]
  rw [idle] at ended
  exact .next (.begin positive rfl) (.single ended)

/-- Whatever is asked from now on, a range of the first counter and a later one of the second have
no row id in common. -/
def Separate (db : Db) (first second : Nat) : Prop :=
  ∀ events s, Run Step (.idle db) events s → ∀ call call' count count' range range',
    [RowIdEvent.finish call ⟨first, count⟩ (.ok range),
      .finish call' ⟨second, count'⟩ (.ok range')].Sublist events → DisjointRanges range range'

def Spent (db : Db) (tableId : Nat) : Prop := u64Max ≤ rowIdCounter db tableId

theorem Spent.unanswered {db : Db} (spent : Spent db tableId) (ran : Run Step (.idle db) events s) :
    .finish call ⟨tableId, count⟩ (.ok range) ∉ events := by
  intro member
  obtain ⟨positive, length, fits⟩ := answered_of_mem ran member
  have chain := Current.run (tracksEach_idle db) ran tableId
  have listed : range ∈ ranges tableId events := by
    have sub := ranges_sublist tableId (List.singleton_sublist.mpr member)
    simpa [ranges] using sub
  have above : rowIdCounter db tableId ≤ range.1 := chain.bounds.2 range listed
  have spent : u64Max ≤ rowIdCounter db tableId := spent
  simp only at positive length
  omega

theorem separate_iff :
    Separate db first second ↔ first = second ∨ Spent db first ∨ Spent db second := by
  constructor
  · intro separate
    by_contra failing
    simp only [Spent, not_or, Nat.not_le] at failing
    obtain ⟨different, left, right⟩ := failing
    -- two calls that both hand out the larger of the two counters
    let top := max (rowIdCounter db first) (rowIdCounter db second)
    have asked : nextRowidRange db first (top + 1 - rowIdCounter db first) =
        .ok (rowIdCounter db first, top + 1,
          db.put ⟨.counter, keyCounterRowid first, (top + 1 : Nat)⟩) :=
      CatalogWriter.nextRowidRange_ok.mpr ⟨by omega, rfl, by omega, by omega, rfl⟩
    have kept := rowIdCounter_put_other db (top + 1) (Ne.symm different)
    have asked' := CatalogWriter.nextRowidRange_ok.mpr
      (show 0 < top + 1 - rowIdCounter db second ∧ rowIdCounter db second =
        rowIdCounter (db.put ⟨.counter, keyCounterRowid first, (top + 1 : Nat)⟩) second ∧
        top + 1 = rowIdCounter db second + (top + 1 - rowIdCounter db second) ∧ top + 1 ≤ u64Max ∧
        _ from ⟨by omega, kept.symm, by omega, by omega, rfl⟩)
    have ran := (run_alone 0 ⟨first, _⟩ asked).append (run_alone 1 ⟨second, _⟩ asked')
    have disjoint := separate _ _ ran 0 1 _ _ _ _
      (.cons _ (.cons_cons _ (.cons _ (.cons_cons _ .slnil))))
    have shared : top ∈ Set.Ico (rowIdCounter db first) (top + 1) := ⟨le_max_left _ _, by omega⟩
    exact Set.disjoint_left.mp disjoint shared ⟨le_max_right _ _, by omega⟩
  · rintro (rfl | spent | spent) events s ran call call' count count' range range' sub
    · have chain := Current.run (tracksEach_idle db) ran first
      have pair := chain.pairwise.sublist (ranges_sublist first sub)
      simpa [ranges] using pair
    · exact absurd (sub.subset List.mem_cons_self) (spent.unanswered ran)
    · exact absurd (sub.subset (List.mem_cons_of_mem _ List.mem_cons_self)) (spent.unanswered ran)

end RowIdCalls

end RockLake
