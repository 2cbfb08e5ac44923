import Mathlib.Data.Finset.Card
import Mathlib.Data.List.Count
import Mathlib.Order.Interval.Finset.Nat

/-! Linear probing. A request gets the first free slot from the wanted one on, in its own bucket,
unless the slot it wants is pinned: then it gets just that one, free or not. Whether two requests end
in one slot can be told from the requests alone, by counting. -/
namespace Probing

open List

/-- A move from a wanted slot to the slot that was found. -/
structure Settles (taken : Nat → Bool) (moves : List (Nat × Nat)) : Prop where
  apart : (moves.map Prod.snd).Nodup
  free : ∀ m ∈ moves, taken m.2 = false
  forward : ∀ m ∈ moves, m.1 ≤ m.2
  passed : ∀ m ∈ moves, ∀ i, m.1 ≤ i → i < m.2 → taken i = true ∨ i ∈ moves.map Prod.snd

def freeSlots (taken : Nat → Bool) (first last : Nat) : Finset Nat :=
  (Finset.Ico first last).filter fun i => taken i = false

namespace Settles

variable {taken : Nat → Bool} {moves : List (Nat × Nat)}

theorem mem_slots : i ∈ moves.map Prod.snd ↔ ∃ m ∈ moves, m.2 = i := mem_map

section

variable (settles : Settles taken moves) (free : taken slot = false) (unused : slot ∉ moves.map Prod.snd)
include settles free unused

theorem stops (member : m ∈ moves) (wanted : m.1 ≤ slot) :
    m.2 < slot := by
  rcases lt_trichotomy m.2 slot with before | same | beyond
  · exact before
  · exact absurd (mem_slots.mpr ⟨m, member, same⟩) unused
  · rcases settles.passed m member slot wanted beyond with full | used
    · rw [free] at full
      cases full
    · exact absurd used unused

theorem count_le :
    moves.countP (fun m => decide (first ≤ m.1 ∧ m.1 ≤ slot)) ≤ (freeSlots taken first slot).card := by
  rw [countP_eq_length_filter]
  have apart : ((moves.filter fun m => decide (first ≤ m.1 ∧ m.1 ≤ slot)).map Prod.snd).Nodup :=
    settles.apart.sublist (filter_sublist.map _)
  rw [← length_map (f := Prod.snd), ← toFinset_card_of_nodup apart]
  refine Finset.card_le_card fun i member => ?_
  obtain ⟨m, chosen, rfl⟩ := mem_map.mp (mem_toFinset.mp member)
  obtain ⟨member, wanted⟩ := mem_filter.mp chosen
  simp only [decide_eq_true_eq] at wanted
  have forward := settles.forward m member
  have before := settles.stops free unused member wanted.2
  exact Finset.mem_filter.mpr ⟨Finset.mem_Ico.mpr ⟨by omega, before⟩, settles.free m member⟩

end

theorem exists_first (taken : Nat → Bool) (used : slot ∈ moves.map Prod.snd) :
    ∃ first ≤ slot, (∀ i, first ≤ i → i ≤ slot → taken i = true ∨ i ∈ moves.map Prod.snd) ∧
      ∀ i, i + 1 = first → taken i = false ∧ i ∉ moves.map Prod.snd := by
  have starts : ∃ first, first ≤ slot ∧
      ∀ i, first ≤ i → i ≤ slot → taken i = true ∨ i ∈ moves.map Prod.snd :=
    ⟨slot, le_rfl, fun i low high => .inr (le_antisymm high low ▸ used)⟩
  classical
  obtain ⟨le, full⟩ := Nat.find_spec starts
  refine ⟨Nat.find starts, le, full, fun i next => ?_⟩
  by_contra busy
  refine Nat.find_min starts (m := i) (by omega) ⟨by omega, fun j low high => ?_⟩
  rcases Nat.eq_or_lt_of_le low with same | later
  · rw [← same]
    cases occupied : taken i with
    | true => exact .inl rfl
    | false => exact .inr (by_contra fun unused => busy ⟨occupied, unused⟩)
  · exact full j (by omega) high

theorem lt_count (settles : Settles taken moves) (free : taken slot = false)
    (used : slot ∈ moves.map Prod.snd) : ∃ first ≤ slot, (freeSlots taken first slot).card <
      moves.countP fun m => decide (first ≤ m.1 ∧ m.1 ≤ slot) := by
  obtain ⟨first, le, full, before⟩ := exists_first taken used
  refine ⟨first, le, ?_⟩
  have outside : slot ∉ freeSlots taken first slot := by simp [freeSlots]
  rw [countP_eq_length_filter, Nat.lt_iff_add_one_le, ← Finset.card_insert_of_notMem outside,
    ← length_map (f := Prod.snd)]
  refine le_trans (Finset.card_le_card fun i counted => ?_) (toFinset_card_le _)
  have bounds : first ≤ i ∧ i ≤ slot ∧ taken i = false := by
    rcases Finset.mem_insert.mp counted with rfl | below
    · exact ⟨le, le_rfl, free⟩
    · obtain ⟨range, unfilled⟩ := Finset.mem_filter.mp below
      obtain ⟨low, high⟩ := Finset.mem_Ico.mp range
      exact ⟨low, high.le, unfilled⟩
  have occupied : i ∈ moves.map Prod.snd := by
    rcases full i bounds.1 bounds.2.1 with full | occupied
    · rw [bounds.2.2] at full
      cases full
    · exact occupied
  obtain ⟨m, member, rfl⟩ := mem_slots.mp occupied
  refine mem_toFinset.mpr (mem_map.mpr ⟨m, mem_filter.mpr ⟨member, ?_⟩, rfl⟩)
  have forward := settles.forward m member
  -- A request from below the run would have stopped at the free slot before it.
  have inside : first ≤ m.1 := by
    by_contra below
    obtain ⟨free', unused⟩ := before (first - 1) (by omega)
    have stopped := settles.stops free' unused member (by omega)
    omega
  exact decide_eq_true ⟨inside, by omega⟩

theorem used_iff (settles : Settles taken moves) (free : taken slot = false) :
    slot ∈ moves.map Prod.snd ↔ ∃ first ≤ slot, (freeSlots taken first slot).card <
      moves.countP fun m => decide (first ≤ m.1 ∧ m.1 ≤ slot) := by
  refine ⟨settles.lt_count free, ?_⟩
  rintro ⟨first, _, more⟩
  by_contra unused
  exact absurd (settles.count_le free unused) (not_le.mpr more)

end Settles

/-- A request for a slot in a bucket, with the slot it was given. -/
structure Placement (B T : Type) where
  bucket : B
  wanted : Nat
  slot : Nat
  item : T

section Placing

variable {B T : Type} {taken pinned : B → Nat → Bool} {placed : List (Placement B T)}

def Occupied (placed : List (Placement B T)) (bucket : B) (slot : Nat) : Prop :=
  ∃ p ∈ placed, p.bucket = bucket ∧ p.slot = slot

/-- Requests placed one after the other, the latest first. -/
inductive Placing (taken pinned : B → Nat → Bool) : List (Placement B T) → Prop
  | nil : Placing taken pinned []
  | pin {p : Placement B T} {placed : List (Placement B T)}
      (fixed : pinned p.bucket p.wanted = true) (here : p.slot = p.wanted)
      (rest : Placing taken pinned placed) : Placing taken pinned (p :: placed)
  | probe {p : Placement B T} {placed : List (Placement B T)}
      (movable : pinned p.bucket p.wanted = false) (forward : p.wanted ≤ p.slot)
      (free : taken p.bucket p.slot = false) (unused : ¬ Occupied placed p.bucket p.slot)
      (passed : ∀ i, p.wanted ≤ i → i < p.slot →
        taken p.bucket i = true ∨ Occupied placed p.bucket i)
      (rest : Placing taken pinned placed) : Placing taken pinned (p :: placed)

theorem occupied_cons :
    Occupied (p :: placed) bucket slot ↔
      p.bucket = bucket ∧ p.slot = slot ∨ Occupied placed bucket slot := by
  simp [Occupied]

/-- A placement as it looks later: pinned, or moved past occupied slots to a free one. -/
def Placement.Found (taken pinned : B → Nat → Bool) (placed : List (Placement B T))
    (p : Placement B T) : Prop :=
  pinned p.bucket p.wanted = true ∧ p.slot = p.wanted ∨
    pinned p.bucket p.wanted = false ∧ p.wanted ≤ p.slot ∧ taken p.bucket p.slot = false ∧
      ∀ i, p.wanted ≤ i → i < p.slot → taken p.bucket i = true ∨ Occupied placed p.bucket i

theorem Placement.Found.cons {p : Placement B T} (found : p.Found taken pinned placed)
    (q : Placement B T) : p.Found taken pinned (q :: placed) := by
  refine found.imp id ?_
  rintro ⟨movable, forward, free, passed⟩
  exact ⟨movable, forward, free, fun i low high => (passed i low high).imp id fun used =>
    occupied_cons.mpr (.inr used)⟩

section

variable (placing : Placing taken pinned placed)
include placing

theorem Placing.found (member : p ∈ placed) :
    p.Found taken pinned placed := by
  induction placing with
  | nil => cases member
  | @pin q placed fixed here _ ih =>
    rcases mem_cons.mp member with rfl | earlier
    · exact .inl ⟨fixed, here⟩
    · exact (ih earlier).cons q
  | @probe q placed movable forward free _ passed _ ih =>
    rcases mem_cons.mp member with rfl | earlier
    · exact .inr ⟨movable, forward, free, fun i low high => (passed i low high).imp id fun used =>
        occupied_cons.mpr (.inr used)⟩
    · exact (ih earlier).cons q

/-- The slot is given to one of the requests. A taken slot is only given to those that want it; a
free one is reached if from some slot on there are more requests than free slots. Requests for taken
slots that are pinned use up no free slot. -/
def Reached [DecidableEq B] (taken pinned : B → Nat → Bool) (requests : List (B × Nat)) (bucket : B)
    (slot : Nat) : Prop :=
  if taken bucket slot = true then (bucket, slot) ∈ requests
  else ∃ first ≤ slot, (freeSlots (taken bucket) first slot).card <
    requests.countP fun r => decide (r.1 = bucket ∧ first ≤ r.2 ∧ r.2 ≤ slot ∧
      ¬ (pinned r.1 r.2 = true ∧ taken r.1 r.2 = true))

/-- No pinned request, the latest first, wants a slot that an earlier one has been given. -/
def Unreached [DecidableEq B] (taken pinned : B → Nat → Bool) : List (B × Nat) → Prop
  | [] => True
  | r :: earlier => (pinned r.1 r.2 = true → ¬ Reached taken pinned earlier r.1 r.2) ∧
      Unreached taken pinned earlier

variable [DecidableEq B]

def movesIn (taken pinned : B → Nat → Bool) (bucket : B) (placed : List (Placement B T)) :
    List (Nat × Nat) :=
  (placed.filter fun p => decide (p.bucket = bucket ∧
    ¬ (pinned p.bucket p.wanted = true ∧ taken p.bucket p.wanted = true))).map
      fun p => (p.wanted, p.slot)

theorem Placing.mem_movesIn
    (free : taken bucket slot = false) :
    slot ∈ (movesIn taken pinned bucket placed).map Prod.snd ↔ Occupied placed bucket slot := by
  simp only [movesIn, map_map, mem_map, mem_filter, decide_eq_true_eq, Function.comp_apply]
  constructor
  · rintro ⟨p, ⟨member, same, _⟩, there⟩
    exact ⟨p, member, same, there⟩
  · rintro ⟨p, member, same, there⟩
    refine ⟨p, ⟨member, same, ?_⟩, there⟩
    rintro ⟨fixed, full⟩
    rcases placing.found member with ⟨_, here⟩ | ⟨movable, _⟩
    · rw [← here, same, there, free] at full
      cases full
    · rw [fixed] at movable
      cases movable

theorem Placing.settles
    (apart : (placed.map fun p => (p.bucket, p.slot)).Nodup) (bucket : B) :
    Settles (taken bucket) (movesIn taken pinned bucket placed) := by
  have origin : ∀ m ∈ movesIn taken pinned bucket placed, ∃ p ∈ placed, p.bucket = bucket ∧
      ¬ (pinned p.bucket p.wanted = true ∧ taken p.bucket p.wanted = true) ∧
        m = (p.wanted, p.slot) := by
    intro m member
    obtain ⟨p, chosen, rfl⟩ := mem_map.mp member
    obtain ⟨member, counted⟩ := mem_filter.mp chosen
    exact ⟨p, member, (of_decide_eq_true counted).1, (of_decide_eq_true counted).2, rfl⟩
  refine ⟨?_, fun m moved => ?_, fun m moved => ?_, fun m moved i low high => ?_⟩
  · have within : ((movesIn taken pinned bucket placed).map Prod.snd).map (Prod.mk bucket) =
        (placed.filter fun p => decide (p.bucket = bucket ∧ ¬ (pinned p.bucket p.wanted = true ∧
          taken p.bucket p.wanted = true))).map fun p => (p.bucket, p.slot) := by
      simp only [movesIn, map_map]
      refine map_congr_left fun p chosen => ?_
      have same := (of_decide_eq_true (mem_filter.mp chosen).2).1
      simp [same]
    refine Nodup.of_map (Prod.mk bucket) ?_
    rw [within]
    exact apart.sublist (filter_sublist.map _)
  · obtain ⟨p, member, rfl, counted, rfl⟩ := origin m moved
    rcases placing.found member with ⟨fixed, here⟩ | ⟨_, _, free, _⟩
    · rw [here]
      exact Bool.eq_false_iff.mpr fun full => counted ⟨fixed, full⟩
    · exact free
  · obtain ⟨p, member, _, _, rfl⟩ := origin m moved
    rcases placing.found member with ⟨_, here⟩ | ⟨_, forward, _⟩
    · exact here.ge
    · exact forward
  · obtain ⟨p, member, rfl, _, rfl⟩ := origin m moved
    cases free : taken p.bucket i with
    | true => exact .inl rfl
    | false =>
      refine .inr ((placing.mem_movesIn free).mpr ?_)
      rcases placing.found member with ⟨_, here⟩ | ⟨_, _, _, passed⟩
      · simp only [here] at low high
        omega
      · refine (passed i low high).resolve_left ?_
        simp [free]

theorem Placing.occupied_iff
    (apart : (placed.map fun p => (p.bucket, p.slot)).Nodup) (fixed : pinned bucket slot = true) :
    Occupied placed bucket slot ↔
      Reached taken pinned (placed.map fun p => (p.bucket, p.wanted)) bucket slot := by
  rw [Reached]
  split
  · rename_i full
    simp only [Occupied, mem_map, Prod.mk.injEq]
    refine exists_congr fun p => and_congr_right fun member => and_congr_right fun same => ?_
    subst same
    rcases placing.found member with ⟨_, here⟩ | ⟨movable, _, free, _⟩
    · rw [here]
    · constructor
      · rintro rfl
        rw [free] at full
        cases full
      · rintro rfl
        rw [fixed] at movable
        cases movable
  · rename_i unfilled
    have free : taken bucket slot = false := Bool.eq_false_iff.mpr unfilled
    rw [← placing.mem_movesIn free, (placing.settles apart bucket).used_iff free]
    refine exists_congr fun first => and_congr_right fun _ => ?_
    simp only [movesIn, countP_map, countP_filter]
    refine iff_of_eq (congrArg _ (countP_congr fun p _ => ?_))
    simp only [Function.comp_apply, Bool.and_eq_true, decide_eq_true_eq]
    tauto

/-- Requests end in different slots exactly if no pinned one wants a slot that was reached before. -/
theorem Placing.apart_iff :
    (placed.map fun p => (p.bucket, p.slot)).Nodup ↔
      Unreached taken pinned (placed.map fun p => (p.bucket, p.wanted)) := by
  induction placing with
  | nil => simp [Unreached]
  | @pin p placed fixed here rest ih =>
    rw [map_cons, nodup_cons, map_cons, Unreached, ← ih]
    refine and_congr_left fun apart => ?_
    simp only [fixed, forall_const]
    rw [← rest.occupied_iff apart fixed, here]
    simp [Occupied]
  | @probe p placed movable forward free unused passed rest ih =>
    rw [map_cons, nodup_cons, map_cons, Unreached, ← ih]
    refine and_congr_left fun _ => ?_
    simp only [movable, Bool.false_eq_true, false_imp_iff, iff_true]
    intro used
    obtain ⟨q, member, same⟩ := mem_map.mp used
    exact unused ⟨q, member, congrArg Prod.fst same, congrArg Prod.snd same⟩

end

end Placing

end Probing
