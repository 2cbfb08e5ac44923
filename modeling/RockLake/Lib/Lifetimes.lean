import Mathlib.Data.List.Basic

/-! Items with a begin and an optional end in discrete time, kept in one list. A selection takes the
items stamped after one time and by another, or those alive at a time. Selections of adjoining spans
add up, and what is alive later is what was alive before, with what began and without what ended. -/
namespace Lifetimes

open List

variable {α : Type} {items : List α}

theorem filter_perm_append (either : ∀ a ∈ items, p a = (q a || r a))
    (apart : ∀ a ∈ items, q a = true → r a = false) :
    (items.filter p).Perm (items.filter q ++ items.filter r) := by
  have parts := (filter_append_perm q (items.filter p)).symm
  rw [filter_filter, filter_filter] at parts
  have first : items.filter (fun a => q a && p a) = items.filter q :=
    filter_congr fun a member => by rw [either a member]; cases q a <;> simp
  have second : items.filter (fun a => !q a && p a) = items.filter r := by
    refine filter_congr fun a member => ?_
    rw [either a member]
    cases taken : q a with
    | false => simp
    | true => simp [apart a member taken]
  rwa [first, second] at parts

theorem filter_disjoint (apart : ∀ a, p a = true → q a = false) :
    (items.filter p).Disjoint (items.filter q) := by
  intro a first second
  have taken := (mem_filter.mp second).2
  rw [apart a (mem_filter.mp first).2] at taken
  contradiction

def stampedIn (stamp : α → Option Nat) (low high : Nat) (a : α) : Bool :=
  (stamp a).any fun time => low < time && time ≤ high

def aliveAt (begins : α → Nat) (ends : α → Option Nat) (time : Nat) (a : α) : Bool :=
  begins a ≤ time && (ends a).all fun ended => time < ended

section Spans

variable {stamp : α → Option Nat} {low middle high : Nat} {a : α}

theorem stampedIn_eq_true : stampedIn stamp low high a = true ↔
    ∃ time, stamp a = some time ∧ low < time ∧ time ≤ high := by
  cases stamped : stamp a <;> simp [stampedIn, stamped]

theorem stampedIn_self : stampedIn stamp low low a = false := by
  rw [← Bool.not_eq_true, stampedIn_eq_true]
  omega

theorem stampedIn_apart (early : stampedIn stamp low middle a = true) :
    stampedIn stamp middle high a = false := by
  obtain ⟨time, stamped, _, bound⟩ := stampedIn_eq_true.mp early
  rw [← Bool.not_eq_true, stampedIn_eq_true]
  rintro ⟨time', stamped', later, _⟩
  cases stamped.symm.trans stamped'
  omega

theorem stampedIn_split (first : low ≤ middle) (second : middle ≤ high) :
    (items.filter (stampedIn stamp low high)).Perm
      (items.filter (stampedIn stamp low middle) ++ items.filter (stampedIn stamp middle high)) := by
  refine filter_perm_append (fun a _ => ?_) fun a _ => stampedIn_apart
  rw [Bool.eq_iff_iff, Bool.or_eq_true, stampedIn_eq_true, stampedIn_eq_true, stampedIn_eq_true]
  constructor
  · rintro ⟨time, stamped, after, bound⟩
    rcases Nat.lt_or_ge middle time with late | early
    · exact .inr ⟨time, stamped, late, bound⟩
    · exact .inl ⟨time, stamped, after, early⟩
  · rintro (⟨time, stamped, after, bound⟩ | ⟨time, stamped, after, bound⟩)
    · exact ⟨time, stamped, after, Nat.le_trans bound second⟩
    · exact ⟨time, stamped, Nat.lt_of_le_of_lt first after, bound⟩

end Spans

section Alive

variable {begins : α → Nat} {ends : α → Option Nat} {low high : Nat}

theorem aliveAt_eq_true : aliveAt begins ends time a = true ↔
    begins a ≤ time ∧ ∀ ended, ends a = some ended → time < ended := by
  cases ended : ends a <;> simp [aliveAt, ended]

theorem aliveAt_unended (alive : aliveAt begins ends high a = true) :
    stampedIn ends low high a = false := by
  rw [← Bool.not_eq_true, stampedIn_eq_true]
  rintro ⟨time, stamped, _, bound⟩
  have after := (aliveAt_eq_true.mp alive).2 time stamped
  omega

theorem aliveAt_begun (alive : aliveAt begins ends low a = true) :
    stampedIn (fun a => some (begins a)) low high a = false := by
  rw [← Bool.not_eq_true, stampedIn_eq_true]
  rintro ⟨time, stamped, after, _⟩
  cases stamped
  have before := (aliveAt_eq_true.mp alive).1
  omega

/-- Items that end after they began: the ones alive at the later time and those that ended since the
earlier one are those alive then and those that began since. -/
theorem aliveAt_balance (proper : ∀ a ∈ items, ∀ ended, ends a = some ended → begins a < ended)
    (le : low ≤ high) :
    (items.filter (aliveAt begins ends high) ++ items.filter (stampedIn ends low high)).Perm
      (items.filter (aliveAt begins ends low) ++
        items.filter (stampedIn (fun a => some (begins a)) low high)) := by
  -- both sides list what began by the later time and had not ended by the earlier one
  have met : ∀ a ∈ items, (aliveAt begins ends high a || stampedIn ends low high a) =
      (aliveAt begins ends low a || stampedIn (fun a => some (begins a)) low high a) := by
    intro a member
    rw [Bool.eq_iff_iff, Bool.or_eq_true, Bool.or_eq_true, aliveAt_eq_true, aliveAt_eq_true,
      stampedIn_eq_true, stampedIn_eq_true]
    cases ended : ends a with
    | none =>
      simp only [reduceCtorEq, false_implies, implies_true, and_true, false_and, exists_false,
        or_false, Option.some.injEq, exists_eq_left']
      omega
    | some time =>
      have later := proper a member time ended
      simp only [Option.some.injEq, forall_eq', exists_eq_left']
      omega
  exact (filter_perm_append (fun _ _ => rfl) fun a _ => aliveAt_unended).symm.trans
    (.trans (.of_eq (filter_congr met))
      (filter_perm_append (fun _ _ => rfl) fun a _ => aliveAt_begun))

end Alive

end Lifetimes
