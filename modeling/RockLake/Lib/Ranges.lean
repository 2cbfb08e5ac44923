import Mathlib.Data.Set.Lattice
import Mathlib.Order.CompletePartialOrder
import Mathlib.Order.Interval.Set.Disjoint

/-! Half-open ranges that follow each other without gaps. -/

/-- Each range begins where the one before it ends, from the first bound to the last. -/
def Consecutive : Nat → List (Nat × Nat) → Nat → Prop
  | low, [], high => low = high
  | low, range :: ranges, high => range.1 = low ∧ range.1 ≤ range.2 ∧ Consecutive range.2 ranges high

def DisjointRanges (first second : Nat × Nat) : Prop :=
  Disjoint (Set.Ico first.1 first.2) (Set.Ico second.1 second.2)

namespace Consecutive

variable {low high : Nat} {ranges : List (Nat × Nat)}

theorem bounds (chain : Consecutive low ranges high) :
    low ≤ high ∧ ∀ range ∈ ranges, low ≤ range.1 := by
  induction ranges generalizing low with
  | nil => exact ⟨chain.le, by simp⟩
  | cons range ranges ih =>
    obtain ⟨rfl, forward, rest⟩ := chain
    obtain ⟨later, above⟩ := ih rest
    refine ⟨forward.trans later, List.forall_mem_cons.mpr ⟨le_rfl, fun other member => ?_⟩⟩
    exact forward.trans (above other member)

theorem append (first : Consecutive low ranges middle) (second : Consecutive middle later high) :
    Consecutive low (ranges ++ later) high := by
  induction ranges generalizing low with
  | nil => exact (show low = middle from first) ▸ second
  | cons range ranges ih =>
    obtain ⟨begins, forward, rest⟩ := first
    exact ⟨begins, forward, ih rest⟩

theorem pairwise (chain : Consecutive low ranges high) : ranges.Pairwise DisjointRanges := by
  induction ranges generalizing low with
  | nil => exact .nil
  | cons range ranges ih =>
    obtain ⟨_, _, rest⟩ := chain
    refine .cons (fun other member => ?_) (ih rest)
    exact Set.Ico_disjoint_Ico.mpr
      ((min_le_left _ _).trans ((rest.bounds.2 other member).trans (le_max_right _ _)))

theorem iUnion (chain : Consecutive low ranges high) :
    ⋃ range ∈ ranges, Set.Ico range.1 range.2 = Set.Ico low high := by
  induction ranges generalizing low with
  | nil => simp [show low = high from chain]
  | cons range ranges ih =>
    obtain ⟨rfl, forward, rest⟩ := chain
    simp only [List.mem_cons, Set.iUnion_iUnion_eq_or_left, ih rest]
    exact Set.Ico_union_Ico_eq_Ico forward rest.bounds.1

end Consecutive
