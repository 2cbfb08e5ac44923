import Mathlib.Algebra.Order.Ring.Nat
import Mathlib.Data.List.Induction
import Mathlib.Tactic.Ring

/-! Numbers written in a fixed number of bytes, the most significant byte first. -/
namespace BigEndian

open List

def value (bytes : List UInt8) : Nat := bytes.foldl (fun n byte => n * 256 + byte.toNat) 0

def digits : Nat → Nat → List UInt8
  | 0, _ => []
  | width + 1, n => digits width (n / 256) ++ [UInt8.ofNat n]

@[simp] theorem length_digits (width n : Nat) : (digits width n).length = width := by
  induction width generalizing n with
  | zero => rfl
  | succ width ih => simp [digits, ih]

theorem value_append_singleton (bytes : List UInt8) (byte : UInt8) :
    value (bytes ++ [byte]) = value bytes * 256 + byte.toNat := by
  simp [value]

theorem value_cons (byte : UInt8) (bytes : List UInt8) :
    value (byte :: bytes) = byte.toNat * 256 ^ bytes.length + value bytes := by
  induction bytes using reverseRecOn with
  | nil => simp [value]
  | append_singleton bytes last ih =>
    rw [← cons_append, value_append_singleton, ih, value_append_singleton, length_append,
      length_singleton, pow_succ]
    ring

theorem value_lt (bytes : List UInt8) : value bytes < 256 ^ bytes.length := by
  induction bytes using reverseRecOn with
  | nil => simp [value]
  | append_singleton bytes byte ih =>
    have small := byte.toNat_lt
    rw [value_append_singleton, length_append, length_singleton, pow_succ]
    omega

theorem value_digits (fits : n < 256 ^ width) : value (digits width n) = n := by
  induction width generalizing n with
  | zero =>
    have zero : n = 0 := by simpa using fits
    simp [digits, value, zero]
  | succ width ih =>
    have head : n / 256 < 256 ^ width := by
      rw [Nat.div_lt_iff_lt_mul (by decide), ← pow_succ]
      exact fits
    rw [digits, value_append_singleton, ih head, UInt8.toNat_ofNat']
    omega

theorem digits_value (length : bytes.length = width) :
    digits width (value bytes) = bytes := by
  subst length
  induction bytes using reverseRecOn with
  | nil => rfl
  | append_singleton bytes byte ih =>
    have small := byte.toNat_lt
    have head : value (bytes ++ [byte]) / 256 = value bytes := by
      rw [value_append_singleton]
      omega
    have last : UInt8.ofNat (value (bytes ++ [byte])) = byte := by
      apply UInt8.toNat_inj.mp
      rw [UInt8.toNat_ofNat', value_append_singleton]
      omega
    rw [length_append, length_singleton, digits, head, last, ih]

/-- Two numbers of one width that fit it are told apart by their bytes, whatever follows. -/
theorem digits_append_inj (fits : n < 256 ^ width) (fits' : n' < 256 ^ width)
    (same : digits width n ++ rest = digits width n' ++ rest') :
    n = n' ∧ rest = rest' := by
  obtain ⟨number, tail⟩ := append_inj same (by simp)
  exact ⟨by rw [← value_digits fits, number, value_digits fits'], tail⟩

/-- Behind the bytes of a number the next bytes count only if the numbers are the same. -/
theorem digits_append_lt (fits : m < 256 ^ width) (fits' : n < 256 ^ width) :
    digits width m ++ rest < digits width n ++ rest' ↔ m < n ∨ m = n ∧ rest < rest' := by
  induction width generalizing m n rest rest' with
  | zero =>
    have zeros : m = 0 ∧ n = 0 := by simpa using And.intro fits fits'
    simp [digits, zeros]
  | succ width ih =>
    rw [pow_succ] at fits fits'
    rw [digits, digits, append_assoc, append_assoc, ih (by omega) (by omega), singleton_append,
      singleton_append, cons_lt_cons_iff, UInt8.lt_iff_toNat_lt, ← UInt8.toNat_inj,
      UInt8.toNat_ofNat', UInt8.toNat_ofNat']
    by_cases less : rest < rest' <;> simp only [less, and_true, and_false, or_false] <;> omega

/-- Numbers of one width, one after the other: their bytes have the order and the starts that the
numbers have. -/
theorem words_iff (positive : 0 < width) (fits : ∀ n ∈ a ++ b, n < 256 ^ width) :
    (a.flatMap (digits width) < b.flatMap (digits width) ↔ a < b) ∧
      (a.flatMap (digits width) <+: b.flatMap (digits width) ↔ a <+: b) := by
  have bytes : ∀ n rest, ∃ byte more, digits width n ++ rest = byte :: more := fun n rest =>
    exists_cons_of_length_pos (by simpa using Or.inl positive)
  induction a generalizing b with
  | nil =>
    cases b with
    | nil => simp
    | cons n b =>
      obtain ⟨byte, more, same⟩ := bytes n (b.flatMap (digits width))
      simp [same]
  | cons m a ih =>
    cases b with
    | nil =>
      obtain ⟨byte, more, same⟩ := bytes m (a.flatMap (digits width))
      simp [same]
    | cons n b =>
      have small := fits m (by simp)
      have small' := fits n (by simp)
      obtain ⟨less, starts⟩ := @ih b (by grind)
      constructor
      · rw [flatMap_cons, flatMap_cons, digits_append_lt small small', less, cons_lt_cons_iff]
      · rw [flatMap_cons, flatMap_cons, cons_prefix_cons, ← starts]
        constructor
        · rintro ⟨more, whole⟩
          rw [append_assoc] at whole
          obtain ⟨rfl, later⟩ := digits_append_inj small small' whole
          exact ⟨rfl, more, later⟩
        · rintro ⟨rfl, later⟩
          exact (prefix_append_right_inj _).mpr later

end BigEndian
