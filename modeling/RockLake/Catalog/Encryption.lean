import RockLake.PgWire.CopyOut

/-! The encryption key, given as hexadecimal digits. -/
namespace RockLake.Encryption

open CopyOut Unicode Option List

inductive EncryptionError where
  | invalidKeyLength (expected actual : Nat)
  | invalidHex (message : String)

/-- `u8::from_str_radix` of two bytes of text; a digit may have a plus sign before it. -/
def hexPair : List Char → Option UInt8
  | [high, low] =>
    if high = '+' then (hexDigit low).map UInt8.ofNat
    else (hexDigit high).bind fun high => (hexDigit low).map fun low => UInt8.ofNat (16 * high + low)
  | _ => none

/-- The loop, with what follows the byte offset. A slice that ends inside a character is a panic. -/
def decodePairs : Nat → List Char → Option (Except EncryptionError (List UInt8))
  | 0, _ => some (.ok [])
  | n + 1, text => (splitBytes text 2).bind fun (pair, rest) =>
    match hexPair pair with
    | none => some (.error (.invalidHex "invalid digit found in string"))
    | some byte => (decodePairs n rest).map (Except.map (byte :: ·))

def hexDecode (s : List Char) : Option (Except EncryptionError (List UInt8)) :=
  if size s % 2 ≠ 0 then some (.error (.invalidHex "odd length hex string"))
  else decodePairs (size s / 2) s

def fromHex (hexKey : List Char) : Option (Except EncryptionError (List UInt8)) :=
  (hexDecode hexKey).map (·.bind fun bytes =>
    if bytes.length ≠ 32 then .error (.invalidKeyLength 32 bytes.length) else .ok bytes)

/-- Pairs are read up to the end, or up to one that ends inside a character. -/
inductive Reads : List Char → Option (List UInt8) → Prop
  | done : Reads [] (some [])
  | stuck (nonempty : text ≠ []) (cut : splitBytes text 2 = none) : Reads text none
  | pair (read : hexPair [a, b] = some byte) (rest : Reads text r) :
      Reads (a :: b :: text) (r.map (byte :: ·))

theorem hexDigit_ascii (read : hexDigit c = some n) : c.toNat < 128 := by
  grind [hexDigit, Char.isDigit, Char.le_def, UInt32.le_iff_toNat_le, Char.toNat]

theorem hexPair_split (read : hexPair [a, b] = some byte) (text : List Char) :
    size (a :: b :: text) = 2 + size text ∧ splitBytes (a :: b :: text) 2 = some ([a, b], text) := by
  have two : size [a, b] = 2 := by
    refine size_of_ascii ?_
    simp only [hexPair] at read
    split at read
    · obtain ⟨_, low, _⟩ := map_eq_some_iff.mp read
      simp_all [hexDigit_ascii low]
    · obtain ⟨_, high, read⟩ := bind_eq_some_iff.mp read
      obtain ⟨_, low, _⟩ := map_eq_some_iff.mp read
      simp [hexDigit_ascii high, hexDigit_ascii low]
  exact ⟨two ▸ size_append [a, b] text, two ▸ splitBytes_size [a, b] text⟩

theorem decodePairs_iff (even : size text = 2 * n) :
    decodePairs n text = r.map .ok ↔ Reads text r := by
  constructor
  · intro decoded
    induction n generalizing text r with
    | zero =>
      obtain rfl := eq_nil_of_size even
      cases r <;> cases decoded
      exact .done
    | succ n ih =>
      rw [decodePairs] at decoded
      cases split : splitBytes text 2 with
      | none =>
        rw [split] at decoded
        cases r <;> cases decoded
        exact .stuck (by rintro rfl; cases even) split
      | some found =>
        obtain ⟨front, rest⟩ := found
        obtain ⟨rfl, two⟩ := splitBytes_eq_some.mp split
        have later : size rest = 2 * n := by grind [size_append]
        simp only [split, bind_some] at decoded
        split at decoded
        · cases r <;> cases decoded
        · rename_i byte read
          obtain ⟨a, b, rfl⟩ : ∃ a b, front = [a, b] := by
            unfold hexPair at read
            grind
          rcases decoding : decodePairs n rest with _ | _ | bytes <;> rw [decoding] at decoded <;>
            cases r <;> cases decoded
          · exact .pair (r := none) read (ih later decoding)
          · exact .pair (r := some _) read (ih later decoding)
  · intro reads
    induction reads generalizing n with
    | done =>
      obtain rfl : n = 0 := by simpa using even.symm
      rfl
    | stuck nonempty cut =>
      cases n with
      | zero => exact absurd (eq_nil_of_size even) nonempty
      | succ n => simp [decodePairs, cut]
    | @pair a b byte text r read _ ih =>
      obtain ⟨grown, split⟩ := hexPair_split read text
      cases n with
      | zero => omega
      | succ n =>
        have later := ih (n := n) (by omega)
        cases r <;> simp_all [decodePairs, Except.map]

theorem hexBytes_pair (plain : '+' ≠ a) : hexBytes (a :: b :: text) =
    (hexPair [a, b]).bind fun byte => (hexBytes text).map (byte :: ·) := by
  rw [hexBytes, hexPair, if_neg plain.symm]
  cases hexDigit a <;> cases hexDigit b <;> rfl

theorem hexBytes_iff : hexBytes text = some bytes ↔
    (size text % 2 = 0 ∧ Reads text (some bytes)) ∧ '+' ∉ text := by
  constructor
  · intro read
    have plain : '+' ∉ text := fun member => absurd (isSome_hexDigit read _ member) (by decide)
    refine ⟨?_, plain⟩
    induction text using hexBytes.induct generalizing bytes with
    | case1 =>
      cases read
      exact ⟨rfl, .done⟩
    | case2 c => cases read
    | case3 a b text ih =>
      simp only [mem_cons, not_or] at plain
      obtain ⟨byte, pair, read⟩ := bind_eq_some_iff.mp (hexBytes_pair plain.1 ▸ read)
      obtain ⟨others, later, rfl⟩ := map_eq_some_iff.mp read
      obtain ⟨even, reads⟩ := ih later plain.2.2
      exact ⟨by simp [(hexPair_split pair text).1, even], .pair pair reads⟩
  · rintro ⟨⟨-, reads⟩, plain⟩
    generalize result : some bytes = r at reads
    induction reads generalizing bytes with
    | done =>
      cases result
      rfl
    | stuck => cases result
    | pair read _ ih =>
      simp only [mem_cons, not_or] at plain
      obtain ⟨others, rfl, rfl⟩ := map_eq_some_iff.mp result.symm
      rw [hexBytes_pair plain.1, read, bind_some, ih plain.2.2 rfl, map_some]

theorem hexDecode_iff : hexDecode s = r.map .ok ↔ size s % 2 = 0 ∧ Reads s r := by
  rw [hexDecode]
  split
  · cases r <;> simp_all
  · rw [decodePairs_iff (by omega)]
    simp_all

/-- The key is read as it should be, except for a text with a character over the end of a pair, and
one of the right length with a plus sign for a digit. -/
theorem fromHex_iff (s : List Char) :
    (fromHex s ≠ none ∧
      ∀ key, fromHex s = some (.ok key) ↔ hexBytes s = some key ∧ key.length = 32) ↔
    (size s % 2 = 0 → ¬ Reads s none ∧ ∀ key, Reads s (some key) → key.length = 32 → '+' ∉ s) := by
  have panics : fromHex s = none ↔ _ := map_eq_none_iff.trans (hexDecode_iff (r := none))
  have accepts (key) : fromHex s = some (.ok key) ↔
      (size s % 2 = 0 ∧ Reads s (some key)) ∧ key.length = 32 := by
    rw [← hexDecode_iff, fromHex]
    rcases hexDecode s with _ | _ | bytes <;> grind [Except.bind]
  simp only [accepts, hexBytes_iff, ne_eq, panics]
  grind

theorem fromHex_lenient : fromHex (replicate 32 ['+', 'f']).flatten = some (.ok (replicate 32 15)) ∧
    fromHex ['€', 'a'] = none :=
  ⟨rfl, rfl⟩

end RockLake.Encryption
