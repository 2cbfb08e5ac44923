import Mathlib.Algebra.Order.BigOperators.Group.List
import RockLake.Lib.Text

/-! Text as a program sees it that keeps it in UTF-8. Offsets count bytes, a slice exists only between
characters, and a change of case can change the number of bytes. -/
namespace Unicode

open List Option UInt8 Nat Text

variable {text before after part pattern : List Char} {start stop n : Nat}

def size (text : List Char) : Nat := (text.map Char.utf8Size).sum

@[simp] theorem size_nil : size [] = 0 := rfl

@[simp] theorem size_cons (c : Char) (text : List Char) : size (c :: text) = c.utf8Size + size text := by
  simp [size]

@[simp] theorem size_append (a b : List Char) : size (a ++ b) = size a + size b := by
  simp [size]

theorem eq_nil_of_size (empty : size text = 0) : text = [] := by
  cases text with
  | nil => rfl
  | cons c rest =>
    have positive := c.utf8Size_pos
    rw [size_cons] at empty
    omega

theorem prefix_iff_size_le (first : a <+: text) (second : b <+: text) :
    a <+: b ↔ size a ≤ size b := by
  constructor
  · rintro ⟨rest, rfl⟩
    simp
  · intro le
    rcases prefix_or_prefix_of_prefix first second with shorter | ⟨rest, rfl⟩
    · exact shorter
    · have empty : rest = [] := eq_nil_of_size (by rw [size_append] at le; omega)
      simp [empty]

theorem eq_of_size {a b : List Char} (first : a <+: text) (second : b <+: text)
    (same : size a = size b) : a = b :=
  ((prefix_iff_size_le first second).mpr same.le).eq_of_length_le
    ((prefix_iff_size_le second first).mpr same.ge).length_le

theorem size_of_ascii (ascii : ∀ c ∈ text, c.toNat < 128) : size text = text.length := by
  induction text with
  | nil => rfl
  | cons c rest ih =>
    obtain ⟨first, later⟩ := forall_mem_cons.mp ascii
    have le : c.val ≤ 127 := UInt32.le_iff_toNat_le.mpr (le_of_lt_succ first)
    have one : c.utf8Size = 1 := Char.utf8Size_eq_one_iff.mpr le
    rw [size_cons, one, ih later, length_cons, add_comm]

theorem ascii_of_spelled (spelled : Text.upper text = word)
    (ascii : (word.all fun c => c.toNat < 128) = true) : ∀ c ∈ text, c.toNat < 128 := by
  intro c member
  have inWord : c.toUpper ∈ word := spelled ▸ mem_map_of_mem member
  exact ascii_of_toUpper (of_decide_eq_true (all_eq_true.mp ascii _ inWord))

theorem size_spelled (spelled : Text.upper text = word)
    (ascii : (word.all fun c => c.toNat < 128) = true) : size text = word.length := by
  rw [size_of_ascii (ascii_of_spelled spelled ascii), ← spelled, Text.upper, length_map]

/-- The text before and after a byte offset, if a character starts there or the text ends. -/
def splitBytes : List Char → Nat → Option (List Char × List Char)
  | text, 0 => some ([], text)
  | [], _ + 1 => none
  | c :: rest, n + 1 =>
    if c.utf8Size ≤ n + 1 then
      (splitBytes rest (n + 1 - c.utf8Size)).map fun (before, after) => (c :: before, after)
    else none

theorem splitBytes_zero (text : List Char) : splitBytes text 0 = some ([], text) := by
  cases text <;> rfl

theorem splitBytes_size (before after : List Char) :
    splitBytes (before ++ after) (size before) = some (before, after) := by
  induction before with
  | nil => exact splitBytes_zero after
  | cons c rest ih =>
    have positive := c.utf8Size_pos
    obtain ⟨n, succ⟩ : ∃ n, size (c :: rest) = n + 1 := ⟨size (c :: rest) - 1, by rw [size_cons]; omega⟩
    have fits : c.utf8Size ≤ n + 1 := by rw [← succ, size_cons]; omega
    have left : n + 1 - c.utf8Size = size rest := by rw [← succ, size_cons]; omega
    rw [succ, cons_append, splitBytes, if_pos fits, left, ih]
    rfl

theorem splitBytes_eq_some :
    splitBytes text n = some (before, after) ↔ text = before ++ after ∧ size before = n := by
  constructor
  · intro split
    induction text, n using splitBytes.induct generalizing before with
    | case1 text =>
      rw [splitBytes_zero] at split
      cases split
      exact ⟨rfl, rfl⟩
    | case2 n => cases split
    | case3 c rest n fits ih =>
      rw [splitBytes, if_pos fits] at split
      obtain ⟨⟨before', after'⟩, found, same⟩ := map_eq_some_iff.mp split
      cases same
      obtain ⟨rfl, size⟩ := ih found
      exact ⟨rfl, by rw [size_cons, size]; omega⟩
    | case4 c rest n beyond =>
      rw [splitBytes, if_neg beyond] at split
      cases split
  · rintro ⟨rfl, rfl⟩
    exact splitBytes_size before after

def Boundary (text : List Char) (n : Nat) : Prop := ∃ before, before <+: text ∧ size before = n

/-- The part of a text between two byte offsets. A program that asks for a part between other offsets
panics. -/
def slice (text : List Char) (start stop : Nat) : Option (List Char) :=
  (splitBytes text stop).bind fun (before, _) => (splitBytes before start).map Prod.snd

theorem slice_eq_some : slice text start stop = some part ↔
    ∃ before after, text = before ++ part ++ after ∧ size before = start ∧
      size (before ++ part) = stop := by
  simp only [slice, bind_eq_some_iff, map_eq_some_iff, Prod.exists, splitBytes_eq_some]
  constructor
  · rintro ⟨whole, after, ⟨rfl, last⟩, before, part', ⟨rfl, first⟩, rfl⟩
    exact ⟨before, after, rfl, first, last⟩
  · rintro ⟨before, after, rfl, first, last⟩
    exact ⟨before ++ part, after, ⟨rfl, last⟩, before, part, ⟨rfl, first⟩, rfl⟩

theorem slice_to_end : slice text start (size text) = some part ↔
    ∃ before, text = before ++ part ∧ size before = start := by
  rw [slice_eq_some]
  constructor
  · rintro ⟨before, after, rfl, first, last⟩
    have empty : after = [] := eq_nil_of_size (by simp only [size_append] at last; omega)
    exact ⟨before, by rw [empty, append_nil], first⟩
  · rintro ⟨before, rfl, first⟩
    exact ⟨before, [], by rw [append_nil], first, rfl⟩

theorem slice_isSome (ordered : start ≤ stop) :
    (slice text start stop).isSome = true ↔ Boundary text start ∧ Boundary text stop := by
  rw [isSome_iff_exists]
  constructor
  · rintro ⟨part, found⟩
    obtain ⟨before, after, rfl, first, last⟩ := slice_eq_some.mp found
    exact ⟨⟨before, ⟨part ++ after, by simp⟩, first⟩, ⟨before ++ part, ⟨after, rfl⟩, last⟩⟩
  · rintro ⟨⟨before, starts, rfl⟩, ⟨whole, starts', rfl⟩⟩
    obtain ⟨part, rfl⟩ := (prefix_iff_size_le starts starts').mpr ordered
    obtain ⟨after, rfl⟩ := starts'
    exact ⟨part, slice_eq_some.mpr ⟨before, after, rfl, rfl, rfl⟩⟩

def findBytes (pattern : List Char) : List Char → Option Nat
  | [] => if pattern.isEmpty then some 0 else none
  | c :: rest =>
    if pattern.isPrefixOf (c :: rest) then some 0
    else (findBytes pattern rest).map (· + c.utf8Size)

theorem findBytes_of_prefix (starts : pattern <+: text) : findBytes pattern text = some 0 := by
  cases text with
  | nil =>
    rw [prefix_nil.mp starts]
    rfl
  | cons c rest => rw [findBytes, if_pos (List.isPrefixOf_iff_prefix.mpr starts)]

theorem findBytes_of_infix (occurs : pattern <:+: text) : ∃ n, findBytes pattern text = some n := by
  induction text with
  | nil => exact ⟨0, by rw [infix_nil.mp occurs]; rfl⟩
  | cons c rest ih =>
    rcases infix_cons_iff.mp occurs with starts | later
    · exact ⟨0, findBytes_of_prefix starts⟩
    obtain ⟨n, found⟩ := ih later
    rw [findBytes, found]
    split
    · exact ⟨0, rfl⟩
    · exact ⟨n + c.utf8Size, rfl⟩

theorem findBytes_length (found : findBytes pattern text = some n) : pattern.length ≤ text.length := by
  induction text generalizing n with
  | nil =>
    rw [findBytes] at found
    split at found
    · rename_i empty
      simp [isEmpty_iff.mp empty]
    · cases found
  | cons c rest ih =>
    rw [findBytes] at found
    split at found
    · rename_i starts
      exact (List.isPrefixOf_iff_prefix.mp starts).length_le
    · obtain ⟨m, later, _⟩ := map_eq_some_iff.mp found
      exact (ih later).trans (by simp)

theorem findBytes_of_ascii (ascii : ∀ c ∈ text, c.toNat < 128) :
    findBytes pattern text = find pattern text := by
  induction text with
  | nil => rfl
  | cons c rest ih =>
    obtain ⟨first, later⟩ := forall_mem_cons.mp ascii
    have one : c.utf8Size = 1 := by simpa using size_of_ascii (forall_mem_singleton.mpr first)
    rw [findBytes, find, ih later, one]

theorem findBytes_append (found : findBytes pattern text = some n) (after : List Char) :
    findBytes pattern (text ++ after) = some n := by
  induction text generalizing n with
  | nil =>
    rw [findBytes] at found
    split at found
    · rename_i empty
      cases found
      rw [isEmpty_iff.mp empty]
      exact findBytes_of_prefix nil_prefix
    · cases found
  | cons c rest ih =>
    have fits := findBytes_length found
    rw [findBytes] at found
    split at found
    · rename_i starts
      cases found
      exact findBytes_of_prefix ((List.isPrefixOf_iff_prefix.mp starts).trans (prefix_append _ _))
    · rename_i elsewhere
      obtain ⟨m, later, rfl⟩ := map_eq_some_iff.mp found
      have still : ¬ pattern.isPrefixOf (c :: (rest ++ after)) = true := by
        intro starts
        have here : pattern <+: c :: rest :=
          prefix_of_prefix_length_le (List.isPrefixOf_iff_prefix.mp starts)
            (prefix_append (c :: rest) after) fits
        exact elsewhere (List.isPrefixOf_iff_prefix.mpr here)
      rw [cons_append, findBytes, if_neg still, ih later]
      rfl

def encode (text : List Char) : List UInt8 := text.flatMap String.utf8EncodeChar

def isContinuation (byte : UInt8) : Bool := 0x80 ≤ byte && byte < 0xC0

theorem encodeChar_ascii (ascii : c.toNat < 128) :
    String.utf8EncodeChar c = [ofNat c.toNat] := by
  unfold String.utf8EncodeChar
  have le : c.val.toNat ≤ 127 := le_of_lt_succ ascii
  simp only [if_pos le]
  rfl

theorem encode_cons (c : Char) (text : List Char) :
    encode (c :: text) = String.utf8EncodeChar c ++ encode text := flatMap_cons

theorem length_encode (text : List Char) : (encode text).length = size text := by
  induction text with
  | nil => rfl
  | cons c rest ih =>
    rw [encode_cons, length_append, String.length_utf8EncodeChar, ih, size_cons]

def decode (bytes : List UInt8) : Option (List Char) :=
  (String.fromUTF8? bytes.toByteArray).map String.toList

theorem decode_encode (text : List Char) : decode (encode text) = some text := by
  have valid : (encode text).toByteArray.IsValidUTF8 := ⟨text, rfl⟩
  rw [decode, map_eq_some_iff]
  refine ⟨String.ofList text, ?_, String.toList_ofList⟩
  rw [String.fromUTF8?, dif_pos valid]
  rfl

theorem encode_injective : Function.Injective encode := by
  intro a b same
  have decoded := congrArg decode same
  rw [decode_encode, decode_encode] at decoded
  exact Option.some.inj decoded

theorem length_le_size (text : List Char) : text.length ≤ size text := by
  induction text with
  | nil => exact zero_le _
  | cons c rest ih =>
    have pos := c.utf8Size_pos
    rw [length_cons, size_cons]
    omega

/-- What lower case makes of one character. How many characters it makes does not depend on the text
around, an ASCII character has its ASCII lower case, spaces stay, no quote comes from anything else and
no ASCII capital is left. -/
structure LowerImage (width : Nat) (c : Char) (image : List Char) : Prop where
  length : image.length = width
  ascii : c.toNat < 128 → image = [c.toLower]
  space : isSpace c = true → image = [c]
  quote : '"' ∈ image → c = '"'
  lower : ∀ d ∈ image, d.toLower = d

/-- The case mappings of Unicode, as far as programs rely on them. Upper case is made character by
character; lower case also looks around, since the last sigma of a word has a form of its own. -/
structure CaseMapping where
  upper : Char → List Char
  upper_ascii : ∀ c : Char, c.toNat < 128 → upper c = [c.toUpper]
  lowercase : List Char → List Char
  width : Char → Nat
  width_pos : ∀ c, 0 < width c
  images : ∀ text, ∃ images, List.Forall₂ (fun c image => LowerImage (width c) c image) text images ∧
    lowercase text = images.flatten

namespace CaseMapping

variable (unicode : CaseMapping)

def uppercase (text : List Char) : List Char := text.flatMap unicode.upper

@[simp] theorem uppercase_append (a b : List Char) :
    unicode.uppercase (a ++ b) = unicode.uppercase a ++ unicode.uppercase b := flatMap_append

theorem uppercase_of_ascii (ascii : ∀ c ∈ text, c.toNat < 128) :
    unicode.uppercase text = Text.upper text := by
  induction text with
  | nil => rfl
  | cons c rest ih =>
    obtain ⟨first, later⟩ := forall_mem_cons.mp ascii
    rw [uppercase, flatMap_cons, unicode.upper_ascii c first, ← uppercase, ih later]
    rfl

theorem uppercase_spelled (spelled : Text.upper text = word)
    (ascii : (word.all fun c => c.toNat < 128) = true) : unicode.uppercase text = word :=
  (unicode.uppercase_of_ascii (ascii_of_spelled spelled ascii)).trans spelled

def lowerLength (text : List Char) : Nat := (text.map unicode.width).sum

theorem length_lowercase (text : List Char) :
    (unicode.lowercase text).length = unicode.lowerLength text := by
  obtain ⟨images, related, same⟩ := unicode.images text
  rw [same, lowerLength]
  clear same
  induction related with
  | nil => rfl
  | cons image _ ih => simp [image.length, ih]

theorem lowerLength_sublist (sub : a.Sublist b) :
    unicode.lowerLength a ≤ unicode.lowerLength b :=
  (sub.map unicode.width).sum_le_sum fun _ _ => zero_le _

@[simp] theorem lowerLength_append (a b : List Char) :
    unicode.lowerLength (a ++ b) = unicode.lowerLength a + unicode.lowerLength b := by
  simp [lowerLength]

@[simp] theorem lowerLength_cons (c : Char) (text : List Char) :
    unicode.lowerLength (c :: text) = unicode.width c + unicode.lowerLength text := by
  simp [lowerLength]

theorem eq_of_lowerLength (sub : a.Sublist b) (long : unicode.lowerLength b ≤ unicode.lowerLength a) :
    a = b := by
  induction sub with
  | slnil => rfl
  | cons c sub ih =>
    have shorter := unicode.lowerLength_sublist sub
    have positive := unicode.width_pos c
    rw [lowerLength_cons] at long
    omega
  | cons_cons c sub ih =>
    rw [lowerLength_cons, lowerLength_cons] at long
    rw [ih (by omega)]

theorem lowercase_cons (c : Char) (text : List Char) :
    ∃ image rest, unicode.lowercase (c :: text) = image ++ rest ∧ LowerImage (unicode.width c) c image := by
  obtain ⟨images, related, same⟩ := unicode.images (c :: text)
  cases related with
  | @cons _ image _ images first _ => exact ⟨image, images.flatten, by rw [same, flatten_cons], first⟩

theorem quote_mem_lowercase : '"' ∈ unicode.lowercase text ↔ '"' ∈ text := by
  obtain ⟨images, related, same⟩ := unicode.images text
  rw [same]
  clear same
  induction related with
  | nil => simp
  | @cons c image text images first _ ih =>
    have here : '"' ∈ image ↔ c = '"' := by
      constructor
      · exact first.quote
      · rintro rfl
        rw [first.ascii (by decide)]
        decide
    rw [flatten_cons, mem_append, ih, here, mem_cons, eq_comm]

theorem width_of_ascii (ascii : c.toNat < 128) : unicode.width c = 1 := by
  obtain ⟨image, rest, _, first⟩ := unicode.lowercase_cons c []
  rw [← first.length, first.ascii ascii]
  rfl

theorem lowerLength_of_ascii (ascii : ∀ c ∈ text, c.toNat < 128) :
    unicode.lowerLength text = text.length := by
  induction text with
  | nil => rfl
  | cons c rest ih =>
    obtain ⟨first, later⟩ := forall_mem_cons.mp ascii
    rw [lowerLength_cons, unicode.width_of_ascii first, ih later, length_cons, add_comm]

theorem mem_lowercase (ascii : c.toNat < 128) (caseless : c.toLower = c) (member : c ∈ text) :
    c ∈ unicode.lowercase text := by
  obtain ⟨images, related, same⟩ := unicode.images text
  rw [same]
  clear same
  induction related with
  | nil => cases member
  | @cons d image rest images first _ ih =>
    rw [flatten_cons]
    rcases mem_cons.mp member with rfl | later
    · rw [first.ascii ascii, caseless]
      exact mem_cons_self
    · exact mem_append_right image (ih later)

/-- The lower case of ASCII characters at the start does not depend on what follows. -/
theorem lowercase_ascii_append (ascii : ∀ c ∈ front, c.toNat < 128) (rest : List Char) :
    ∃ later, unicode.lowercase (front ++ rest) = lower front ++ later := by
  obtain ⟨images, related, same⟩ := unicode.images (front ++ rest)
  rw [same]
  clear same
  induction front generalizing images with
  | nil => exact ⟨images.flatten, rfl⟩
  | cons c front ih =>
    obtain ⟨first, others⟩ := forall_mem_cons.mp ascii
    cases related with
    | @cons _ image _ images image_c related =>
      obtain ⟨later, tail⟩ := ih others _ related
      exact ⟨later, by rw [flatten_cons, image_c.ascii first, tail]; rfl⟩

theorem lowercase_of_ascii (ascii : ∀ c ∈ text, c.toNat < 128) :
    unicode.lowercase text = lower text := by
  obtain ⟨later, same⟩ := unicode.lowercase_ascii_append ascii []
  have long := unicode.length_lowercase text
  rw [append_nil] at same
  rw [unicode.lowerLength_of_ascii ascii, same] at long
  simp only [lower, length_append, length_map, Nat.add_eq_left, length_eq_zero_iff] at long
  rw [same, long, append_nil]

end CaseMapping

/-- Case mappings and the classes of characters that names are made of. -/
structure CharData extends CaseMapping where
  alphabetic : Char → Bool
  numeric : Char → Bool
  alphabetic_ascii : ∀ c : Char, c.toNat < 128 → alphabetic c = c.isAlpha
  numeric_ascii : ∀ c : Char, c.toNat < 128 → numeric c = c.isDigit

def CharData.alphanumeric (unicode : CharData) (c : Char) : Bool :=
  unicode.alphabetic c || unicode.numeric c

end Unicode
