import Mathlib.Algebra.Order.Ring.Nat
import Mathlib.Data.List.TakeWhile

/-! Text functions of the standard library over character lists: case folding, trimming, searching,
splitting, decimal parsing with the range check of a fixed-width integer, and the quoted form of a
text in messages. -/
namespace Text

open Option Char Nat

open List hiding after

def lower (text : List Char) : List Char := text.map toLower

theorem toLower_eq {c d : Char} (other : d.isLower = false) (same : c.toLower = d) : c = d := by
  subst same
  unfold toLower at other ⊢
  split at other
  · have range : ∀ d : Char, d.isLower = (decide (97 ≤ d.val) && decide (d.val ≤ 122)) :=
      fun _ => rfl
    simp [range] at other
    grind
  · rename_i unchanged
    rw [dif_neg unchanged]

theorem mem_of_mem_lower {text : List Char} (other : d.isLower = false) (member : d ∈ lower text) :
    d ∈ text := by
  obtain ⟨c, present, same⟩ := mem_map.mp member
  rwa [← toLower_eq other same]

def upper (text : List Char) : List Char := text.map toUpper

theorem toUpper_eq {c d : Char} (same : c.toUpper = d) : c = d ∨ c = d.toLower := by
  subst same
  unfold toUpper
  split
  · rename_i range
    have upper : 'A'.val ≤ c.val + ('A'.val - 'a'.val) ∧ c.val + ('A'.val - 'a'.val) ≤ 'Z'.val := by
      simp at range ⊢
      grind
    refine .inr ?_
    unfold toLower
    rw [dif_pos upper]
    apply Char.ext
    simp
    grind
  · exact .inl rfl

theorem ascii_of_toUpper {c : Char} (ascii : c.toUpper.toNat < 128) : c.toNat < 128 := by
  unfold toUpper at ascii
  split at ascii
  · rename_i range
    have le : c.val.toNat ≤ 122 := UInt32.le_iff_toNat_le.mp range.2
    exact lt_of_le_of_lt le (by decide)
  · exact ascii

theorem ascii_of_toLower {c : Char} (ascii : c.toLower.toNat < 128) : c.toNat < 128 := by
  unfold toLower at ascii
  split at ascii
  · rename_i range
    have le : c.val.toNat ≤ 90 := UInt32.le_iff_toNat_le.mp range.2
    exact lt_of_le_of_lt le (by decide)
  · exact ascii

theorem toLower_ascii {c : Char} (ascii : c.toNat < 128) : c.toLower.toNat < 128 := by
  unfold toLower
  split
  · rename_i range
    have le : c.val.toNat ≤ 90 := UInt32.le_iff_toNat_le.mp range.2
    have step : (32 : UInt32).toNat = 32 := rfl
    show (c.val + 32).toNat < 128
    rw [UInt32.toNat_add, step]
    omega
  · exact ascii

theorem toLower_toLower (c : Char) : c.toLower.toLower = c.toLower := by
  by_cases ascii : c.toNat < 128
  · have all : ∀ n : Fin 128, (ofNat n).toLower.toLower = (ofNat n).toLower := by decide +kernel
    have here := all ⟨c.toNat, ascii⟩
    rwa [ofNat_toNat] at here
  · have same : c.toLower = c := by
      unfold toLower
      split
      · rename_i range
        have le : c.toNat ≤ 90 := UInt32.le_iff_toNat_le.mp range.2
        omega
      · rfl
    rw [same, same]

def isSpace (c : Char) : Bool :=
  let n := c.toNat
  9 ≤ n && n ≤ 13 || n = 0x20 || n = 0x85 || n = 0xA0 || n = 0x1680 ||
    0x2000 ≤ n && n ≤ 0x200A || n = 0x2028 || n = 0x2029 || n = 0x202F || n = 0x205F || n = 0x3000

theorem toLower_of_space (space : isSpace c = true) : c.toLower = c := by
  unfold toLower
  split
  · rename_i range
    have ge : 65 ≤ c.toNat := UInt32.le_iff_toNat_le.mp range.1
    have le : c.toNat ≤ 90 := UInt32.le_iff_toNat_le.mp range.2
    simp only [isSpace, Bool.or_eq_true, Bool.and_eq_true, decide_eq_true_eq] at space
    omega
  · rfl

def dropEndWhile (p : Char → Bool) (text : List Char) : List Char :=
  (text.reverse.dropWhile p).reverse

theorem dropEndWhile_initial (p : Char → Bool) (text : List Char) : dropEndWhile p text <+: text := by
  rw [dropEndWhile, ← reverse_suffix, reverse_reverse]
  exact dropWhile_suffix p

def trimStart (text : List Char) : List Char := text.dropWhile isSpace

def trim (text : List Char) : List Char := dropEndWhile isSpace (trimStart text)

theorem trim_prefix (visible : isSpace c = false) :
    trim (c :: rest) <+: c :: rest := by
  have kept : trimStart (c :: rest) = c :: rest := by simp [trimStart, visible]
  rw [trim, kept]
  exact dropEndWhile_initial _ _

theorem trim_self (start : ∀ c, text.head? = some c → isSpace c = false)
    (stop : ∀ c, text.getLast? = some c → isSpace c = false) : trim text = text := by
  have left : trimStart text = text := by
    cases text with
    | nil => rfl
    | cons c rest => simp [trimStart, start c rfl]
  have right : text.reverse.dropWhile isSpace = text.reverse := by
    cases back : text.reverse with
    | nil => rfl
    | cons c rest =>
      have last : text.getLast? = some c := by rw [getLast?_eq_head?_reverse, back]; rfl
      simp [stop c last]
  rw [trim, left, dropEndWhile, right, reverse_reverse]

theorem dropEndWhile_append (all : ∀ c ∈ back, p c = true) (text : List Char) :
    dropEndWhile p (text ++ back) = dropEndWhile p text := by
  have reversed : ∀ c ∈ back.reverse, p c = true := fun c member => all c (mem_reverse.mp member)
  rw [dropEndWhile, reverse_append, dropWhile_append_of_pos reversed, ← dropEndWhile]

theorem dropEndWhile_stop (stays : p c = false) (front back : List Char) :
    dropEndWhile p (front ++ c :: back) = front ++ c :: dropEndWhile p back := by
  rw [dropEndWhile, reverse_append, reverse_cons, append_assoc, dropWhile_append]
  split
  · rename_i empty
    have all : dropEndWhile p back = [] := by rw [dropEndWhile, isEmpty_iff.mp empty]; rfl
    simp [all, stays]
  · simp [dropEndWhile]

theorem trim_spaces (spaces : ∀ c ∈ gap, isSpace c = true) (text : List Char) :
    trim (gap ++ text) = trim text := by
  rw [trim, trimStart, dropWhile_append_of_pos spaces, ← trimStart, ← trim]

theorem trim_append_spaces (spaces : ∀ c ∈ back, isSpace c = true) (text : List Char) :
    trim (text ++ back) = trim text := by
  rw [trim, trimStart, dropWhile_append]
  split
  · rename_i empty
    have none : back.dropWhile isSpace = [] := dropWhile_eq_nil_iff.mpr spaces
    rw [none, trim, trimStart, isEmpty_iff.mp empty]
  · exact dropEndWhile_append spaces _

theorem trim_visible (visible : isSpace c = false) (rest : List Char) :
    trim (c :: rest) = c :: dropEndWhile isSpace rest := by
  have kept : trimStart (c :: rest) = c :: rest := by simp [trimStart, visible]
  rw [trim, kept]
  exact dropEndWhile_stop visible [] rest

theorem trim_append_visible (start : ∀ c, (front ++ text).head? = some c → isSpace c = false)
    (stop : ∀ c, front.getLast? = some c → isSpace c = false) :
    trim (front ++ text) = front ++ dropEndWhile isSpace text := by
  have kept : trimStart (front ++ text) = front ++ text := by
    cases joined : front ++ text with
    | nil => rfl
    | cons c rest => simp [trimStart, start c (by rw [joined]; rfl)]
  rw [trim, kept]
  rcases eq_nil_or_concat front with rfl | ⟨init, last, rfl⟩
  · rfl
  · rw [concat_eq_append] at stop ⊢
    rw [append_assoc, singleton_append, dropEndWhile_stop (stop last getLast?_concat), append_cons]

theorem trim_sublist (text : List Char) : (trim text).Sublist text :=
  (dropEndWhile_initial _ _).sublist.trans (dropWhile_sublist _)

theorem filter_trim (text : List Char) :
    (trim text).filter (!isSpace ·) = text.filter (!isSpace ·) := by
  have start : ∀ text : List Char,
      (text.dropWhile isSpace).filter (!isSpace ·) = text.filter (!isSpace ·) := by
    intro text
    induction text with
    | nil => rfl
    | cons c rest ih =>
      by_cases space : isSpace c = true
      · simp [space, ih]
      · simp [space]
  rw [trim, dropEndWhile, filter_reverse, start, ← filter_reverse, reverse_reverse,
    trimStart, start]

theorem trim_trim (text : List Char) : trim (trim text) = trim text := by
  have visible : ∀ (text : List Char) (c : Char),
      (text.dropWhile isSpace).head? = some c → isSpace c = false := by
    intro text c first
    have stops := head?_dropWhile_not isSpace text
    rwa [first] at stops
  apply trim_self
  · intro c first
    obtain ⟨rest, same⟩ : ∃ rest, trim text = c :: rest := head?_eq_some_iff.mp first
    obtain ⟨back, whole⟩ := dropEndWhile_initial isSpace (trimStart text)
    rw [← trim, same] at whole
    exact visible text c (by rw [← trimStart, ← whole]; rfl)
  · intro c last
    rw [trim, dropEndWhile, getLast?_reverse] at last
    exact visible _ c last

/-- Drop a character at both ends as often as it stands there. -/
def trimMatches (c : Char) (text : List Char) : List Char :=
  dropEndWhile (· = c) (text.dropWhile (· = c))

theorem dropEndWhile_split (p : Char → Bool) (text : List Char) :
    ∃ back, (∀ c ∈ back, p c = true) ∧ text = dropEndWhile p text ++ back := by
  refine ⟨(text.reverse.takeWhile p).reverse, fun c member => ?_, ?_⟩
  · exact mem_takeWhile_imp (mem_reverse.mp member)
  · rw [dropEndWhile, ← reverse_append, takeWhile_append_dropWhile, reverse_reverse]

theorem trimMatches_open (all : ∀ d ∈ opening, d = c) (text : List Char) :
    trimMatches c (opening ++ text) = trimMatches c text := by
  rw [trimMatches, dropWhile_append_of_pos (by simpa using all), ← trimMatches]

theorem trimMatches_close (all : ∀ d ∈ closing, d = c) (text : List Char) :
    trimMatches c (text ++ closing) = trimMatches c text := by
  rw [trimMatches, trimMatches, dropWhile_append]
  split
  · rename_i empty
    have none : closing.dropWhile (· = c) = [] := dropWhile_eq_nil_iff.mpr (by simpa using all)
    rw [none, isEmpty_iff.mp empty]
  · exact dropEndWhile_append (by simpa using all) _

theorem trimMatches_self (start : text.head? ≠ some c) (stop : text.getLast? ≠ some c) :
    trimMatches c text = text := by
  have same : ∀ text : List Char, text.head? ≠ some c → text.dropWhile (· = c) = text := by
    intro text first
    cases text with
    | nil => rfl
    | cons d rest =>
      have other : d ≠ c := fun same => first (same ▸ rfl)
      simp [other]
  rw [trimMatches, same text start, dropEndWhile, same _ (by rwa [head?_reverse]), reverse_reverse]

theorem trimMatches_of_not_mem (absent : c ∉ text) :
    trimMatches c text = text :=
  trimMatches_self (fun first => absent (mem_of_mem_head? first))
    fun last => absent (mem_of_getLast? last)

theorem trimMatches_sublist (c : Char) (text : List Char) : (trimMatches c text).Sublist text :=
  (dropEndWhile_initial _ _).sublist.trans (dropWhile_sublist _)

def stripPrefix (start text : List Char) : Option (List Char) :=
  if start.isPrefixOf text then some (text.drop start.length) else none

def find (pattern : List Char) : List Char → Option Nat
  | [] => if pattern.isEmpty then some 0 else none
  | c :: rest =>
    if pattern.isPrefixOf (c :: rest) then some 0 else (find pattern rest).map (· + 1)

def contains (pattern text : List Char) : Bool := (find pattern text).isSome

theorem contains_iff : contains pattern text = true ↔ pattern <:+: text := by
  induction text with
  | nil => cases pattern <;> simp [contains, find]
  | cons c rest ih =>
    have next : contains pattern (c :: rest) = true ↔
        pattern <+: c :: rest ∨ contains pattern rest = true := by
      simp only [contains, find]
      split
      · rename_i starts
        simp [List.isPrefixOf_iff_prefix.mp starts]
      · rename_i starts
        have apart : ¬ pattern <+: c :: rest := fun h => starts (List.isPrefixOf_iff_prefix.mpr h)
        simp [apart]
    rw [next, ih, infix_cons_iff]

/-- A character foreign to a pattern ends what the pattern can match from the start. -/
theorem prefix_of_foreign (foreign : c ∉ pattern) (starts : pattern <+: before ++ c :: after) :
    pattern <+: before := by
  induction pattern generalizing before with
  | nil => exact nil_prefix
  | cons d pattern ih =>
    cases before with
    | nil =>
      have same : d = c := (cons_prefix_cons.mp starts).1
      exact absurd (same ▸ mem_cons_self) foreign
    | cons e before =>
      obtain ⟨same, rest⟩ := cons_prefix_cons.mp starts
      have later : c ∉ pattern := fun member => foreign (mem_cons_of_mem _ member)
      exact cons_prefix_cons.mpr ⟨same, ih later rest⟩

theorem infix_of_foreign (foreign : c ∉ pattern) (occurs : pattern <:+: before ++ c :: after) :
    pattern <:+: before ∨ pattern <:+: after := by
  induction before with
  | nil =>
    rcases infix_cons_iff.mp occurs with starts | later
    · have early : pattern <+: [] := prefix_of_foreign foreign starts
      exact .inl early.isInfix
    · exact .inr later
  | cons d before ih =>
    rcases infix_cons_iff.mp occurs with starts | later
    · have early : pattern <+: d :: before := prefix_of_foreign foreign starts
      exact .inl early.isInfix
    · rcases ih later with early | late
      · exact .inl (infix_cons early)
      · exact .inr late

theorem find_of_prefix (starts : pattern <+: text) : find pattern text = some 0 := by
  cases text with
  | nil =>
    rw [prefix_nil.mp starts]
    rfl
  | cons c rest => rw [find, if_pos (List.isPrefixOf_iff_prefix.mpr starts)]

/-- The search goes on after a text without an occurrence and a character foreign to the pattern. -/
theorem find_skip (nonempty : pattern ≠ []) (foreign : c ∉ pattern)
    (absent : contains pattern before = false) (after : List Char) :
    find pattern (before ++ c :: after) = (find pattern after).map (· + (before.length + 1)) := by
  induction before with
  | nil =>
    have later : ¬ pattern.isPrefixOf (c :: after) = true := by
      intro starts
      have early : pattern <+: [] := prefix_of_foreign foreign (List.isPrefixOf_iff_prefix.mp starts)
      exact nonempty (prefix_nil.mp early)
    rw [nil_append, find, if_neg later]
    rfl
  | cons d before ih =>
    have missing : ¬ pattern <:+: d :: before := by
      rw [← contains_iff, absent]
      exact Bool.false_ne_true
    have rest : contains pattern before = false := by
      rw [Bool.eq_false_iff, Ne, contains_iff]
      exact fun occurs => missing (infix_cons occurs)
    have later : ¬ pattern.isPrefixOf (d :: (before ++ c :: after)) = true := by
      intro starts
      have early : pattern <+: d :: before :=
        prefix_of_foreign foreign (List.isPrefixOf_iff_prefix.mp starts)
      exact missing early.isInfix
    rw [cons_append, find, if_neg later, ih rest, Option.map_map]
    rfl

theorem map_intercalate (convert : Char → Char) (sep : List Char) (words : List (List Char)) :
    (sep.intercalate words).map convert =
      (sep.map convert).intercalate (words.map (List.map convert)) := by
  induction words with
  | nil => rfl
  | cons word rest ih =>
    cases rest with
    | nil => simp [intercalate_singleton]
    | cons next rest =>
      simp [ih]

theorem filter_intercalate {sep : Char} :
    ([sep].intercalate words).filter (· ≠ sep) = words.flatten.filter (· ≠ sep) := by
  induction words with
  | nil => rfl
  | cons word rest ih =>
    cases rest with
    | nil => simp [intercalate_singleton]
    | cons next rest =>
      rw [intercalate_cons_cons, filter_append, filter_append, ih, flatten_cons, filter_append]
      simp

theorem filter_splitOn (sep : Char) (text : List Char) :
    (text.splitOn sep).flatten.filter (· ≠ sep) = text.filter (· ≠ sep) := by
  rw [← filter_intercalate, intercalate_splitOn]

/-- A pattern without the separator occurs in a sequence of words only inside a word. -/
theorem not_contains_words (nonempty : pattern ≠ []) (foreign : sep ∉ pattern)
    (free : ∀ word ∈ words, contains pattern word = false) :
    contains pattern ([sep].intercalate words) = false := by
  induction words with
  | nil => simpa [contains, find, List.isEmpty_iff] using nonempty
  | cons word rest ih =>
    have first := free word mem_cons_self
    cases rest with
    | nil => simpa [intercalate_singleton] using first
    | cons next rest =>
      have later := ih fun w member => free w (mem_cons_of_mem _ member)
      rw [← Bool.not_eq_true, contains_iff] at first later ⊢
      intro occurs
      rw [intercalate_cons_cons, append_assoc, singleton_append] at occurs
      rcases infix_of_foreign foreign occurs with early | late
      · exact first early
      · exact later late

theorem not_contains_of_head (absent : c ∉ text) :
    contains (c :: pattern) text = false := by
  rw [← Bool.not_eq_true, contains_iff]
  exact fun occurs => absent (occurs.subset mem_cons_self)

theorem contains_of_longer (suffix : List Char) (longer : contains (pattern ++ suffix) text = true) :
    contains pattern text = true := by
  rw [contains_iff] at longer ⊢
  exact (prefix_append pattern suffix).isInfix.trans longer

theorem prefix_append_or (starts : front <+: a ++ b) :
    front <+: a ∨ ∃ rest, front = a ++ rest ∧ rest <+: b := by
  rcases prefix_or_prefix_of_prefix starts (prefix_append a b) with first | ⟨rest, rfl⟩
  · exact .inl first
  · exact .inr ⟨rest, rfl, (prefix_append_right_inj a).mp starts⟩

def splitOnce (sep : Char) : List Char → Option (List Char × List Char)
  | [] => none
  | c :: rest =>
    if c = sep then some ([], rest)
    else (splitOnce sep rest).map fun (before, after) => (c :: before, after)

theorem splitOnce_append (absent : sep ∉ before) (after : List Char) :
    splitOnce sep (before ++ sep :: after) = some (before, after) := by
  induction before with
  | nil => simp [splitOnce]
  | cons c rest ih =>
    have other : c ≠ sep := fun same => absent (same ▸ mem_cons_self)
    rw [cons_append, splitOnce, if_neg other, ih fun member => absent (mem_cons_of_mem _ member)]
    rfl

theorem splitOnce_none (absent : sep ∉ text) :
    splitOnce sep text = none := by
  induction text with
  | nil => rfl
  | cons c rest ih =>
    have other : c ≠ sep := fun same => absent (same ▸ mem_cons_self)
    rw [splitOnce, if_neg other, ih fun member => absent (mem_cons_of_mem _ member)]
    rfl

/-- At most `n` pieces; the last one keeps any further separators. -/
def splitn (sep : Char) : Nat → List Char → List (List Char)
  | 0, _ => []
  | 1, text => [text]
  | n + 2, text =>
    match splitOnce sep text with
    | none => [text]
    | some (before, after) => before :: splitn sep (n + 1) after

def rsplitOnce (sep : Char) (text : List Char) : Option (List Char × List Char) :=
  (splitOnce sep text.reverse).map fun (after, before) => (before.reverse, after.reverse)

def rsplitAt (pattern : List Char) : List Char → Option (List Char × List Char)
  | [] => (stripPrefix pattern []).map fun after => ([], after)
  | c :: rest =>
    match rsplitAt pattern rest with
    | some (before, after) => some (c :: before, after)
    | none => (stripPrefix pattern (c :: rest)).map fun after => ([], after)

theorem stripPrefix_eq_some :
    stripPrefix start text = some after ↔ text = start ++ after := by
  simp only [stripPrefix]
  constructor
  · intro found
    split at found
    · rename_i starts
      obtain ⟨rest, rfl⟩ := isPrefixOf_iff_prefix.mp starts
      simpa using found
    · contradiction
  · rintro rfl
    rw [if_pos (List.isPrefixOf_iff_prefix.mpr (prefix_append start after)), drop_left]

theorem rsplitAt_eq (split : rsplitAt pattern text = some (before, after)) :
    text = before ++ pattern ++ after := by
  have here : ∀ {text before : List Char}, (stripPrefix pattern text).map (fun after => ([], after)) =
      some (before, after) → text = before ++ pattern ++ after := by
    intro text before found
    obtain ⟨rest, stripped, same⟩ := map_eq_some_iff.mp found
    cases same
    simpa using stripPrefix_eq_some.mp stripped
  induction text generalizing before with
  | nil => exact here split
  | cons c rest ih =>
    simp only [rsplitAt] at split
    split at split
    · rename_i before' after' later
      cases split
      rw [ih later, cons_append, cons_append]
    · exact here split

theorem rsplitAt_none (absent : c ∉ text) :
    rsplitAt (c :: pattern) text = none := by
  induction text with
  | nil => rfl
  | cons d rest ih =>
    have other : c ≠ d := fun same => absent (same ▸ mem_cons_self)
    have later := ih fun member => absent (mem_cons_of_mem _ member)
    simp [rsplitAt, later, stripPrefix, isPrefixOf, other]

/-- The last occurrence is the one that nothing of the pattern's first character follows. -/
theorem rsplitAt_append {c : Char} {pattern before after : List Char} (inner : c ∉ pattern)
    (absent : c ∉ after) :
    rsplitAt (c :: pattern) (before ++ c :: (pattern ++ after)) = some (before, after) := by
  induction before with
  | nil =>
    have rest : rsplitAt (c :: pattern) (pattern ++ after) = none :=
      rsplitAt_none fun member => (mem_append.mp member).elim inner absent
    have whole : stripPrefix (c :: pattern) (c :: (pattern ++ after)) = some after :=
      stripPrefix_eq_some.mpr rfl
    simp [rsplitAt, rest, whole]
  | cons d before ih => simp only [cons_append, rsplitAt, ih]

def undouble (q : Char) : List Char → List Char
  | [] => []
  | [c] => [c]
  | c :: d :: rest => if c = q ∧ d = q then q :: undouble q rest else c :: undouble q (d :: rest)

def double (q : Char) : List Char → List Char
  | [] => []
  | c :: rest => if c = q then q :: q :: double q rest else c :: double q rest

def digitsFrom (acc : Nat) : List Char → Option Nat
  | [] => some acc
  | c :: rest => if c.isDigit then digitsFrom (acc * 10 + (c.toNat - 48)) rest else none

def parseDigits : List Char → Option Nat
  | [] => none
  | text => digitsFrom 0 text

theorem digitsFrom_eq (digits : ∀ c ∈ text, c.isDigit = true) (acc : Nat) :
    digitsFrom acc text = some (ofDigitChars 10 text acc) := by
  induction text generalizing acc with
  | nil => rfl
  | cons c rest ih =>
    obtain ⟨first, later⟩ := forall_mem_cons.mp digits
    rw [digitsFrom, if_pos first, ih later, ofDigitChars_cons, mul_comm]
    rfl

theorem parseDigits_toDigits (n : Nat) : parseDigits (toDigits 10 n) = some n := by
  have digits : ∀ c ∈ toDigits 10 n, c.isDigit = true :=
    fun c member => isDigit_of_mem_toDigits (by decide) (by decide) member
  cases written : toDigits 10 n with
  | nil => exact absurd written toDigits_ne_nil
  | cons c rest =>
    rw [parseDigits, ← written, digitsFrom_eq digits, ofDigitChars_ten_toDigits]
    exact cons_ne_nil c rest

theorem digitsFrom_spec (parsed : digitsFrom acc text = some n) :
    (∀ c ∈ text, c.isDigit = true) ∧ n < (acc + 1) * 10 ^ text.length := by
  induction text generalizing acc with
  | nil =>
    cases parsed
    exact ⟨nofun, by simp⟩
  | cons c rest ih =>
    rw [digitsFrom] at parsed
    split at parsed
    · rename_i digit
      obtain ⟨digits, bound⟩ := ih parsed
      have single : c.toNat - 48 ≤ 9 := by
        simp only [isDigit, Bool.and_eq_true, decide_eq_true_eq, UInt32.le_iff_toNat_le] at digit
        have le : c.toNat ≤ 57 := digit.2
        omega
      refine ⟨forall_mem_cons.mpr ⟨digit, digits⟩, bound.trans_le ?_⟩
      rw [length_cons, pow_succ, ← mul_assoc, mul_right_comm]
      exact mul_le_mul_right _ (by omega)
    · cases parsed

theorem parseDigits_spec (parsed : parseDigits text = some n) :
    (∀ c ∈ text, c.isDigit = true) ∧ n < 10 ^ text.length := by
  cases text with
  | nil => cases parsed
  | cons c rest =>
    obtain ⟨digits, bound⟩ := digitsFrom_spec parsed
    exact ⟨digits, by simpa using bound⟩

/-- Unsigned parsing below a bound: an optional plus sign and at least one digit. -/
def parseUnsigned (bound : Nat) (text : List Char) : Option Nat :=
  let digits := match text with
    | '+' :: rest => rest
    | _ => text
  (parseDigits digits).filter fun n => n < bound

def parseSigned (bound : Int) (text : List Char) : Option Int :=
  let parsed : Option Int := match text with
    | '-' :: rest => (parseDigits rest).map fun n => -(n : Int)
    | '+' :: rest => (parseDigits rest).map Int.ofNat
    | _ => (parseDigits text).map Int.ofNat
  parsed.filter fun n => -bound ≤ n && n < bound

/-- A signed number is written with digits and a sign, and its size is bounded by the length. -/
theorem parseSigned_spec (parsed : parseSigned bound text = some n) :
    (∀ c ∈ text, c.isDigit = true ∨ c = '-' ∨ c = '+') ∧ n.natAbs < 10 ^ text.length := by
  have longer : ∀ {m k : Nat} (rest : List Char) (c : Char), m < 10 ^ rest.length → k = m →
      k < 10 ^ (c :: rest).length := by
    intro m k rest c small same
    exact same ▸ small.trans (Nat.pow_lt_pow_right (by decide) (Nat.lt_succ_self _))
  obtain ⟨parsed, _⟩ := filter_eq_some_iff.mp parsed
  split at parsed
  · rename_i rest _
    obtain ⟨k, lifted, rfl⟩ := map_eq_some_iff.mp parsed
    obtain ⟨m, read, same⟩ := bind_eq_some_iff.mp lifted
    cases same
    obtain ⟨digits, small⟩ := parseDigits_spec read
    exact ⟨forall_mem_cons.mpr ⟨.inr (.inl rfl), fun c member => .inl (digits c member)⟩,
      longer rest _ small (by simp)⟩
  · rename_i rest _
    obtain ⟨m, read, rfl⟩ := map_eq_some_iff.mp parsed
    obtain ⟨digits, small⟩ := parseDigits_spec read
    exact ⟨forall_mem_cons.mpr ⟨.inr (.inr rfl), fun c member => .inl (digits c member)⟩,
      longer rest _ small rfl⟩
  · obtain ⟨m, read, rfl⟩ := map_eq_some_iff.mp parsed
    obtain ⟨digits, small⟩ := parseDigits_spec read
    exact ⟨fun c member => .inl (digits c member), small⟩

def escapeChar : Char → List Char
  | '"' => ['\\', '"']
  | '\\' => ['\\', '\\']
  | '\n' => ['\\', 'n']
  | '\r' => ['\\', 'r']
  | '\t' => ['\\', 't']
  | '\x00' => ['\\', '0']
  | c => [c]

/-- The quoted form of a text. Unprintable characters other than the named ones stay as they are. -/
def quoted (text : String) : String :=
  String.ofList ('"' :: text.toList.flatMap escapeChar ++ ['"'])

end Text
