import RockLake.Lib.Unicode
import RockLake.Sql.Classifier

/-! Normalization cuts `public` qualifiers out of a text, byte by byte. It panics in the middle of the
first character that has more than one byte, and it does not look at what stands around a qualifier. -/
namespace RockLake.Normalization

open Text Unicode List Classifier Nat

def lowerByte (byte : UInt8) : UInt8 := if 65 ≤ byte && byte ≤ 90 then byte + 32 else byte

def schemaPrefixLen (s : List UInt8) : Option Nat :=
  if (encode "\"public\".".toList).isPrefixOf s then some 9
  else if (encode "public.".toList).isPrefixOf s then some 7
  else none

/-- The loop over the bytes. Looking at the rest of the text from the middle of a character is a panic.
Every byte that stays becomes a character of its own. The number of bytes bounds the number of steps. -/
def stripPublicSchemaPrefix : Nat → List UInt8 → Option (List Char)
  | _, [] => some []
  | 0, _ :: _ => some []
  | fuel + 1, byte :: rest =>
    if isContinuation byte then none
    else match schemaPrefixLen ((byte :: rest).map lowerByte) with
      | some skip => stripPublicSchemaPrefix fuel ((byte :: rest).drop skip)
      | none => (stripPublicSchemaPrefix fuel rest).map (Char.ofNat byte.toNat :: ·)

def containsSchemaQualifiedDucklake (sql : List Char) : Bool :=
  let low := lower sql
  contains "public".toList low &&
    (contains "\"public\".\"ducklake_".toList low || contains "\"public\".ducklake_".toList low ||
      contains "public.ducklake_".toList low)

def normalizeSql (sql : List Char) : Option (List Char) :=
  if containsSchemaQualifiedDucklake sql then
    stripPublicSchemaPrefix (encode sql).length (encode sql)
  else some sql

/-! What may be removed. -/

def IsQualifier (removed : List Char) : Prop :=
  lower removed = "\"public\".".toList ∨ lower removed = "public.".toList

/-- Where a text ends: in code, in a string literal, or in a quoted identifier. -/
inductive Lexical where
  | code | literal | identifier
  deriving DecidableEq

def Lexical.next : Lexical → Char → Lexical
  | .code, c => if c = '\'' then .literal else if c = '"' then .identifier else .code
  | .literal, c => if c = '\'' then .code else .literal
  | .identifier, c => if c = '"' then .code else .identifier

def lexical (text : List Char) : Lexical := text.foldl Lexical.next .code

def isWord (c : Char) : Bool := c.isAlphanum || c = '_' || c = '$' || 128 ≤ c.toNat

/-- The text starts with the name of a DuckLake or PostgreSQL table, bare or in quotes. -/
def startsTable (text : List Char) : Bool :=
  ["ducklake_", "\"ducklake_", "pg_", "\"pg_"].any fun word => word.toList.isPrefixOf (lower text)

/-- A whole qualifier outside of literals and identifiers, right before the name of a table. Two quotes in
a row stand within an identifier. -/
structure Qualifies (before removed after : List Char) : Prop where
  code : lexical before = .code
  whole : ∀ c, before.getLast? = some c → if removed.head? = some '"' then c ≠ '"' else isWord c = false
  table : startsTable after = true

/-- The second text is what is left of the first, after another text, when some qualifiers are taken
out. -/
inductive Strips : List Char → List Char → List Char → Prop where
  | done {before} : Strips before [] []
  | keep {before text out} {c : Char} : Strips (before ++ [c]) text out →
      Strips before (c :: text) (c :: out)
  | strip {before removed text out} : IsQualifier removed → Qualifies before removed text →
      Strips (before ++ removed) text out → Strips before (removed ++ text) out

/-- Every qualifier in the text, after another text, is a whole one right before a table. -/
def AllQualify (before text : List Char) : Prop :=
  ∀ front removed after, text = front ++ (removed ++ after) → IsQualifier removed →
    Qualifies (before ++ front) removed after

/-! The loop over the bytes against the scan over the characters. -/

variable {c d : Char} {pattern text before after removed out : List Char}

theorem IsQualifier.ascii (qualifier : IsQualifier removed) : ∀ c ∈ removed, c.toNat < 128 := by
  intro c member
  have lowered : c.toLower ∈ lower removed := mem_map_of_mem member
  have low : ∀ word : List Char, (word.all fun c => c.toNat < 128) = true → c.toLower ∈ word →
      c.toNat < 128 := fun word all inWord =>
    ascii_of_toLower (of_decide_eq_true (all_eq_true.mp all _ inWord))
  rcases qualifier with quoted | bare
  · exact low _ (by decide) (quoted ▸ lowered)
  · exact low _ (by decide) (bare ▸ lowered)

def qualifierLength (text : List Char) : Option Nat :=
  if "\"public\".".toList.isPrefixOf (lower text) then some 9
  else if "public.".toList.isPrefixOf (lower text) then some 7
  else none

theorem dropPublic_eq (text : List Char) :
    dropPublic text = (qualifierLength text).map (text.drop ·) := by
  simp only [dropPublic, qualifierLength]
  split
  · rfl
  · split <;> rfl

theorem qualifierLength_append (qualifier : IsQualifier removed) (after : List Char) :
    qualifierLength (removed ++ after) = some removed.length := by
  have lowered : lower (removed ++ after) = lower removed ++ lower after := map_append
  have length : removed.length = (lower removed).length := by rw [lower, length_map]
  rw [qualifierLength, lowered, length]
  rcases qualifier with same | same
  · rw [same]
    rfl
  · rw [same]
    rfl

theorem qualifierLength_eq_some (found : qualifierLength text = some n) :
    ∃ removed after, IsQualifier removed ∧ removed.length = n ∧ text = removed ++ after := by
  have taken : ∀ pattern : List Char, pattern.isPrefixOf (lower text) = true →
      lower (text.take pattern.length) = pattern := by
    intro pattern starts
    rw [lower, map_take, ← lower]
    exact (prefix_iff_eq_take.mp (List.isPrefixOf_iff_prefix.mp starts)).symm
  have whole : ∀ {removed pattern : List Char}, lower removed = pattern →
      removed.length = pattern.length := by
    rintro removed _ rfl
    rw [lower, length_map]
  rw [qualifierLength] at found
  split at found
  · rename_i quoted
    cases found
    have same := taken _ quoted
    exact ⟨_, _, .inl same, whole same, (take_append_drop _ text).symm⟩
  · split at found
    · rename_i bare
      cases found
      have same := taken _ bare
      exact ⟨_, _, .inr same, whole same, (take_append_drop _ text).symm⟩
    · cases found

theorem IsQualifier.ne_nil (qualifier : IsQualifier removed) : removed ≠ [] := by
  rintro rfl
  rcases qualifier with same | same <;> cases same

theorem scan_keep (none : qualifierLength (c :: text) = none) :
    stripPublicPrefix (fuel + 1) (c :: text) = c :: stripPublicPrefix fuel text := by
  rw [stripPublicPrefix, dropPublic_eq, none]
  rfl

theorem scan_skip (fuel : Nat) (qualifier : IsQualifier removed) (after : List Char) :
    stripPublicPrefix (fuel + 1) (removed ++ after) =
      stripPublicPrefix fuel after := by
  have found : dropPublic (removed ++ after) = some after := by
    rw [dropPublic_eq, qualifierLength_append qualifier, Option.map_some, drop_left]
  cases written : removed with
  | nil => exact absurd written qualifier.ne_nil
  | cons c rest =>
    rw [written] at found
    rw [cons_append, stripPublicPrefix, ← cons_append, found]

theorem Strips.refl (before text : List Char) : Strips before text text := by
  induction text generalizing before with
  | nil => exact .done
  | cons c rest ih => exact .keep (ih _)

theorem unqualified_inside (qualifier : IsQualifier (front ++ rest)) (inside : front ≠ [])
    (after : List Char) (more : rest ≠ []) :
    qualifierLength (rest ++ after) = none := by
  have lowered : lower (rest ++ after) = lower rest ++ lower after := map_append
  have positive := length_pos_iff.mpr inside
  have suffix : ∀ {pattern : List Char}, lower (front ++ rest) = pattern →
      lower rest = pattern.drop front.length ∧ front.length < pattern.length := by
    rintro _ rfl
    constructor
    · simp [lower]
    · have left := length_pos_iff.mpr more
      simp [lower]
      omega
  rw [qualifierLength, lowered]
  rcases qualifier with quoted | bare
  · obtain ⟨same, within⟩ := suffix quoted
    rw [same]
    change front.length < 9 at within
    generalize front.length = n at positive within
    obtain rfl | rfl | rfl | rfl | rfl | rfl | rfl | rfl : n = 1 ∨ n = 2 ∨ n = 3 ∨ n = 4 ∨ n = 5 ∨
      n = 6 ∨ n = 7 ∨ n = 8 := by omega
    all_goals rfl
  · obtain ⟨same, within⟩ := suffix bare
    rw [same]
    change front.length < 7 at within
    generalize front.length = n at positive within
    obtain rfl | rfl | rfl | rfl | rfl | rfl : n = 1 ∨ n = 2 ∨ n = 3 ∨ n = 4 ∨ n = 5 ∨ n = 6 := by omega
    all_goals rfl

theorem scan_fuel (first : text.length ≤ n) (second : text.length ≤ m) :
    stripPublicPrefix n text = stripPublicPrefix m text := by
  induction n generalizing text m with
  | zero =>
    rw [length_eq_zero_iff.mp (le_zero.mp first)]
    cases m <;> rfl
  | succ n ih =>
    cases text with
    | nil => cases m <;> rfl
    | cons c rest =>
      cases m with
      | zero => cases second
      | succ m =>
        cases found : qualifierLength (c :: rest) with
        | none =>
          rw [scan_keep found, scan_keep found,
            ih (le_of_succ_le_succ first) (le_of_succ_le_succ second)]
        | some k =>
          obtain ⟨removed, after, qualifier, _, split⟩ := qualifierLength_eq_some found
          have positive := length_pos_iff.mpr qualifier.ne_nil
          rw [split] at first second ⊢
          rw [length_append] at first second
          rw [scan_skip n qualifier, scan_skip m qualifier]
          exact ih (by omega) (by omega)

def scan (text : List Char) : List Char := stripPublicPrefix text.length text

theorem scan_cons (none : qualifierLength (c :: text) = none) : scan (c :: text) = c :: scan text :=
  scan_keep none

theorem scan_qualifier (qualifier : IsQualifier removed) (after : List Char) :
    scan (removed ++ after) = scan after := by
  have positive := length_pos_iff.mpr qualifier.ne_nil
  obtain ⟨n, succ⟩ : ∃ n, (removed ++ after).length = n + 1 :=
    ⟨(removed ++ after).length - 1, by rw [length_append]; omega⟩
  rw [scan, succ, scan_skip n qualifier, scan]
  refine scan_fuel ?_ (le_refl _)
  rw [length_append] at succ
  omega

theorem scan_inside (qualifier : IsQualifier (front ++ rest)) (inside : front ≠ [])
    (after : List Char) : scan (rest ++ after) = rest ++ scan after := by
  induction rest generalizing front with
  | nil => rfl
  | cons c rest ih =>
    have none := unqualified_inside qualifier inside after (cons_ne_nil c rest)
    rw [append_cons] at qualifier
    rw [cons_append] at none ⊢
    rw [scan_cons none, ih qualifier (by simp), cons_append]

theorem AllQualify.cons (qualifier : IsQualifier removed) (here : Qualifies before removed text)
    (later : AllQualify (before ++ removed) text) : AllQualify before (removed ++ text) := by
  intro front removed' after split qualifier'
  rcases prefix_append_or (show front <+: removed ++ text from ⟨_, split.symm⟩) with
    ⟨rest, whole⟩ | ⟨rest, rfl, _⟩
  · rw [← whole, append_assoc, append_cancel_left_eq] at split
    by_cases start : front = []
    · subst start
      rw [nil_append] at whole
      subst whole
      have lengths := qualifierLength_append qualifier text
      rw [split, qualifierLength_append qualifier'] at lengths
      obtain ⟨rfl, rfl⟩ := append_inj split (Option.some.inj lengths).symm
      rwa [append_nil]
    · by_cases stop : rest = []
      · subst stop
        rw [append_nil] at whole
        subst whole
        have next := later [] removed' after split qualifier'
        rwa [append_nil] at next
      · rw [← whole] at qualifier
        have none := unqualified_inside qualifier start text stop
        rw [split, qualifierLength_append qualifier'] at none
        cases none
  · rw [append_assoc, append_cancel_left_eq] at split
    have next := later rest removed' after split qualifier'
    rwa [append_assoc] at next

/-- Nothing shorter than what the scan leaves can be left, and that only if every qualifier may go. -/
theorem Strips.length (strips : Strips before text out) :
    (scan text).length ≤ out.length ∧ (out.length = (scan text).length → AllQualify before text) := by
  induction strips with
  | @done before =>
    refine ⟨le_refl _, fun _ front removed after split qualifier => ?_⟩
    have empty : removed = [] := by
      simp only [nil_eq, append_eq_nil_iff] at split
      exact split.2.1
    exact absurd empty qualifier.ne_nil
  | @keep before text out c strips ih =>
    cases found : qualifierLength (c :: text) with
    | none =>
      rw [scan_cons found, length_cons, length_cons]
      refine ⟨succ_le_succ ih.1, fun same front removed after split qualifier => ?_⟩
      cases front with
      | nil =>
        rw [split, nil_append, qualifierLength_append qualifier] at found
        cases found
      | cons d front =>
        cases split
        have later := ih.2 (succ_injective same) front removed after rfl qualifier
        rwa [append_assoc] at later
    | some n =>
      -- the scan removes here what this derivation keeps
      obtain ⟨removed, after, qualifier, _, split⟩ := qualifierLength_eq_some found
      cases removed with
      | nil => exact absurd rfl qualifier.ne_nil
      | cons d rest =>
        rw [cons_append, cons.injEq] at split
        obtain ⟨rfl, rfl⟩ := split
        have longer := ih.1
        rw [scan_inside (show IsQualifier ([c] ++ rest) from qualifier) (cons_ne_nil _ _),
          length_append] at longer
        rw [← cons_append, scan_qualifier qualifier, length_cons]
        exact ⟨by omega, fun same => by omega⟩
  | @strip before removed text out qualifier here strips ih =>
    rw [scan_qualifier qualifier]
    exact ⟨ih.1, fun same => .cons qualifier here (ih.2 same)⟩

end RockLake.Normalization
