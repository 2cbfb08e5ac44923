import RockLake.Lib.Unicode
import RockLake.Sql.Classifier

/-! COPY statements are recognised by words in the upper case of their text, and the original is cut at
the byte offsets that these words have in the upper case. Where the upper case has other offsets, the
cut is in the wrong place, or between the bytes of a character, where slicing panics. -/
namespace RockLake.CopyText

open Text Unicode List Option

section Model

variable (unicode : CaseMapping)

def normalizeCopyTable (s : List Char) : List Char := unicode.lowercase (tableName s)

/-- Where the text between COPY and the last words starts and ends in the upper case. -/
def copyRange (last : String) (sql : List Char) : Option (Nat × Nat) :=
  (findBytes "COPY".toList (unicode.uppercase sql)).bind fun copyIdx =>
    (findBytes last.toList (unicode.uppercase sql)).bind fun lastIdx =>
      if lastIdx ≤ copyIdx + 4 then none else some (copyIdx + 4, lastIdx)

/-- The table that is copied into, if it is a DuckLake table. No result at all is a panic. -/
def classifyCopyFromStdin (sql : List Char) : Option (Option (List Char)) :=
  match copyRange unicode "FROM STDIN" sql with
  | none => some none
  | some (start, stop) =>
    (slice sql start stop).map fun tablePart =>
      let table := normalizeCopyTable unicode (trim tablePart)
      if Classifier.isDuckLake table then some table else none

/-- The query that is copied out. No result at all is a panic. -/
def classifyCopyToStdout (sql : List Char) : Option (Option (List Char)) :=
  match copyRange unicode "TO STDOUT" sql with
  | none => some none
  | some (start, stop) =>
    (slice sql start (size sql)).bind fun afterCopy =>
      if (trimStart afterCopy).head? = some '(' then
        (slice sql start stop).map (copiedQuery unicode.uppercase)
      else some none

variable {unicode} {sql part rest word : List Char} {last : String} {start stop n : Nat}

theorem copyRange_lt (range : copyRange unicode last sql = some (start, stop)) : start < stop := by
  obtain ⟨copyIdx, _, range⟩ := bind_eq_some_iff.mp range
  obtain ⟨lastIdx, _, range⟩ := bind_eq_some_iff.mp range
  split at range
  · cases range
  · cases range
    omega

/-- A panic is a cut at an offset of the upper case that is no boundary of the original. -/
theorem classifyCopyFromStdin_isSome :
    (classifyCopyFromStdin unicode sql).isSome = true ↔
      ∀ start stop, copyRange unicode "FROM STDIN" sql = some (start, stop) →
        Boundary sql start ∧ Boundary sql stop := by
  rw [classifyCopyFromStdin]
  split
  · rename_i none
    simp [none]
  · rename_i start stop range
    rw [isSome_map, slice_isSome (copyRange_lt range).le]
    constructor
    · intro bounds start' stop' range'
      cases range.symm.trans range'
      exact bounds
    · exact fun bounds => bounds start stop range

/-- A parenthesis opens at a byte offset, or after spaces there. -/
def Opens (sql : List Char) (start : Nat) : Prop :=
  ∃ before after, sql = before ++ after ∧ size before = start ∧ (trimStart after).head? = some '('

theorem classifyCopyToStdout_isSome :
    (classifyCopyToStdout unicode sql).isSome = true ↔
      ∀ start stop, copyRange unicode "TO STDOUT" sql = some (start, stop) →
        Boundary sql start ∧ (Opens sql start → Boundary sql stop) := by
  rw [classifyCopyToStdout]
  split
  · rename_i none
    simp [none]
  · rename_i start stop range
    have ordered := (copyRange_lt range).le
    constructor
    · intro returns start' stop' range'
      cases range.symm.trans range'
      obtain ⟨result, found⟩ := isSome_iff_exists.mp returns
      obtain ⟨after, sliced, found⟩ := bind_eq_some_iff.mp found
      obtain ⟨before, whole, first⟩ := slice_to_end.mp sliced
      refine ⟨⟨before, ⟨after, whole.symm⟩, first⟩, ?_⟩
      rintro ⟨before', after', whole', first', opens⟩
      have same : after' = after := by
        have fronts : before = before' :=
          @eq_of_size sql _ _ ⟨after, whole.symm⟩ ⟨after', whole'.symm⟩ (first.trans first'.symm)
        rw [fronts, whole', append_cancel_left_eq] at whole
        exact whole
      subst same
      rw [if_pos opens] at found
      obtain ⟨query, sliced, _⟩ := map_eq_some_iff.mp found
      exact ((slice_isSome ordered).mp (by rw [sliced]; rfl)).2
    · intro bounds
      obtain ⟨⟨before, ⟨after, whole⟩, first⟩, second⟩ := bounds start stop range
      have sliced : slice sql start (size sql) = some after := slice_to_end.mpr ⟨before, whole.symm, first⟩
      rw [sliced, bind_some]
      split
      · rename_i opens
        rw [isSome_map, slice_isSome ordered]
        exact ⟨⟨before, ⟨after, whole⟩, first⟩, second ⟨before, after, whole.symm, first, opens⟩⟩
      · rfl

theorem copyRange_of_start (spelled : upper word = "COPY".toList)
    (found : findBytes last.toList (unicode.uppercase (word ++ part)) = some n) (rest : List Char) :
    copyRange unicode last (word ++ part ++ rest) = if n ≤ 4 then none else some (4, n) := by
  have copy : findBytes "COPY".toList (unicode.uppercase (word ++ part ++ rest)) = some 0 := by
    apply findBytes_of_prefix
    rw [append_assoc, unicode.uppercase_append, unicode.uppercase_spelled spelled (by decide)]
    exact prefix_append _ _
  have later : findBytes last.toList (unicode.uppercase (word ++ part ++ rest)) = some n := by
    rw [unicode.uppercase_append]
    exact findBytes_append found _
  rw [copyRange, copy, bind_some, later, bind_some, Nat.zero_add]

theorem slice_of_start (spelled : upper word = "COPY".toList) :
    slice (word ++ rest) 4 n = some part ↔ part <+: rest ∧ size (word ++ part) = n := by
  have four : size word = 4 := size_spelled spelled (by decide)
  rw [slice_eq_some]
  constructor
  · rintro ⟨before, after, whole, start, stop⟩
    have copied : before = word := by
      refine @eq_of_size (word ++ rest) _ _ ⟨part ++ after, by rw [whole, append_assoc]⟩ ?_ ?_
      · exact prefix_append _ _
      · rw [start, four]
    subst copied
    rw [append_assoc, append_cancel_left_eq] at whole
    exact ⟨⟨after, whole.symm⟩, stop⟩
  · rintro ⟨⟨after, rfl⟩, stop⟩
    exact ⟨word, after, (append_assoc _ _ _).symm, four, stop⟩

end Model

/-! Reading a table name. -/

/-- What follows the first dot, without quotes, or the whole text if there is no dot. -/
def resolve (s : List Char) : List Char :=
  match splitOnce '.' s with
  | some (_, table) => trimMatches '"' table
  | none => s

theorem resolve_append (plain : '.' ∉ before) (after : List Char) :
    resolve (before ++ '.' :: after) = trimMatches '"' after := by
  rw [resolve, splitOnce_append plain]

theorem resolve_plain (plain : '.' ∉ s) : resolve s = s := by
  rw [resolve, splitOnce_none plain]

theorem tableName_eq (s : List Char) :
    tableName s = resolve (trimMatches '"' (stripColumnList (trim s))) := by
  have cut : ∀ {schema t rest : List Char}, '.' ∉ schema → stripPrefix (schema ++ ['.']) t = some rest →
      resolve t = trimMatches '"' rest := by
    intro schema t rest plain found
    have whole : t = schema ++ '.' :: rest := by
      rw [stripPrefix_eq_some.mp found, append_assoc, singleton_append]
    rw [whole, resolve_append plain]
  simp only [tableName]
  generalize trimMatches '"' (stripColumnList (trim s)) = t
  split
  · rename_i rest found
    exact (@cut "public".toList t rest (by decide) found).symm
  · split
    · rename_i rest found
      exact (@cut "\"public\"".toList t rest (by decide) found).symm
    · rfl

/-- An identifier as written, bare or in quotes. A quoted name has no quotes in it. -/
structure Written where
  quoted : Bool
  name : List Char
  free : '"' ∉ name
  bare : quoted = false → ∀ c ∈ name, c ≠ '.' ∧ c ≠ '(' ∧ isSpace c = false

namespace Written

def quote (w : Written) : List Char := if w.quoted then ['"'] else []

def text (w : Written) : List Char := w.quote ++ w.name ++ w.quote

theorem eq_quote (w : Written) : ∀ c ∈ w.quote, c = '"' := by
  intro c member
  rw [quote] at member
  split at member
  · exact mem_singleton.mp member
  · cases member

end Written

def qualifier (schema : Option Written) : List Char := schema.elim [] fun s => s.text ++ ['.']

/-- The table of a name, which has a schema before a dot if none was written. -/
def afterSchema (schema : Option Written) (name : List Char) : List Char :=
  match schema with
  | some _ => name
  | none => ((splitOnce '.' name).map Prod.snd).getD name

variable {schema : Option Written} {name opening closing : List Char}

theorem resolve_schema (named : s.name ≠ []) (plain : '.' ∉ s.name) (rest : List Char) :
    resolve (trimMatches '"' (qualifier (some s) ++ rest)) = trimMatches '"' rest := by
  have before : '.' ∉ s.name ++ s.quote := by
    intro member
    rcases mem_append.mp member with inName | inQuote
    · exact plain inName
    · exact absurd (s.eq_quote _ inQuote) (by decide)
  have start : (s.name ++ s.quote ++ '.' :: rest).dropWhile (· = '"') =
      s.name ++ s.quote ++ '.' :: rest := by
    cases written : s.name with
    | nil => exact absurd written named
    | cons c more =>
      have other : c ≠ '"' := fun same => s.free (written ▸ same ▸ mem_cons_self)
      simp [other]
  have whole : qualifier (some s) ++ rest = s.quote ++ (s.name ++ s.quote ++ '.' :: rest) := by
    simp [qualifier, Written.text]
  obtain ⟨back, quotes, split⟩ := dropEndWhile_split (· = '"') rest
  calc resolve (trimMatches '"' (qualifier (some s) ++ rest))
      = resolve (s.name ++ s.quote ++ '.' :: dropEndWhile (· = '"') rest) := by
        rw [whole, trimMatches_open s.eq_quote, trimMatches, start, dropEndWhile_stop (by decide)]
    _ = trimMatches '"' (dropEndWhile (· = '"') rest) := resolve_append before _
    _ = trimMatches '"' rest := by
        nth_rewrite 2 [split]
        rw [trimMatches_close (by simpa using quotes)]

theorem resolve_qualified (named : ∀ s ∈ schema, s.name ≠ [] ∧ '.' ∉ s.name) (free : '"' ∉ name)
    (opens : ∀ c ∈ opening, c = '"') (closes : ∀ c ∈ closing, c = '"') :
    resolve (trimMatches '"' (qualifier schema ++ (opening ++ (name ++ closing)))) =
      afterSchema schema name := by
  have inner : trimMatches '"' (opening ++ (name ++ closing)) = name := by
    rw [trimMatches_open opens, trimMatches_close closes, trimMatches_of_not_mem free]
  cases schema with
  | none =>
    rw [qualifier, elim_none, nil_append, inner, afterSchema]
    by_cases dotted : '.' ∈ name
    · obtain ⟨before, after, same, plain⟩ := eq_append_cons_of_mem dotted
      have later : '"' ∉ after := fun member =>
        free (by rw [same]; exact mem_append_right _ (mem_cons_of_mem _ member))
      rw [same, resolve_append plain, splitOnce_append plain]
      exact trimMatches_of_not_mem later
    · rw [resolve_plain dotted, splitOnce_none dotted]
      rfl
  | some s =>
    obtain ⟨nonempty, plain⟩ := named s rfl
    rw [resolve_schema nonempty plain, inner]
    rfl

theorem resolve_sublist (s : List Char) : (resolve s).Sublist s := by
  by_cases dotted : '.' ∈ s
  · obtain ⟨before, after, same, plain⟩ := eq_append_cons_of_mem dotted
    rw [same, resolve_append plain]
    exact (trimMatches_sublist '"' after).trans
      ((sublist_cons_self '.' after).trans (sublist_append_right before _))
  · rw [resolve_plain dotted]

/-! Cutting off the column list. -/

theorem stripColumnList_plain {inQuote : Bool} {a : List Char}
    (plain : ∀ c ∈ a, c ≠ '"' ∧ (inQuote = false → c ≠ '(')) (rest : List Char) :
    Classifier.stripColumnList inQuote (a ++ rest) = a ++ Classifier.stripColumnList inQuote rest := by
  induction a with
  | nil => rfl
  | cons c a ih =>
    obtain ⟨⟨notQuote, notParen⟩, later⟩ := forall_mem_cons.mp plain
    have stays : ¬ (decide (c = '(') && !inQuote) = true := by
      cases inQuote with
      | true => simp
      | false => simpa using notParen rfl
    rw [cons_append, Classifier.stripColumnList, if_neg stays, if_neg notQuote, ih later]
    rfl

theorem stripColumnList_quote (inQuote : Bool) (rest : List Char) :
    Classifier.stripColumnList inQuote ('"' :: rest) =
      '"' :: Classifier.stripColumnList (!inQuote) rest := by
  simp [Classifier.stripColumnList]

theorem stripColumnList_text (w : Written) (rest : List Char) :
    Classifier.stripColumnList false (w.text ++ rest) =
      w.text ++ Classifier.stripColumnList false rest := by
  have noQuote : ∀ c ∈ w.name, c ≠ '"' := fun c member same => w.free (same ▸ member)
  cases quoted : w.quoted with
  | true =>
    have inside : ∀ c ∈ w.name, c ≠ '"' ∧ (true = false → c ≠ '(') :=
      fun c member => ⟨noQuote c member, nofun⟩
    simp [Written.text, Written.quote, quoted, stripColumnList_quote, stripColumnList_plain inside]
  | false =>
    have inside : ∀ c ∈ w.name, c ≠ '"' ∧ (false = false → c ≠ '(') :=
      fun c member => ⟨noQuote c member, fun _ => (w.bare quoted c member).2.1⟩
    simp [Written.text, Written.quote, quoted, stripColumnList_plain inside]

theorem stripColumnList_qualifier (schema : Option Written) (rest : List Char) :
    Classifier.stripColumnList false (qualifier schema ++ rest) =
      qualifier schema ++ Classifier.stripColumnList false rest := by
  cases schema with
  | none => rfl
  | some s =>
    have dot : Classifier.stripColumnList false ('.' :: rest) =
        '.' :: Classifier.stripColumnList false rest := by
      simp [Classifier.stripColumnList]
    simp [qualifier, stripColumnList_text, dot]

theorem stripColumnList_self (none : Classifier.stripColumnList false s = s) :
    stripColumnList s = s := by
  simp [stripColumnList, none]

theorem stripColumnList_sublist (s : List Char) : (stripColumnList s).Sublist s := by
  have sub : ∀ (inQuote : Bool) (s : List Char), (Classifier.stripColumnList inQuote s).Sublist s := by
    intro inQuote s
    induction s generalizing inQuote with
    | nil => exact List.Sublist.refl []
    | cons c rest ih =>
      rw [Classifier.stripColumnList]
      split
      · exact nil_sublist _
      · exact (ih _).cons_cons c
  simp only [stripColumnList]
  split
  · exact sub false s
  · exact (trim_sublist _).trans (sub false s)

theorem tableName_trim (s : List Char) : tableName (trim s) = tableName s := by
  rw [tableName_eq, tableName_eq, trim_trim]

theorem tableName_sublist (s : List Char) : (tableName s).Sublist (trim s) := by
  rw [tableName_eq]
  exact (resolve_sublist _).trans ((trimMatches_sublist _ _).trans (stripColumnList_sublist _))

end RockLake.CopyText
