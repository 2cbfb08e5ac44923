import RockLake.Sql.CopyTables

/-! The query that is read of a statement `COPY (query) TO STDOUT`, and when the classification of COPY
statements is right. -/
namespace RockLake.CopyText

open Text Unicode List Option

/-- A statement `COPY (query) TO STDOUT` without what may follow. -/
structure CopyTo (unicode : CaseMapping) where
  copyWord : List Char
  gap : List Char
  query : List Char
  space : List Char
  toWord : List Char
  copySpelled : upper copyWord = "COPY".toList
  gapSpaces : ∀ c ∈ gap, isSpace c = true
  isSelect : "SELECT".toList <+: unicode.uppercase (trim query)
  spaceSpaces : ∀ c ∈ space, isSpace c = true
  toSpelled : upper toWord = "TO STDOUT".toList

namespace CopyTo

variable {unicode : CaseMapping} (form : CopyTo unicode)

def parenthesized : List Char := '(' :: (form.query ++ [')'])

def head : List Char :=
  form.copyWord ++ (form.gap ++ (form.parenthesized ++ (form.space ++ form.toWord)))

/-- A query part of which the query is read. -/
structure Reads (part : List Char) : Prop where
  reaches : form.gap ++ form.parenthesized <+: part
  stops : part <+: form.gap ++ (form.parenthesized ++ form.space)

theorem parenthesized_last : form.parenthesized.getLast? = some ')' := by
  rw [parenthesized, ← cons_append, getLast?_concat]

theorem trim_parenthesized (spaces : ∀ c ∈ back, isSpace c = true) :
    trim (form.gap ++ (form.parenthesized ++ back)) = form.parenthesized := by
  rw [trim_spaces form.gapSpaces, trim_append_spaces spaces]
  apply trim_self
  · intro c first
    cases first
    decide
  · intro c last
    rw [parenthesized_last] at last
    cases last
    decide

variable {form} {part : List Char} {n : Nat}

theorem copiedQuery_of_reads (reads : form.Reads part) :
    copiedQuery unicode.uppercase part = some (trim form.query) := by
  obtain ⟨back, rfl⟩ := reads.reaches
  have within := reads.stops
  rw [append_assoc, prefix_append_right_inj, prefix_append_right_inj] at within
  have trimmed := form.trim_parenthesized fun c member => form.spaceSpaces c (within.subset member)
  rw [← append_assoc] at trimmed
  have inner : (form.parenthesized.drop 1).dropLast = form.query := by simp [parenthesized]
  rw [copiedQuery, trimmed]
  simp only [inner]
  rw [if_pos ⟨rfl, form.parenthesized_last⟩, if_pos (List.isPrefixOf_iff_prefix.mpr form.isSelect)]

theorem trim_ne {front back : List Char} (split : form.query = front ++ ')' :: back) :
    trim front ≠ trim form.query := by
  intro same
  have kept := congrArg (filter (!isSpace ·)) same
  rw [filter_trim, filter_trim, split, filter_append, filter_cons_of_pos (by decide)] at kept
  have lengths := congrArg length kept
  simp at lengths

theorem copiedQuery_eq_some {query : List Char} (read : copiedQuery unicode.uppercase part = some query) :
    ∃ inner, trim part = '(' :: (inner ++ [')']) ∧ query = trim inner := by
  simp only [copiedQuery] at read
  split at read
  · rename_i enclosed
    obtain ⟨first, last⟩ := enclosed
    split at read
    · obtain ⟨rest, same⟩ := head?_eq_some_iff.mp first
      rw [same] at last read ⊢
      rcases eq_nil_or_concat rest with rfl | ⟨inner, c, rfl⟩
      · cases last
      rw [concat_eq_append, ← cons_append, getLast?_concat] at last
      cases last
      rw [concat_eq_append] at read ⊢
      cases read
      exact ⟨inner, rfl, by simp⟩
    · cases read
  · cases read

theorem toWord_plain (member : c ∈ form.toWord) : c ≠ ')' := by
  have spelled : c.toUpper ∈ "TO STDOUT".toList := by
    rw [← form.toSpelled]
    exact mem_map_of_mem member
  rintro rfl
  exact absurd spelled (by decide)

theorem toWord_start (starts : c :: f <+: form.toWord) :
    isSpace c = false := by
  obtain ⟨rest, same⟩ := starts
  have spelled := form.toSpelled
  rw [← same] at spelled
  rcases toUpper_eq (cons.inj spelled).1 with rfl | rfl <;> decide

theorem reads_of_copiedQuery
    (starts : part <+: form.gap ++ (form.parenthesized ++ (form.space ++ form.toWord)))
    (read : copiedQuery unicode.uppercase part = some (trim form.query)) : form.Reads part := by
  obtain ⟨inner, enclosed, same⟩ := copiedQuery_eq_some read
  rcases prefix_append_or starts with within | ⟨cut, rfl, afterGap⟩
  · -- nothing but spaces is left
    have spaces := trim_spaces (fun c member => form.gapSpaces c (within.subset member)) []
    rw [append_nil, enclosed] at spaces
    cases spaces
  rw [trim_spaces form.gapSpaces] at enclosed
  rcases prefix_append_or afterGap with within | ⟨more, rfl, afterQuery⟩
  · rw [parenthesized, ← cons_append] at within
    rcases prefix_concat_iff.mp within with rfl | inQuery
    · exact ⟨prefix_rfl, (prefix_append_right_inj _).mpr (prefix_append _ _)⟩
    rcases prefix_cons_iff.mp inQuery with rfl | ⟨q, rfl, begins⟩
    · cases enclosed
    -- the last parenthesis that is left is one of the query
    rw [trim_visible (by decide), cons.injEq] at enclosed
    obtain ⟨rest, whole⟩ := (dropEndWhile_initial isSpace q).trans begins
    rw [enclosed.2, append_assoc, singleton_append] at whole
    exact absurd same.symm (trim_ne whole.symm)
  · have reaches : form.gap ++ form.parenthesized <+: form.gap ++ (form.parenthesized ++ more) :=
      ⟨more, append_assoc _ _ _⟩
    have spaced (within : more <+: form.space) : form.Reads (form.gap ++ (form.parenthesized ++ more)) := by
      refine ⟨reaches, ?_⟩
      rwa [prefix_append_right_inj, prefix_append_right_inj]
    rcases prefix_append_or afterQuery with within | ⟨word, rfl, inWord⟩
    · exact spaced within
    cases word with
    | nil => exact spaced (by simp)
    | cons c f =>
      -- the part ends in the last words, not in a parenthesis
      have visible := toWord_start inWord
      have trimmed : trim (form.parenthesized ++ (form.space ++ c :: f)) =
          form.parenthesized ++ (form.space ++ c :: dropEndWhile isSpace f) := by
        rw [trim_append_visible, dropEndWhile_stop visible]
        · intro d first
          cases first
          decide
        · intro d last
          rw [parenthesized_last] at last
          cases last
          decide
      have last := congrArg getLast? (trimmed.symm.trans enclosed)
      rw [← cons_append, getLast?_concat, ← append_assoc,
        getLast?_append_of_ne_nil _ (cons_ne_nil _ _)] at last
      have shorter : c :: dropEndWhile isSpace f <+: c :: f :=
        cons_prefix_cons.mpr ⟨rfl, dropEndWhile_initial _ _⟩
      exact absurd rfl (toWord_plain (inWord.subset (shorter.subset (mem_of_getLast? last))))

/-- The last words are found, in the upper case, at an offset that in the original lies between the
closing parenthesis and the last words. -/
structure Aligned (form : CopyTo unicode) (n : Nat) : Prop where
  boundary : Boundary form.head n
  reaches : size (form.copyWord ++ (form.gap ++ form.parenthesized)) ≤ n
  stops : n ≤ size (form.copyWord ++ (form.gap ++ (form.parenthesized ++ form.space)))

theorem aligned_iff (starts : form.copyWord ++ part <+: form.head)
    (ends : size (form.copyWord ++ part) = n) : form.Aligned n ↔ form.Reads part := by
  have query : form.copyWord ++ (form.gap ++ form.parenthesized) <+: form.head := by
    rw [head, prefix_append_right_inj, prefix_append_right_inj]
    exact prefix_append _ _
  have spaced : form.copyWord ++ (form.gap ++ (form.parenthesized ++ form.space)) <+: form.head := by
    rw [head, prefix_append_right_inj, prefix_append_right_inj, prefix_append_right_inj]
    exact prefix_append _ _
  have reach := prefix_iff_size_le query starts
  have stop := prefix_iff_size_le starts spaced
  rw [prefix_append_right_inj, ends] at reach stop
  exact ⟨fun aligned => ⟨reach.mpr aligned.reaches, stop.mpr aligned.stops⟩,
    fun reads => ⟨⟨_, starts, ends⟩, reach.mp reads.reaches, stop.mp reads.stops⟩⟩

def offset (form : CopyTo unicode) : Nat :=
  (findBytes "TO STDOUT".toList (unicode.uppercase form.head)).getD 0

theorem offset_found (form : CopyTo unicode) :
    findBytes "TO STDOUT".toList (unicode.uppercase form.head) = some form.offset := by
  have occurs : "TO STDOUT".toList <:+: unicode.uppercase form.head := by
    simp only [head, unicode.uppercase_append, unicode.uppercase_spelled form.toSpelled (by decide)]
    simp only [← append_assoc]
    exact (suffix_append _ _).isInfix
  obtain ⟨n, found⟩ := findBytes_of_infix occurs
  rw [offset, found]
  rfl

/-- The query is read whatever follows the statement, exactly if the offset found in the upper case fits
the original. -/
theorem classifyCopyToStdout_iff (form : CopyTo unicode) :
    (∀ rest, classifyCopyToStdout unicode (form.head ++ rest) = some (some (trim form.query))) ↔
      form.Aligned form.offset := by
  have range := @copyRange_of_start unicode _ _ _ _ form.copySpelled form.offset_found
  constructor
  · intro read
    have here := read []
    rw [classifyCopyToStdout, head, range, append_nil] at here
    split at here
    · cases here
    rename_i start stop found
    split at found
    · cases found
    cases found
    obtain ⟨after, _, classified⟩ := bind_eq_some_iff.mp here
    split at classified
    · obtain ⟨part, sliced, query⟩ := map_eq_some_iff.mp classified
      obtain ⟨starts, ends⟩ := (slice_of_start form.copySpelled).mp sliced
      rw [aligned_iff ((prefix_append_right_inj _).mpr starts) ends]
      exact reads_of_copiedQuery starts query
    · cases classified
  · intro aligned rest
    have copied : size form.copyWord = 4 := size_spelled form.copySpelled (by decide)
    obtain ⟨before, starts, ends⟩ := aligned.boundary
    have beyond : 4 < form.offset := by
      have reaches := aligned.reaches
      have paren : '('.utf8Size = 1 := rfl
      simp only [size_append, parenthesized, size_cons, copied, paren] at reaches
      omega
    obtain ⟨part, rfl⟩ : form.copyWord <+: before := by
      rw [prefix_iff_size_le (prefix_append _ _) starts, copied, ends]
      omega
    have reads := (aligned_iff starts ends).mp aligned
    rw [head, prefix_append_right_inj] at starts
    have sliced := (slice_of_start form.copySpelled).mpr ⟨starts.trans (prefix_append _ rest), ends⟩
    rw [← append_assoc] at sliced
    have after : slice (form.head ++ rest) 4 (size (form.head ++ rest)) =
        some (form.gap ++ (form.parenthesized ++ (form.space ++ form.toWord)) ++ rest) :=
      slice_to_end.mpr ⟨form.copyWord, append_assoc _ _ _, copied⟩
    have opens : (trimStart (form.gap ++ (form.parenthesized ++ (form.space ++ form.toWord)) ++ rest)).head? =
        some '(' := by
      rw [append_assoc, trimStart, dropWhile_append_of_pos form.gapSpaces, parenthesized]
      rfl
    rw [head] at after
    rw [classifyCopyToStdout, head, range, if_neg (by omega)]
    simp only [after, sliced, bind_some, map_some, if_pos opens, copiedQuery_of_reads reads]

end CopyTo

/-- When the classification of COPY statements does not panic, and when it finds the table or the query
of a statement. -/
theorem copy_classification_iff (unicode : CaseMapping) :
    (∀ sql, (classifyCopyFromStdin unicode sql).isSome = true ↔
      ∀ start stop, copyRange unicode "FROM STDIN" sql = some (start, stop) →
        Boundary sql start ∧ Boundary sql stop) ∧
    (∀ sql, (classifyCopyToStdout unicode sql).isSome = true ↔
      ∀ start stop, copyRange unicode "TO STDOUT" sql = some (start, stop) →
        Boundary sql start ∧ (Opens sql start → Boundary sql stop)) ∧
    (∀ form : CopyFrom unicode,
      (∀ rest, classifyCopyFromStdin unicode (form.head ++ rest) =
        some (some (unicode.lowercase form.table.name))) ↔ form.Aligned form.offset) ∧
    ∀ form : CopyTo unicode,
      (∀ rest, classifyCopyToStdout unicode (form.head ++ rest) = some (some (trim form.query))) ↔
        form.Aligned form.offset :=
  ⟨fun _ => classifyCopyFromStdin_isSome, fun _ => classifyCopyToStdout_isSome,
    CopyFrom.classifyCopyFromStdin_iff, CopyTo.classifyCopyToStdout_iff⟩

/-- ASCII letters, and two letters outside of ASCII: the dotless `ı` has the shorter upper case `I`, and
`é` has the upper case `É`. -/
def letters : CaseMapping where
  upper c := if c = 'ı' then ['I'] else if c = 'é' then ['É'] else [c.toUpper]
  upper_ascii := by
    intro c ascii
    rw [if_neg, if_neg]
    · rintro rfl
      exact absurd ascii (by decide)
    · rintro rfl
      exact absurd ascii (by decide)
  lowercase text := lower text
  width _ := 1
  width_pos _ := Nat.one_pos
  images text := by
    refine ⟨text.map fun c => [c.toLower], ?_, ?_⟩
    · rw [List.forall₂_map_right_iff, List.forall₂_same]
      intro c _
      refine ⟨rfl, fun _ => rfl, fun space => ?_, fun quote => ?_, fun d image => ?_⟩
      · rw [toLower_of_space space]
      · exact toLower_eq (by decide) (List.mem_singleton.mp quote).symm
      · rw [List.mem_singleton.mp image, toLower_toLower]
    · rw [lower, List.map_eq_flatMap, List.flatMap_def]

/-- Four dotless letters in a quoted column move the cut into the next letter. A query with the last words
in a literal and a quoted table with a dot are not recognised. -/
theorem copy_misclassified :
    classifyCopyFromStdin letters "COPY ducklake_data_file (\"ıııı\", \"é\") FROM STDIN".toList = none ∧
    classifyCopyToStdout letters "COPY (SELECT 'TO STDOUT') TO STDOUT".toList = some none ∧
    classifyCopyFromStdin letters "COPY \"ducklake_a.b\" FROM STDIN".toList = some none := by
  decide +kernel

end RockLake.CopyText
