import RockLake.Sql.CopyStatements

/-! The table that is read of a statement `COPY table (columns) FROM STDIN`, for every place where the
statement may be cut. -/
namespace RockLake.CopyText

open Text Unicode List Option Written

variable {schema : Option Written}

theorem Written.start_visible (w : Written) (first : (w.text).head? = some c) :
    isSpace c = false := by
  cases quoted : w.quoted with
  | true =>
    simp only [text, quote, quoted, if_true] at first
    cases first
    decide
  | false =>
    simp only [text, quote, quoted, Bool.false_eq_true, if_false, nil_append, append_nil] at first
    exact (w.bare quoted c (mem_of_mem_head? first)).2.2

theorem Written.stop_visible (w : Written) (last : (w.text).getLast? = some c) :
    isSpace c = false := by
  cases quoted : w.quoted with
  | true =>
    simp only [text, quote, quoted, if_true, getLast?_concat] at last
    cases last
    decide
  | false =>
    simp only [text, quote, quoted, Bool.false_eq_true, if_false, nil_append, append_nil] at last
    exact (w.bare quoted c (mem_of_getLast? last)).2.2

/-- A statement `COPY table (columns) FROM STDIN` without what may follow. The column list is any text
after the opening parenthesis. -/
structure CopyFrom (unicode : CaseMapping) where
  copyWord : List Char
  gap : List Char
  schema : Option Written
  table : Written
  space : List Char
  columns : Option (List Char)
  fromWord : List Char
  copySpelled : upper copyWord = "COPY".toList
  gapSpaces : ∀ c ∈ gap, isSpace c = true
  isPublic : ∀ s ∈ schema, lower s.name = "public".toList
  isDuckLake : "ducklake_".toList <+: unicode.lowercase table.name
  spaceSpaces : ∀ c ∈ space, isSpace c = true
  fromSpelled : upper fromWord = "FROM STDIN".toList

namespace CopyFrom

variable {unicode : CaseMapping} (form : CopyFrom unicode)

def qualified : List Char := qualifier form.schema ++ form.table.text

def columnList : List Char := form.columns.elim [] ('(' :: ·)

def head : List Char :=
  form.copyWord ++ (form.gap ++ (form.qualified ++ (form.space ++ (form.columnList ++ form.fromWord))))

theorem long : 9 ≤ unicode.lowerLength form.table.name := by
  rw [← unicode.length_lowercase]
  exact form.isDuckLake.length_le

theorem table_ne_nil : form.table.name ≠ [] := by
  intro empty
  have long := form.long
  rw [empty] at long
  exact absurd long (by simp [CaseMapping.lowerLength])

theorem named : ∀ s ∈ form.schema, s.name ≠ [] ∧ '.' ∉ s.name := by
  intro s member
  have spelled := form.isPublic s member
  constructor
  · intro empty
    rw [empty] at spelled
    contradiction
  · intro dotted
    have lowered : '.' ∈ lower s.name := mem_map.mpr ⟨'.', dotted, rfl⟩
    rw [spelled] at lowered
    exact absurd lowered (by decide)

theorem front_start (starts : front <+: form.qualified) (first : front.head? = some c) :
    isSpace c = false := by
  obtain ⟨rest, same⟩ := starts
  have whole : form.qualified.head? = some c := by
    rw [← same, head?_append, first]
    rfl
  rw [qualified] at whole
  cases given : form.schema with
  | none =>
    rw [given] at whole
    exact form.table.start_visible whole
  | some s =>
    have start : s.text ≠ [] := by simp [text, (form.named s given).1]
    rw [given, qualifier, elim_some, append_assoc, head?_append_of_ne_nil _ start] at whole
    exact s.start_visible whole

theorem qualified_ne_nil : form.qualified ≠ [] := by
  simp [qualified, text, form.table_ne_nil]

theorem qualified_start (first : (form.qualified ++ rest).head? = some c) :
    isSpace c = false := by
  rw [head?_append_of_ne_nil _ form.qualified_ne_nil] at first
  exact form.front_start prefix_rfl first

theorem qualified_stop (last : form.qualified.getLast? = some c) : isSpace c = false := by
  have nonempty : form.table.text ≠ [] := by simp [text, form.table_ne_nil]
  rw [qualified, getLast?_append_of_ne_nil _ nonempty] at last
  exact form.table.stop_visible last

theorem resolve_table :
    resolve (trimMatches '"' form.qualified) = afterSchema form.schema form.table.name := by
  rw [qualified, text, append_assoc]
  exact resolve_qualified form.named form.table.free form.table.eq_quote form.table.eq_quote

theorem trim_qualified (spaces : ∀ c ∈ back, isSpace c = true) :
    trim (form.qualified ++ back) = form.qualified := by
  rw [trim_append_spaces spaces]
  exact trim_self (fun c => form.front_start prefix_rfl) fun c => form.qualified_stop

theorem tableName_qualified (spaces : ∀ c ∈ back, isSpace c = true) :
    tableName (form.gap ++ (form.qualified ++ back)) = afterSchema form.schema form.table.name := by
  have kept : stripColumnList form.qualified = form.qualified := by
    apply stripColumnList_self
    have none := stripColumnList_text form.table []
    rw [append_nil] at none
    rw [qualified, stripColumnList_qualifier, none]
    simp [Classifier.stripColumnList]
  rw [tableName_eq, trim_spaces form.gapSpaces, form.trim_qualified spaces, kept, form.resolve_table]

theorem space_plain : ∀ c ∈ form.space, c ≠ '"' ∧ (false = false → c ≠ '(') := by
  intro c member
  have space := form.spaceSpaces c member
  constructor
  · rintro rfl
    exact absurd space (by decide)
  · rintro _ rfl
    exact absurd space (by decide)

theorem tableName_columns (more : List Char) :
    tableName (form.gap ++ (form.qualified ++ (form.space ++ '(' :: more))) =
      afterSchema form.schema form.table.name := by
  have trimmed : trim (form.gap ++ (form.qualified ++ (form.space ++ '(' :: more))) =
      form.qualified ++ (form.space ++ '(' :: dropEndWhile isSpace more) := by
    rw [trim_spaces form.gapSpaces, trim_append_visible (fun c => form.qualified_start) fun c =>
      form.qualified_stop, dropEndWhile_stop (by decide)]
  have stripped : Classifier.stripColumnList false
      (form.qualified ++ (form.space ++ '(' :: dropEndWhile isSpace more)) =
        form.qualified ++ form.space := by
    rw [qualified, append_assoc, stripColumnList_qualifier, stripColumnList_text,
      stripColumnList_plain form.space_plain]
    simp [Classifier.stripColumnList]
  have cut : stripColumnList (form.qualified ++ (form.space ++ '(' :: dropEndWhile isSpace more)) =
      form.qualified := by
    rw [stripColumnList, stripped, if_neg (by simp), form.trim_qualified form.spaceSpaces]
  rw [tableName_eq, trimmed, cut, form.resolve_table]

theorem opening_stop (quotes : ∀ c ∈ opening, c = '"')
    (last : (qualifier form.schema ++ opening).getLast? = some c) : isSpace c = false := by
  by_cases empty : opening = []
  · rw [empty, append_nil] at last
    cases given : form.schema with
    | none =>
      rw [given] at last
      cases last
    | some s =>
      rw [given, qualifier, elim_some, getLast?_concat] at last
      cases last
      decide
  · rw [getLast?_append_of_ne_nil _ empty] at last
    rw [quotes c (mem_of_getLast? last)]
    decide

/-- No parenthesis of a name, even of one that is cut short, is taken for a column list. -/
theorem stripColumnList_cut (opens : opening <+: form.table.quote)
    (named : p = [] ∨ opening = form.table.quote) (inName : ∀ c ∈ p, c ∈ form.table.name) :
    Classifier.stripColumnList false (opening ++ p) = opening ++ p := by
  have noQuote : ∀ c ∈ p, c ≠ '"' := fun c member same => form.table.free (same ▸ inName c member)
  have ended : ∀ inQuote, Classifier.stripColumnList inQuote [] = [] := fun _ => rfl
  cases quoted : form.table.quoted with
  | true =>
    have inside : ∀ c ∈ p, c ≠ '"' ∧ (true = false → c ≠ '(') :=
      fun c member => ⟨noQuote c member, nofun⟩
    have within := stripColumnList_plain inside []
    rw [append_nil, ended, append_nil] at within
    rw [quote, quoted, if_pos rfl] at opens named
    rcases named with rfl | rfl
    · rw [append_nil]
      rcases prefix_cons_iff.mp opens with rfl | ⟨rest, rfl, empty⟩
      · rfl
      · rw [prefix_nil.mp empty]
        rfl
    · rw [singleton_append, stripColumnList_quote, Bool.not_false, within]
  | false =>
    have inside : ∀ c ∈ p, c ≠ '"' ∧ (false = false → c ≠ '(') :=
      fun c member => ⟨noQuote c member, fun _ => (form.table.bare quoted c (inName c member)).2.1⟩
    have within := stripColumnList_plain inside []
    rw [append_nil, ended, append_nil] at within
    rw [quote, quoted, if_neg Bool.false_ne_true] at opens
    rw [prefix_nil.mp opens, nil_append, within]

theorem tableName_cut (opens : opening <+: form.table.quote)
    (named : p = [] ∨ opening = form.table.quote) (starts : p <+: form.table.name) :
    tableName (form.gap ++ (qualifier form.schema ++ (opening ++ p))) =
      afterSchema form.schema (dropEndWhile isSpace p) := by
  have shorter : dropEndWhile isSpace p <+: p := dropEndWhile_initial _ _
  have free : '"' ∉ dropEndWhile isSpace p := fun member =>
    form.table.free (starts.subset (shorter.subset member))
  have quotes : ∀ c ∈ opening, c = '"' := fun c member => form.table.eq_quote c (opens.subset member)
  have begins : qualifier form.schema ++ (opening ++ p) <+: form.qualified := by
    rw [qualified, text, append_assoc, prefix_append_right_inj]
    rcases named with rfl | rfl
    · rw [append_nil]
      exact opens.trans (prefix_append _ _)
    · rw [prefix_append_right_inj]
      exact starts.trans (prefix_append _ _)
  have trimmed : trim (qualifier form.schema ++ (opening ++ p)) =
      qualifier form.schema ++ (opening ++ dropEndWhile isSpace p) := by
    rw [← append_assoc] at begins ⊢
    rw [trim_append_visible (fun c => form.front_start begins) fun c => form.opening_stop quotes,
      append_assoc]
  have kept : stripColumnList (qualifier form.schema ++ (opening ++ dropEndWhile isSpace p)) =
      qualifier form.schema ++ (opening ++ dropEndWhile isSpace p) := by
    apply stripColumnList_self
    rw [stripColumnList_qualifier, form.stripColumnList_cut opens]
    · rcases named with rfl | same
      · exact .inl rfl
      · exact .inr same
    · exact fun c member => starts.subset (shorter.subset member)
  have read := @resolve_qualified form.schema (dropEndWhile isSpace p) opening [] form.named free quotes
    (forall_mem_nil _)
  rw [append_nil] at read
  rw [tableName_eq, trim_spaces form.gapSpaces, trimmed, kept, read]

theorem afterSchema_sublist (schema : Option Written) (p : List Char) :
    (afterSchema schema p).Sublist p := by
  cases schema with
  | some s => exact Sublist.refl p
  | none =>
    rw [afterSchema]
    by_cases dotted : '.' ∈ p
    · obtain ⟨before, after, rfl, plain⟩ := eq_append_cons_of_mem dotted
      rw [splitOnce_append plain]
      exact (sublist_cons_self '.' after).trans (sublist_append_right before _)
    · rw [splitOnce_none dotted]
      exact Sublist.refl p

theorem name_of_read (sub : p.Sublist form.table.name)
    (same : unicode.lowercase (afterSchema form.schema p) = unicode.lowercase form.table.name) :
    p = form.table.name ∧ (form.schema = none → '.' ∉ form.table.name) := by
  have long : unicode.lowerLength (afterSchema form.schema p) = unicode.lowerLength form.table.name := by
    rw [← unicode.length_lowercase, same, unicode.length_lowercase]
  have within := afterSchema_sublist form.schema p
  have whole : p = form.table.name :=
    unicode.eq_of_lowerLength sub (long ▸ unicode.lowerLength_sublist within)
  refine ⟨whole, fun unqualified dotted => ?_⟩
  have kept := unicode.eq_of_lowerLength (within.trans sub) long.ge
  obtain ⟨before, after, written, plain⟩ := eq_append_cons_of_mem dotted
  rw [whole, unqualified, written, afterSchema, splitOnce_append plain] at kept
  have lengths := congrArg length kept
  simp at lengths
  omega

theorem fromWord_plain (member : c ∈ form.fromWord) : c ≠ '"' ∧ c ≠ '(' ∧ c ≠ '.' := by
  have spelled : c.toUpper ∈ "FROM STDIN".toList := by
    rw [← form.fromSpelled]
    exact mem_map_of_mem member
  refine ⟨?_, ?_, ?_⟩ <;>
    · rintro rfl
      exact absurd spelled (by decide)

theorem fromWord_start (starts : c :: f <+: form.fromWord) :
    c = 'F' ∨ c = 'f' := by
  obtain ⟨rest, same⟩ := starts
  have spelled := form.fromSpelled
  rw [← same] at spelled
  exact toUpper_eq (cons.inj spelled).1

theorem tableName_long (starts : c :: f <+: form.fromWord) :
    tableName (form.gap ++ (form.qualified ++ (form.space ++ c :: f))) =
      resolve (trimMatches '"' (form.qualified ++ (form.space ++ c :: dropEndWhile isSpace f))) := by
  have visible : isSpace c = false := by
    rcases form.fromWord_start starts with rfl | rfl <;> decide
  have trimmed : trim (form.gap ++ (form.qualified ++ (form.space ++ c :: f))) =
      form.qualified ++ (form.space ++ c :: dropEndWhile isSpace f) := by
    rw [trim_spaces form.gapSpaces, trim_append_visible (fun c => form.qualified_start) fun c =>
      form.qualified_stop, dropEndWhile_stop visible]
  have plain : ∀ d ∈ c :: dropEndWhile isSpace f, d ≠ '"' ∧ (false = false → d ≠ '(') := by
    intro d member
    have within : d ∈ form.fromWord := by
      apply starts.subset
      rcases mem_cons.mp member with rfl | later
      · exact mem_cons_self
      · exact mem_cons_of_mem _ ((dropEndWhile_initial _ _).subset later)
    exact ⟨(form.fromWord_plain within).1, fun _ => (form.fromWord_plain within).2.1⟩
  have kept : stripColumnList (form.qualified ++ (form.space ++ c :: dropEndWhile isSpace f)) =
      form.qualified ++ (form.space ++ c :: dropEndWhile isSpace f) := by
    apply stripColumnList_self
    have none := stripColumnList_plain plain []
    rw [append_nil, Classifier.stripColumnList, append_nil] at none
    rw [qualified, append_assoc, stripColumnList_qualifier, stripColumnList_text,
      stripColumnList_plain form.space_plain, none]
  rw [tableName_eq, trimmed, kept]

theorem overrun_plain {c d : Char} {f : List Char} (starts : c :: f <+: form.fromWord)
    (member : d ∈ form.space ++ c :: dropEndWhile isSpace f) : d ≠ '"' ∧ d ≠ '.' := by
  rcases mem_append.mp member with space | word
  · refine ⟨(form.space_plain d space).1, ?_⟩
    rintro rfl
    exact absurd (form.spaceSpaces _ space) (by decide)
  · have within : d ∈ form.fromWord := by
      apply starts.subset
      rcases mem_cons.mp word with rfl | later
      · exact mem_cons_self
      · exact mem_cons_of_mem _ ((dropEndWhile_initial _ _).subset later)
    exact ⟨(form.fromWord_plain within).1, (form.fromWord_plain within).2.2⟩

theorem overrun_start (starts : c :: f <+: form.fromWord) (rest : List Char) :
    ¬ "ducklake_".toList <+: unicode.lowercase (form.space ++ c :: rest) := by
  obtain ⟨d, more, same, image⟩ : ∃ d more, form.space ++ c :: rest = d :: more ∧
      ∀ image, LowerImage (unicode.width d) d image → ∃ e, image = [e] ∧ e ≠ 'd' := by
    cases spaces : form.space with
    | nil =>
      refine ⟨c, rest, rfl, fun image lowered => ⟨c.toLower, ?_, ?_⟩⟩
      · apply lowered.ascii
        rcases form.fromWord_start starts with rfl | rfl <;> decide
      · rcases form.fromWord_start starts with rfl | rfl <;> decide
    | cons d more =>
      have space := form.spaceSpaces d (by rw [spaces]; exact mem_cons_self)
      refine ⟨d, more ++ c :: rest, rfl, fun image lowered => ⟨d, lowered.space space, ?_⟩⟩
      rintro rfl
      exact absurd space (by decide)
  obtain ⟨first, later, lowered, isImage⟩ := unicode.lowercase_cons d more
  obtain ⟨e, single, other⟩ := image first isImage
  rw [same, lowered, single]
  intro begins
  exact other (cons_prefix_cons.mp begins).1.symm

theorem lowercase_long (starts : c :: f <+: form.fromWord) :
    unicode.lowercase (tableName (form.gap ++ (form.qualified ++ (form.space ++ c :: f)))) ≠
      unicode.lowercase form.table.name := by
  have longer : ∀ between, unicode.lowercase (form.table.name ++ (between ++
      (form.space ++ c :: dropEndWhile isSpace f))) ≠ unicode.lowercase form.table.name := by
    intro between same
    have lengths := congrArg length same
    have positive := unicode.width_pos c
    simp [unicode.length_lowercase] at lengths
    omega
  have plain := fun d => @overrun_plain unicode form c d f starts
  have nonempty : form.space ++ c :: dropEndWhile isSpace f ≠ [] := by simp
  have different := form.overrun_start starts (dropEndWhile isSpace f)
  rw [form.tableName_long starts, qualified, append_assoc]
  generalize form.space ++ c :: dropEndWhile isSpace f = tail at longer plain nonempty different
  have ended : ∀ front : List Char, (front ++ tail).getLast? ≠ some '"' := by
    intro front last
    rw [getLast?_append_of_ne_nil _ nonempty] at last
    exact (plain _ (mem_of_getLast? last)).1 rfl
  have unquoted : trimMatches '"' (form.table.text ++ tail) =
      form.table.name ++ (form.table.quote ++ tail) := by
    rw [text, append_assoc, append_assoc, trimMatches_open form.table.eq_quote]
    apply trimMatches_self
    · rw [head?_append_of_ne_nil _ form.table_ne_nil]
      exact fun first => form.table.free (mem_of_mem_head? first)
    · rw [← append_assoc]
      exact ended _
  cases given : form.schema with
  | some s =>
    obtain ⟨nonempty, plain⟩ := form.named s given
    rw [resolve_schema nonempty plain, unquoted]
    exact longer form.table.quote
  | none =>
    rw [qualifier, elim_none, nil_append, unquoted]
    by_cases dotted : '.' ∈ form.table.name
    · -- the name is in quotes, and what is read starts after its dot
      have quoted : form.table.quote = ['"'] := by
        cases bare : form.table.quoted with
        | true => simp [quote, bare]
        | false => exact absurd rfl (form.table.bare bare _ dotted).1
      obtain ⟨before, after, written, undotted⟩ := eq_append_cons_of_mem dotted
      have split : form.table.name ++ (form.table.quote ++ tail) =
          before ++ '.' :: (after ++ '"' :: tail) := by
        simp [written, quoted]
      rw [split, resolve_append undotted]
      by_cases last : after = []
      · have rest : trimMatches '"' (after ++ '"' :: tail) = tail := by
          rw [last, nil_append, ← singleton_append, trimMatches_open (by simp),
            trimMatches_of_not_mem fun member => (plain _ member).1 rfl]
        rw [rest]
        intro same
        exact different (same ▸ form.isDuckLake)
      · have rest : trimMatches '"' (after ++ '"' :: tail) = after ++ '"' :: tail := by
          apply trimMatches_self
          · rw [head?_append_of_ne_nil _ last]
            intro first
            apply form.table.free
            rw [written]
            exact mem_append_right _ (mem_cons_of_mem _ (mem_of_mem_head? first))
          · rw [append_cons]
            exact ended _
        rw [rest]
        intro same
        apply form.table.free
        rw [← unicode.quote_mem_lowercase, ← same, unicode.quote_mem_lowercase]
        exact mem_append_right _ mem_cons_self
    · have none : '.' ∉ form.table.name ++ (form.table.quote ++ tail) := by
        simp only [mem_append, not_or]
        refine ⟨dotted, fun member => ?_, fun member => (plain _ member).2 rfl⟩
        exact absurd (form.table.eq_quote _ member) (by decide)
      rw [resolve_plain none]
      exact longer form.table.quote

/-- A table part of which the table's name is read. It may lack a closing quote, and it may reach into a
column list. -/
structure Reads (part : List Char) : Prop where
  reaches : form.gap ++ form.qualified <+: part ∨
    form.table.quoted = true ∧ dropEndWhile isSpace form.table.name = form.table.name ∧
      part = form.gap ++ (qualifier form.schema ++ (form.table.quote ++ form.table.name))
  stops : form.columns = none → part <+: form.gap ++ (form.qualified ++ form.space)
  dots : form.schema = none → '.' ∉ form.table.name

variable {form}

theorem Reads.afterSchema (reads : form.Reads part) :
    afterSchema form.schema form.table.name = form.table.name := by
  cases given : form.schema with
  | some s => rfl
  | none =>
    rw [CopyText.afterSchema, splitOnce_none (reads.dots given)]
    rfl

theorem tableName_of_reads (reads : form.Reads part)
    (starts : part <+: form.gap ++ (form.qualified ++ (form.space ++ (form.columnList ++ form.fromWord)))) :
    tableName part = form.table.name := by
  rcases reads.reaches with ⟨more, rfl⟩ | ⟨_, unspaced, rfl⟩
  · rw [append_assoc, prefix_append_right_inj, prefix_append_right_inj] at starts
    have spaced : more <+: form.space → tableName (form.gap ++ form.qualified ++ more) =
        form.table.name := by
      intro within
      rw [append_assoc, form.tableName_qualified fun c member =>
        form.spaceSpaces c (within.subset member), reads.afterSchema]
    rcases prefix_append_or starts with within | ⟨list, rfl, listed⟩
    · exact spaced within
    cases given : form.columns with
    | none =>
      have stops := reads.stops given
      rw [append_assoc, prefix_append_right_inj, prefix_append_right_inj] at stops
      exact spaced stops
    | some columns =>
      rw [columnList, given, elim_some, cons_append, prefix_cons_iff] at listed
      rcases listed with rfl | ⟨inside, rfl, _⟩
      · exact spaced (by simp)
      · rw [append_assoc, form.tableName_columns, reads.afterSchema]
  · rw [form.tableName_cut prefix_rfl (.inr rfl) prefix_rfl, unspaced, reads.afterSchema]

theorem lowercase_schema (given : form.schema = some s) (within : cut <+: s.text) :
    unicode.lowercase (tableName (form.gap ++ cut)) ≠
      unicode.lowercase form.table.name := by
  intro same
  have spelled := form.isPublic s given
  have ascii : ∀ c ∈ s.text, c.toNat < 128 := by
    intro c member
    simp only [text, mem_append] at member
    rcases member with (quote | named) | quote
    · rw [s.eq_quote c quote]
      decide
    · apply ascii_of_toLower
      have lowered : c.toLower ∈ "public".toList := by
        rw [← spelled]
        exact mem_map_of_mem named
      have low : ("public".toList.all fun d => d.toNat < 128) = true := by decide
      exact of_decide_eq_true (all_eq_true.mp low _ lowered)
    · rw [s.eq_quote c quote]
      decide
  have short : s.text.length ≤ 8 := by
    have name : s.name.length = 6 := by
      have lengths := congrArg length spelled
      rwa [lower, length_map] at lengths
    have quote : s.quote.length ≤ 1 := by
      rw [quote]
      split <;> simp
    simp only [text, length_append, name]
    omega
  have sub : (tableName (form.gap ++ cut)).Sublist s.text := by
    refine (tableName_sublist _).trans ?_
    rw [trim_spaces form.gapSpaces]
    exact (trim_sublist cut).trans within.sublist
  have lengths := congrArg length same
  rw [unicode.length_lowercase, unicode.length_lowercase] at lengths
  have small := unicode.lowerLength_sublist sub
  rw [unicode.lowerLength_of_ascii ascii] at small
  have long := form.long
  omega

theorem reads_of_cut (opens : opening <+: form.table.quote)
    (named : p = [] ∨ opening = form.table.quote) (starts : p <+: form.table.name)
    (same : unicode.lowercase (tableName (form.gap ++ (qualifier form.schema ++ (opening ++ p)))) = unicode.lowercase form.table.name) :
    form.Reads (form.gap ++ (qualifier form.schema ++ (opening ++ p))) := by
  rw [form.tableName_cut opens named starts] at same
  have shorter := dropEndWhile_initial isSpace p
  obtain ⟨whole, dots⟩ := form.name_of_read (shorter.trans starts).sublist same
  have all : p = form.table.name := by
    rw [whole] at shorter
    exact starts.eq_of_length_le shorter.length_le
  subst all
  have quoted : opening = form.table.quote := named.resolve_left form.table_ne_nil
  subst quoted
  have within : form.table.quote ++ form.table.name <+: form.table.text := ⟨form.table.quote, rfl⟩
  refine ⟨?_, fun _ => ?_, dots⟩
  · cases bare : form.table.quoted with
    | true => exact .inr ⟨rfl, whole, rfl⟩
    | false =>
      refine .inl ?_
      simp [qualified, text, quote, bare]
  · rw [prefix_append_right_inj, qualified, append_assoc, prefix_append_right_inj]
    exact within.trans (prefix_append _ _)

theorem reads_of_whole (starts : more <+: form.space ++ (form.columnList ++ form.fromWord))
    (same : unicode.lowercase (tableName (form.gap ++ (form.qualified ++ more))) = unicode.lowercase form.table.name) :
    form.Reads (form.gap ++ (form.qualified ++ more)) := by
  have reaches : form.gap ++ form.qualified <+: form.gap ++ (form.qualified ++ more) :=
    ⟨more, append_assoc _ _ _⟩
  have dots (read : tableName (form.gap ++ (form.qualified ++ more)) =
      afterSchema form.schema form.table.name) : form.schema = none → '.' ∉ form.table.name :=
    (form.name_of_read (Sublist.refl _) (read ▸ same)).2
  have spaced (within : more <+: form.space) : form.Reads (form.gap ++ (form.qualified ++ more)) := by
    have read := form.tableName_qualified fun c member => form.spaceSpaces c (within.subset member)
    refine ⟨.inl reaches, fun _ => ?_, dots read⟩
    rwa [prefix_append_right_inj, prefix_append_right_inj]
  rcases prefix_append_or starts with within | ⟨list, rfl, listed⟩
  · exact spaced within
  cases list with
  | nil => exact spaced (by simp)
  | cons c rest =>
    cases given : form.columns with
    | none =>
      rw [columnList, given, elim_none, nil_append] at listed
      exact absurd same (form.lowercase_long listed)
    | some columns =>
      rw [columnList, given, elim_some, cons_append, cons_prefix_cons] at listed
      obtain ⟨rfl, _⟩ := listed
      exact ⟨.inl reaches, fun none => absurd (given.symm.trans none) nofun,
        dots (form.tableName_columns rest)⟩

theorem qualifier_cases (starts : cut <+: qualifier schema) :
    cut = qualifier schema ∨ ∃ s, schema = some s ∧ cut <+: s.text := by
  cases schema with
  | none => exact .inl (prefix_nil.mp starts)
  | some s =>
    rcases prefix_concat_iff.mp starts with whole | within
    · exact .inl whole
    · exact .inr ⟨s, rfl, within⟩

theorem reads_of_front (starts : cut <+: form.qualified)
    (same : unicode.lowercase (tableName (form.gap ++ cut)) = unicode.lowercase form.table.name) :
    form.Reads (form.gap ++ cut) := by
  rw [qualified, text, append_assoc] at starts
  rcases prefix_append_or starts with inQualifier | ⟨inner, rfl, inTable⟩
  · rcases qualifier_cases inQualifier with rfl | ⟨s, given, inSchema⟩
    · have whole : qualifier form.schema = qualifier form.schema ++ ([] ++ []) := by simp
      rw [whole] at same ⊢
      exact reads_of_cut nil_prefix (.inl rfl) nil_prefix same
    · exact absurd same (lowercase_schema given inSchema)
  rcases prefix_append_or inTable with inQuote | ⟨name, rfl, afterQuote⟩
  · rw [← append_nil inner] at same ⊢
    exact reads_of_cut inQuote (.inl rfl) nil_prefix same
  rcases prefix_append_or afterQuote with inName | ⟨closing, rfl, closes⟩
  · exact reads_of_cut prefix_rfl (.inr rfl) inName same
  -- the closing quote is all that is left
  have closed : closing = [] ∨ closing = form.table.quote := by
    cases quoted : form.table.quoted with
    | false =>
      rw [quote, quoted] at closes
      exact .inl (prefix_nil.mp closes)
    | true =>
      rw [quote, quoted, if_pos rfl] at closes ⊢
      rcases prefix_cons_iff.mp closes with none | ⟨rest, rfl, empty⟩
      · exact .inl none
      · rw [prefix_nil.mp empty]
        exact .inr rfl
  rcases closed with rfl | rfl
  · rw [append_nil] at same ⊢
    exact reads_of_cut prefix_rfl (.inr rfl) prefix_rfl same
  · have whole : qualifier form.schema ++ (form.table.quote ++ (form.table.name ++ form.table.quote)) =
        form.qualified ++ [] := by
      simp [qualified, text]
    rw [whole] at same ⊢
    exact reads_of_whole nil_prefix same

theorem reads_of_lowercase
    (starts : part <+: form.gap ++ (form.qualified ++ (form.space ++ (form.columnList ++ form.fromWord))))
    (same : unicode.lowercase (tableName part) = unicode.lowercase form.table.name) :
    form.Reads part := by
  rcases prefix_append_or starts with within | ⟨cut, rfl, afterGap⟩
  · -- nothing but spaces is left
    have empty : trim part = [] := by
      have spaces := trim_spaces (fun c member => form.gapSpaces c (within.subset member)) []
      rwa [append_nil] at spaces
    have nothing : tableName part = [] := by
      have sub := tableName_sublist part
      rw [empty] at sub
      exact sublist_nil.mp sub
    have lengths := congrArg length same
    rw [nothing, unicode.length_lowercase, unicode.length_lowercase] at lengths
    have long := form.long
    simp [CaseMapping.lowerLength] at lengths long
    omega
  rcases prefix_append_or afterGap with within | ⟨more, rfl, afterTable⟩
  · exact reads_of_front within same
  · exact reads_of_whole afterTable same

/-- The last words are found, in the upper case, at an offset where the original is cut right behind the
table. A closing quote may be cut off, unless the name ends in a space, and the cut may be anywhere
in the column list. A name with a dot needs its schema. -/
structure Aligned (form : CopyFrom unicode) (n : Nat) : Prop where
  boundary : Boundary form.head n
  reaches : size (form.copyWord ++ (form.gap ++ form.qualified)) ≤ n ∨
    form.table.quoted = true ∧ dropEndWhile isSpace form.table.name = form.table.name ∧
      n + 1 = size (form.copyWord ++ (form.gap ++ form.qualified))
  stops : form.columns = none → n ≤ size (form.copyWord ++ (form.gap ++ (form.qualified ++ form.space)))
  dots : form.schema = none → '.' ∉ form.table.name

variable {part : List Char} {n : Nat}

theorem aligned_iff (starts : form.copyWord ++ part <+: form.head)
    (ends : size (form.copyWord ++ part) = n) : form.Aligned n ↔ form.Reads part := by
  have table : form.copyWord ++ (form.gap ++ form.qualified) <+: form.head := by
    rw [head, prefix_append_right_inj, prefix_append_right_inj]
    exact prefix_append _ _
  have spaced : form.copyWord ++ (form.gap ++ (form.qualified ++ form.space)) <+: form.head := by
    rw [head, prefix_append_right_inj, prefix_append_right_inj, prefix_append_right_inj]
    exact prefix_append _ _
  have reach := prefix_iff_size_le table starts
  have stop := prefix_iff_size_le starts spaced
  rw [prefix_append_right_inj, ends] at reach stop
  have unclosed (quoted : form.table.quoted = true) :
      n + 1 = size (form.copyWord ++ (form.gap ++ form.qualified)) ↔
        part = form.gap ++ (qualifier form.schema ++ (form.table.quote ++ form.table.name)) := by
    have whole : form.qualified = qualifier form.schema ++ (form.table.quote ++ form.table.name) ++ ['"'] := by
      simp [qualified, text, quote, quoted]
    have within : form.copyWord ++ (form.gap ++ (qualifier form.schema ++ (form.table.quote ++
        form.table.name))) <+: form.head := by
      refine IsPrefix.trans ?_ table
      rw [prefix_append_right_inj, prefix_append_right_inj, whole]
      exact prefix_append _ _
    have one : size (form.copyWord ++ (form.gap ++ form.qualified)) = size (form.copyWord ++
        (form.gap ++ (qualifier form.schema ++ (form.table.quote ++ form.table.name)))) + 1 := by
      rw [whole]
      simp only [size_append, size_cons, size_nil]
      have quote : '"'.utf8Size = 1 := rfl
      omega
    rw [one, ← ends]
    constructor
    · intro same
      exact append_cancel_left (eq_of_size starts within (by omega))
    · rintro rfl
      rfl
  constructor
  · rintro ⟨_, reaches, stops, dots⟩
    refine ⟨?_, fun none => stop.mpr (stops none), dots⟩
    rcases reaches with whole | ⟨quoted, unspaced, short⟩
    · exact .inl (reach.mpr whole)
    · exact .inr ⟨quoted, unspaced, (unclosed quoted).mp short⟩
  · rintro ⟨reaches, stops, dots⟩
    refine ⟨⟨_, starts, ends⟩, ?_, fun none => stop.mp (stops none), dots⟩
    rcases reaches with whole | ⟨quoted, unspaced, short⟩
    · exact .inl (reach.mp whole)
    · exact .inr ⟨quoted, unspaced, (unclosed quoted).mpr short⟩

def offset (form : CopyFrom unicode) : Nat :=
  (findBytes "FROM STDIN".toList (unicode.uppercase form.head)).getD 0

theorem offset_found (form : CopyFrom unicode) :
    findBytes "FROM STDIN".toList (unicode.uppercase form.head) = some form.offset := by
  have occurs : "FROM STDIN".toList <:+: unicode.uppercase form.head := by
    simp only [head, unicode.uppercase_append, unicode.uppercase_spelled form.fromSpelled (by decide)]
    simp only [← append_assoc]
    exact (suffix_append _ _).isInfix
  obtain ⟨n, found⟩ := findBytes_of_infix occurs
  rw [offset, found]
  rfl

/-- The table is read whatever follows the statement, exactly if the offset found in the upper case fits
the original. -/
theorem classifyCopyFromStdin_iff (form : CopyFrom unicode) :
    (∀ rest, classifyCopyFromStdin unicode (form.head ++ rest) =
      some (some (unicode.lowercase form.table.name))) ↔ form.Aligned form.offset := by
  have range := @copyRange_of_start unicode _ _ _ _ form.copySpelled form.offset_found
  constructor
  · intro read
    have here := read []
    rw [classifyCopyFromStdin, head, range, append_nil] at here
    split at here
    · cases here
    rename_i start stop found
    split at found
    · cases found
    cases found
    obtain ⟨part, sliced, classified⟩ := map_eq_some_iff.mp here
    obtain ⟨starts, ends⟩ := (slice_of_start form.copySpelled).mp sliced
    rw [aligned_iff ((prefix_append_right_inj _).mpr starts) ends]
    apply reads_of_lowercase starts
    simp only [normalizeCopyTable, tableName_trim] at classified
    split at classified
    · exact Option.some.inj classified
    · cases classified
  · intro aligned rest
    have copied : size form.copyWord = 4 := size_spelled form.copySpelled (by decide)
    obtain ⟨before, starts, ends⟩ := aligned.boundary
    have visible : 0 < size form.table.name := Nat.pos_of_ne_zero fun empty =>
      form.table_ne_nil (eq_nil_of_size empty)
    have beyond : 4 < form.offset := by
      have long : size form.table.name + 2 * size form.table.quote ≤ size form.qualified := by
        simp only [qualified, text, size_append]
        omega
      rcases aligned.reaches with whole | ⟨quoted, _, short⟩
      · simp only [size_append] at whole
        omega
      · have quote : size form.table.quote = 1 := by simp [quote, quoted]; rfl
        simp only [size_append] at short
        omega
    obtain ⟨part, rfl⟩ : form.copyWord <+: before := by
      rw [prefix_iff_size_le (prefix_append _ _) starts, copied, ends]
      omega
    have reads := (aligned_iff starts ends).mp aligned
    rw [head, prefix_append_right_inj] at starts
    have sliced := (slice_of_start form.copySpelled).mpr ⟨starts.trans (prefix_append _ rest), ends⟩
    rw [← append_assoc] at sliced
    have named : tableName (trim part) = form.table.name := by
      rw [tableName_trim]
      exact tableName_of_reads reads starts
    have ducklake : Classifier.isDuckLake (unicode.lowercase form.table.name) = true :=
      isPrefixOf_iff_prefix.mpr form.isDuckLake
    rw [classifyCopyFromStdin, head, range, if_neg (by omega)]
    simp only [sliced, normalizeCopyTable, named, map_some, if_pos ducklake]

end CopyFrom

end RockLake.CopyText
