import RockLake.PgWire.Executor
import RockLake.PgWire.LiteralRows
import RockLake.Sql.CopyQueries

/-! What the executor finds by searching the text of a statement: the rows after the first word VALUES,
and the numbers that an UPDATE of the table statistics assigns. -/
namespace RockLake.Literals

open Text Option Bool Executor Unicode
open List hiding after

/-- The rows of any text. The offset of the word is one in the lower case of Unicode, and no result is a
panic. -/
def literalInsertRowsBytes (unicode : Unicode.CaseMapping) (sql : List Char) :
    Option (List (List (Option String))) :=
  match findBytes "values".toList (unicode.lowercase sql) with
  | none => some []
  | some start => (slice sql (start + 6) (size sql)).map fun after =>
      (scanRows 0 .outside none (trimStart after)).map splitLiteralValues

/-- After ASCII text without the word, offsets in the lower case are offsets in the text, and all rows
come back. -/
theorem literal_rows_round_trip (unicode : Unicode.CaseMapping) (head : List Char) (rows : List (List Cell))
    (ascii : ∀ c ∈ head, c.toNat < 128) (first : contains "values".toList (lower head) = false)
    (nonempty : ∀ cells ∈ rows, cells ≠ []) :
    literalInsertRowsBytes unicode (head ++ " VALUES ".toList ++ rowsText rows) =
      some (rows.map (·.map Cell.value)) := by
  have asciiWord : ∀ c ∈ head ++ " VALUES ".toList, c.toNat < 128 :=
    forall_mem_append.mpr ⟨ascii, all_iff_forall_prop.mp (by decide)⟩
  obtain ⟨later, lowered⟩ := unicode.lowercase_ascii_append asciiWord (rowsText rows)
  have found : findBytes "values".toList
      (unicode.lowercase (head ++ " VALUES ".toList ++ rowsText rows)) = some (head.length + 1) := by
    rw [lowered]
    refine findBytes_append ?_ later
    have asciiLower : ∀ c ∈ lower (head ++ " VALUES ".toList), c.toNat < 128 :=
      forall_mem_map.mpr fun c member => toLower_ascii (asciiWord c member)
    rw [findBytes_of_ascii asciiLower]
    simpa using find_values first []
  have cut : slice (head ++ " VALUES ".toList ++ rowsText rows) (head.length + 1 + 6)
      (size (head ++ " VALUES ".toList ++ rowsText rows)) = some (' ' :: rowsText rows) := by
    refine slice_to_end.mpr ⟨head ++ " VALUES".toList, by simp, ?_⟩
    rw [size_append, size_of_ascii ascii]
    rfl
  rw [literalInsertRowsBytes, found]
  simp only [cut, map_some, splitLiteralValues_rows nonempty]

theorem literal_rows_round_trip_quoted :
    literalInsertRowsBytes CopyText.letters
        ("INSERT INTO t".toList ++ " VALUES ".toList ++ rowsText [[.null, .text "é, (b) 'values'"]]) =
      some [[none, some "é, (b) 'values'"]] :=
  literal_rows_round_trip _ _ _ (all_iff_forall_prop.mp (by decide)) (by decide)
    (forall_mem_singleton.mpr (cons_ne_nil _ _))

/-! ### Assigned numbers -/

/-- The columns of `ducklake_table_stats`. -/
inductive StatsColumn where
  | tableId | recordCount | fileSizeBytes | nextRowId
  deriving DecidableEq

def StatsColumn.name : StatsColumn → List Char
  | .tableId => "table_id".toList
  | .recordCount => "record_count".toList
  | .fileSizeBytes => "file_size_bytes".toList
  | .nextRowId => "next_row_id".toList

theorem StatsColumn.eq_of_infix {column other : StatsColumn} (occurs : column.name <:+: other.name) :
    other = column := by
  rw [← contains_iff] at occurs
  revert occurs
  cases column <;> cases other <;> decide

def squeeze (text : List Char) : List Char := (lower text).filter (!isSpace ·)

/-- A column, an equals sign and an integer, after the words or the comma in front of them. Letters are
of any case and white space is where it may be. -/
structure Assignment where
  lead : List Char
  column : StatsColumn
  spelled : List Char
  gap : List Char
  space : List Char
  negative : Bool
  digits : List Char
  spelling : lower spelled = column.name
  spaces : ∀ c ∈ gap ++ space, isSpace c = true
  numeral : digits ≠ [] ∧ ∀ c ∈ digits, c.isDigit = true
  apart : ∃ front c, lead = front ++ [c] ∧ (isSpace c = true ∨ c = ',')

namespace Assignment

variable (a : Assignment)

def number : List Char := if a.negative then '-' :: a.digits else a.digits

def body : List Char := a.spelled ++ (a.gap ++ '=' :: (a.space ++ a.number))

def text : List Char := a.lead ++ a.body

def magnitude : Nat := Nat.ofDigitChars 10 a.digits 0

def value : Int := if a.negative then -a.magnitude else a.magnitude

/-- A number that the executor can read: no sign, and small enough. -/
def Plain : Prop := a.negative = false ∧ a.magnitude < 2 ^ 64

end Assignment

/-- An update of the statistics of one table. -/
structure StatsUpdate where
  first : Assignment
  others : List Assignment
  condition : Assignment
  rest : List Char
  leads : squeeze first.lead = "updateducklake_table_statsset".toList ∧
    (∀ a ∈ others, squeeze a.lead = [',']) ∧ squeeze condition.lead = "where".toList
  distinct : ((first :: others).map Assignment.column).Nodup
  selects : condition.column = .tableId
  ends : squeeze rest = [] ∨ squeeze rest = [';']

namespace StatsUpdate

variable (u : StatsUpdate)

def assigned : List Assignment := u.first :: u.others

def sql : List Char := (u.assigned ++ [u.condition]).flatMap Assignment.text ++ u.rest

/-- The operation sets the row of the table that the condition names to the assigned values. -/
def Sets (op : BufferedOp) : Prop :=
  ∃ tableId records bytes next, op = .setTableStats tableId records bytes next ∧
    u.condition.value = tableId ∧ ∀ a ∈ u.assigned, match a.column with
      | .tableId => True
      | .recordCount => a.value = records
      | .fileSizeBytes => a.value = bytes
      | .nextRowId => a.value = next

end StatsUpdate

def foreign (c : Char) : Bool := isSpace c || c.isDigit || c = '=' || c = '-' || c = ','

theorem toLower_of_foreign (other : foreign c = true) : c.toLower = c := by
  simp only [foreign, or_eq_true, decide_eq_true_eq] at other
  rcases other with (((space | digit) | rfl) | rfl) | rfl
  · exact toLower_of_space space
  · have range : ¬ ('A'.val ≤ c.val ∧ c.val ≤ 'Z'.val) := by
      simp only [Char.isDigit, and_eq_true, decide_eq_true_eq, UInt32.le_iff_toNat_le] at digit ⊢
      intro upper
      exact absurd (upper.1.trans digit.2) (by decide)
    unfold Char.toLower
    rw [dif_neg range]
  · rfl
  · rfl
  · rfl

theorem not_mem_name (other : foreign c = true) (column : StatsColumn) :
    c.toLower ∉ column.name := by
  have letters : (column.name.all fun d => !foreign d) = true := by cases column <;> decide
  intro member
  have shown := all_eq_true.mp letters _ member
  rw [toLower_of_foreign other, other] at shown
  cases shown

theorem infix_squeeze (column : StatsColumn) (occurs : column.name <:+: lower text) :
    column.name <:+: squeeze text := by
  have kept : column.name.filter (!isSpace ·) = column.name := by cases column <;> decide
  rw [← kept, squeeze]
  exact occurs.filter _

variable {column : StatsColumn} {front rest : List Char} {c : Char}

theorem literalAssignmentU64_skip (other : foreign c = true)
    (absent : ¬ column.name <:+: lower front) :
    literalAssignmentU64 (front ++ c :: rest) column.name = literalAssignmentU64 rest column.name := by
  have names : lower column.name = column.name := by cases column <;> decide
  have nonempty : column.name ≠ [] := by cases column <;> decide
  have lowered : lower (front ++ c :: rest) = lower front ++ c.toLower :: lower rest := by simp [lower]
  have missing : contains column.name (lower front) = false := by
    rw [eq_false_iff, Ne, contains_iff]
    exact absent
  rw [literalAssignmentU64, literalAssignmentU64, names, lowered,
    find_skip nonempty (not_mem_name other column) missing, bind_map]
  congr 1
  funext start
  have length : (lower front).length = front.length := length_map _
  have drop : (front ++ c :: rest).drop (start + ((lower front).length + 1) + column.name.length) =
      rest.drop (start + column.name.length) := by
    rw [length, show start + (front.length + 1) + column.name.length =
      front.length + (1 + (start + column.name.length)) by omega, drop_append, drop_of_length_le
      (by omega)]
    simp [Nat.add_comm 1]
  rw [Function.comp_apply, drop]

theorem infix_of_gap (some_gap : gap ≠ []) (other : ∀ c ∈ gap, foreign c = true)
    (occurs : column.name <:+: lower (front ++ (gap ++ rest))) :
    column.name <:+: lower front ∨ column.name <:+: lower rest := by
  induction gap generalizing front with
  | nil => contradiction
  | cons c gap ih =>
    obtain ⟨first, later⟩ := forall_mem_cons.mp other
    have lowered : lower (front ++ (c :: gap ++ rest)) = lower front ++ c.toLower :: lower (gap ++ rest) := by
      simp [lower]
    rw [lowered] at occurs
    rcases infix_of_foreign (not_mem_name first column) occurs with early | late
    · exact .inl early
    cases gap with
    | nil => exact .inr late
    | cons d gap =>
      rcases @ih [] (cons_ne_nil _ _) later late with nothing | late
      · exact absurd (infix_nil.mp nothing) (by cases column <;> decide)
      · exact .inr late

namespace Assignment

variable {a : Assignment}

theorem visible_of_digit (digit : c.isDigit = true) : isSpace c = false := by
  simp only [Char.isDigit, and_eq_true, decide_eq_true_eq, UInt32.le_iff_toNat_le] at digit
  have low : 48 ≤ c.toNat := digit.1
  have high : c.toNat ≤ 57 := digit.2
  simp only [isSpace, or_eq_false_iff, and_eq_false_iff, decide_eq_false_iff_not]
  omega

theorem digits_not (digit : c.isDigit = true) (other : d.isDigit = false) : c ≠ d := by
  rintro rfl
  rw [digit] at other
  cases other

theorem parseLeadingU64_number (next : ∀ c, rest.head? = some c → c.isDigit = false) :
    parseLeadingU64 (a.space ++ (a.number ++ rest)) =
      if a.negative then none else (some a.magnitude).filter (· < 2 ^ 64) := by
  have blank : ∀ c ∈ a.space, isSpace c = true := fun c member =>
    a.spaces c (mem_append_right _ member)
  obtain ⟨d, digits, written⟩ := exists_cons_of_ne_nil a.numeral.1
  have numeral := a.numeral.2
  rw [written] at numeral
  have digit : d.isDigit = true := numeral d mem_cons_self
  rw [parseLeadingU64, trimStart, dropWhile_append_of_pos blank, number]
  cases a.negative with
  | true => rfl
  | false =>
    have taken : (d :: digits ++ rest).takeWhile Char.isDigit = d :: digits := by
      rw [takeWhile_append_of_pos numeral]
      cases rest with
      | nil => exact append_nil _
      | cons c rest => rw [takeWhile_cons_of_neg (by rw [next c rfl]; exact Bool.false_ne_true),
          append_nil]
    have quote : decide (d = '\'') = false := decide_eq_false (digits_not digit (by decide))
    rw [if_neg Bool.false_ne_true, if_neg Bool.false_ne_true, written]
    rw [cons_append, dropWhile_cons_of_neg (by rw [visible_of_digit digit]; exact Bool.false_ne_true),
      dropWhile_cons_of_neg (by rw [quote]; exact Bool.false_ne_true), ← cons_append, taken,
      parseUnsigned, magnitude, written]
    · rw [parseDigits, digitsFrom_eq numeral]
      exact cons_ne_nil _ _
    · rintro _ ⟨⟩
      cases digit

theorem literalAssignmentU64_here (next : ∀ c, rest.head? = some c → c.isDigit = false) :
    literalAssignmentU64 (a.body ++ rest) a.column.name =
      if a.negative then none else (some a.magnitude).filter (· < 2 ^ 64) := by
  have names : lower a.column.name = lower a.spelled := by
    rw [a.spelling]
    cases a.column <;> decide
  have length : a.column.name.length = a.spelled.length := by
    rw [← a.spelling, lower, length_map]
  have starts : lower a.spelled <+: lower (a.body ++ rest) := by
    rw [body, append_assoc, lower, lower, map_append]
    exact prefix_append _ _
  have equals : '=' ∉ a.gap := fun member =>
    absurd (a.spaces '=' (mem_append_left _ member)) (by decide)
  rw [literalAssignmentU64, names, find_of_prefix starts, bind_some, Nat.zero_add, length,
    body, append_assoc, drop_left, append_assoc, cons_append,
    splitOnce_append equals, bind_some, append_assoc]
  exact parseLeadingU64_number next

theorem infix_body (occurs : column.name <:+: lower (a.body ++ after)) :
    column.name <:+: lower a.spelled ∨ column.name <:+: lower after := by
  rw [body, append_assoc] at occurs
  refine infix_of_gap ?_ ?_ occurs
  · simp
  intro c member
  have mark : foreign '=' = true ∧ foreign '-' = true := by decide
  have number : c ∈ a.number → foreign c = true := by
    intro inside
    have digit : c ∈ a.digits → foreign c = true := fun inside => by
      simp [foreign, a.numeral.2 c inside]
    rw [Assignment.number] at inside
    split at inside
    · rcases mem_cons.mp inside with rfl | inside
      · exact mark.2
      · exact digit inside
    · exact digit inside
  have space : c ∈ a.gap ++ a.space → foreign c = true := fun inside => by
    simp [foreign, a.spaces c inside]
  rw [mem_append, mem_cons, mem_append] at member
  rcases member with inside | rfl | inside | inside
  · exact space (mem_append_left _ inside)
  · exact mark.1
  · exact space (mem_append_right _ inside)
  · exact number inside

theorem literalAssignmentU64_clauses {column : StatsColumn} {clauses : List Assignment} {front after : List Char}
    (leads : ∀ a ∈ clauses, ¬ column.name <:+: lower a.lead ∧ ∀ c, a.lead.head? = some c → c.isDigit = false)
    (closed : ∀ text, column.name <:+: lower (front ++ text) → column.name <:+: lower text)
    (last : ¬ column.name <:+: lower after ∧ ∀ c, after.head? = some c → c.isDigit = false) :
    literalAssignmentU64 (front ++ (clauses.flatMap Assignment.text ++ after)) column.name =
      (clauses.find? (·.column = column)).bind fun a =>
        if a.negative then none else (some a.magnitude).filter (· < 2 ^ 64) := by
  induction clauses generalizing front with
  | nil =>
    have names : lower column.name = column.name := by cases column <;> decide
    have nowhere : find column.name (lower (front ++ after)) = none := by
      by_contra found
      have occurs := contains_iff.mp (isSome_iff_ne_none.mpr found)
      exact last.1 (closed after occurs)
    rw [flatMap_nil, nil_append, literalAssignmentU64, names, nowhere]
    rfl
  | cons a clauses ih =>
    obtain ⟨⟨unnamed, starts⟩, later⟩ := forall_mem_cons.mp leads
    obtain ⟨before, c, lead, other⟩ := a.apart
    have skipped : literalAssignmentU64 (front ++ ((a :: clauses).flatMap Assignment.text ++ after)) column.name =
        literalAssignmentU64 (a.body ++ (clauses.flatMap Assignment.text ++ after)) column.name := by
      have whole : front ++ ((a :: clauses).flatMap Assignment.text ++ after) =
          (front ++ before) ++ c :: (a.body ++ (clauses.flatMap Assignment.text ++ after)) := by
        simp [Assignment.text, lead]
      rw [whole]
      refine literalAssignmentU64_skip (by rcases other with space | rfl <;> simp [foreign, *]) fun occurs => ?_
      have shorter : column.name <:+: lower before := closed before occurs
      refine unnamed (shorter.trans ?_)
      rw [lead, lower, lower, map_append]
      exact (prefix_append _ _).isInfix
    have next : ∀ c, (clauses.flatMap Assignment.text ++ after).head? = some c → c.isDigit = false := by
      cases clauses with
      | nil => exact last.2
      | cons b clauses =>
        obtain ⟨before, d, lead, _⟩ := b.apart
        have first := (later b mem_cons_self).2
        rw [flatMap_cons, Assignment.text, append_assoc, append_assoc,
          head?_append_of_ne_nil _ (by simp [lead])]
        exact first
    rw [skipped, find?_cons]
    by_cases same : a.column = column
    · subst same
      rw [literalAssignmentU64_here next, decide_eq_true rfl]
      rfl
    · rw [decide_eq_false same]
      refine ih later ?_
      intro text occurs
      rcases infix_body occurs with inside | inside
      · rw [a.spelling] at inside
        exact absurd (StatsColumn.eq_of_infix inside) same
      · exact inside

end Assignment

theorem lead_free (squeezed : squeeze text = words) (column : StatsColumn)
    (free : (words.all fun c => !c.isDigit) = true) (unnamed : contains column.name words = false) :
    ¬ column.name <:+: lower text ∧ ∀ c, text.head? = some c → c.isDigit = false := by
  constructor
  · intro occurs
    rw [← squeezed, contains_iff.mpr (infix_squeeze column occurs)] at unnamed
    cases unnamed
  · intro c first
    by_contra digit
    rw [not_eq_false] at digit
    have same : c.toLower = c := toLower_of_foreign (by simp [foreign, digit])
    have member : c ∈ squeeze text := by
      rw [squeeze, mem_filter, lower, List.mem_map]
      exact ⟨⟨c, mem_of_mem_head? first, same⟩, by rw [Assignment.visible_of_digit digit]; rfl⟩
    rw [squeezed] at member
    have other := all_eq_true.mp free c member
    rw [digit] at other
    cases other

namespace StatsUpdate

variable {u : StatsUpdate}

theorem literalAssignmentU64_sql (column : StatsColumn) :
    literalAssignmentU64 u.sql column.name = ((u.assigned ++ [u.condition]).find? (·.column = column)).bind fun a =>
        if a.negative then none else (some a.magnitude).filter (· < 2 ^ 64) := by
  refine @Assignment.literalAssignmentU64_clauses column _ [] _ ?_ (fun _ => id) ?_
  · intro a member
    rw [assigned, cons_append, mem_cons, mem_append, mem_singleton] at member
    rcases member with rfl | inside | rfl
    · exact lead_free u.leads.1 column (by decide) (by cases column <;> decide)
    · exact lead_free (u.leads.2.1 a inside) column (by decide) (by cases column <;> decide)
    · exact lead_free u.leads.2.2 column (by decide) (by cases column <;> decide)
  · rcases u.ends with nothing | semicolon
    · exact lead_free nothing column (by decide) (by cases column <;> decide)
    · exact lead_free semicolon column (by decide) (by cases column <;> decide)

theorem read_eq_some {a : Assignment} :
    (if a.negative then none else (some a.magnitude).filter (· < 2 ^ 64)) = some n ↔ a.Plain ∧ a.value = n := by
  rw [Assignment.Plain, Assignment.value]
  cases a.negative with
  | true => simp
  | false =>
    rw [if_neg Bool.false_ne_true, if_neg Bool.false_ne_true, filter_eq_some_iff, some_inj,
      decide_eq_true_iff, Int.ofNat_inj]
    constructor
    · rintro ⟨rfl, small⟩
      exact ⟨⟨rfl, small⟩, rfl⟩
    · rintro ⟨⟨_, small⟩, rfl⟩
      exact ⟨rfl, small⟩

theorem assigned_unique (first : a ∈ u.assigned) (second : b ∈ u.assigned)
    (same : a.column = b.column) : a = b :=
  inj_on_of_nodup_map u.distinct first second same

/-- A number is found for a statistic if it is assigned one, and that is the number. -/
theorem found_iff {column : StatsColumn} (statistic : column ≠ .tableId) :
    literalAssignmentU64 u.sql column.name = some n ↔
      ∃ a ∈ u.assigned, a.column = column ∧ a.Plain ∧ a.value = n := by
  have inside : ∀ {a}, (u.assigned ++ [u.condition]).find? (·.column = column) = some a →
      a ∈ u.assigned ∧ a.column = column := by
    intro a found
    have same : a.column = column := by simpa using find?_some found
    rcases mem_append.mp (mem_of_find?_eq_some found) with inside | last
    · exact ⟨inside, same⟩
    · rw [mem_singleton.mp last, u.selects] at same
      exact absurd same.symm statistic
  simp only [literalAssignmentU64_sql, bind_eq_some_iff, read_eq_some]
  constructor
  · rintro ⟨a, found, plain⟩
    exact ⟨a, (inside found).1, (inside found).2, plain⟩
  · rintro ⟨a, member, same, plain⟩
    cases found : (u.assigned ++ [u.condition]).find? (·.column = column) with
    | none =>
      have missing := find?_eq_none.mp found a (mem_append_left _ member)
      exact absurd (decide_eq_true same) missing
    | some b =>
      obtain rfl := assigned_unique (inside found).1 member ((inside found).2.trans same.symm)
      exact ⟨b, rfl, plain⟩

/-- Every statistic is assigned a number that can be read, and the first number for a table is that of
the condition. -/
def AllAssigned (u : StatsUpdate) : Prop :=
  (∀ column ≠ .tableId, ∃ a ∈ u.assigned, a.column = column ∧ a.Plain) ∧
    ∃ a ∈ (u.assigned ++ [u.condition]).find? (·.column = .tableId), a.Plain ∧ a.value = u.condition.value

/-- The statement sets the table to the assigned values if all of them are there to be found. -/
theorem updateTableStats_sets_iff (u : StatsUpdate) (params : ParamValues) :
    u.Sets (updateTableStatsOp u.sql params) ↔ u.AllAssigned := by
  have table {n : Nat} : literalAssignmentU64 u.sql "table_id".toList = some n ↔
      ∃ a ∈ (u.assigned ++ [u.condition]).find? (·.column = .tableId), a.Plain ∧ a.value = n := by
    rw [show "table_id".toList = StatsColumn.tableId.name from rfl, literalAssignmentU64_sql,
      bind_eq_some_iff]
    simp only [read_eq_some, mem_def]
  constructor
  · rintro ⟨tableId, records, bytes, next, same, selected, values⟩
    rw [updateTableStatsOp] at same
    split at same
    · rename_i byTable byRecords byBytes byNext
      cases same
      refine ⟨fun column statistic => ?_, by rw [selected]; exact table.mp byTable⟩
      have some_found : ∃ n, literalAssignmentU64 u.sql column.name = some n := by
        cases column with
        | tableId => contradiction
        | recordCount => exact ⟨_, byRecords⟩
        | fileSizeBytes => exact ⟨_, byBytes⟩
        | nextRowId => exact ⟨_, byNext⟩
      obtain ⟨n, found⟩ := some_found
      obtain ⟨a, member, same, plain, _⟩ := (found_iff statistic).mp found
      exact ⟨a, member, same, plain⟩
    · cases same
  · rintro ⟨all, a, first, plain, value⟩
    have found : ∀ column ≠ .tableId, ∃ n, literalAssignmentU64 u.sql column.name = some n ∧
        ∀ b ∈ u.assigned, b.column = column → b.value = n := by
      intro column statistic
      obtain ⟨b, member, same, small⟩ := all column statistic
      have number : b.value = b.magnitude := by rw [Assignment.value, small.1]; rfl
      refine ⟨b.magnitude, (found_iff statistic).mpr ⟨b, member, same, small, number⟩, fun c other also => ?_⟩
      rw [assigned_unique other member (also.trans same.symm), number]
    obtain ⟨records, byRecords, recordsOf⟩ := found .recordCount (by decide)
    obtain ⟨bytes, byBytes, bytesOf⟩ := found .fileSizeBytes (by decide)
    obtain ⟨next, byNext, nextOf⟩ := found .nextRowId (by decide)
    have number : a.value = a.magnitude := by rw [Assignment.value, plain.1]; rfl
    have byTable := table.mpr ⟨a, first, plain, number⟩
    refine ⟨a.magnitude, records, bytes, next, ?_, by rw [← value, number], fun b member => ?_⟩
    · rw [updateTableStatsOp, byTable, show literalAssignmentU64 u.sql "record_count".toList = _
        from byRecords, show literalAssignmentU64 u.sql "file_size_bytes".toList = _ from byBytes,
        show literalAssignmentU64 u.sql "next_row_id".toList = _ from byNext]
    · split
      · trivial
      · exact recordsOf b member (by assumption)
      · exact bytesOf b member (by assumption)
      · exact nextOf b member (by assumption)

/-- `column = number` with a space on both sides of the equals sign. -/
def assign (before : String) (column : StatsColumn) (number : Nat) : Assignment where
  lead := before.toList ++ [' ']
  column
  spelled := column.name
  gap := [' ']
  space := [' ']
  negative := false
  digits := Nat.toDigits 10 number
  spelling := by cases column <;> decide
  spaces := List.all_iff_forall_prop.mp (by decide)
  numeral := ⟨Nat.toDigits_ne_nil, fun _ member => Nat.isDigit_of_mem_toDigits (by decide) (by decide) member⟩
  apart := ⟨_, ' ', rfl, .inl (by decide)⟩

def onlyRecords : StatsUpdate where
  first := assign "UPDATE ducklake_table_stats SET" .recordCount 5
  others := []
  condition := assign " WHERE" .tableId 3
  rest := []
  leads := ⟨by decide, nofun, by decide⟩
  distinct := by decide
  selects := rfl
  ends := .inl rfl

/-- Without the other statistics the assigned number is not used: the parameters are, and there are none. -/
theorem partial_update_ignored :
    onlyRecords.sql = "UPDATE ducklake_table_stats SET record_count = 5 WHERE table_id = 3".toList ∧
      updateTableStatsOp onlyRecords.sql [] = .updateTableStats 0 0 ∧
      ¬ onlyRecords.Sets (updateTableStatsOp onlyRecords.sql []) := by
  have op : updateTableStatsOp onlyRecords.sql [] = .updateTableStats 0 0 := by decide
  refine ⟨by decide, op, ?_⟩
  rw [op]
  rintro ⟨_, _, _, _, same, _⟩
  cases same

end StatsUpdate

end RockLake.Literals
