import Mathlib.Data.Bool.AllAny
import RockLake.PgWire.Literals
import RockLake.Sql.Classifier

/-! Literal rows as clients write them, and what the scanner makes of them: every cell comes back,
whatever commas, parentheses and quotes its text has in it. -/
namespace RockLake.Literals

open Text
open List hiding head after

/-- Characters that end a bare word: separators, quotes and white space. -/
def special (c : Char) : Bool := c = '\'' || c = '(' || c = ')' || c = ',' || isSpace c

/-- A number or another bare word, but not NULL. -/
structure Word where
  chars : List Char
  nonempty : chars ≠ []
  plain : ∀ c ∈ chars, special c = false
  notNull : lower chars ≠ "null".toList

inductive Cell where
  | null
  | word (w : Word)
  | text (t : String)

namespace Cell

def render : Cell → List Char
  | .null => "NULL".toList
  | .word w => w.chars
  | .text t => '\'' :: (double '\'' t.toList ++ ['\''])

def value : Cell → Option String
  | .null => none
  | .word w => some (String.ofList w.chars)
  | .text t => some t

end Cell

/-- A scanner that collects characters: quoted ones follow the state of the quotes, and characters
that are not special are collected outside quotes. -/
structure Scanner (R : Type) where
  run : Quote → List Char → List Char → R
  quoted : ∀ {q q' : Quote} {c : Char} {part rest : List Char}, q.next c rest = some q' →
    run q part (c :: rest) = run q' (c :: part) rest
  plain : ∀ {c : Char} {part rest : List Char}, special c = false →
    run .outside part (c :: rest) = run .outside (c :: part) rest

namespace Scanner

variable {R : Type} (F : Scanner R)

theorem inside (ends : rest.head? ≠ some '\'') (t part : List Char) :
    F.run .inside part (double '\'' t ++ '\'' :: rest) =
      F.run .outside ('\'' :: ((double '\'' t).reverse ++ part)) rest := by
  induction t generalizing part with
  | nil =>
    have closes : Quote.inside.next '\'' rest = some .outside := by simp [Quote.next, ends]
    exact F.quoted closes
  | cons c t ih =>
    by_cases quote : c = '\''
    · subst quote
      have first : Quote.inside.next '\'' ('\'' :: (double '\'' t ++ '\'' :: rest)) =
          some .doubled := rfl
      have second : Quote.doubled.next '\'' (double '\'' t ++ '\'' :: rest) = some .inside := rfl
      simp only [double, if_true, cons_append]
      rw [F.quoted first, F.quoted second, ih]
      simp
    · have stays : Quote.inside.next c (double '\'' t ++ '\'' :: rest) = some .inside := by
        simp [Quote.next, quote]
      simp only [double, if_neg quote, cons_append]
      rw [F.quoted stays, ih]
      simp

theorem word (chars part : List Char) (plain : ∀ c ∈ chars, special c = false) :
    F.run .outside part (chars ++ rest) = F.run .outside (chars.reverse ++ part) rest := by
  induction chars generalizing part with
  | nil => rfl
  | cons c chars ih =>
    rw [cons_append, F.plain (plain c mem_cons_self),
      ih _ fun d member => plain d (mem_cons_of_mem _ member)]
    simp

theorem cell (cell : Cell) (part rest : List Char) (ends : rest.head? ≠ some '\'') :
    F.run .outside part (cell.render ++ rest) =
      F.run .outside (cell.render.reverse ++ part) rest := by
  cases cell with
  | null => exact F.word _ _ (all_iff_forall_prop.mp (by decide))
  | word w => exact F.word _ _ w.plain
  | text t =>
    have opens : Quote.outside.next '\'' (double '\'' t.toList ++ '\'' :: rest) = some .inside :=
      rfl
    simp only [Cell.render, cons_append, append_assoc, nil_append]
    rw [F.quoted opens, F.inside ends]
    simp

end Scanner

theorem outside_next (other : c ≠ '\'') :
    Quote.outside.next c rest = none := by
  simp [Quote.next, other]

theorem special_false (plain : special c = false) :
    c ≠ '\'' ∧ c ≠ '(' ∧ c ≠ ')' ∧ c ≠ ',' ∧ isSpace c = false := by
  simpa [special, and_assoc] using plain

def rowScanner : Scanner (List (List Char)) where
  run q part := scanRows 1 q (some part)
  quoted next := by simp [scanRows, next]
  plain {c part rest} plain := by
    obtain ⟨quote, opens, closes, _⟩ := special_false plain
    simp [scanRows, outside_next quote, opens, closes]

def partScanner : Scanner (List (List Char)) where
  run := scanParts 0
  quoted next := by simp [scanParts, next]
  plain {c part rest} plain := by
    obtain ⟨quote, opens, closes, comma, _⟩ := special_false plain
    simp [scanParts, outside_next quote, opens, closes, comma]

def rowText (cells : List Cell) : List Char := ", ".toList.intercalate (cells.map Cell.render)

def rowsText (rows : List (List Cell)) : List Char :=
  ", ".toList.intercalate (rows.map fun cells => '(' :: (rowText cells ++ [')']))

theorem scanRows_separator (part rest : List Char) :
    scanRows 1 .outside (some part) (',' :: ' ' :: rest) =
      scanRows 1 .outside (some (' ' :: ',' :: part)) rest := by
  simp [scanRows, Quote.next]

theorem scanRows_row (cells : List Cell) (part rest : List Char) :
    scanRows 1 .outside (some part) (rowText cells ++ ')' :: rest) =
      (part.reverse ++ rowText cells) :: scanRows 0 .outside none rest := by
  induction cells generalizing part with
  | nil => simp [rowText, scanRows, Quote.next]
  | cons cell cells ih =>
    cases cells with
    | nil =>
      have collected := rowScanner.cell cell part (')' :: rest) (by simp)
      simp only [rowScanner] at collected
      simp only [rowText, map_cons, map_nil, intercalate_singleton]
      rw [collected]
      simp [scanRows, Quote.next]
    | cons next cells =>
      have collected := rowScanner.cell cell part
        (',' :: ' ' :: (rowText (next :: cells) ++ ')' :: rest)) (by simp)
      simp only [rowScanner] at collected
      have text : rowText (cell :: next :: cells) ++ ')' :: rest =
          cell.render ++ ',' :: ' ' :: (rowText (next :: cells) ++ ')' :: rest) := by
        simp [rowText, intercalate_cons_cons]
      rw [text, collected, scanRows_separator, ih]
      simp [rowText, intercalate_cons_cons]

theorem scanRows_rows (rows : List (List Cell)) :
    scanRows 0 .outside none (rowsText rows) = rows.map rowText := by
  have opened : ∀ (cells : List Cell) (rest : List Char),
      scanRows 0 .outside none ('(' :: (rowText cells ++ ')' :: rest)) =
        rowText cells :: scanRows 0 .outside none rest := by
    intro cells rest
    have row := scanRows_row cells [] rest
    simpa [scanRows, Quote.next] using row
  induction rows with
  | nil => rfl
  | cons cells rows ih =>
    cases rows with
    | nil => simpa [rowsText, intercalate_singleton, scanRows] using opened cells []
    | cons next rows =>
      have text : rowsText (cells :: next :: rows) =
          '(' :: (rowText cells ++ ')' :: ',' :: ' ' :: rowsText (next :: rows)) := by
        simp [rowsText, intercalate_cons_cons]
      have skipped : scanRows 0 .outside none (',' :: ' ' :: rowsText (next :: rows)) =
          scanRows 0 .outside none (rowsText (next :: rows)) := by
        simp [scanRows, Quote.next]
      rw [text, opened, skipped, ih]
      rfl

/-- The parts of a row are its cells, the later ones with the space after the comma. -/
theorem scanParts_row (cell : Cell) (cells : List Cell) (part : List Char) :
    scanParts 0 .outside part (rowText (cell :: cells)) =
      (part.reverse ++ cell.render) :: cells.map fun c => ' ' :: c.render := by
  induction cells generalizing cell part with
  | nil =>
    have collected := partScanner.cell cell part [] (by simp)
    simp only [partScanner, append_nil] at collected
    simp only [rowText, map_cons, map_nil, intercalate_singleton]
    rw [collected]
    simp [scanParts]
  | cons next cells ih =>
    have collected := partScanner.cell cell part (',' :: ' ' :: rowText (next :: cells)) (by simp)
    simp only [partScanner] at collected
    have text : rowText (cell :: next :: cells) =
        cell.render ++ ',' :: ' ' :: rowText (next :: cells) := by
      simp [rowText, intercalate_cons_cons]
    have split : scanParts 0 .outside (cell.render.reverse ++ part)
          (',' :: ' ' :: rowText (next :: cells)) =
        (part.reverse ++ cell.render) :: scanParts 0 .outside [' '] (rowText (next :: cells)) := by
      simp [scanParts, Quote.next]
    rw [text, collected, split, ih]
    rfl

theorem undouble_double (q : Char) (t : List Char) : undouble q (double q t) = t := by
  induction t with
  | nil => rfl
  | cons c t ih =>
    by_cases quote : c = q
    · subst quote
      simp [double, undouble, ih]
    · simp only [double, if_neg quote]
      cases rest : double q t with
      | nil =>
        rw [rest] at ih
        simp [undouble, ← ih]
      | cons d more =>
        rw [rest] at ih
        simp [undouble, quote, ih]

theorem quoted_last (t : List Char) : ('\'' :: (t ++ ['\''])).getLast? = some '\'' := by
  rw [← cons_append, getLast?_concat]

theorem trim_render (cell : Cell) : trim cell.render = cell.render := by
  cases cell with
  | null => decide
  | word w =>
    refine trim_self (fun c first => ?_) fun c last => ?_
    · exact (special_false (w.plain c (mem_of_mem_head? first))).2.2.2.2
    · exact (special_false (w.plain c (mem_of_getLast? last))).2.2.2.2
  | text t =>
    refine trim_self (fun c first => ?_) fun c last => ?_
    · cases first
      decide
    · rw [Cell.render, quoted_last] at last
      cases last
      decide

theorem normalize_render (cell : Cell) : normalizeLiteral cell.render = cell.value := by
  simp only [normalizeLiteral, trim_render]
  cases cell with
  | null => decide
  | word w =>
    have unquoted : isQuoted w.chars = false := by
      have first : w.chars.head? ≠ some '\'' := fun quote =>
        absurd (w.plain _ (mem_of_mem_head? quote)) (by decide)
      simp [isQuoted, first]
    have uncast : castInnerLiteral w.chars = none := by
      rw [castInnerLiteral, if_neg]
      intro found
      have paren : '(' ∈ lower w.chars :=
        (List.isPrefixOf_iff_prefix.mp found).subset (by decide)
      exact absurd (w.plain _ (mem_of_mem_lower (by decide) paren)) (by decide)
    simp only [Cell.render, if_neg w.notNull, unquoted, uncast]
    rfl
  | text t =>
    have quoted : isQuoted (Cell.text t).render = true := by
      simp [isQuoted, Cell.render, quoted_last]
    have notNull : lower (Cell.text t).render ≠ "null".toList := by
      intro same
      have first := congrArg head? same
      simp [Cell.render, lower] at first
    simp only [if_neg notNull, quoted, if_true]
    simp [Cell.render, Cell.value, undouble_double]

theorem normalize_spaced (text : List Char) : normalizeLiteral (' ' :: text) = normalizeLiteral text := by
  have spaced : trim (' ' :: text) = trim text := rfl
  rw [normalizeLiteral, spaced]
  rfl

theorem splitLiteralValues_row (nonempty : cells ≠ []) :
    splitLiteralValues (rowText cells) = cells.map Cell.value := by
  cases cells with
  | nil => contradiction
  | cons cell cells =>
    rw [splitLiteralValues, scanParts_row]
    simp [normalize_spaced, normalize_render]

theorem rowsText_start : trimStart (rowsText rows) = rowsText rows := by
  cases rows with
  | nil => rfl
  | cons cells rows =>
    cases rows with
    | nil => simp [rowsText, intercalate_singleton, trimStart, isSpace]
    | cons next rows => simp [rowsText, intercalate_cons_cons, trimStart, isSpace]

theorem find_values (first : contains "values".toList (lower head) = false) (after : List Char) :
    find "values".toList (lower (head ++ " VALUES ".toList ++ after)) = some (head.length + 1) := by
  have text : lower (head ++ " VALUES ".toList ++ after) =
      lower head ++ ' ' :: ("values".toList ++ ' ' :: lower after) := by
    have word : lower " VALUES ".toList = ' ' :: ("values".toList ++ [' ']) := by decide
    rw [lower, map_append, map_append, ← lower, ← lower, ← lower, word]
    simp
  rw [text, find_skip (by decide) (by decide) first, find_of_prefix (prefix_append _ _),
    Option.map_some, zero_add, lower, length_map]

theorem splitLiteralValues_rows (nonempty : ∀ cells ∈ rows, cells ≠ []) :
    (scanRows 0 .outside none (trimStart (' ' :: rowsText rows))).map splitLiteralValues =
      rows.map (·.map Cell.value) := by
  have spaced : trimStart (' ' :: rowsText rows) = trimStart (rowsText rows) := rfl
  rw [spaced, rowsText_start, scanRows_rows, map_map]
  refine map_congr_left fun cells member => ?_
  exact splitLiteralValues_row (nonempty cells member)

theorem literalInsertRows_after (first : contains "values".toList (lower head) = false)
    (nonempty : ∀ cells ∈ rows, cells ≠ []) :
    literalInsertRows (head ++ " VALUES ".toList ++ rowsText rows) = rows.map (·.map Cell.value) := by
  have rest : (head ++ " VALUES ".toList ++ rowsText rows).drop (head.length + 1 + 6) =
      ' ' :: rowsText rows := by
    rw [append_assoc, Nat.add_assoc, ← drop_drop, drop_left]
    rfl
  rw [literalInsertRows, find_values first]
  simp only [rest]
  exact splitLiteralValues_rows nonempty

def insertSql (into : MetadataTable) (rows : List (List Cell)) : List Char :=
  "INSERT INTO ".toList ++ into.name.toList ++ " VALUES ".toList ++ rowsText rows

theorem literalInsertRows_insertSql (into : MetadataTable) (nonempty : ∀ cells ∈ rows, cells ≠ []) :
    literalInsertRows (insertSql into rows) = rows.map (·.map Cell.value) := by
  refine literalInsertRows_after ?_ nonempty
  cases into <;> decide +kernel

end RockLake.Literals
