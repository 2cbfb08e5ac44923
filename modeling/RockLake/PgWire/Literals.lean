import RockLake.Lib.Text

/-! Literal rows of an INSERT statement. The executor does not take them from the parsed statement:
it looks for the word VALUES in the text and scans the parenthesised rows that follow. -/
namespace RockLake.Literals

open Text

/-- Where a scan stands with respect to quotes; `doubled` is before the second of two adjacent
quotes inside quotes, which do not close them. -/
inductive Quote where
  | outside | inside | doubled
  deriving DecidableEq

/-- The next state for a quote or a quoted character, and nothing for a character outside quotes. -/
def Quote.next : Quote → Char → List Char → Option Quote
  | .doubled, _, _ => some .inside
  | .inside, c, rest =>
    if c = '\'' then if rest.head? = some '\'' then some .doubled else some .outside
    else some .inside
  | .outside, c, _ => if c = '\'' then some .inside else none

/-- The texts between the outer parentheses. `row` holds the characters of an open row, the last
one first. -/
def scanRows (depth : Int) (quote : Quote) (row : Option (List Char)) : List Char → List (List Char)
  | [] => []
  | c :: rest =>
    match quote.next c rest with
    | some quote => scanRows depth quote (row.map (c :: ·)) rest
    | none =>
      if c = '(' then
        scanRows (depth + 1) .outside (if depth = 0 then some [] else row.map (c :: ·)) rest
      else if c = ')' then
        if depth = 1 then
          (row.map List.reverse).toList ++ scanRows 0 .outside none rest
        else scanRows (depth - 1) .outside (row.map (c :: ·)) rest
      else scanRows depth .outside (row.map (c :: ·)) rest

/-- The pieces between top-level commas, with `part` the current piece, last character first. -/
def scanParts (depth : Int) (quote : Quote) (part : List Char) : List Char → List (List Char)
  | [] => [part.reverse]
  | c :: rest =>
    match quote.next c rest with
    | some quote => scanParts depth quote (c :: part) rest
    | none =>
      if c = ',' ∧ depth = 0 then part.reverse :: scanParts depth .outside [] rest
      else
        let depth := if c = '(' then depth + 1 else if c = ')' then depth - 1 else depth
        scanParts depth .outside (c :: part) rest

/-- The characters up to the closing quote; a doubled quote is part of the literal. -/
def upToQuote : List Char → Option (List Char)
  | [] => none
  | '\'' :: '\'' :: rest => (upToQuote rest).map fun inner => '\'' :: '\'' :: inner
  | '\'' :: _ => some []
  | c :: rest => (upToQuote rest).map (c :: ·)

def castInnerLiteral (text : List Char) : Option (List Char) :=
  if "cast(".toList.isPrefixOf (lower text) then
    match trimStart (text.drop 5) with
    | '\'' :: rest => upToQuote rest
    | _ => none
  else none

def isQuoted (text : List Char) : Bool :=
  2 ≤ text.length && text.head? = some '\'' && text.getLast? = some '\''

/-- NULL in any case, a quoted text, the quoted text inside a cast, or the trimmed text itself. -/
def normalizeLiteral (value : List Char) : Option String :=
  let trimmed := trim value
  if lower trimmed = "null".toList then none
  else if isQuoted trimmed then
    some (String.ofList (undouble '\'' (trimmed.drop 1).dropLast))
  else match castInnerLiteral trimmed with
    | some inner => some (String.ofList (undouble '\'' inner))
    | none => some (String.ofList trimmed)

def splitLiteralValues (values : List Char) : List (Option String) :=
  (scanParts 0 .outside [] values).map normalizeLiteral

/-- Positions in the lower-cased text are positions in the text, as they are for ASCII letters. -/
def literalInsertRows (sql : List Char) : List (List (Option String)) :=
  match find "values".toList (lower sql) with
  | none => []
  | some start =>
    (scanRows 0 .outside none (trimStart (sql.drop (start + 6)))).map splitLiteralValues

def literalInsertValues (sql : List Char) : List (Option String) :=
  (literalInsertRows sql).head?.getD []

def literalString (values : List (Option String)) (index : Nat) : Option String :=
  values[index]?.join

def parseU64 (text : String) : Option Nat := parseUnsigned (2 ^ 64) text.toList

def literalU64 (values : List (Option String)) (index : Nat) : Option Nat :=
  (literalString values index).bind parseU64

def literalBool (values : List (Option String)) (index : Nat) : Option Bool :=
  (literalString values index).bind fun value =>
    let text := String.ofList (lower value.toList)
    if text = "true" ∨ text = "t" ∨ text = "1" then some true
    else if text = "false" ∨ text = "f" ∨ text = "0" then some false
    else none

def parseLeadingU64 (input : List Char) : Option Nat :=
  let digits := ((trimStart input).dropWhile (· = '\'')).takeWhile Char.isDigit
  parseUnsigned (2 ^ 64) digits

/-- The number after the first equals sign that follows the first occurrence of the column name,
wherever in the text that is. -/
def literalAssignmentU64 (sql column : List Char) : Option Nat :=
  (find (lower column) (lower sql)).bind fun start =>
    (splitOnce '=' (sql.drop (start + column.length))).bind fun (_, value) =>
      parseLeadingU64 value

end RockLake.Literals
