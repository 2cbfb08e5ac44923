import RockLake.Lib.Text

/-! Column types and the comparison of statistics by type. Statistics and comparison values are texts;
how two of them compare depends on the type of the column. -/
namespace RockLake

open Text

inductive DuckLakeType where
  | integer (signed : Bool) (widthBits : Nat)
  | decimal (precision scale : Nat)
  | float (widthBits : Nat)
  | timestamp (withTimezone : Bool) (precision : Nat)
  | date
  | time (withTimezone : Bool)
  | interval
  | varchar
  | blob
  | boolean
  | uuid
  | json
  | variant
  | geometry
  | list (element : DuckLakeType)
  | struct (fields : List (String × DuckLakeType))
  | map (key value : DuckLakeType)
  | unknown (name : String)

inductive TypeCompareError where
  | unsupportedType (name : String)
  | parseError (value typeName : String)
  | nanComparison
  deriving DecidableEq

inductive PruneResult where
  | prune | keep
  deriving DecidableEq

/-- A double: a finite one is a rational number. -/
inductive F64 where
  | nan
  | infinite (negative : Bool)
  | finite (value : Rat)

def F64.partialCmp : F64 → F64 → Option Ordering
  | .nan, _ => none
  | _, .nan => none
  | .infinite true, .infinite true => some .eq
  | .infinite false, .infinite false => some .eq
  | .infinite true, _ => some .lt
  | .infinite false, _ => some .gt
  | .finite _, .infinite true => some .gt
  | .finite _, .infinite false => some .lt
  | .finite a, .finite b => some (compareOfLessAndEq a b)

/-- The digits before and after the point as one number with 18 places; further places are cut off.
All leading minus signs go, and then all plus signs. -/
def parseDecimal (text : String) : Option Int :=
  let trimmed := trim text.toList
  let negative := trimmed.head? = some '-'
  let digits := (trimmed.dropWhile (· = '-')).dropWhile (· = '+')
  let (integerPart, decimalPart) := (splitOnce '.' digits).getD (digits, [])
  let padded := decimalPart ++ List.replicate (18 - decimalPart.length) '0'
  (parseSigned (2 ^ 127) (integerPart ++ padded.take 18)).map fun value =>
    if negative then -value else value

/-- The words for infinity and NaN in any case; `parse` reads all other texts. -/
def parseFloat (parse : String → Option F64) (text : String) : Option F64 :=
  match String.ofList (lower text.toList) with
  | "inf" | "infinity" | "+inf" | "+infinity" => some (.infinite false)
  | "-inf" | "-infinity" => some (.infinite true)
  | "nan" => some .nan
  | _ => parse text

def parseBool (text : String) : Option Bool :=
  match String.ofList (lower text.toList) with
  | "true" | "t" | "1" | "yes" => some true
  | "false" | "f" | "0" | "no" => some false
  | _ => none

def parsedAs {T : Type} (parse : String → Option T) (typeName value : String) :
    Except TypeCompareError T :=
  match parse value with
  | some result => .ok result
  | none => .error (.parseError value typeName)

section Compare

/-! `parse` reads a text as a double, as the standard library does. -/

variable (parse : String → Option F64)

def typeAwareCompare (left right : String) : DuckLakeType → Except TypeCompareError Ordering
  | .integer true _ => do
      let l ← parsedAs (fun text => parseSigned (2 ^ 127) text.toList) "signed integer" left
      let r ← parsedAs (fun text => parseSigned (2 ^ 127) text.toList) "signed integer" right
      .ok (compare l r)
  | .integer false _ => do
      let l ← parsedAs (fun text => parseUnsigned (2 ^ 128) text.toList) "unsigned integer" left
      let r ← parsedAs (fun text => parseUnsigned (2 ^ 128) text.toList) "unsigned integer" right
      .ok (compare l r)
  | .decimal .. => do
      let l ← parsedAs parseDecimal "decimal" left
      let r ← parsedAs parseDecimal "decimal" right
      .ok (compare l r)
  | .float _ => do
      let l ← parsedAs (parseFloat parse) "float" left
      let r ← parsedAs (parseFloat parse) "float" right
      match l.partialCmp r with
      | some order => .ok order
      | none => .error .nanComparison
  | .boolean => do
      let l ← parsedAs parseBool "boolean" left
      let r ← parsedAs parseBool "boolean" right
      .ok (compare l r)
  -- compared as texts
  | .timestamp .. | .date | .time _ | .varchar | .uuid | .json | .blob | .interval =>
    .ok (compare left right)
  | .variant | .geometry | .list _ | .struct _ | .map .. => .ok .eq
  | .unknown name => .error (.unsupportedType name)

/-- One bound of the statistics: the file is pruned if the value compares to it as given. Without a
bound, or with an empty one, it is not, and a comparison with NaN keeps the file whatever the other
bound says. -/
def pruneBound (predicateValue : String) (bound : Option String) (excluding : Ordering)
    (colType : DuckLakeType) (otherwise : Except TypeCompareError PruneResult) :
    Except TypeCompareError PruneResult :=
  match bound with
  | none => otherwise
  | some bound =>
    if bound.isEmpty then otherwise
    else match typeAwareCompare parse predicateValue bound colType with
      | .error .nanComparison => .ok .keep
      | .error e => .error e
      | .ok order => if order = excluding then .ok .prune else otherwise

def DuckLakeType.keepsFiles : DuckLakeType → Bool
  | .variant | .geometry | .json | .list _ | .struct _ | .map .. => true
  | _ => false

def DuckLakeType.isFloat : DuckLakeType → Bool
  | .float _ => true
  | _ => false

def pruneFile (predicateValue : String) (minValue maxValue : Option String) (containsNan : Bool)
    (colType : DuckLakeType) : Except TypeCompareError PruneResult :=
  match colType with
  | .unknown name => .error (.unsupportedType ("Unknown(" ++ quoted name ++ ")"))
  | colType =>
    if colType.keepsFiles then .ok .keep
    else if colType.isFloat && (predicateValue = "NaN" || predicateValue = "nan") then
      .ok (if containsNan then .keep else .prune)
    else pruneBound parse predicateValue minValue .lt colType
      (pruneBound parse predicateValue maxValue .gt colType (.ok .keep))

end Compare

end RockLake
