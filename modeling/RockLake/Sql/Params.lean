import RockLake.Core.Keys
import RockLake.Sql.Classifier

/-! Values bound to the placeholders of a prepared statement. Errors disclose the length of an
unexpected value, never the value. -/
namespace RockLake

abbrev ParamValues := List (Option String)

namespace ParamValues

variable (params : ParamValues)

def get (idx : Nat) : Option String := (params[idx]?).join

/-- A value parsed as `expected`; positions in errors count from one. -/
def getParsed {α : Type} (expected : String) (parse : String → Option α) (idx : Nat) :
    Except SqlDispatchError α :=
  match params.get idx with
  | none => .error (.missingParam (idx + 1))
  | some text =>
    match parse text with
    | some value => .ok value
    | none =>
      let size := utf8Length text
      .error (.typeMismatch (idx + 1) expected s!"<string len={size}>")

def getU64 : Nat → Except SqlDispatchError Nat :=
  params.getParsed "u64" fun text => Text.parseUnsigned (2 ^ 64) text.toList

def getI64 : Nat → Except SqlDispatchError Int :=
  params.getParsed "i64" fun text => Text.parseSigned (2 ^ 63) text.toList

def parseBool (text : String) : Option Bool :=
  if text = "t" ∨ text = "true" ∨ text = "1" ∨ text = "TRUE" then some true
  else if text = "f" ∨ text = "false" ∨ text = "0" ∨ text = "FALSE" then some false
  else none

def getBool : Nat → Except SqlDispatchError Bool := params.getParsed "bool" parseBool

def getString (idx : Nat) : Except SqlDispatchError String :=
  match params.get idx with
  | none => .error (.missingParam (idx + 1))
  | some text => .ok text

def getOptionalString (idx : Nat) : Option String := params.get idx

/-! The forms the executor uses: a missing or unreadable value is replaced by a default. -/

def u64? (idx : Nat) : Option Nat := (params.getU64 idx).toOption

def i64? (idx : Nat) : Option Int := (params.getI64 idx).toOption

def bool? (idx : Nat) : Option Bool := (params.getBool idx).toOption

def string? (idx : Nat) : Option String := (params.getString idx).toOption

end ParamValues

end RockLake
