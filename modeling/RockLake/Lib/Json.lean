import Mathlib.Algebra.Group.Int.Defs

/-! JSON values as a consumer of decoded documents sees them: lookup of an object field, which is null
where there is none, and the typed views of a value. Integers outside the 64-bit types are decoded as
floats, so an `int` fits one of the two integer types. -/

inductive Json where
  | null
  | bool (b : Bool)
  | int (n : Int)
  | float (text : String)
  | str (text : String)
  | arr (items : List Json)
  | obj (fields : List (String × Json))

namespace Json

def ofNat (n : Nat) : Json := .int n

def ofOption {α : Type} (view : α → Json) : Option α → Json
  | some a => view a
  | none => .null

def field (d : Json) (name : String) : Json :=
  match d with
  | .obj fields => (fields.lookup name).getD .null
  | _ => .null

def asU64 : Json → Option Nat
  | .int n => if 0 ≤ n then some n.toNat else none
  | _ => none

def asI64 : Json → Option Int
  | .int n => if n < 2 ^ 63 then some n else none
  | _ => none

def asStr : Json → Option String
  | .str text => some text
  | _ => none

def asBool : Json → Option Bool
  | .bool b => some b
  | _ => none

def u64 (d : Json) (name : String) : Option Nat := (d.field name).asU64

def i64 (d : Json) (name : String) : Option Int := (d.field name).asI64

def text (d : Json) (name : String) : Option String := (d.field name).asStr

def boolean (d : Json) (name : String) : Option Bool := (d.field name).asBool

@[simp] theorem field_nil (name : String) : (obj []).field name = .null := rfl

@[simp] theorem field_cons (name other : String) (value : Json) (rest : List (String × Json)) :
    (obj ((other, value) :: rest)).field name =
      if name = other then value else (obj rest).field name := by
  by_cases same : name = other
  · simp [field, same]
  · have apart : (name == other) = false := beq_eq_false_iff_ne.mpr same
    simp [field, List.lookup_cons, apart, same]

@[simp] theorem asU64_null : null.asU64 = none := rfl

@[simp] theorem asI64_null : null.asI64 = none := rfl

@[simp] theorem asStr_null : null.asStr = none := rfl

@[simp] theorem asBool_null : null.asBool = none := rfl

@[simp] theorem asU64_ofNat (n : Nat) : (ofNat n).asU64 = some n := by simp [ofNat, asU64]

@[simp] theorem asU64_ofOption (n : Option Nat) : (ofOption ofNat n).asU64 = n := by
  cases n with
  | none => rfl
  | some n => exact asU64_ofNat n

@[simp] theorem asI64_ofOption (n : Option Int) :
    (ofOption .int n).asI64 = n.filter (· < 2 ^ 63) := by
  cases n <;> simp [ofOption, asI64, Option.filter]

@[simp] theorem asStr_str (text : String) : (str text).asStr = some text := rfl

@[simp] theorem asStr_ofOption (text : Option String) : (ofOption .str text).asStr = text := by
  cases text <;> rfl

@[simp] theorem asBool_bool (b : Bool) : (bool b).asBool = some b := rfl

@[simp] theorem asBool_ofOption (b : Option Bool) : (ofOption .bool b).asBool = b := by
  cases b <;> rfl

end Json
