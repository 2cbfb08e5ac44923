import RockLake.PgWire.Session

/-! COPY FROM STDIN in the binary format. Bytes are collected as they arrive and parsed when the
client is done: a signature, flags and a header extension, then rows of fields with their lengths,
and a negative field count at the end. -/
namespace RockLake

abbrev Bytes := List UInt8

abbrev CopyRow := List (Option Bytes)

inductive CopyParseError where
  | tooShort
  | badSignature
  | truncatedHeaderExt
  | truncatedFieldCount (row : Nat)
  | truncatedFieldLength (row field : Nat)
  | truncatedFieldBody (row field declared available : Nat)
  | missingEndMarker
  deriving DecidableEq

def CopyParseError.message : CopyParseError → String
  | .tooShort => "binary COPY stream too short to contain a valid header"
  | .badSignature => "binary COPY signature mismatch"
  | .truncatedHeaderExt => "binary COPY header extension truncated"
  | .truncatedFieldCount row =>
    s!"binary COPY stream truncated: missing field count for row {row}"
  | .truncatedFieldLength row field =>
    s!"binary COPY stream truncated: missing field length in row {row}, field {field}"
  | .truncatedFieldBody row field declared available =>
    s!"binary COPY stream truncated: field body in row {row}, field {field} declares {declared} bytes but only {available} remain"
  | .missingEndMarker => "binary COPY stream missing end-of-data marker"

namespace Copy

/-- The text `PGCOPY`, a newline, 255, a carriage return, a newline and 0. -/
def pgcopySignature : Bytes := [80, 71, 67, 79, 80, 89, 10, 255, 13, 10, 0]

def fromBeBytes (bytes : Bytes) : Nat := bytes.foldl (fun n byte => n * 256 + byte.toNat) 0

/-- A big-endian number of the given width, and what follows it. -/
def readBe (width : Nat) (data : Bytes) : Option (Nat × Bytes) :=
  if width > data.length then none else some (fromBeBytes (data.take width), data.drop width)

/-- A number of the given width in bytes is negative as a signed one. -/
def isNegative (width n : Nat) : Bool := n ≥ 2 ^ (8 * width - 1)

/-- The given number of fields, from the field with the given index on. -/
def parseFields (row : Nat) : Nat → Nat → Bytes → Except CopyParseError (CopyRow × Bytes)
  | _, 0, data => .ok ([], data)
  | field, count + 1, data =>
    match readBe 4 data with
    | none => .error (.truncatedFieldLength row field)
    | some (len, data) =>
      if isNegative 4 len then
        (parseFields row (field + 1) count data).map fun (fields, rest) => (none :: fields, rest)
      else if len > data.length then .error (.truncatedFieldBody row field len data.length)
      else (parseFields row (field + 1) count (data.drop len)).map fun (fields, rest) =>
        (some (data.take len) :: fields, rest)

/-- Every row takes at least two bytes, so the length of the data bounds the number of rows. -/
def parseRows : Nat → Nat → Bytes → Except CopyParseError (List CopyRow)
  | 0, row, _ => .error (.truncatedFieldCount row)
  | fuel + 1, row, data =>
    match readBe 2 data with
    | none => .error (.truncatedFieldCount row)
    | some (count, data) =>
      if isNegative 2 count then .ok []
      else do
        let (fields, rest) ← parseFields row 0 count data
        let rows ← parseRows fuel (row + 1) rest
        .ok (fields :: rows)

def parseBinaryCopyRows (data : Bytes) : Except CopyParseError (List CopyRow) :=
  if data.length < pgcopySignature.length + 8 then .error .tooShort
  else if !pgcopySignature.isPrefixOf data then .error .badSignature
  else
    match readBe 4 (data.drop (pgcopySignature.length + 4)) with
    | none => .error .truncatedHeaderExt
    | some (extLen, data) =>
      if extLen > data.length then .error .truncatedHeaderExt
      else parseRows ((data.drop extLen).length + 1) 0 (data.drop extLen)

/-- A stream with one schema row of the name `main`, for concrete runs. -/
def mainSchemaRow : Bytes :=
  pgcopySignature ++ [0, 0, 0, 0, 0, 0, 0, 0] ++ [0, 5] ++ List.replicate 16 255 ++
    [0, 0, 0, 4, 109, 97, 105, 110] ++ [255, 255]

def extractVarchar (fromUtf8Lossy : Bytes → String) (row : CopyRow) (idx : Nat) : Option String :=
  (row[idx]?.join).map fromUtf8Lossy

end Copy

structure CopyAccumulator where
  table : String
  data : Bytes

/-- What the rows of a transfer add to the bootstrap state. Of a schema only its name is taken; rows
of other tables are accepted and dropped. -/
def BootstrapState.receive (fromUtf8Lossy : Bytes → String) (bootstrap : BootstrapState)
    (table : String) (rows : List CopyRow) : BootstrapState :=
  match table with
  | "ducklake_snapshot" => if rows.isEmpty then bootstrap else { bootstrap with hasSnapshot := true }
  | "ducklake_schema" => { bootstrap with
      schemas := bootstrap.schemas ++ rows.filterMap fun row => Copy.extractVarchar fromUtf8Lossy row 4 }
  | _ => bootstrap

def bootstrapTable (table : String) : Bool :=
  table = "ducklake_snapshot" || table = "ducklake_schema"

theorem BootstrapState.receive_other {bootstrap : BootstrapState}
    (other : bootstrapTable table = false) :
    bootstrap.receive fromUtf8Lossy table rows = bootstrap := by
  simp only [bootstrapTable, Bool.or_eq_false_iff, decide_eq_false_iff_not] at other
  unfold receive
  split
  · exact absurd rfl other.1
  · exact absurd rfl other.2
  · rfl

theorem BootstrapState.receive_empty {bootstrap : BootstrapState} :
    bootstrap.receive fromUtf8Lossy table [] = bootstrap := by
  unfold receive
  split <;> simp

end RockLake
