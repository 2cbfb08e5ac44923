import RockLake.PgWire.CopyFormat
import RockLake.Sql.Classification

/-! COPY TO STDOUT. The rows of a response are split into fields again, the projected fields are written
in binary, and a field that already has the width of the binary form is taken to be in it. -/
namespace RockLake

inductive PgType where
  | bool | int2 | int4 | int8 | uuid | text | bytea | timestamp | timestamptz | date
  deriving DecidableEq

inductive FieldFormat where
  | text | binary
  deriving DecidableEq

structure FieldInfo where
  name : String
  datatype : PgType
  format : FieldFormat
  deriving DecidableEq

namespace CopyOut

open Text Unicode BigEndian Sql List Copy Option

/-! Values of literals. -/

def hexDigit (c : Char) : Option Nat :=
  if c.isDigit then some (c.toNat - 48)
  else if 'a' ≤ c && c ≤ 'f' then some (c.toNat - 87)
  else if 'A' ≤ c && c ≤ 'F' then some (c.toNat - 55)
  else none

def hexBytes : List Char → Option Bytes
  | [] => some []
  | [_] => none
  | high :: low :: rest =>
    (hexDigit high).bind fun high => (hexDigit low).bind fun low =>
      (hexBytes rest).map (UInt8.ofNat (16 * high + low) :: ·)

/-- Groups of four digits or several times four, thirty-two digits in all. -/
def grouped (lengths : List Nat) : Bool := lengths.all (fun n => 0 < n && n % 4 = 0) && lengths.sum = 32

def uuidBytes (text : List Char) : Option Bytes :=
  let groups := text.splitOn '-'
  if grouped (groups.map List.length) then hexBytes groups.flatten else none

def unbraced (text : List Char) : Option (List Char) :=
  if text.head? = some '{' ∧ text.getLast? = some '}' ∧ 2 ≤ text.length then some (text.drop 1).dropLast
  else none

/-- The literals of UUIDs that PostgreSQL reads. -/
def uuidLiteral (text : List Char) : Option Bytes := uuidBytes ((unbraced text).getD text)

/-- Reading of UUIDs by the library: what it accepts has sixteen bytes, those of the literal if the text
is one. -/
structure UuidReader where
  parseStr : List Char → Option Bytes
  sixteen : parseStr text = some bytes → bytes.length = 16
  literal : uuidLiteral text = some bytes → parseStr text = some out → out = bytes

def signedBytes (width : Nat) (n : Int) : Bytes := digits width (n % (256 ^ width : Nat)).toNat

/-! Encoding of fields. -/

def intBytes (type : String) (width : Nat) (value : Bytes) : Except String Bytes :=
  if value.length = width then .ok value
  else match decode value with
    | none => .error s!"COPY TO STDOUT {type} field is not valid UTF-8"
    | some text =>
      match parseSigned (2 ^ (8 * width - 1)) text with
      | none => .error s!"COPY TO STDOUT {type} field is invalid"
      | some n => .ok (signedBytes width n)

def trueWords : List String := ["true", "t", "1"]

def falseWords : List String := ["false", "f", "0"]

def spells (words : List String) (text : List Char) : Bool := words.any fun word => word.toList = lower text

section Encoding

variable (uuid : UuidReader)

def encodeBinaryCopyField (value : Bytes) : PgType → Except String Bytes
  | .uuid =>
    if value.length = 16 then .ok value
    else match decode value with
      | none => .error "COPY TO STDOUT UUID field is not valid UTF-8"
      | some text =>
        match uuid.parseStr text with
        | none => .error "COPY TO STDOUT UUID field is invalid"
        | some bytes => .ok bytes
  | .int8 => intBytes "INT8" 8 value
  | .int4 => intBytes "INT4" 4 value
  | .int2 => intBytes "INT2" 2 value
  | .bool =>
    if value = [0] ∨ value = [1] then .ok value
    else match decode value with
      | none => .error "COPY TO STDOUT boolean field is not valid UTF-8"
      | some text =>
        if spells trueWords text then .ok [1]
        else if spells falseWords text then .ok [0]
        else .error "COPY TO STDOUT boolean field is invalid"
  | _ => .ok value

/-! Rows. -/

def splitCopyRowFields : Nat → Bytes → Except String CopyRow
  | 0, data => if data.isEmpty then .ok [] else .error "COPY TO STDOUT row has trailing bytes"
  | count + 1, data =>
    match Copy.readBe 4 data with
    | none => .error "COPY TO STDOUT row field length is truncated"
    | some (len, data) =>
      if len = 2 ^ 32 - 1 then (splitCopyRowFields count data).map (none :: ·)
      else if Copy.isNegative 4 len then .error "COPY TO STDOUT row contains invalid field length"
      else if data.length < len then .error "COPY TO STDOUT row field data is truncated"
      else (splitCopyRowFields count (data.drop len)).map (some (data.take len) :: ·)

def projectField (schema : List FieldInfo) (fields : CopyRow) (index : Nat) :
    Except String (Option Bytes) :=
  match fields[index]? with
  | none => .error "COPY TO STDOUT projection index out of range"
  | some none => .ok none
  | some (some value) =>
    match schema[index]? with
    | none => .error "COPY TO STDOUT schema index out of range"
    | some field => (encodeBinaryCopyField uuid value field.datatype).map some

def projectCopyRowData (rowData : Bytes) (fieldCount : Nat) (indices : List Nat)
    (schema : List FieldInfo) : Except String Bytes :=
  (splitCopyRowFields fieldCount rowData).bind fun fields =>
    (indices.mapM (projectField uuid schema fields)).map (List.flatMap Copy.putField)

end Encoding

section Projection

variable (unicode : CharData) (parse : Parser)

def exprLastIdentifier : Expr → List Char
  | .identifier id => unicode.lowercase id.value
  | .compoundIdentifier parts => (parts.getLast?.map fun id => unicode.lowercase id.value).getD []
  | .cast inner _ | .nested inner => exprLastIdentifier inner
  | e => unicode.lowercase e.display

def projectionItemName : SelectItem Expr → List Char
  | .unnamedExpr e => exprLastIdentifier unicode e
  | .exprWithAlias _ name => unicode.lowercase name.value
  | .qualifiedWildcard | .wildcard => ['*']

/-- The names of the projection of the last statement, unless there is a wildcard among them. -/
def projectionNames (sql : List Char) : Option (List (List Char)) :=
  match parse sql with
  | .error _ => none
  | .ok statements =>
    match statements.getLast? with
    | some (.query query) =>
      match query.body with
      | .select select =>
        let names := select.projection.map (projectionItemName unicode)
        if names.contains ['*'] then none else some names
      | .other _ => none
    | _ => none

/-- The columns that are copied: the projected ones if all of them are found, else all. -/
def projectedCopyIndices (sql : List Char) (schema : List FieldInfo) : List Nat :=
  let columns := schema.map fun field => unicode.lowercase field.name.toList
  let found := (projectionNames unicode parse sql).bind fun names => names.mapM (columns.idxOf? ·)
  match found with
  | some (index :: indices) => index :: indices
  | _ => List.range schema.length

end Projection

/-- A response with its rows. Every row has a field for each column and perhaps more, and fields have
lengths that fit the protocol. -/
structure QueryResponse where
  schema : List FieldInfo
  rows : List CopyRow
  widths : ∀ row ∈ rows, schema.length ≤ row.length
  sizes : ∀ row ∈ rows, ∀ bytes, some bytes ∈ row → bytes.length < 2 ^ 31

namespace QueryResponse

def rowData (row : CopyRow) : Bytes := row.flatMap Copy.putField

def payload (uuid : UuidReader) (response : QueryResponse) (indices : List Nat) : Except String Bytes :=
  (response.rows.mapM fun row =>
    projectCopyRowData uuid (rowData row) row.length indices response.schema).map fun projected =>
      Copy.pgcopySignature ++ digits 4 0 ++ digits 4 0 ++
        projected.flatMap (digits 2 indices.length ++ ·) ++ digits 2 (2 ^ 16 - 1)

end QueryResponse

def copyToStdout (uuid : UuidReader) (unicode : CharData) (parse : Parser) (query : List Char)
    (response : QueryResponse) : Except String Bytes :=
  response.payload uuid (projectedCopyIndices unicode parse query response.schema)

/-! What the fields should be. -/

def trueLiterals : List String := ["true", "tru", "tr", "t", "yes", "ye", "y", "on", "1"]

def falseLiterals : List String := ["false", "fals", "fal", "fa", "f", "no", "n", "off", "of", "0"]

/-- The binary form of a literal of the type, as PostgreSQL reads it. Numbers are decimal, with an
optional sign. -/
def binaryOf : PgType → List Char → Option Bytes
  | .bool, text =>
    if spells trueLiterals text then some [1]
    else if spells falseLiterals text then some [0]
    else none
  | .int2, text => (parseSigned (2 ^ 15) text).map (signedBytes 2)
  | .int4, text => (parseSigned (2 ^ 31) text).map (signedBytes 4)
  | .int8, text => (parseSigned (2 ^ 63) text).map (signedBytes 8)
  | .uuid, text => uuidLiteral text
  | _, _ => none

def intWidth : PgType → Option Nat
  | .int2 => some 2
  | .int4 => some 4
  | .int8 => some 8
  | _ => none

/-- The literal of a number is not as long as the binary form of its type. -/
def Converted (type : PgType) (text : List Char) : Prop :=
  ∀ width, intWidth type = some width → text.length ≠ width

section Fields

variable {text : List Char} {width : Nat} {bytes : Bytes} {n : Int} {name : String}

section

variable (parsed : parseSigned bound text = some n)
include parsed

theorem ascii_of_parseSigned :
    ∀ c ∈ text, 43 ≤ c.toNat ∧ c.toNat ≤ 57 := by
  intro c member
  rcases (parseSigned_spec parsed).1 c member with digit | rfl | rfl
  · simp only [Char.isDigit, Bool.and_eq_true, decide_eq_true_eq, UInt32.le_iff_toNat_le] at digit
    have ge : 48 ≤ c.toNat := digit.1
    have le : c.toNat ≤ 57 := digit.2
    omega
  · decide
  · decide

theorem length_encode_int :
    (encode text).length = text.length := by
  rw [length_encode, size_of_ascii]
  intro c member
  have range := ascii_of_parseSigned parsed c member
  omega

/-- The digits of a number are never its binary form, since that starts with the byte 0 or 255. -/
theorem encode_ne_signedBytes
    (length : text.length = width + 1) (short : 10 ^ (width + 1) ≤ 256 ^ width) :
    encode text ≠ signedBytes (width + 1) n := by
  intro same
  have size := (parseSigned_spec parsed).2
  rw [length] at size
  cases text with
  | nil => cases length
  | cons c rest =>
    have range := ascii_of_parseSigned parsed c mem_cons_self
    have ascii : ∀ d ∈ c :: rest, d.toNat < 128 := by
      intro d member
      have range := ascii_of_parseSigned parsed d member
      omega
    have tail : (encode rest).length = width := by
      rw [length_encode, size_of_ascii fun d member => ascii d (mem_cons_of_mem c member)]
      simpa using length
    have bound := value_lt (encode rest)
    have number := congrArg value same
    have fits : (n % (256 ^ (width + 1) : Nat)).toNat < 256 ^ (width + 1) := by
      have pos : (0 : Int) < (256 ^ (width + 1) : Nat) :=
        Int.natCast_pos.mpr (Nat.pow_pos (by decide))
      have lt := Int.emod_lt_of_pos n pos
      omega
    rw [signedBytes, value_digits fits, encode_cons, encodeChar_ascii (ascii c mem_cons_self),
      singleton_append, value_cons, tail, UInt8.toNat_ofNat', Nat.mod_eq_of_lt (by omega)] at number
    rw [tail] at bound
    rw [pow_succ] at number
    generalize 256 ^ width = power at number bound short
    have low : 43 * power ≤ c.toNat * power := Nat.mul_le_mul_right power range.1
    have high : c.toNat * power ≤ 57 * power := Nat.mul_le_mul_right power range.2
    by_cases sign : 0 ≤ n
    · rw [Int.emod_eq_of_lt sign (by omega)] at number
      omega
    · rw [← Int.add_emod_right, Int.emod_eq_of_lt (by omega) (by omega)] at number
      omega

end

theorem intBytes_iff (parsed : parseSigned (2 ^ (8 * (width + 1) - 1)) text = some n)
    (short : 10 ^ (width + 1) ≤ 256 ^ width) :
    intBytes name (width + 1) (encode text) = .ok (signedBytes (width + 1) n) ↔
      text.length ≠ width + 1 := by
  rw [intBytes, length_encode_int parsed, decode_encode]
  by_cases length : text.length = width + 1
  · rw [if_pos length]
    exact iff_of_false (fun same => encode_ne_signedBytes parsed length short (Except.ok.inj same))
      fun other => other length
  · rw [if_neg length]
    simp only [parsed]
    exact iff_of_true trivial length

theorem spells_iff : spells words text = true ↔ ∃ word ∈ words, word.toList = lower text := by
  simp [spells]

theorem not_spells_both (words' : List String)
    (apart : (words.all fun word => words'.all fun other => word.toList ≠ other.toList) = true)
    (spelled : spells words text = true) : spells words' text = false := by
  obtain ⟨word, member, same⟩ := spells_iff.mp spelled
  by_contra both
  obtain ⟨other, member', same'⟩ := spells_iff.mp (Bool.not_eq_false _ ▸ both)
  have differ := all_eq_true.mp (all_eq_true.mp apart word member) other member'
  exact of_decide_eq_true differ (same.trans same'.symm)

theorem encodeBool (literal : binaryOf .bool text = some bytes)
    (encoded : encodeBinaryCopyField uuid (encode text) .bool = .ok out) : out = bytes := by
  have printed : ¬ (encode text = [0] ∨ encode text = [1]) := by
    rintro (same | same)
    · obtain rfl : text = ['\x00'] := encode_injective same
      cases (show binaryOf .bool ['\x00'] = none by decide).symm.trans literal
    · obtain rfl : text = ['\x01'] := encode_injective same
      cases (show binaryOf .bool ['\x01'] = none by decide).symm.trans literal
  rw [encodeBinaryCopyField, if_neg printed, decode_encode] at encoded
  dsimp only at encoded
  rw [binaryOf] at literal
  split at literal
  · rename_i isTrue
    cases literal
    rw [not_spells_both falseWords (by decide) isTrue] at encoded
    split at encoded <;> cases encoded
    rfl
  · split at literal
    · rename_i isFalse
      cases literal
      rw [not_spells_both trueWords (by decide) isFalse] at encoded
      split at encoded
      · contradiction
      · split at encoded <;> cases encoded
        rfl
    · cases literal

theorem isSome_hexDigit (read : hexBytes text = some bytes) : ∀ c ∈ text, (hexDigit c).isSome = true := by
  induction text using hexBytes.induct generalizing bytes with
  | case1 => exact nofun
  | case2 c => cases read
  | case3 high low rest ih =>
    obtain ⟨h, first, read⟩ := bind_eq_some_iff.mp read
    obtain ⟨l, second, read⟩ := bind_eq_some_iff.mp read
    obtain ⟨others, later, rfl⟩ := map_eq_some_iff.mp read
    simp only [forall_mem_cons, first, second, isSome_some]
    exact ⟨trivial, trivial, ih later⟩

theorem length_uuidBytes (read : uuidBytes text = some bytes) : 32 ≤ text.length := by
  rw [uuidBytes] at read
  split at read
  · rename_i lengths
    have total : (text.splitOn '-').flatten.length = 32 := by
      rw [length_flatten]
      exact of_decide_eq_true (Bool.and_eq_true_iff.mp lengths).2
    have hyphens : (text.splitOn '-').flatten.filter (· ≠ '-') = (text.splitOn '-').flatten := by
      refine filter_eq_self.mpr fun c member => decide_eq_true ?_
      rintro rfl
      exact absurd (isSome_hexDigit read '-' member) (by decide)
    have shorter := length_filter_le (· ≠ '-') text
    rw [← filter_splitOn, hyphens, total] at shorter
    exact shorter
  · cases read

theorem encodeUuid (literal : binaryOf .uuid text = some bytes)
    (encoded : encodeBinaryCopyField uuid (encode text) .uuid = .ok out) : out = bytes := by
  have long : 32 ≤ text.length := by
    have inner := length_uuidBytes literal
    rw [unbraced] at inner
    split at inner
    · rw [getD_some, length_dropLast, length_drop] at inner
      omega
    · exact inner
  have width : (encode text).length ≠ 16 := by
    have le := length_le_size text
    rw [length_encode]
    omega
  rw [encodeBinaryCopyField, if_neg width, decode_encode] at encoded
  dsimp only at encoded
  split at encoded
  · cases encoded
  · rename_i bytes read
    cases encoded
    exact uuid.literal literal read

variable {type : PgType}

/-- An encoded literal is in its binary form exactly if it is not as long as that form. -/
theorem encode_literal_iff (literal : binaryOf type text = some bytes)
    (encoded : encodeBinaryCopyField uuid (encode text) type = .ok out) : out = bytes ↔ Converted type text := by
  have int : ∀ {name width} {n : Int}, intWidth type = some (width + 1) →
      parseSigned (2 ^ (8 * (width + 1) - 1)) text = some n → 10 ^ (width + 1) ≤ 256 ^ width →
      intBytes name (width + 1) (encode text) = .ok out →
      (out = signedBytes (width + 1) n ↔ Converted type text) := by
    intro name width n isInt parsed short encoded
    have exactly := @intBytes_iff text width n name parsed short
    rw [encoded, Except.ok.injEq] at exactly
    rw [exactly, Converted, isInt]
    exact ⟨fun other w same => some.inj same ▸ other, fun converted => converted _ rfl⟩
  cases type with
  | bool => exact iff_of_true (encodeBool literal encoded) nofun
  | uuid => exact iff_of_true (encodeUuid literal encoded) nofun
  | int2 | int4 | int8 =>
    obtain ⟨n, parsed, rfl⟩ := map_eq_some_iff.mp literal
    exact int rfl parsed (by decide) encoded
  | _ => cases literal

theorem length_encoded {value out : Bytes} (encoded : encodeBinaryCopyField uuid value type = .ok out)
    (fits : value.length < 2 ^ 31) : out.length < 2 ^ 31 := by
  have int : ∀ {name width}, width ≤ 8 → intBytes name width value = .ok out → out.length < 2 ^ 31 := by
    intro name width small encoded
    rw [intBytes] at encoded
    repeat' split at encoded
    · cases encoded
      exact fits
    · cases encoded
    · cases encoded
    · cases encoded
      rw [signedBytes, length_digits]
      omega
  cases type with
  | int2 | int4 | int8 => exact int (by decide) encoded
  | uuid =>
    rw [encodeBinaryCopyField] at encoded
    repeat' split at encoded
    · cases encoded
      exact fits
    · cases encoded
    · cases encoded
    · rename_i bytes read
      cases encoded
      have short := uuid.sixteen read
      omega
  | bool =>
    rw [encodeBinaryCopyField] at encoded
    repeat' split at encoded
    · cases encoded
      exact fits
    · cases encoded
    · cases encoded
      decide
    · cases encoded
      decide
    · cases encoded
  | _ =>
    cases encoded
    exact fits

end Fields

/-! The payload. -/

theorem mapM_eq_ok {f : α → Except ε β} :
    xs.mapM f = .ok ys ↔ List.Forall₂ (fun x y => f x = .ok y) xs ys := by
  induction xs generalizing ys with
  | nil =>
    rw [mapM_nil, forall₂_nil_left_iff]
    exact ⟨fun same => (Except.ok.inj same).symm, fun same => congrArg Except.ok same.symm⟩
  | cons x xs ih =>
    rw [mapM_cons, forall₂_cons_left_iff]
    cases first : f x with
    | error e => exact iff_of_false nofun (by rintro ⟨y, ys, same, _⟩; cases same)
    | ok y =>
      cases rest : xs.mapM f with
      | error e =>
        refine iff_of_false nofun ?_
        rintro ⟨y', ys', _, others, _⟩
        cases rest.symm.trans (ih.mpr others)
      | ok ys' =>
        constructor
        · intro same
          cases same
          exact ⟨y, ys', rfl, ih.mp rest, rfl⟩
        · rintro ⟨y', others, same, related, rfl⟩
          cases same
          cases rest.symm.trans (ih.mpr related)
          rfl

theorem forall₂_image :
    List.Forall₂ (fun x z => ∃ y, R x y ∧ f y = z) xs zs ↔ ∃ ys, List.Forall₂ R xs ys ∧ ys.map f = zs := by
  constructor
  · intro related
    induction related with
    | nil => exact ⟨[], .nil, rfl⟩
    | cons first _ ih =>
      obtain ⟨y, here, rfl⟩ := first
      obtain ⟨ys, later, rfl⟩ := ih
      exact ⟨y :: ys, .cons here later, rfl⟩
  · rintro ⟨ys, related, rfl⟩
    exact forall₂_map_right_iff.mpr (related.imp fun x y here => ⟨y, here, rfl⟩)

theorem forall₂_iff_of {condition : α → Prop} (related : List.Forall₂ Q xs ys)
    (pointwise : ∀ x ∈ xs, ∀ y, Q x y → (P x y ↔ condition x)) :
    List.Forall₂ P xs ys ↔ ∀ x ∈ xs, condition x := by
  induction related with
  | nil => exact iff_of_true .nil nofun
  | @cons x y xs ys first _ ih =>
    rw [forall₂_cons, forall_mem_cons, pointwise x mem_cons_self y first,
      ih fun x' member => pointwise x' (mem_cons_of_mem x member)]

theorem forall₂_mem_right (related : List.Forall₂ R xs ys) (member : y ∈ ys) : ∃ x ∈ xs, R x y := by
  induction related with
  | nil => cases member
  | @cons x y' xs ys first _ ih =>
    rcases mem_cons.mp member with rfl | later
    · exact ⟨x, mem_cons_self, first⟩
    · obtain ⟨x', member', here⟩ := ih later
      exact ⟨x', mem_cons_of_mem x member', here⟩

theorem splitCopyRowFields_rowData (sizes : ∀ bytes, some bytes ∈ row → bytes.length < 2 ^ 31) :
    splitCopyRowFields row.length (QueryResponse.rowData row) = .ok row := by
  induction row with
  | nil => rfl
  | cons field rest ih =>
    have later := ih fun bytes member => sizes bytes (mem_cons_of_mem field member)
    rw [QueryResponse.rowData, flatMap_cons, length_cons, splitCopyRowFields]
    cases field with
    | none =>
      rw [putField, readBe_digits (by decide)]
      simp only [if_pos]
      rw [← QueryResponse.rowData, later]
      rfl
    | some bytes =>
      have short := sizes bytes mem_cons_self
      have noNull : ¬ bytes.length = 2 ^ 32 - 1 := by omega
      have positive : ¬ isNegative 4 bytes.length = true := by
        rw [isNegative_length]
        omega
      have enough : ¬ (bytes ++ rest.flatMap putField).length < bytes.length := by
        rw [length_append]
        omega
      rw [putField, append_assoc, readBe_digits (by omega)]
      simp only [if_neg noNull, if_neg positive, if_neg enough, drop_left, take_left]
      rw [← QueryResponse.rowData, later]
      rfl

section Payload

variable {uuid : UuidReader} {response : QueryResponse} {indices : List Nat} {row out : CopyRow} {bytes : Bytes}

def QueryResponse.Projects (uuid : UuidReader) (response : QueryResponse) (indices : List Nat)
    (encoded : List CopyRow) : Prop :=
  List.Forall₂ (fun row out => List.Forall₂ (fun index field =>
    projectField uuid response.schema row index = .ok field) indices out) response.rows encoded

theorem projects_of_mapM (done : (response.rows.mapM fun row =>
      projectCopyRowData uuid (QueryResponse.rowData row) row.length indices response.schema) = .ok projected) :
    ∃ encoded, response.Projects uuid indices encoded ∧
      encoded.map (List.flatMap Copy.putField) = projected := by
  unfold QueryResponse.Projects
  rw [← forall₂_image]
  have all : ∀ row ∈ response.rows, row ∈ response.rows := fun _ member => member
  refine ((forall₂_and_left _ _).mpr ⟨all, mapM_eq_ok.mp done⟩).imp fun row p ⟨member, projected⟩ => ?_
  rw [projectCopyRowData, splitCopyRowFields_rowData (response.sizes row member)] at projected
  obtain ⟨out, fields, rfl⟩ := map_eq_ok.mp projected
  exact ⟨out, mapM_eq_ok.mp fields, rfl⟩

theorem projects_length (projects : response.Projects uuid indices encoded) :
    ∀ out ∈ encoded, out.length = indices.length := by
  rw [QueryResponse.Projects] at projects
  generalize response.rows = rows at projects
  induction projects with
  | nil => exact nofun
  | cons first _ ih => exact forall_mem_cons.mpr ⟨first.length_eq.symm, ih⟩

theorem payload_eq_ok (produced : response.payload uuid indices = .ok bytes) :
    ∃ encoded, response.Projects uuid indices encoded ∧ bytes = Copy.buildBinaryCopy encoded := by
  obtain ⟨projected, done, rfl⟩ := map_eq_ok.mp produced
  obtain ⟨encoded, projects, rfl⟩ := projects_of_mapM done
  have rows : (encoded.map (flatMap putField)).flatMap (digits 2 indices.length ++ ·) =
      encoded.flatMap putRow := by
    rw [flatMap_map]
    refine flatMap_congr fun out member => ?_
    rw [putRow, projects_length projects out member]
  refine ⟨encoded, projects, ?_⟩
  rw [rows, buildBinaryCopy, binaryCopy, length_nil, append_nil]

/-! The decoded payload against the response. -/

def hasBinaryForm : PgType → Bool
  | .bool | .int2 | .int4 | .int8 | .uuid => true
  | _ => false

/-- What becomes of a field: null stays null, a literal gets its binary form, and text of other types
stays. -/
def FieldFaithful (info : FieldInfo) : Option Bytes → Option Bytes → Prop
  | none, out => out = none
  | some value, out => ∃ written, out = some written ∧ (info.format = .text →
      (∀ text binary, value = encode text → binaryOf info.datatype text = some binary → written = binary) ∧
        (hasBinaryForm info.datatype = false → written = value))

def RowFaithful (schema : List FieldInfo) (indices : List Nat) (row out : CopyRow) : Prop :=
  List.Forall₂ (fun index field => ∃ info value, schema[index]? = some info ∧ row[index]? = some value ∧
    FieldFaithful info value field) indices out

/-- The payload decodes to as many rows, with the fields as they should be. -/
def Faithful (response : QueryResponse) (indices : List Nat) (payload : Bytes) : Prop :=
  ∃ decoded, Copy.parseBinaryCopyRows payload = .ok decoded ∧
    List.Forall₂ (RowFaithful response.schema indices) response.rows decoded

/-- All literals in text fields of the copied columns are converted. -/
def AllConverted (response : QueryResponse) (indices : List Nat) : Prop :=
  ∀ row ∈ response.rows, ∀ index ∈ indices, ∀ info text binary, response.schema[index]? = some info →
    info.format = .text → row[index]? = some (some (encode text)) →
    binaryOf info.datatype text = some binary → Converted info.datatype text

theorem encode_other {value : Bytes} (other : hasBinaryForm type = false) :
    encodeBinaryCopyField uuid value type = .ok value := by
  cases type with
  | bool | int2 | int4 | int8 | uuid => cases other
  | _ => rfl

theorem projectField_eq_ok :
    projectField uuid schema row index = .ok field ↔
      row[index]? = some none ∧ field = none ∨
        ∃ value info written, row[index]? = some (some value) ∧ schema[index]? = some info ∧
          encodeBinaryCopyField uuid value info.datatype = .ok written ∧ field = some written := by
  rw [projectField]
  cases row[index]? with
  | none => simp
  | some value =>
    cases value with
    | none => simp [eq_comm]
    | some value =>
      cases schema[index]? with
      | none => simp
      | some info =>
        rw [map_eq_ok]
        simp [eq_comm]

theorem fieldFaithful_iff {value : Option Bytes} (known : schema[index]? = some info)
    (here : row[index]? = some value) (projected : projectField uuid schema row index = .ok field) :
    FieldFaithful info value field ↔
      (info.format = .text → ∀ text binary, value = some (encode text) →
        binaryOf info.datatype text = some binary → Converted info.datatype text) := by
  rcases projectField_eq_ok.mp projected with ⟨null, rfl⟩ | ⟨bytes, info', written, present, found, encoded, rfl⟩
  · cases here.symm.trans null
    exact iff_of_true rfl fun _ _ _ absent => nomatch absent
  · cases here.symm.trans present
    cases known.symm.trans found
    constructor
    · rintro ⟨_, same, faithful⟩ isText text binary value literal
      cases same
      cases value
      exact (encode_literal_iff literal encoded).mp ((faithful isText).1 text binary rfl literal)
    · intro converted
      refine ⟨written, rfl, fun isText => ⟨?_, ?_⟩⟩
      · rintro text binary rfl literal
        exact (encode_literal_iff literal encoded).mpr (converted isText text binary rfl literal)
      · intro other
        exact Except.ok.inj (encoded.symm.trans (encode_other other))

theorem rowFaithful_iff (member : row ∈ response.rows) (inRange : ∀ index ∈ indices, index < response.schema.length)
    (projected : List.Forall₂ (fun index field => projectField uuid response.schema row index = .ok field)
      indices out) :
    RowFaithful response.schema indices row out ↔
      ∀ index ∈ indices, ∀ info text binary, response.schema[index]? = some info → info.format = .text →
        row[index]? = some (some (encode text)) → binaryOf info.datatype text = some binary →
        Converted info.datatype text := by
  refine forall₂_iff_of projected fun index selected field projectedField => ?_
  have inSchema := inRange index selected
  have inRow : index < row.length := inSchema.trans_le (response.widths row member)
  have known : response.schema[index]? = some response.schema[index] := getElem?_eq_getElem inSchema
  have here : row[index]? = some row[index] := getElem?_eq_getElem inRow
  have faithful := fieldFaithful_iff known here projectedField
  constructor
  · rintro ⟨info, value, known', here', isFaithful⟩ info' text binary found isText present literal
    cases known.symm.trans known'
    cases known.symm.trans found
    cases here.symm.trans here'
    exact faithful.mp isFaithful isText text binary (some.inj (here.symm.trans present)) literal
  · intro converted
    refine ⟨_, _, known, here, faithful.mpr fun isText text binary value literal => ?_⟩
    exact converted _ text binary known isText (here.trans (congrArg some value)) literal

theorem projects_sizes {encoded : List CopyRow} (projects : response.Projects uuid indices encoded) :
    ∀ out ∈ encoded, ∀ bytes, some bytes ∈ out → bytes.length ≤ 2 ^ 31 - 1 := by
  intro out member bytes present
  obtain ⟨row, inRows, fields⟩ := forall₂_mem_right projects member
  obtain ⟨index, _, projected⟩ := forall₂_mem_right fields present
  rcases projectField_eq_ok.mp projected with ⟨_, absent⟩ | ⟨value, info, written, here, _, encodes, same⟩
  · cases absent
  · cases same
    have fits := length_encoded encodes (response.sizes row inRows value (mem_of_getElem? here))
    omega

/-- The payload is right exactly if the number of columns fits the format and every literal in a copied
text field is converted. -/
theorem faithful_iff (inRange : ∀ index ∈ indices, index < response.schema.length)
    (produced : response.payload uuid indices = .ok bytes) :
    Faithful response indices bytes ↔
      (response.rows = [] ∨ indices.length < 2 ^ 15) ∧ AllConverted response indices := by
  obtain ⟨encoded, projects, rfl⟩ := payload_eq_ok produced
  have decodes : Copy.Representable encoded →
      parseBinaryCopyRows (buildBinaryCopy encoded) = .ok encoded :=
    fun representable => Copy.Encodes.parse ⟨representable, _, _, by decide, by decide, rfl⟩
  by_cases fits : response.rows = [] ∨ indices.length < 2 ^ 15
  · have parsed := decodes ⟨fun out member => by
      rcases fits with empty | short
      · rw [QueryResponse.Projects, empty, forall₂_nil_left_iff] at projects
        rw [projects] at member
        cases member
      · rw [projects_length projects out member]
        omega, projects_sizes projects⟩
    have rowwise : Forall₂ (RowFaithful response.schema indices) response.rows encoded ↔
        AllConverted response indices :=
      forall₂_iff_of projects fun row member out projected => rowFaithful_iff member inRange projected
    constructor
    · rintro ⟨decoded, read, faithful⟩
      cases parsed.symm.trans read
      exact ⟨fits, rowwise.mp faithful⟩
    · rintro ⟨_, converted⟩
      exact ⟨encoded, parsed, rowwise.mpr converted⟩
  · refine iff_of_false ?_ fun condition => fits condition.1
    rintro ⟨decoded, read, faithful⟩
    obtain ⟨stream, _, rfl⟩ := parseBinaryCopyRows_written read
    cases rows : response.rows with
    | nil => exact fits (.inl rows)
    | cons row rest =>
      rw [rows, forall₂_cons_left_iff] at faithful
      obtain ⟨out, others, first, _, all⟩ := faithful
      have count := stream.representable.counts out (all ▸ mem_cons_self)
      have length := first.length_eq
      exact fits (.inr (by omega))

theorem mem_of_mapM {xs : List α} (mapped : xs.mapM f = some ys) (member : y ∈ ys) :
    ∃ x ∈ xs, f x = some y := by
  induction xs generalizing ys with
  | nil =>
    cases mapped
    cases member
  | cons x xs ih =>
    rw [mapM_cons] at mapped
    obtain ⟨first, here, mapped⟩ := bind_eq_some_iff.mp mapped
    obtain ⟨rest, later, mapped⟩ := bind_eq_some_iff.mp mapped
    cases mapped
    rcases mem_cons.mp member with rfl | member
    · exact ⟨x, mem_cons_self, here⟩
    · obtain ⟨x', member', here'⟩ := ih later member
      exact ⟨x', mem_cons_of_mem x member', here'⟩

theorem projectedCopyIndices_lt {sql : List Char} :
    ∀ index ∈ projectedCopyIndices unicode parse sql schema, index < schema.length := by
  intro index member
  rw [projectedCopyIndices] at member
  split at member
  · rename_i first rest found
    obtain ⟨names, _, mapped⟩ := bind_eq_some_iff.mp found
    obtain ⟨name, _, position⟩ := mem_of_mapM mapped member
    obtain ⟨inRange, _⟩ := findIdx?_eq_some_iff_getElem.mp position
    rwa [length_map] at inRange
  · exact mem_range.mp member

end Payload

/-- The payload that is copied out for a response is right exactly if the copied columns fit the format and
every literal is converted. -/
theorem copyToStdout_faithful_iff (uuid : UuidReader) (unicode : CharData) (parse : Parser) (query : List Char)
    (response : QueryResponse) (payload : Bytes)
    (produced : copyToStdout uuid unicode parse query response = .ok payload) :
    Faithful response (projectedCopyIndices unicode parse query response.schema) payload ↔
      (response.rows = [] ∨
        (projectedCopyIndices unicode parse query response.schema).length < 2 ^ 15) ∧
      AllConverted response (projectedCopyIndices unicode parse query response.schema) :=
  faithful_iff projectedCopyIndices_lt produced

def numbers (texts : List String)
    (short : texts.all fun text => (encode text.toList).length < 2 ^ 31) : QueryResponse where
  schema := [⟨"snapshot_id", .int8, .text⟩]
  rows := texts.map fun text => [some (encode text.toList)]
  widths row member := by
    obtain ⟨text, _, rfl⟩ := mem_map.mp member
    exact Nat.le_refl 1
  sizes row member bytes present := by
    obtain ⟨text, listed, rfl⟩ := mem_map.mp member
    obtain rfl := some.inj (mem_singleton.mp present)
    exact of_decide_eq_true (all_eq_true.mp short text listed)

/-- A reader that accepts nothing. -/
def noUuids : UuidReader := ⟨fun _ => none, nofun, nofun⟩

def snapshotIds : Parser := fun _ => .ok [.query (.mk .nil (.select (.mk false
  [.unnamedExpr (.identifier (word "snapshot_id"))]
  (.cons (.table [word "ducklake_snapshot"] none none) .nil .nil) none (.expressions [] []) none []))
  none none none none)]

theorem copyToStdout_faithful_short : ∃ payload,
    copyToStdout noUuids letters snapshotIds "SELECT snapshot_id FROM ducklake_snapshot".toList
      (numbers ["42", "7"] (by decide)) = .ok payload ∧
    Faithful (numbers ["42", "7"] (by decide)) [0] payload := by
  refine ⟨buildBinaryCopy [[some [0, 0, 0, 0, 0, 0, 0, 42]], [some [0, 0, 0, 0, 0, 0, 0, 7]]], rfl,
    (copyToStdout_faithful_iff noUuids letters snapshotIds "SELECT snapshot_id FROM ducklake_snapshot".toList
      (numbers ["42", "7"] (by decide)) _ rfl).mpr ⟨.inr (by decide), ?_⟩⟩
  intro row member index selected info text binary known _ here _ width same
  obtain ⟨number, listed, rfl⟩ := mem_map.mp member
  obtain rfl : index = 0 := mem_singleton.mp selected
  obtain rfl : number.toList = text := encode_injective (some.inj (some.inj here))
  cases known
  cases same
  rcases mem_pair.mp listed with rfl | rfl <;> decide

/-- A text of eight digits is taken for a binary number. -/
theorem digits_taken_for_binary :
    copyToStdout noUuids letters snapshotIds "SELECT snapshot_id FROM ducklake_snapshot".toList
        (numbers ["12345678"] (by decide)) =
      .ok (Copy.buildBinaryCopy [[some (encode "12345678".toList)]]) ∧
    binaryOf .int8 "12345678".toList = some [0, 0, 0, 0, 0, 188, 97, 78] ∧
    ¬ Faithful (numbers ["12345678"] (by decide)) [0]
      (Copy.buildBinaryCopy [[some (encode "12345678".toList)]]) := by
  have produced : (numbers ["12345678"] (by decide)).payload noUuids [0] =
      .ok (buildBinaryCopy [[some (encode "12345678".toList)]]) := rfl
  have binary : binaryOf .int8 "12345678".toList = some [0, 0, 0, 0, 0, 188, 97, 78] := by decide
  refine ⟨produced, binary, fun faithful => ?_⟩
  have converted := ((faithful_iff (by decide) produced).mp faithful).2
  exact converted _ mem_cons_self 0 mem_cons_self _ _ _ rfl rfl rfl binary 8 rfl rfl

end CopyOut

end RockLake
