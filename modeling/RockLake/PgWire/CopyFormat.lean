import RockLake.Lib.BigEndian
import RockLake.PgWire.Copy

/-! The binary COPY format. A stream as the parser accepts it is a value of its own, with the lengths
and counts that were really written; the encoding of rows is the stream that has -1 for every null and
for the end, and nothing after it. -/
namespace RockLake.Copy

open BigEndian
open List hiding count after

/-! ### Encoding -/

def putField : Option Bytes → Bytes
  | none => digits 4 (2 ^ 32 - 1)
  | some bytes => digits 4 bytes.length ++ bytes

def putRow (row : CopyRow) : Bytes := digits 2 row.length ++ row.flatMap putField

def binaryCopy (flags extension : Bytes) (rows : List CopyRow) : Bytes :=
  pgcopySignature ++ flags ++ digits 4 extension.length ++ extension ++ rows.flatMap putRow ++
    digits 2 (2 ^ 16 - 1)

def buildBinaryCopy (rows : List CopyRow) : Bytes := binaryCopy (digits 4 0) [] rows

/-- The counts and lengths of the rows fit the signed numbers of the format. -/
structure Representable (rows : List CopyRow) : Prop where
  counts : ∀ row ∈ rows, row.length ≤ 32767
  sizes : ∀ row ∈ rows, ∀ bytes, some bytes ∈ row → bytes.length ≤ 2 ^ 31 - 1

/-- The bytes are an encoding of the rows, with some flags and some header extension. -/
def Encodes (data : Bytes) (rows : List CopyRow) : Prop :=
  Representable rows ∧ ∃ flags extension : Bytes, flags.length = 4 ∧ extension.length < 2 ^ 32 ∧
    data = binaryCopy flags extension rows

/-! ### Accepted streams -/

/-- A field as it was written: any negative length is a null. -/
inductive WrittenField where
  | null (length : Nat) (negative : 2 ^ 31 ≤ length ∧ length < 2 ^ 32)
  | bytes (value : Bytes) (fits : value.length < 2 ^ 31)

namespace WrittenField

def encode : WrittenField → Bytes
  | null length _ => digits 4 length
  | bytes value _ => digits 4 value.length ++ value

def decode : WrittenField → Option Bytes
  | null _ _ => none
  | bytes value _ => some value

def Plain : WrittenField → Prop
  | null length _ => length = 2 ^ 32 - 1
  | bytes _ _ => True

end WrittenField

structure WrittenRow where
  fields : List WrittenField
  fits : fields.length < 2 ^ 15

namespace WrittenRow

def encode (row : WrittenRow) : Bytes :=
  digits 2 row.fields.length ++ row.fields.flatMap WrittenField.encode

def decode (row : WrittenRow) : CopyRow := row.fields.map WrittenField.decode

end WrittenRow

structure CopyStream where
  flags : Bytes
  flagsLength : flags.length = 4
  extension : Bytes
  extensionFits : extension.length < 2 ^ 32
  rows : List WrittenRow
  endCount : Nat
  endNegative : 2 ^ 15 ≤ endCount ∧ endCount < 2 ^ 16
  rest : Bytes

namespace CopyStream

variable (stream : CopyStream)

def body : Bytes := stream.rows.flatMap WrittenRow.encode ++ (digits 2 stream.endCount ++ stream.rest)

def encode : Bytes :=
  pgcopySignature ++ (stream.flags ++ (digits 4 stream.extension.length ++
    (stream.extension ++ stream.body)))

def decode : List CopyRow := stream.rows.map WrittenRow.decode

/-- Nulls and the end are written -1, and nothing follows the end. -/
structure Plain : Prop where
  nulls : ∀ row ∈ stream.rows, ∀ field ∈ row.fields, field.Plain
  ending : stream.endCount = 2 ^ 16 - 1
  nothing : stream.rest = []

end CopyStream

/-! ### Reading numbers -/

theorem fromBeBytes_eq (bytes : Bytes) : fromBeBytes bytes = value bytes := rfl

theorem readBe_digits {width n : Nat} {rest : Bytes} (fits : n < 256 ^ width) :
    readBe width (digits width n ++ rest) = some (n, rest) := by
  have number : (digits width n ++ rest).take width = digits width n :=
    take_left' (length_digits width n)
  have tail : (digits width n ++ rest).drop width = rest := drop_left' (length_digits width n)
  rw [readBe, if_neg (by simp), number, tail, fromBeBytes_eq, value_digits fits]

theorem readBe_eq_some (read : readBe width data = some (n, rest)) :
    data = digits width n ++ rest ∧ n < 256 ^ width := by
  simp only [readBe] at read
  split at read
  · contradiction
  rename_i enough
  cases read
  have length : (data.take width).length = width := by
    rw [length_take]
    omega
  have small := value_lt (data.take width)
  rw [length] at small
  rw [fromBeBytes_eq, digits_value length, take_append_drop]
  exact ⟨rfl, small⟩

theorem map_eq_ok {result : Except ε α} :
    result.map f = .ok b ↔ ∃ a, result = .ok a ∧ f a = b := by
  cases result <;> simp [Except.map]

theorem isNegative_length : isNegative 4 n = true ↔ 2 ^ 31 ≤ n := by
  simp [isNegative]

theorem isNegative_count : isNegative 2 n = true ↔ 2 ^ 15 ≤ n := by
  simp [isNegative]

/-! ### Reading fields and rows -/

theorem parseFields_encode (row field : Nat) (fields : List WrittenField) (rest : Bytes) :
    parseFields row field fields.length (fields.flatMap WrittenField.encode ++ rest) =
      .ok (fields.map WrittenField.decode, rest) := by
  induction fields generalizing field with
  | nil => rfl
  | cons first fields ih =>
    rw [flatMap_cons, append_assoc, length_cons, parseFields]
    cases first with
    | null length negative =>
      have read := @readBe_digits 4 length (fields.flatMap WrittenField.encode ++ rest) (by omega)
      simp [WrittenField.encode, read, isNegative_length.mpr negative.1, ih, Except.map,
        WrittenField.decode]
    | bytes value fits =>
      have read := @readBe_digits 4 value.length
        (value ++ (fields.flatMap WrittenField.encode ++ rest)) (by omega)
      have positive : isNegative 4 value.length = false := by
        rw [← Bool.not_eq_true, isNegative_length]
        omega
      have enough : ¬ value.length > (value ++ (fields.flatMap WrittenField.encode ++ rest)).length := by
        simp
      simp only [WrittenField.encode, append_assoc, read, positive, Bool.false_eq_true, if_false,
        enough, drop_left, take_left, ih, Except.map, map_cons, WrittenField.decode]

theorem parseFields_written {data rest : Bytes}
    (parsed : parseFields row field count data = .ok (fields, rest)) :
    ∃ written : List WrittenField, written.length = count ∧
      data = written.flatMap WrittenField.encode ++ rest ∧ fields = written.map WrittenField.decode := by
  induction count generalizing field data fields with
  | zero =>
    cases parsed
    exact ⟨[], rfl, rfl, rfl⟩
  | succ count ih =>
    simp only [parseFields] at parsed
    split at parsed
    · contradiction
    rename_i length body read
    obtain ⟨rfl, fits⟩ := readBe_eq_some read
    split at parsed
    · rename_i negative
      obtain ⟨⟨later, rest'⟩, more, same⟩ := map_eq_ok.mp parsed
      cases same
      obtain ⟨written, counted, rfl, rfl⟩ := ih more
      refine ⟨.null length ⟨isNegative_length.mp negative, by omega⟩ :: written, ?_, ?_, rfl⟩
      · rw [length_cons, counted]
      · rw [flatMap_cons, append_assoc]
        rfl
    · rename_i positive
      split at parsed
      · contradiction
      rename_i enough
      obtain ⟨⟨later, rest'⟩, more, same⟩ := map_eq_ok.mp parsed
      cases same
      obtain ⟨written, counted, tail, rfl⟩ := ih more
      have taken : (body.take length).length = length := by
        rw [length_take]
        omega
      have small : (body.take length).length < 2 ^ 31 := by
        rw [taken]
        exact not_le.mp (mt isNegative_length.mpr positive)
      refine ⟨.bytes (body.take length) small :: written, ?_, ?_, rfl⟩
      · rw [length_cons, counted]
      · rw [flatMap_cons, append_assoc, ← tail, WrittenField.encode, taken,
          append_assoc, take_append_drop]

theorem WrittenRow.encode_pos (row : WrittenRow) : 0 < row.encode.length := by
  simp [WrittenRow.encode]

theorem parseRows_encode (row : Nat) {rows : List WrittenRow} (rest : Bytes)
    (negative : 2 ^ 15 ≤ endCount ∧ endCount < 2 ^ 16) (enough : rows.length < fuel) :
    parseRows fuel row (rows.flatMap WrittenRow.encode ++ (digits 2 endCount ++ rest)) =
      .ok (rows.map WrittenRow.decode) := by
  induction rows generalizing fuel row with
  | nil =>
    obtain ⟨fuel, rfl⟩ := Nat.exists_eq_add_one_of_ne_zero (Nat.ne_of_gt enough)
    have read := @readBe_digits 2 endCount rest (by omega)
    simp [parseRows, read, isNegative_count.mpr negative.1]
  | cons first rows ih =>
    obtain ⟨fuel, rfl⟩ := Nat.exists_eq_add_one_of_ne_zero (Nat.ne_of_gt (Nat.zero_lt_of_lt enough))
    have fits := first.fits
    have read := @readBe_digits 2 first.fields.length (first.fields.flatMap WrittenField.encode ++
      (rows.flatMap WrittenRow.encode ++ (digits 2 endCount ++ rest))) (by omega)
    have positive : isNegative 2 first.fields.length = false := by
      rw [← Bool.not_eq_true, isNegative_count]
      omega
    have later := ih (row + 1) (Nat.lt_of_succ_lt_succ enough)
    rw [flatMap_cons, WrittenRow.encode, append_assoc, append_assoc, parseRows, read]
    simp [positive, parseFields_encode, later, bind, Except.bind, WrittenRow.decode]

theorem parseRows_written (parsed : parseRows fuel row data = .ok rows) :
    ∃ (written : List WrittenRow) (endCount : Nat) (rest : Bytes),
      (2 ^ 15 ≤ endCount ∧ endCount < 2 ^ 16) ∧
      data = written.flatMap WrittenRow.encode ++ (digits 2 endCount ++ rest) ∧
      rows = written.map WrittenRow.decode := by
  induction fuel generalizing row data rows with
  | zero => contradiction
  | succ fuel ih =>
    simp only [parseRows] at parsed
    split at parsed
    · contradiction
    rename_i count body read
    obtain ⟨rfl, fits⟩ := readBe_eq_some read
    split at parsed
    · rename_i negative
      cases parsed
      exact ⟨[], count, body, ⟨isNegative_count.mp negative, by omega⟩, rfl, rfl⟩
    · rename_i positive
      cases first : parseFields row 0 count body with
      | error e => simp [first, bind, Except.bind] at parsed
      | ok result =>
        obtain ⟨fields, tail⟩ := result
        cases others : parseRows fuel (row + 1) tail with
        | error e => simp [first, others, bind, Except.bind] at parsed
        | ok later =>
          simp only [first, others, bind, Except.bind, Except.ok.injEq] at parsed
          subst parsed
          obtain ⟨written, counted, rfl, rfl⟩ := parseFields_written first
          obtain ⟨rows, endCount, rest, ends, rfl, rfl⟩ := ih others
          have small : written.length < 2 ^ 15 := by
            rw [counted]
            exact not_le.mp (mt isNegative_count.mpr positive)
          refine ⟨⟨written, small⟩ :: rows, endCount, rest, ends, ?_, rfl⟩
          rw [flatMap_cons, WrittenRow.encode, counted, append_assoc, append_assoc]

theorem rows_length_le (rows : List WrittenRow) :
    rows.length ≤ (rows.flatMap WrittenRow.encode).length := by
  induction rows with
  | nil => exact le_rfl
  | cons row rows ih =>
    have long := row.encode_pos
    rw [flatMap_cons, length_append, length_cons]
    omega

/-! ### The parser and the streams -/

theorem parseBinaryCopyRows_encode (stream : CopyStream) :
    parseBinaryCopyRows stream.encode = .ok stream.decode := by
  have flags := stream.flagsLength
  have signature : pgcopySignature.isPrefixOf stream.encode = true :=
    isPrefixOf_iff_prefix.mpr ⟨_, rfl⟩
  have header : stream.encode.drop (pgcopySignature.length + 4) =
      digits 4 stream.extension.length ++ (stream.extension ++ stream.body) := by
    rw [CopyStream.encode, ← drop_drop, drop_left, drop_left' flags]
  have long : ¬ stream.encode.length < pgcopySignature.length + 8 := by
    simp only [CopyStream.encode, length_append, length_digits, flags]
    omega
  have enough : stream.rows.length < stream.body.length + 1 := by
    have bound := rows_length_le stream.rows
    simp only [CopyStream.body, length_append]
    omega
  have fits := stream.extensionFits
  rw [parseBinaryCopyRows, if_neg long, signature, header, readBe_digits (by omega)]
  simp only [Bool.not_true, Bool.false_eq_true, if_false, drop_left, length_append]
  rw [if_neg (by omega)]
  exact parseRows_encode 0 stream.rest stream.endNegative enough

theorem parseBinaryCopyRows_written (parsed : parseBinaryCopyRows data = .ok rows) :
    ∃ stream : CopyStream, stream.encode = data ∧ stream.decode = rows := by
  simp only [parseBinaryCopyRows] at parsed
  split at parsed
  · contradiction
  rename_i long
  split at parsed
  · contradiction
  rename_i signed
  have starts : pgcopySignature.isPrefixOf data = true := by simpa using signed
  obtain ⟨tail, rfl⟩ := isPrefixOf_iff_prefix.mp starts
  split at parsed
  · contradiction
  rename_i extLen body read
  split at parsed
  · contradiction
  rename_i enough
  obtain ⟨same, fits⟩ := readBe_eq_some read
  rw [← drop_drop, drop_left] at same
  obtain ⟨written, endCount, rest, negative, rest_eq, rfl⟩ := parseRows_written parsed
  have flags : (tail.take 4).length = 4 := by
    simp only [length_append] at long
    rw [length_take]
    omega
  have extension : (body.take extLen).length = extLen := by
    rw [length_take]
    omega
  refine ⟨⟨tail.take 4, flags, body.take extLen, by omega, written, endCount, negative, rest⟩,
    ?_, rfl⟩
  rw [CopyStream.encode, CopyStream.body]
  dsimp only
  rw [extension, ← rest_eq, take_append_drop, ← same, take_append_drop]

theorem parseBinaryCopyRows_iff :
    parseBinaryCopyRows data = .ok rows ↔
      ∃ stream : CopyStream, stream.encode = data ∧ stream.decode = rows := by
  constructor
  · exact parseBinaryCopyRows_written
  · rintro ⟨stream, rfl, rfl⟩
    exact parseBinaryCopyRows_encode stream

/-! ### One stream for each accepted input -/

theorem WrittenField.encode_append_inj {field field' : WrittenField}
    (same : field.encode ++ rest = field'.encode ++ rest') : field = field' ∧ rest = rest' := by
  cases field with
  | null length negative =>
    cases field' with
    | null length' negative' =>
      obtain ⟨rfl, tail⟩ := digits_append_inj (by omega) (by omega) same
      exact ⟨rfl, tail⟩
    | bytes value' fits' =>
      rw [encode, encode, append_assoc] at same
      obtain ⟨lengths, _⟩ := digits_append_inj (by omega) (by omega) same
      omega
  | bytes value fits =>
    cases field' with
    | null length' negative' =>
      rw [encode, encode, append_assoc] at same
      obtain ⟨lengths, _⟩ := digits_append_inj (by omega) (by omega) same
      omega
    | bytes value' fits' =>
      rw [encode, encode, append_assoc, append_assoc] at same
      obtain ⟨lengths, tail⟩ := digits_append_inj (by omega) (by omega) same
      obtain ⟨rfl, rest_eq⟩ := append_inj tail lengths
      exact ⟨rfl, rest_eq⟩

theorem fields_append_inj {fields fields' : List WrittenField}
    (lengths : fields.length = fields'.length)
    (same : fields.flatMap WrittenField.encode ++ rest = fields'.flatMap WrittenField.encode ++ rest') :
    fields = fields' ∧ rest = rest' := by
  induction fields generalizing fields' with
  | nil =>
    obtain rfl := length_eq_zero_iff.mp lengths.symm
    exact ⟨rfl, same⟩
  | cons field fields ih =>
    cases fields' with
    | nil => contradiction
    | cons field' fields' =>
      rw [flatMap_cons, flatMap_cons, append_assoc, append_assoc] at same
      obtain ⟨rfl, tail⟩ := WrittenField.encode_append_inj same
      obtain ⟨rfl, rest_eq⟩ := ih (Nat.succ.inj lengths) tail
      exact ⟨rfl, rest_eq⟩

theorem WrittenRow.encode_append_inj {row row' : WrittenRow}
    (same : row.encode ++ rest = row'.encode ++ rest') : row = row' ∧ rest = rest' := by
  obtain ⟨fields, fits⟩ := row
  obtain ⟨fields', fits'⟩ := row'
  simp only [encode, append_assoc] at same
  obtain ⟨lengths, tail⟩ := digits_append_inj (by omega) (by omega) same
  obtain ⟨rfl, rest_eq⟩ := fields_append_inj lengths tail
  exact ⟨rfl, rest_eq⟩

theorem WrittenRow.encode_ne_end {row : WrittenRow}
    (negative : 2 ^ 15 ≤ endCount ∧ endCount < 2 ^ 16) :
    row.encode ++ rest ≠ digits 2 endCount ++ rest' := by
  intro same
  have fits := row.fits
  rw [encode, append_assoc] at same
  obtain ⟨counts, _⟩ := digits_append_inj (by omega) (by omega) same
  omega

theorem rows_append_inj {rows rows' : List WrittenRow}
    (negative : 2 ^ 15 ≤ endCount ∧ endCount < 2 ^ 16)
    (negative' : 2 ^ 15 ≤ endCount' ∧ endCount' < 2 ^ 16)
    (same : rows.flatMap WrittenRow.encode ++ (digits 2 endCount ++ rest) = rows'.flatMap WrittenRow.encode ++ (digits 2 endCount' ++ rest')) :
    rows = rows' ∧ endCount = endCount' ∧ rest = rest' := by
  induction rows generalizing rows' with
  | nil =>
    cases rows' with
    | nil => exact ⟨rfl, digits_append_inj (by omega) (by omega) same⟩
    | cons row' rows' =>
      rw [flatMap_cons, append_assoc] at same
      exact absurd same.symm (WrittenRow.encode_ne_end negative)
  | cons row rows ih =>
    cases rows' with
    | nil =>
      rw [flatMap_cons, append_assoc] at same
      exact absurd same (WrittenRow.encode_ne_end negative')
    | cons row' rows' =>
      rw [flatMap_cons, flatMap_cons, append_assoc, append_assoc] at same
      obtain ⟨rfl, tail⟩ := WrittenRow.encode_append_inj same
      obtain ⟨rfl, ends⟩ := ih tail
      exact ⟨rfl, ends⟩

theorem CopyStream.encode_inj {stream stream' : CopyStream} (same : stream.encode = stream'.encode) :
    stream = stream' := by
  obtain ⟨flags, flagsLength, extension, extensionFits, rows, endCount, negative, rest⟩ := stream
  obtain ⟨flags', flagsLength', extension', extensionFits', rows', endCount', negative', rest'⟩ := stream'
  obtain ⟨rfl, tail⟩ := append_inj (append_cancel_left same) (flagsLength.trans flagsLength'.symm)
  obtain ⟨lengths, tail⟩ := digits_append_inj (by omega) (by omega) tail
  obtain ⟨rfl, tail⟩ := append_inj tail lengths
  obtain ⟨rfl, rfl, rfl⟩ := rows_append_inj negative negative' tail
  rfl

/-! ### Encodings are the plain streams -/

theorem WrittenField.Plain.encode_eq {field : WrittenField} (plain : field.Plain) :
    field.encode = putField field.decode := by
  cases field with
  | null length negative =>
    obtain rfl : length = 2 ^ 32 - 1 := plain
    rfl
  | bytes value fits => rfl

theorem WrittenRow.encode_plain {row : WrittenRow} (plain : ∀ field ∈ row.fields, field.Plain) :
    row.encode = putRow row.decode := by
  rw [encode, putRow, decode, length_map, flatMap_map,
    flatMap_congr fun field member => (plain field member).encode_eq]

theorem CopyStream.Plain.encode_eq {stream : CopyStream} (plain : stream.Plain) :
    stream.encode = binaryCopy stream.flags stream.extension stream.decode := by
  have rows : stream.rows.flatMap WrittenRow.encode = stream.decode.flatMap putRow := by
    rw [decode, flatMap_map]
    exact flatMap_congr fun row member => WrittenRow.encode_plain (plain.nulls row member)
  simp [encode, body, binaryCopy, rows, plain.ending, plain.nothing]

theorem CopyStream.representable (stream : CopyStream) : Representable stream.decode := by
  constructor
  · intro row member
    obtain ⟨written, _, rfl⟩ := mem_map.mp member
    have fits := written.fits
    rw [WrittenRow.decode, length_map]
    omega
  · intro row member bytes present
    obtain ⟨written, _, rfl⟩ := mem_map.mp member
    obtain ⟨field, _, decoded⟩ := mem_map.mp present
    cases field with
    | null length negative => contradiction
    | bytes value fits =>
      cases decoded
      omega

theorem fields_written (sizes : ∀ bytes, some bytes ∈ row → bytes.length ≤ 2 ^ 31 - 1) :
    ∃ fields : List WrittenField, fields.map WrittenField.decode = row ∧ ∀ field ∈ fields, field.Plain := by
  induction row with
  | nil => exact ⟨[], rfl, nofun⟩
  | cons first row ih =>
    obtain ⟨fields, decoded, plain⟩ := ih fun bytes member => sizes bytes (mem_cons_of_mem _ member)
    cases first with
    | none =>
      refine ⟨.null (2 ^ 32 - 1) (by omega) :: fields, ?_, ?_⟩
      · rw [map_cons, decoded]
        rfl
      · exact forall_mem_cons.mpr ⟨rfl, plain⟩
    | some bytes =>
      have size := sizes bytes mem_cons_self
      refine ⟨.bytes bytes (by omega) :: fields, ?_, ?_⟩
      · rw [map_cons, decoded]
        rfl
      · exact forall_mem_cons.mpr ⟨trivial, plain⟩

theorem rows_written (representable : Representable rows) :
    ∃ written : List WrittenRow, written.map WrittenRow.decode = rows ∧
      ∀ row ∈ written, ∀ field ∈ row.fields, field.Plain := by
  induction rows with
  | nil => exact ⟨[], rfl, nofun⟩
  | cons first rows ih =>
    obtain ⟨written, decoded, plain⟩ := ih
      ⟨fun row member => representable.counts row (mem_cons_of_mem _ member),
        fun row member => representable.sizes row (mem_cons_of_mem _ member)⟩
    obtain ⟨fields, first_eq, plain'⟩ := fields_written (representable.sizes first mem_cons_self)
    have counted : fields.length < 2 ^ 15 := by
      have bound := representable.counts first mem_cons_self
      rw [← first_eq, length_map] at bound
      omega
    refine ⟨⟨fields, counted⟩ :: written, ?_, forall_mem_cons.mpr ⟨plain', plain⟩⟩
    rw [map_cons, decoded, WrittenRow.decode, first_eq]

theorem encodes_iff {data : Bytes} :
    Encodes data rows ↔
      ∃ stream : CopyStream, stream.Plain ∧ stream.encode = data ∧ stream.decode = rows := by
  constructor
  · rintro ⟨representable, flags, extension, flagsLength, fits, rfl⟩
    obtain ⟨written, rfl, plain⟩ := rows_written representable
    have isPlain : CopyStream.Plain
        ⟨flags, flagsLength, extension, fits, written, 2 ^ 16 - 1, by omega, []⟩ := ⟨plain, rfl, rfl⟩
    exact ⟨_, isPlain, isPlain.encode_eq, rfl⟩
  · rintro ⟨stream, plain, rfl, rfl⟩
    exact ⟨stream.representable, stream.flags, stream.extension, stream.flagsLength,
      stream.extensionFits, plain.encode_eq⟩

theorem Encodes.parse (encodes : Encodes data rows) :
    parseBinaryCopyRows data = .ok rows := by
  obtain ⟨stream, _, rfl, rfl⟩ := encodes_iff.mp encodes
  exact parseBinaryCopyRows_encode stream

/-- What is written is read back, and an input that breaks off is refused. -/
theorem binaryCopy_round_trip {flags extension : Bytes} {rows : List CopyRow}
    (flagsLength : flags.length = 4) (fits : extension.length < 2 ^ 32)
    (representable : Representable rows) :
    parseBinaryCopyRows (binaryCopy flags extension rows) = .ok rows ∧
      ∀ cut, cut <+: binaryCopy flags extension rows → cut ≠ binaryCopy flags extension rows →
        ∃ e, parseBinaryCopyRows cut = .error e := by
  have encodes : Encodes (binaryCopy flags extension rows) rows :=
    ⟨representable, flags, extension, flagsLength, fits, rfl⟩
  obtain ⟨stream, plain, encoded, _⟩ := encodes_iff.mp encodes
  refine ⟨encodes.parse, ?_⟩
  rintro cut ⟨missing, whole⟩ strict
  cases parsed : parseBinaryCopyRows cut with
  | error e => exact ⟨e, rfl⟩
  | ok rows' =>
    -- the missing bytes would follow the end of the shorter stream
    obtain ⟨shorter, rfl, _⟩ := parseBinaryCopyRows_written parsed
    have longer : ({ shorter with rest := shorter.rest ++ missing } : CopyStream).encode = stream.encode := by
      rw [encoded, ← whole]
      simp [CopyStream.encode, CopyStream.body]
    have nothing := plain.nothing
    rw [← CopyStream.encode_inj longer] at nothing
    obtain ⟨_, rfl⟩ := append_eq_nil_iff.mp nothing
    exact absurd (by rw [← whole, append_nil]) strict

theorem binaryCopy_round_trip_main :
    parseBinaryCopyRows (binaryCopy [0, 0, 0, 0] [] [[none, some [109, 97, 105, 110]], []]) =
        .ok [[none, some [109, 97, 105, 110]], []] ∧
      ∀ cut, cut <+: binaryCopy [0, 0, 0, 0] [] [[none, some [109, 97, 105, 110]], []] →
        cut ≠ binaryCopy [0, 0, 0, 0] [] [[none, some [109, 97, 105, 110]], []] →
          ∃ e, parseBinaryCopyRows cut = .error e :=
  binaryCopy_round_trip rfl (by decide) ⟨by decide, by simp⟩

/-- An accepted input is an encoding of what was read from it if its only negative numbers are -1 and
nothing follows the end, and not otherwise. -/
theorem accepted_encodes_iff {data : Bytes} {rows : List CopyRow}
    (accepted : parseBinaryCopyRows data = .ok rows) :
    ∃ stream : CopyStream, stream.encode = data ∧ stream.decode = rows ∧
      (∀ other : CopyStream, other.encode = data → other = stream) ∧
      (Encodes data rows ↔ stream.Plain) := by
  obtain ⟨stream, rfl, rfl⟩ := parseBinaryCopyRows_written accepted
  refine ⟨stream, rfl, rfl, fun other same => CopyStream.encode_inj same, ?_⟩
  rw [encodes_iff]
  constructor
  · rintro ⟨other, plain, same, _⟩
    exact CopyStream.encode_inj same ▸ plain
  · intro plain
    exact ⟨stream, plain, rfl, rfl⟩

theorem accepted_encodes_build :
    let rows := [[none, some [7]], [some [], none]]
    ∃ stream : CopyStream, stream.encode = buildBinaryCopy rows ∧ stream.decode = rows ∧
      (∀ other : CopyStream, other.encode = buildBinaryCopy rows → other = stream) ∧
      (Encodes (buildBinaryCopy rows) rows ↔ stream.Plain) :=
  accepted_encodes_iff (Encodes.parse ⟨⟨by decide, by simp⟩, digits 4 0, [], rfl, by decide, rfl⟩)

theorem CopyStream.accepted_odd (stream : CopyStream) (odd : ¬ stream.Plain) :
    parseBinaryCopyRows stream.encode = .ok stream.decode ∧ ¬ Encodes stream.encode stream.decode := by
  refine ⟨parseBinaryCopyRows_encode stream, fun encodes => odd ?_⟩
  obtain ⟨other, plain, same, _⟩ := encodes_iff.mp encodes
  exact encode_inj same ▸ plain

/-- Streams without rows that are not plain, by their end and by what follows it. -/
def unusualEnd (endCount : Nat) (negative : 2 ^ 15 ≤ endCount ∧ endCount < 2 ^ 16) (rest : Bytes) :
    CopyStream :=
  ⟨digits 4 0, rfl, [], by decide, [], endCount, negative, rest⟩

def unusualNull (length : Nat) (negative : 2 ^ 31 ≤ length ∧ length < 2 ^ 32) : CopyStream :=
  ⟨digits 4 0, rfl, [], by decide, [⟨[.null length negative], by simp⟩], 2 ^ 16 - 1, by omega, []⟩

/-- A count of -2 ends the input, a byte after the end is not seen, and a length of -2 is a null. -/
theorem accepted_not_encoded :
    (parseBinaryCopyRows (pgcopySignature ++ List.replicate 8 0 ++ [255, 254]) = .ok [] ∧
      ¬ Encodes (pgcopySignature ++ List.replicate 8 0 ++ [255, 254]) []) ∧
    (parseBinaryCopyRows (pgcopySignature ++ List.replicate 8 0 ++ [255, 255, 7]) = .ok [] ∧
      ¬ Encodes (pgcopySignature ++ List.replicate 8 0 ++ [255, 255, 7]) []) ∧
    parseBinaryCopyRows (pgcopySignature ++ List.replicate 8 0 ++ [0, 1, 255, 255, 255, 254, 255, 255]) =
        .ok [[none]] ∧
      ¬ Encodes (pgcopySignature ++ List.replicate 8 0 ++ [0, 1, 255, 255, 255, 254, 255, 255]) [[none]] := by
  have count : (unusualEnd 65534 (by omega) []).encode =
      pgcopySignature ++ replicate 8 0 ++ [255, 254] := by decide
  have trailing : (unusualEnd 65535 (by omega) [7]).encode =
      pgcopySignature ++ replicate 8 0 ++ [255, 255, 7] := by decide
  have null : (unusualNull 4294967294 (by omega)).encode =
      pgcopySignature ++ replicate 8 0 ++ [0, 1, 255, 255, 255, 254, 255, 255] := by decide
  rw [← count, ← trailing, ← null]
  refine ⟨CopyStream.accepted_odd _ ?_, CopyStream.accepted_odd _ ?_, CopyStream.accepted_odd _ ?_⟩
  · exact fun plain => absurd plain.ending (by simp [unusualEnd])
  · exact fun plain => absurd plain.nothing (by simp [unusualEnd])
  · intro plain
    have minusOne : (4294967294 : Nat) = 2 ^ 32 - 1 :=
      plain.nulls _ mem_cons_self _ mem_cons_self
    omega

end RockLake.Copy
