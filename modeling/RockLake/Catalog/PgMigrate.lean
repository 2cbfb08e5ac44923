import RockLake.Catalog.RoundTrip

/-! The migration of an export to SQL. Every row becomes the text of one statement; the fields that are not
texts are printed as the JSON values they are. -/
namespace RockLake

open Text List DuckLakeTable Nat

def jsonEscape (c : Char) : List Char :=
  if c = '"' then "\\\"".toList else if c = '\\' then "\\\\".toList
  else if c = '\n' then "\\n".toList else if c = '\r' then "\\r".toList
  else if c = '\t' then "\\t".toList else if c.toNat = 8 then "\\b".toList
  else if c.toNat = 12 then "\\f".toList
  else if c.toNat < 32 then "\\u00".toList ++ [digitChar (c.toNat / 16), digitChar (c.toNat % 16)]
  else [c]

def jsonString (text : String) : List Char := '"' :: text.toList.flatMap jsonEscape ++ ['"']

mutual

def jsonText : Json → List Char
  | .null => "null".toList
  | .bool b => (toString b).toList
  | .int n => (if n < 0 then ['-'] else []) ++ toDigits 10 n.natAbs
  | .float text => text.toList
  | .str text => jsonString text
  | .arr items => '[' :: jsonItems items ++ [']']
  | .obj fields => '\x7b' :: jsonFields fields ++ ['\x7d']

def jsonItems : List Json → List Char
  | [] => []
  | [item] => jsonText item
  | item :: rest => jsonText item ++ ',' :: jsonItems rest

def jsonFields : List (String × Json) → List Char
  | [] => []
  | [(name, value)] => jsonString name ++ ':' :: jsonText value
  | (name, value) :: rest => jsonString name ++ ':' :: jsonText value ++ ',' :: jsonFields rest

end

/-- How the value of a column is taken from its field. -/
inductive SqlValue where
  | json | text | orNull | flag
  deriving DecidableEq

def sqlEscape : List Char → List Char := double '\''

def sqlQuoted (text : String) : List Char := '\'' :: (sqlEscape text.toList ++ ['\''])

def sqlNumber : Option Nat → List Char
  | some n => toDigits 10 n
  | none => "NULL".toList

def SqlValue.print (value : Json) : SqlValue → List Char
  | .json => jsonText value
  | .text => sqlQuoted (value.asStr.getD "")
  | .orNull => sqlNumber value.asU64
  | .flag => (toString (value.asBool.getD true)).toList

/-- The columns that are filled in a target table, each from the field of its name. -/
def DuckLakeTable.targetColumns : DuckLakeTable → Option (List (String × SqlValue))
  | .snapshot => some [("snapshot_id", .json), ("schema_version", .json), ("snapshot_time", .text)]
  | .schema => some [("schema_id", .json), ("schema_name", .text), ("begin_snapshot", .json),
      ("end_snapshot", .orNull)]
  | .table => some [("table_id", .json), ("schema_id", .json), ("table_name", .text),
      ("begin_snapshot", .json), ("end_snapshot", .orNull)]
  | .column => some [("column_id", .json), ("table_id", .json), ("column_name", .text),
      ("data_type", .text), ("column_index", .json), ("begin_snapshot", .json),
      ("end_snapshot", .orNull), ("is_nullable", .flag)]
  | .dataFile => some [("data_file_id", .json), ("table_id", .json), ("path", .text),
      ("file_format", .text), ("row_count", .json), ("file_size_bytes", .json), ("snapshot_id", .json)]
  | _ => none

def insertHead (table : String) (columns : List String) : List Char :=
  "INSERT INTO ".toList ++ (table.toList ++ ' ' :: '(' ::
    ((", ".intercalate columns).toList ++ ") VALUES (".toList))

def joinValues : List (List Char) → List Char
  | [] => [')', ';']
  | [value] => value ++ [')', ';']
  | value :: rest => value ++ ',' :: ' ' :: joinValues rest

def insertText (table : String) (values : List (String × List Char)) : List Char :=
  insertHead table (values.map Prod.fst) ++ joinValues (values.map Prod.snd)

def ExportedRow.target (row : ExportedRow) : Option (List (String × SqlValue)) :=
  (ofName row.table).bind targetColumns

def rowToPgInsert (row : ExportedRow) : List Char :=
  match row.target with
  | some columns => insertText row.table (columns.map fun c => (c.1, c.2.print (row.data.field c.1)))
  | none => "-- Unsupported table: ".toList ++ sqlEscape row.table.toList

def readRows : List ImportLine → List ExportedRow × Option LoadError
  | [] => ([], none)
  | .unreadable message :: _ | .malformed message :: _ => ([], some (.slateDb message))
  | .blank :: rest => readRows rest
  | .row exported :: rest => (exported :: (readRows rest).1, (readRows rest).2)

/-- The statements, each of which is written on a line of its own, and their number or an error. -/
def pgMigrate (lines : List ImportLine) : List (List Char) × Except LoadError Nat :=
  let (rows, failed) := readRows lines
  (rows.map rowToPgInsert, failed.elim (.ok rows.length) .error)

/-! Reading a statement back. -/

def unsigned (text : List Char) : List Char := (stripPrefix ['-'] text).getD text

def isWord (c : Char) : Bool := c.isAlphanum || c = '.' || c = '-'

def isNumber (word : List Char) : Bool :=
  let (mantissa, exponent) := (splitOnce 'e' (unsigned word)).getD (unsigned word, ['0'])
  let (whole, fraction) := (splitOnce '.' mantissa).getD (mantissa, ['0'])
  word.all isWord && [whole, fraction, unsigned exponent].all fun part => (parseDigits part).isSome

/-- What follows the closing quote; two adjacent quotes do not close a text. -/
def readQuoted : List Char → Option (List Char)
  | [] => none
  | '\'' :: '\'' :: rest => readQuoted rest
  | '\'' :: rest => some rest
  | _ :: rest => readQuoted rest

def isConstant (word : List Char) : Bool :=
  isNumber word || ["null", "NULL", "true", "false"].any fun name => name.toList = word

def readLiteral (text : List Char) : Option (List Char) :=
  if text.head? = some '\'' then readQuoted text.tail
  else if isConstant (text.takeWhile isWord) then some (text.dropWhile isWord) else none

/-- The given number of literals, and the end of the statement. -/
def isValues : Nat → List Char → Bool
  | 0, text => text = [')', ';']
  | 1, text => readLiteral text = some [')', ';']
  | n + 2, text => match readLiteral text with
    | some (',' :: ' ' :: rest) => isValues (n + 1) rest
    | _ => false

/-- One comment line, or one insertion of literals into a target table. -/
def SingleStatement (text : List Char) : Prop :=
  (∃ comment, text = '-' :: '-' :: comment ∧ '\n' ∉ comment ∧ '\r' ∉ comment) ∨
  ∃ t columns values, targetColumns t = some columns ∧
    text = insertHead t.name (columns.map Prod.fst) ++ values ∧ isValues columns.length values = true

def isScalar : Json → Bool
  | .str _ | .arr _ | .obj _ => false
  | _ => true

/-- What is printed as JSON is no text, array or object, and a name in a comment has no line break. -/
def ExportedRow.Plain (row : ExportedRow) : Prop :=
  match row.target with
  | some columns => ∀ c ∈ columns, c.2 = .json → isScalar (row.data.field c.1) = true
  | none => '\n' ∉ row.table.toList ∧ '\r' ∉ row.table.toList

def ExportedRow.Decoded (row : ExportedRow) : Prop :=
  ∀ name text, row.data.field name = .float text → isNumber text.toList = true

theorem not_mem_digits (other : d.isDigit = false) : d ∉ toDigits 10 n := by
  intro member
  rw [isDigit_of_mem_toDigits (by decide) (by decide) member] at other
  contradiction

theorem unsigned_digits : unsigned (toDigits 10 n) = toDigits 10 n := by
  cases stripped : stripPrefix ['-'] (toDigits 10 n) with
  | none => rw [unsigned, stripped, Option.getD_none]
  | some rest =>
    have starts := stripPrefix_eq_some.mp stripped
    exact absurd (starts ▸ mem_cons_self) (not_mem_digits (n := n) (d := '-') rfl)

theorem isNumber_int (n : Int) : isNumber (jsonText (.int n)) = true := by
  have same : unsigned (jsonText (.int n)) = toDigits 10 n.natAbs := by
    rw [jsonText]
    split
    · rfl
    · exact unsigned_digits
  have word : (jsonText (.int n)).all isWord = true := by
    rw [jsonText, all_append, Bool.and_eq_true]
    refine ⟨?_, all_eq_true.mpr fun c member => ?_⟩
    · split <;> decide
    · simp [isWord, Char.isAlphanum, isDigit_of_mem_toDigits (by decide) (by decide) member]
  simp only [isNumber, same, word, splitOnce_none (not_mem_digits (d := 'e') rfl),
    splitOnce_none (not_mem_digits (d := '.') rfl), Option.getD_none, all_cons, parseDigits_toDigits]
  rfl

theorem jsonText_ofNat (n : Nat) : jsonText (.ofNat n) = toDigits 10 n := by
  simp [Json.ofNat, jsonText, Int.not_lt.mpr (Int.natCast_nonneg n)]

theorem readQuoted_double (next : c ≠ '\'') (text : List Char) :
    readQuoted (double '\'' text ++ '\'' :: c :: rest) = some (c :: rest) := by
  induction text with
  | nil => simp [double, readQuoted, next]
  | cons d text ih =>
    by_cases quote : d = '\''
    · simp [double, quote, readQuoted, ih]
    · simp [double, quote, readQuoted, ih]

theorem readLiteral_word (constant : isConstant word = true) (plain : word.all isWord = true)
    (next : isWord c = false) : readLiteral (word ++ c :: rest) = some (c :: rest) := by
  have stop : ¬ isWord c = true := by simp [next]
  rw [all_eq_true] at plain
  have head : (word ++ c :: rest).head? ≠ some '\'' := by
    cases word with
    | nil => exact absurd constant (by decide)
    | cons d word =>
      rintro ⟨⟩
      exact absurd (plain _ mem_cons_self) (by decide)
  rw [readLiteral, if_neg head, takeWhile_append_of_pos plain, dropWhile_append_of_pos plain,
    takeWhile_cons_of_neg stop, dropWhile_cons_of_neg stop, append_nil, if_pos constant]

theorem readLiteral_print (slot : SqlValue)
    (decoded : ∀ text, value = .float text → isNumber text.toList = true)
    (next : isWord c = false) (quote : c ≠ '\'') : readLiteral (slot.print value ++ c :: rest) =
      if slot = .json → isScalar value = true then some (c :: rest) else none := by
  have number : ∀ {word}, isNumber word = true → readLiteral (word ++ c :: rest) = some (c :: rest) := by
    intro word number
    refine readLiteral_word (by simp [isConstant, number]) ?_ next
    rw [isNumber, Bool.and_eq_true] at number
    exact number.1
  have flag : ∀ b : Bool, readLiteral ((toString b).toList ++ c :: rest) = some (c :: rest) := fun b =>
    readLiteral_word (by cases b <;> decide) (by cases b <;> decide) next
  cases slot with
  | text =>
    simp only [SqlValue.print, sqlQuoted, sqlEscape]
    simp [readLiteral, readQuoted_double quote]
  | flag => simpa [SqlValue.print] using flag _
  | orNull =>
    simp only [SqlValue.print]
    cases value.asU64 with
    | none => simpa using readLiteral_word (by decide) (by decide) next
    | some n =>
      have digits := isNumber_int n
      rw [show Json.int n = .ofNat n from rfl, jsonText_ofNat] at digits
      simpa [sqlNumber] using number digits
  | json =>
    cases value with
    | null => simpa [isScalar] using readLiteral_word (by decide) (by decide) next
    | bool b => simpa [isScalar, SqlValue.print, jsonText] using flag b
    | int n => simpa [isScalar, SqlValue.print] using number (isNumber_int n)
    | float text => simpa [isScalar, SqlValue.print, jsonText] using number (decoded text rfl)
    | str | arr | obj => rfl

theorem isValues_print {columns : List (String × SqlValue)} (some_column : columns ≠ []) (field : String → Json)
    (decoded : ∀ name text, field name = .float text → isNumber text.toList = true) :
    isValues columns.length (joinValues (columns.map fun c => SqlValue.print (field c.1) c.2)) = true ↔
      ∀ c ∈ columns, c.2 = .json → isScalar (field c.1) = true := by
  induction columns with
  | nil => contradiction
  | cons column rest ih =>
    rw [forall_mem_cons]
    cases rest with
    | nil =>
      rw [map_singleton, joinValues, length_singleton, isValues, decide_eq_true_iff,
        readLiteral_print column.2 (decoded _) (by decide) (by decide)]
      split <;> simp_all
    | cons next rest =>
      have text := @readLiteral_print _ ',' (' ' :: joinValues ((next :: rest).map fun c =>
        SqlValue.print (field c.1) c.2)) column.2 (decoded column.1) (by decide) (by decide)
      rw [← ih (cons_ne_nil _ _)]
      simp only [length_cons, map_cons, joinValues, isValues] at text ⊢
      rw [text]
      split <;> simp_all

theorem DuckLakeTable.name_plain (t : DuckLakeTable) : ' ' ∉ t.name.toList := by
  cases t <;> decide +kernel

theorem eq_of_head {name name' : List Char} (plain : ' ' ∉ name) (plain' : ' ' ∉ name')
    (same : start ++ (name ++ ' ' :: rest) ++ values = start ++ (name' ++ ' ' :: rest') ++ values') :
    name = name' := by
  simp only [append_assoc, cons_append, append_cancel_left_eq] at same
  have split := congrArg (splitOnce ' ') same
  rw [splitOnce_append plain, splitOnce_append plain'] at split
  exact congrArg Prod.fst (Option.some.inj split)

theorem insertHead_inj {t t' : DuckLakeTable}
    (same : insertHead t.name columns ++ values = insertHead t'.name columns' ++ values') : t = t' := by
  have names := String.toList_inj.mp (eq_of_head t.name_plain t'.name_plain same)
  have named := ofName_name t
  rw [names, ofName_name] at named
  exact (Option.some.inj named).symm

theorem mem_double (other : c ≠ q) : c ∈ double q text ↔ c ∈ text := by
  induction text with
  | nil => rfl
  | cons d text ih =>
    by_cases quote : d = q
    · simp [double, quote, other, ih]
    · simp [double, quote, ih]

theorem rowToPgInsert_single (decoded : ExportedRow.Decoded row) :
    SingleStatement (rowToPgInsert row) ↔ row.Plain := by
  cases found : row.target with
  | none =>
    have comment : ∀ c, c ≠ '\'' → c ∉ " Unsupported table: ".toList →
        (c ∉ " Unsupported table: ".toList ++ sqlEscape row.table.toList ↔ c ∉ row.table.toList) := by
      intro c other fixed
      rw [mem_append, sqlEscape, mem_double other, or_iff_right fixed]
    simp only [ExportedRow.Plain, rowToPgInsert, found, ← comment '\n' (by decide) (by decide),
      ← comment '\r' (by decide) (by decide)]
    constructor
    · rintro (⟨_, same, plain⟩ | ⟨t, columns, values, _, same, _⟩)
      · cases same
        exact plain
      · cases same
    · exact fun plain => .inl ⟨_, rfl, plain⟩
  | some columns =>
    obtain ⟨t, named, target⟩ := Option.bind_eq_some_iff.mp found
    have name : t.name = row.table := by simpa using List.find?_some named
    have some_column : columns ≠ [] := by
      rintro rfl
      cases t <;> cases target
    have values := isValues_print some_column row.data.field decoded
    simp only [ExportedRow.Plain, rowToPgInsert, found, ← values, insertText, map_map, ← name]
    constructor
    · rintro (⟨_, same, _⟩ | ⟨t', columns', values', target', same, correct⟩)
      · cases same
      · obtain rfl := insertHead_inj same
        cases target.symm.trans target'
        exact append_cancel_left same ▸ correct
    · exact fun correct => .inr ⟨t, columns, _, target, rfl, correct⟩

/-- Every statement of a migration is one comment line or one insertion of literals exactly if the rows
are plain. -/
theorem pgMigrate_single_iff (decoded : ∀ row ∈ (readRows lines).1, row.Decoded) :
    (∀ sql ∈ (pgMigrate lines).1, SingleStatement sql) ↔ ∀ row ∈ (readRows lines).1, row.Plain := by
  rw [pgMigrate, forall_mem_map]
  exact forall₂_congr fun row member => rowToPgInsert_single (decoded row member)

theorem pgMigrate_single_quotes : ∃ row : ExportedRow,
    row.data.field "schema_name" = .str "'); DROP TABLE x; --" ∧ (pgMigrate [.row row]).1.length = 1 ∧
      ∀ sql ∈ (pgMigrate [.row row]).1, SingleStatement sql := by
  refine ⟨⟨"ducklake_schema", .obj [("schema_name", .str "'); DROP TABLE x; --")]⟩, rfl, rfl,
    (pgMigrate_single_iff fun row member name text floating => ?_).mpr fun row member => ?_⟩
  · cases mem_singleton.mp member
    rw [Json.field_cons] at floating
    split at floating <;> cases floating
  · cases mem_singleton.mp member
    show ∀ c ∈ [_, _, _, _], _
    decide

/-- A text in the place of a number ends the statement. -/
theorem pgMigrate_injects : ∃ row : ExportedRow, row.data.field "snapshot_id" = .str "\"); DROP TABLE x; --" ∧
    (pgMigrate [.row row]).1 = [("INSERT INTO ducklake_snapshot (snapshot_id, schema_version, snapshot_time) " ++
      "VALUES (\"\\\"); DROP TABLE x; --\", null, '');").toList] ∧
    ∃ sql ∈ (pgMigrate [.row row]).1, ¬ SingleStatement sql := by
  refine ⟨⟨"ducklake_snapshot", .obj [("snapshot_id", .str "\"); DROP TABLE x; --")]⟩, rfl, by decide +kernel,
    _, mem_singleton_self _, fun single => ?_⟩
  have plain := (rowToPgInsert_single fun name text floating => ?_).mp single
  · exact absurd (plain ("snapshot_id", .json) (by decide) rfl) (by decide)
  · rw [Json.field_cons] at floating
    split at floating <;> cases floating

def ownValues : (f : Family) → f.Row → List (String × List Char)
  | .snapshot, row => [("snapshot_id", sqlNumber row.snapshotId), ("schema_version", sqlNumber row.schemaVersion),
      ("snapshot_time", sqlQuoted row.snapshotTime)]
  | .schema, row => [("schema_id", sqlNumber row.schemaId), ("schema_name", sqlQuoted row.schemaName),
      ("begin_snapshot", sqlNumber row.beginSnapshot), ("end_snapshot", sqlNumber row.endSnapshot)]
  | .table, row => [("table_id", sqlNumber row.tableId), ("schema_id", sqlNumber row.schemaId),
      ("table_name", sqlQuoted row.tableName), ("begin_snapshot", sqlNumber row.beginSnapshot),
      ("end_snapshot", sqlNumber row.endSnapshot)]
  | .column, row => [("column_id", sqlNumber row.columnId), ("table_id", sqlNumber row.tableId),
      ("column_name", sqlQuoted row.columnName), ("data_type", sqlQuoted row.dataType),
      ("column_index", sqlNumber row.columnIndex), ("begin_snapshot", sqlNumber row.beginSnapshot),
      ("end_snapshot", sqlNumber row.endSnapshot), ("is_nullable", (toString row.isNullable).toList)]
  | .dataFile, row => [("data_file_id", sqlNumber row.dataFileId), ("table_id", sqlNumber row.tableId),
      ("path", sqlQuoted row.path), ("file_format", sqlQuoted row.fileFormat),
      ("row_count", sqlNumber row.recordCount), ("file_size_bytes", sqlNumber row.fileSizeBytes),
      ("snapshot_id", sqlNumber row.beginSnapshot)]
  | _, _ => []

theorem rowToPgInsert_export (codec : Base64) (k : Key) {f : Family} (row : f.Row)
    (columns : targetColumns t = some targets) : rowToPgInsert ⟨t.name, exportData codec f k row⟩ =
      insertText t.name (targets.map fun c => (c.1, c.2.print ((exportData codec f k row).field c.1))) := by
  have target : ExportedRow.target ⟨t.name, exportData codec f k row⟩ = some targets := by
    rw [ExportedRow.target, ofName_name, Option.bind_some, columns]
  rw [rowToPgInsert, target]

/-- The statement for an exported row inserts the row's own values, except for a data file: its number of
rows and its snapshot have other names in the export. -/
theorem rowToPgInsert_own_iff (codec : Base64) (k : Key) {f : Family} (row : f.Row)
    (table : f.duckLakeTable = some t) (supported : t.targetColumns.isSome = true) :
    rowToPgInsert ⟨t.name, exportData codec f k row⟩ = insertText t.name (ownValues f row) ↔ f ≠ .dataFile := by
  cases f with
  | snapshot | schema | table | column =>
    cases table
    rw [rowToPgInsert_export codec k row rfl]
    simp [exportData, exportSnapshot, exportSchema, exportTable, exportColumn, SqlValue.print, jsonText_ofNat,
      ownValues, sqlNumber]
  | dataFile =>
    cases table
    rw [rowToPgInsert_export codec k row rfl]
    simp only [ne_eq, not_true_eq_false, iff_false]
    intro same
    have counts := not_mem_digits (n := row.recordCount) (d := 'n') rfl
    simp [exportData, exportDataFile, SqlValue.print, jsonText_ofNat, ownValues, sqlNumber, insertText, joinValues,
      jsonText] at same
    cases written : toDigits 10 row.recordCount with
    | nil => exact toDigits_ne_nil written
    | cons c rest =>
      rw [written] at same counts
      exact counts (head_eq_of_cons_eq same ▸ mem_cons_self)
  | _ => cases table <;> contradiction

/-- One statement for every exported row; they all have the rows' own values exactly if no data file is
exported. -/
theorem pgMigrate_export_iff (codec : Base64) (db : Db) (snapshotId : Option Nat) :
    let rows := (exportCatalog codec db snapshotId).1
    pgMigrate (rows.map .row) = (rows.map rowToPgInsert, .ok rows.length) ∧
    ((∀ f t, f.duckLakeTable = some t → t.targetColumns.isSome = true → ∀ k row, db.get f k = some row →
      exports (exportSnapshotId db snapshotId) f row = true →
        rowToPgInsert ⟨t.name, exportData codec f k row⟩ = insertText t.name (ownValues f row)) ↔
      ∀ k row, db.get .dataFile k = some row → exports (exportSnapshotId db snapshotId) .dataFile row = false) := by
  have read : ∀ rows : List ExportedRow, readRows (rows.map .row) = (rows, none) := by
    intro rows
    induction rows with
    | nil => rfl
    | cons row rows ih => rw [map_cons, readRows, ih]
  refine ⟨by rw [pgMigrate, read]; rfl, fun own k row stored => ?_, fun none f t table supported k row stored shown => ?_⟩
  · refine Bool.eq_false_iff.mpr fun shown => ?_
    exact (rowToPgInsert_own_iff codec k row rfl rfl).mp (own .dataFile .dataFile rfl rfl k row stored shown) rfl
  · refine (rowToPgInsert_own_iff codec k row table supported).mpr ?_
    rintro rfl
    rw [none k row stored] at shown
    cases shown

/-- A data file is migrated without its number of rows and its snapshot. -/
theorem pgMigrate_loses_count : ∃ catalog : Catalog, catalog.Reachable Env.trivial ∧
    (catalog.db.get .dataFile (keyDataFile 2 1)).map (·.recordCount) = some 7 ∧
    ("INSERT INTO ducklake_data_file (data_file_id, table_id, path, file_format, row_count, file_size_bytes, " ++
      "snapshot_id) VALUES (1, 2, 'f.parquet', 'parquet', null, 10, null);").toList ∈
      (pgMigrate ((exportCatalog Base64.sample catalog.db none).1.map .row)).1 :=
  ⟨_, .session (.session (.opened "a" rfl) Catalog.createOrders rfl) ⟨[.staging (.registerDataFile 2
    (.parquet "f.parquet" 7 10))], {}⟩
    rfl, rfl, by decide +kernel⟩

end RockLake
