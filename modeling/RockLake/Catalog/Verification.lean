import RockLake.Catalog.BulkLoad
import RockLake.Catalog.Consistency
import RockLake.Catalog.References

/-! Verification of a stored catalog. The verifier reads whatever the database holds, also values that
do not decode. It looks at the format version, at the presence of the counters, and at the schema,
table, column and snapshot rows one by one. References between rows and the counters' distance from
the ids in use are not looked at. -/
namespace RockLake

open List

/-- What a database holds: under a key stands a row, or a value that does not decode, given as the
error of its decoding. -/
abbrev Content := (f : Family) → OrderedMap Key (Except String f.Row)

def Db.content (db : Db) : Content := fun f => (db f).mapValues .ok

structure VerifyResult where
  errors : List String := []
  warnings : List String := []
  tablesChecked : Nat := 0
  rowsChecked : Nat := 0
  deriving DecidableEq

namespace VerifyResult

variable (result : VerifyResult)

def isOk : Bool := result.errors.isEmpty

def report (errors : List String) : VerifyResult := { result with errors := result.errors ++ errors }

def tableChecked : VerifyResult := { result with tablesChecked := result.tablesChecked + 1 }

def rowChecked : VerifyResult := { result with rowsChecked := result.rowsChecked + 1 }

end VerifyResult

section Verify

variable (content : Content)

def verifyFormatVersion (result : VerifyResult) : Except String VerifyResult :=
  match (content .catalogFormatVersion).get keySystem with
  | none => .ok (result.report ["missing catalog-format-version"]).tableChecked
  | some data => do
      let version ← data
      let expected := catalogFormatVersion
      .ok (result.report (if version ≠ expected then
        [s!"format version mismatch: expected {expected}, got {version}"] else [])).tableChecked

def verifyCounter (result : VerifyResult) (counter : String × Nat) : Except String VerifyResult :=
  let name := counter.1
  match (content .counter).get (keyCounter counter.2) with
  | none => .ok (result.report [s!"missing counter: {name}"])
  | some data => do
      let value ← data
      let warnings := if value = 0 then [s!"counter {name} is 0 (unusual)"] else []
      .ok { result with warnings := result.warnings ++ warnings }.rowChecked

def verifiedCounters : List (String × Nat) :=
  [("next_snapshot_id", counterNextSnapshotId), ("next_catalog_id", counterNextCatalogId),
    ("next_file_id", counterNextFileId)]

def verifyCounters (result : VerifyResult) : Except String VerifyResult :=
  (verifiedCounters.foldlM (verifyCounter content) result).map (·.tableChecked)

/-- The loop over the rows of one kind: `check` gives the errors of a row and carries what the
rows after it are compared with. -/
def verifyRows {Row S : Type} (check : S → Row → S × List String) :
    List (Key × Except String Row) → S → VerifyResult → Except String VerifyResult
  | [], _, result => .ok result.tableChecked
  | (_, data) :: rest, seen, result => do
      let row ← data
      verifyRows check rest (check seen row).1 (result.report (check seen row).2).rowChecked

def endErrors (what : String) (beginSnapshot : Nat) : Option Nat → List String
  | none => []
  | some ended => if ended ≤ beginSnapshot then
      [s!"{what}: end_snapshot ({ended}) <= begin_snapshot ({beginSnapshot})"] else []

def checkSchema (seen : List Nat) (row : SchemaRow) : List Nat × List String :=
  let id := row.schemaId
  let name := row.schemaName
  (id :: seen, (if id ∈ seen then [s!"duplicate schema_id: {id} (name: {name})"] else []) ++
    endErrors s!"schema {id}" row.beginSnapshot row.endSnapshot)

def checkTable (seen : Unit) (row : TableRow) : Unit × List String :=
  let id := row.tableId
  (seen, endErrors s!"table {id}" row.beginSnapshot row.endSnapshot)

def checkColumn (seen : Unit) (row : ColumnRow) : Unit × List String :=
  let id := row.columnId
  let table := row.tableId
  (seen, endErrors s!"column {id} (table {table})" row.beginSnapshot row.endSnapshot)

def checkSnapshot (previous : Option Nat) (row : SnapshotRow) : Option Nat × List String :=
  let id := row.snapshotId
  (some id, match previous with
    | none => []
    | some before =>
      if id ≤ before then [s!"snapshot ordering violation: {id} follows {before}"] else [])

def verifySchemas : VerifyResult → Except String VerifyResult :=
  verifyRows checkSchema (content .schema).entries []

def verifyTables : VerifyResult → Except String VerifyResult :=
  verifyRows checkTable (content .table).entries ()

def verifyColumns : VerifyResult → Except String VerifyResult :=
  verifyRows checkColumn (content .column).entries ()

def verifySnapshots : VerifyResult → Except String VerifyResult :=
  verifyRows checkSnapshot (content .snapshot).entries none

def verifyCatalog : Except String VerifyResult := do
  let result ← verifyFormatVersion content {}
  let result ← verifyCounters content result
  let result ← verifySchemas content result
  let result ← verifyTables content result
  let result ← verifyColumns content result
  verifySnapshots content result

def ReportsNoErrors : Prop := ∃ result, verifyCatalog content = .ok result ∧ result.isOk = true

end Verify

/-- A part of the verification adds no error exactly if the condition holds. -/
def Checks (part : VerifyResult → Except String VerifyResult) (condition : Prop) : Prop :=
  ∀ result, (∃ result', part result = .ok result' ∧ result'.errors = []) ↔
    result.errors = [] ∧ condition

theorem Checks.bind (left : Checks first p) (right : Checks second q) :
    Checks (fun result => first result >>= second) (p ∧ q) := by
  intro result
  simp only [bind_ok]
  constructor
  · rintro ⟨result'', ⟨result', ran, ran'⟩, clean⟩
    obtain ⟨before, second⟩ := (right result').mp ⟨result'', ran', clean⟩
    obtain ⟨start, first⟩ := (left result).mp ⟨result', ran, before⟩
    exact ⟨start, first, second⟩
  · rintro ⟨start, first, second⟩
    obtain ⟨result', ran, before⟩ := (left result).mpr ⟨start, first⟩
    obtain ⟨result'', ran', clean⟩ := (right result').mpr ⟨before, second⟩
    exact ⟨result'', ⟨result', ran, ran'⟩, clean⟩

def Clean {Row S : Type} (check : S → Row → S × List String) : S → List Row → Prop
  | _, [] => True
  | seen, row :: rest => (check seen row).2 = [] ∧ Clean check (check seen row).1 rest

theorem verifyRows_checks (check : S → Row → S × List String)
    (entries : List (Key × Except String Row)) (seen : S) :
    Checks (verifyRows check entries seen)
      (∃ rows, entries.map Prod.snd = rows.map .ok ∧ Clean check seen rows) := by
  induction entries generalizing seen with
  | nil =>
    intro result
    simp [verifyRows, VerifyResult.tableChecked, Clean]
  | cons entry rest ih =>
    intro result
    obtain ⟨k, data⟩ := entry
    cases data with
    | error e =>
      simp only [verifyRows, bind, Except.bind, reduceCtorEq, false_and, exists_false, false_iff,
        map_cons]
      rintro ⟨_, rows, same, _⟩
      cases rows <;> simp at same
    | ok row =>
      simp only [verifyRows, bind, Except.bind]
      rw [ih (check seen row).1]
      simp only [VerifyResult.rowChecked, VerifyResult.report, append_eq_nil_iff, and_assoc]
      refine and_congr_right fun _ => ?_
      constructor
      · rintro ⟨clean, rows, same, later⟩
        exact ⟨row :: rows, by simp [same], clean, later⟩
      · rintro ⟨rows, same, all⟩
        cases rows with
        | nil => simp at same
        | cons first rows =>
          simp only [map_cons, List.cons.injEq, Except.ok.injEq] at same
          obtain ⟨rfl, same⟩ := same
          exact ⟨all.1, rows, same, all.2⟩

/-! What the single checks amount to. -/

def EndsLater (beginSnapshot : Nat) (endSnapshot : Option Nat) : Prop :=
  ∀ ended ∈ endSnapshot, beginSnapshot < ended

theorem endErrors_eq_nil :
    endErrors what beginSnapshot endSnapshot = [] ↔ EndsLater beginSnapshot endSnapshot := by
  cases endSnapshot <;> simp [endErrors, EndsLater]

theorem clean_schemas :
    Clean checkSchema seen rows ↔ (rows.map (·.schemaId)).Nodup ∧
      (∀ row ∈ rows, row.schemaId ∉ seen) ∧
      ∀ row ∈ rows, EndsLater row.beginSnapshot row.endSnapshot := by
  induction rows generalizing seen with
  | nil => simp [Clean]
  | cons row rest ih =>
    simp only [Clean, checkSchema, ih, append_eq_nil_iff, endErrors_eq_nil, ite_eq_right_iff,
      reduceCtorEq, imp_false, map_cons, nodup_cons, mem_map, not_exists, not_and, mem_cons, not_or]
    grind

theorem clean_tables :
    Clean checkTable seen rows ↔ ∀ row ∈ rows, EndsLater row.beginSnapshot row.endSnapshot := by
  induction rows with
  | nil => simp [Clean]
  | cons row rest ih => simp [Clean, checkTable, ih, endErrors_eq_nil]

theorem clean_columns :
    Clean checkColumn seen rows ↔ ∀ row ∈ rows, EndsLater row.beginSnapshot row.endSnapshot := by
  induction rows with
  | nil => simp [Clean]
  | cons row rest ih => simp [Clean, checkColumn, ih, endErrors_eq_nil]

theorem clean_snapshots :
    Clean checkSnapshot previous rows ↔ (rows.map (·.snapshotId)).Pairwise (· < ·) ∧
      ∀ before ∈ previous, ∀ row ∈ rows, before < row.snapshotId := by
  induction rows generalizing previous with
  | nil => simp [Clean]
  | cons row rest ih =>
    have first : (checkSnapshot previous row).2 = [] ↔
        ∀ before ∈ previous, before < row.snapshotId := by
      cases previous <;> simp [checkSnapshot]
    have next : (checkSnapshot previous row).1 = some row.snapshotId := rfl
    simp only [Clean, first, next, ih, Option.mem_some_iff, forall_eq', map_cons, pairwise_cons,
      mem_map, forall_exists_index, and_imp, forall_apply_eq_imp_iff₂, forall_mem_cons]
    constructor
    · rintro ⟨above, sorted, later⟩
      exact ⟨⟨later, sorted⟩, fun before known =>
        ⟨above before known, fun other member => (above before known).trans (later other member)⟩⟩
    · rintro ⟨⟨later, sorted⟩, above⟩
      exact ⟨fun before known => (above before known).1, sorted, later⟩

/-- What the verifier looks at. -/
structure Content.Verified (content : Content) : Prop where
  format : (content .catalogFormatVersion).get keySystem = some (.ok catalogFormatVersion)
  counters : ∀ counter ∈ verifiedCounters, ∃ value : Nat,
    (content .counter).get (keyCounter counter.2) = some (.ok value)
  schemas : ∃ rows : List SchemaRow, (content .schema).entries.map Prod.snd = rows.map .ok ∧
    (rows.map (·.schemaId)).Nodup ∧ ∀ row ∈ rows, EndsLater row.beginSnapshot row.endSnapshot
  tables : ∃ rows : List TableRow, (content .table).entries.map Prod.snd = rows.map .ok ∧
    ∀ row ∈ rows, EndsLater row.beginSnapshot row.endSnapshot
  columns : ∃ rows : List ColumnRow, (content .column).entries.map Prod.snd = rows.map .ok ∧
    ∀ row ∈ rows, EndsLater row.beginSnapshot row.endSnapshot
  snapshots : ∃ rows : List SnapshotRow, (content .snapshot).entries.map Prod.snd = rows.map .ok ∧
    (rows.map (·.snapshotId)).Pairwise (· < ·)

section Parts

variable (content : Content)

theorem verifyFormatVersion_checks : Checks (verifyFormatVersion content)
    ((content .catalogFormatVersion).get keySystem = some (.ok catalogFormatVersion)) := by
  intro result
  simp only [verifyFormatVersion]
  cases (content .catalogFormatVersion).get keySystem with
  | none => simp [VerifyResult.report, VerifyResult.tableChecked]
  | some data =>
    cases data with
    | error e => simp [bind, Except.bind]
    | ok version => simp [bind, Except.bind, VerifyResult.report, VerifyResult.tableChecked]

theorem verifyCounter_checks (counter : String × Nat) :
    Checks (verifyCounter content · counter)
      (∃ value : Nat, (content .counter).get (keyCounter counter.2) = some (.ok value)) := by
  intro result
  simp only [verifyCounter]
  cases (content .counter).get (keyCounter counter.2) with
  | none => simp [VerifyResult.report]
  | some data =>
    cases data with
    | error e => simp [bind, Except.bind]
    | ok value => simp [bind, Except.bind, VerifyResult.rowChecked]

theorem verifyCounters_checks : Checks (verifyCounters content)
    (∀ counter ∈ verifiedCounters, ∃ value : Nat,
      (content .counter).get (keyCounter counter.2) = some (.ok value)) := by
  have loop : ∀ counters : List (String × Nat),
      Checks (counters.foldlM (verifyCounter content) ·) (∀ counter ∈ counters, ∃ value : Nat,
        (content .counter).get (keyCounter counter.2) = some (.ok value)) := by
    intro counters
    induction counters with
    | nil => intro result; simp [pure, Except.pure]
    | cons counter rest ih =>
      simp only [foldlM_cons, forall_mem_cons]
      exact (verifyCounter_checks content counter).bind ih
  intro result
  rw [← loop verifiedCounters result]
  simp only [verifyCounters]
  cases verifiedCounters.foldlM (verifyCounter content) result <;>
    simp [Except.map, VerifyResult.tableChecked]

/-- The verifier reports no errors exactly on content that passes each of its checks. -/
theorem reportsNoErrors_iff : ReportsNoErrors content ↔ content.Verified := by
  have parts := (verifyFormatVersion_checks content).bind ((verifyCounters_checks content).bind
    ((verifyRows_checks checkSchema (content .schema).entries []).bind ((verifyRows_checks
    checkTable (content .table).entries ()).bind ((verifyRows_checks checkColumn (content
    .column).entries ()).bind (verifyRows_checks checkSnapshot (content .snapshot).entries none)))))
  have all := parts {}
  simp only [clean_schemas, clean_tables, clean_columns, clean_snapshots, not_mem_nil,
    not_false_eq_true, implies_true, true_and, Option.not_mem_none, and_true,
    IsEmpty.forall_iff] at all
  simp only [ReportsNoErrors, VerifyResult.isOk, List.isEmpty_iff]
  refine all.trans ⟨?_, ?_⟩
  all_goals
    rintro ⟨format, counters, schemas, tables, columns, snapshots⟩
    exact ⟨format, counters, schemas, tables, columns, snapshots⟩

end Parts

/-- The id that a row gives to the snapshot, the object or the file it describes. -/
def Family.idOf : (f : Family) → f.Row → Option (IdKind × Nat)
  | .snapshot, row => some (.snapshot, row.snapshotId)
  | .snapshotChanges, row => some (.snapshot, row.snapshotId)
  | .schema, row => some (.catalog, row.schemaId)
  | .table, row => some (.catalog, row.tableId)
  | .column, row => some (.catalog, row.columnId)
  | .view, row => some (.catalog, row.viewId)
  | .macros, row => some (.catalog, row.macroId)
  | .macroImpl, row => some (.catalog, row.implId)
  | .dataFile, row => some (.file, row.dataFileId)
  | .deleteFile, row => some (.file, row.deleteFileId)
  | _, _ => none

def IdKind.counter : IdKind → Nat
  | .snapshot => counterNextSnapshotId
  | .catalog => counterNextCatalogId
  | .file => counterNextFileId

/-- Live rows refer to rows that exist, and every counter is above the ids of its kind. -/
structure Content.Referential (content : Content) : Prop where
  tables : ∀ k row, (content .table).get k = some (.ok row) → row.endSnapshot = none →
    ∃ k' schema, (content .schema).get k' = some (.ok schema) ∧ schema.schemaId = row.schemaId
  columns : ∀ k row, (content .column).get k = some (.ok row) → row.endSnapshot = none →
    ∃ k' table, (content .table).get k' = some (.ok table) ∧ table.tableId = row.tableId
  dataFiles : ∀ k row, (content .dataFile).get k = some (.ok row) → row.endSnapshot = none →
    ∃ k' table, (content .table).get k' = some (.ok table) ∧ table.tableId = row.tableId
  counters : ∀ kind : IdKind, ∃ next : Nat,
    (content .counter).get (keyCounter kind.counter) = some (.ok next) ∧
      ∀ (f : Family) (k : Key) (row : f.Row) (id : Nat), (content f).get k = some (.ok row) →
        f.idOf row = some (kind, id) → id < next

/-- What is left of a database after damage: a value that decodes is the old one, and no row of a schema
or a table is lost. Other values may be lost, and any value may be one that does not decode. -/
structure Content.Damaged (content : Content) (db : Db) : Prop where
  rows : ∀ f k row, (content f).get k = some (.ok row) → db.get f k = some row
  parents : ∀ f k, f = .schema ∨ f = .table → (db.get f k).isSome = true →
    ((content f).get k).isSome = true

section Damage

variable {content : Content} {db : Db}

theorem Content.Damaged.decoded (damaged : content.Damaged db) (parent : f = .schema ∨ f = .table)
    {rows : List f.Row} (decode : (content f).entries.map Prod.snd = rows.map .ok)
    (stored : db.get f k = some row) : (content f).get k = some (.ok row) := by
  obtain ⟨data, found⟩ := Option.isSome_iff_exists.mp (damaged.parents f k parent (by rw [stored]; rfl))
  have member := mem_map_of_mem (f := Prod.snd) (OrderedMap.get_eq_some.mp found)
  rw [decode] at member
  obtain ⟨row', _, rfl⟩ := mem_map.mp member
  cases stored.symm.trans (damaged.rows f k row' found)
  exact found

end Damage

end RockLake
