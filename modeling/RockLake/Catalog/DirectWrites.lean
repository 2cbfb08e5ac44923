import RockLake.Lib.Text
import RockLake.Catalog.Writer

/-! Writer methods that put straight into the store, outside the snapshot commit: statistics, macro
parameters, scheduled deletions and row-id ranges. They take effect at once and make no epoch
check. -/
namespace RockLake

def u64Max : Nat := 2 ^ 64 - 1

def saturatingAdd (a b : Nat) : Nat := min (a + b) u64Max

def applyI64Delta (value : Nat) (delta : Int) : Nat :=
  if delta ≥ 0 then saturatingAdd value delta.toNat else value - delta.natAbs

/-! Merging of column bounds, which are stored as texts. -/

def compareChars (left right : List Char) : Ordering :=
  if left < right then .lt else if left = right then .eq else .gt

def isDecimal (text : List Char) : Bool :=
  let unsigned := match text with
    | '-' :: rest => rest
    | _ => text
  match Text.splitOnce '.' unsigned with
  | none => false
  | some (whole, fraction) =>
    !whole.isEmpty && whole.all Char.isDigit && !fraction.isEmpty && fraction.all Char.isDigit

def padZeros (width : Nat) (digits : List Char) : List Char :=
  digits ++ List.replicate (width - digits.length) '0'

def compareDecimalAbs (left right : List Char) : Ordering :=
  match Text.splitOnce '.' left, Text.splitOnce '.' right with
  | some (leftWhole, leftFraction), some (rightWhole, rightFraction) =>
    let width := max leftFraction.length rightFraction.length
    (compare leftWhole.length rightWhole.length).then <|
      (compareChars leftWhole rightWhole).then <|
        compareChars (padZeros width leftFraction) (padZeros width rightFraction)
  | _, _ => .eq

def splitSign : List Char → Bool × List Char
  | '-' :: rest => (true, rest)
  | text => (false, text)

def compareDecimalStrings (left right : List Char) : Option Ordering :=
  if !isDecimal left || !isDecimal right then none
  else
    let (leftNegative, leftAbs) := splitSign left
    let (rightNegative, rightAbs) := splitSign right
    let magnitude := compareDecimalAbs leftAbs rightAbs
    some <| match leftNegative, rightNegative with
      | false, false => magnitude
      | true, true => magnitude.swap
      | true, false => .lt
      | false, true => .gt

def parseI128 (text : String) : Option Int := Text.parseSigned (2 ^ 127) text.toList

/-- Comparison of two stored bounds: booleans, integers, decimals, finite floats, then texts. -/
def statsValueLessOrEqual (env : Env) (left right : String) : Bool :=
  if left = "false" && right = "false" || left = "true" && right = "true" then true
  else if left = "false" && right = "true" then true
  else if left = "true" && right = "false" then false
  else match parseI128 left, parseI128 right with
    | some l, some r => l ≤ r
    | _, _ =>
      match compareDecimalStrings left.toList right.toList with
      | some order => order ≠ .gt
      | none => (env.finiteFloatLe left right).getD (left ≤ right)

def mergeBound (pick : String → String → String) : Option String → Option String → Option String
  | some left, some right => some (pick left right)
  | some value, none => some value
  | none, incoming => incoming

def mergeMin (env : Env) : Option String → Option String → Option String :=
  mergeBound fun left right => if statsValueLessOrEqual env left right then left else right

def mergeMax (env : Env) : Option String → Option String → Option String :=
  mergeBound fun left right => if statsValueLessOrEqual env left right then right else left

def mergeOptionalBoolOr : Option Bool → Option Bool → Option Bool
  | some left, some right => some (left || right)
  | some value, none => some value
  | none, incoming => incoming

namespace CatalogWriter

variable (env : Env) (db : Db)

def readTableStatsOrDefault (tableId : Nat) : TableStatsRow :=
  (db.get .tableStats (keyTableStats tableId)).getD
    { tableId, recordCount := 0, internalFileCount := 0, fileSizeBytes := 0, nextRowId := none }

def putTableStats (tableId : Nat) (row : TableStatsRow) : Db :=
  db.put ⟨.tableStats, keyTableStats tableId, row⟩

def updateTableStats (tableId recordCount nextRowId fileSizeBytes : Nat) : Db :=
  let existing := readTableStatsOrDefault db tableId
  putTableStats db tableId
    { tableId
      recordCount := saturatingAdd existing.recordCount recordCount
      internalFileCount := existing.internalFileCount
      fileSizeBytes := saturatingAdd existing.fileSizeBytes fileSizeBytes
      nextRowId := some (max (saturatingAdd (existing.nextRowId.getD 0) recordCount) nextRowId) }

def adjustTableRecordCount (tableId : Nat) (delta : Int) : Db :=
  let existing := readTableStatsOrDefault db tableId
  putTableStats db tableId
    { existing with recordCount := applyI64Delta existing.recordCount delta }

def setTableStats (tableId recordCount fileSizeBytes nextRowId : Nat) : Db :=
  let existing := readTableStatsOrDefault db tableId
  putTableStats db tableId
    { tableId, recordCount, internalFileCount := existing.internalFileCount, fileSizeBytes,
      nextRowId := some nextRowId }

def applyTableStatsDelta (tableId : Nat) (rowCountDelta : Int) : Db :=
  let existing := readTableStatsOrDefault db tableId
  putTableStats db tableId
    { tableId
      recordCount := applyI64Delta existing.recordCount rowCountDelta
      internalFileCount := existing.internalFileCount
      fileSizeBytes := existing.fileSizeBytes
      nextRowId := existing.nextRowId }

structure ColumnStatsSpec where
  containsNull : Bool
  minValue : Option String
  maxValue : Option String
  containsNan : Option Bool
  extraStats : Option String
  deriving DecidableEq

def upsertTableColumnStats (tableId columnId : Nat) (spec : ColumnStatsSpec) : Db :=
  let key := keyTableColumnStats tableId columnId
  let existing := db.get .tableColumnStats key
  let row : TableColumnStatsRow :=
    { tableId, columnId
      containsNull := match existing with
        | some row => row.containsNull || spec.containsNull
        | none => spec.containsNull
      minValue := mergeMin env (existing.bind (·.minValue)) spec.minValue
      maxValue := mergeMax env (existing.bind (·.maxValue)) spec.maxValue
      containsNan := mergeOptionalBoolOr (existing.bind (·.containsNan)) spec.containsNan
      extraStats := spec.extraStats.or (existing.bind (·.extraStats)) }
  db.put ⟨.tableColumnStats, key, row⟩

def upsertFileColumnStats (row : FileColumnStatsRow) : Db :=
  db.put ⟨.fileColumnStats, keyFileColumnStats row.tableId row.columnId row.dataFileId, row⟩

/-- The deprecated path hash of the row is always written absent. -/
def upsertFileVariantStats (input : FileVariantStatsRow) : Db :=
  let row : FileVariantStatsRow := { input with deprecatedVariantPathHash := none }
  db.put ⟨.fileVariantStats,
    keyFileVariantStats row.tableId row.columnId (env.hashTagKey row.variantKey) row.dataFileId, row⟩

def addMacroParameterWithOpts (row : MacroParametersRow) : Db :=
  db.put ⟨.macroParameters, keyMacroParameters row.macroId row.implId row.columnId, row⟩

def scheduleFileDeletion (now dataFileId : Nat) (path fileType : String) : Db :=
  let row : FilesScheduledForDeletionRow :=
    { dataFileId, scheduleStart := now, path,
      fileType := if fileType.isEmpty then none else some fileType, pathIsRelative := none }
  db.put ⟨.filesScheduledForDeletion, keyFilesScheduledForDeletion now dataFileId, row⟩

def removeScheduledDeletion (scheduleStart dataFileId : Nat) : Db :=
  db.delete .filesScheduledForDeletion (keyFilesScheduledForDeletion scheduleStart dataFileId)

/-- One transaction of its own; a conflicting attempt is retried, so only the last one is seen. -/
def nextRowidRange (tableId count : Nat) : Except CatalogError (Nat × Nat × Db) :=
  if count = 0 then .error (.invalidInput "rowid range count must be > 0")
  else
    let current := (db.get .counter (keyCounterRowid tableId)).getD 0
    if current + count > u64Max then
      .error (.invalidInput s!"rowid overflow: {current} + {count} exceeds u64::MAX")
    else
      .ok (current, current + count,
        db.put ⟨.counter, keyCounterRowid tableId, current + count⟩)

end CatalogWriter

/-- The methods that write to the store directly. -/
inductive DirectCall where
  | updateTableStats (tableId recordCount nextRowId fileSizeBytes : Nat)
  | adjustTableRecordCount (tableId : Nat) (delta : Int)
  | setTableStats (tableId recordCount fileSizeBytes nextRowId : Nat)
  | applyTableStatsDelta (tableId : Nat) (rowCountDelta : Int)
  | upsertTableColumnStats (tableId columnId : Nat) (spec : CatalogWriter.ColumnStatsSpec)
  | upsertFileColumnStats (row : FileColumnStatsRow)
  | upsertFileVariantStats (input : FileVariantStatsRow)
  | addMacroParameter (row : MacroParametersRow)
  | scheduleFileDeletion (now dataFileId : Nat) (path fileType : String)
  | removeScheduledDeletion (scheduleStart dataFileId : Nat)

namespace DirectCall

def family : DirectCall → Family
  | .updateTableStats .. | .adjustTableRecordCount .. | .setTableStats ..
  | .applyTableStatsDelta .. => .tableStats
  | .upsertTableColumnStats .. => .tableColumnStats
  | .upsertFileColumnStats .. => .fileColumnStats
  | .upsertFileVariantStats .. => .fileVariantStats
  | .addMacroParameter .. => .macroParameters
  | .scheduleFileDeletion .. | .removeScheduledDeletion .. => .filesScheduledForDeletion

def key (env : Env) : DirectCall → Key
  | .updateTableStats tableId .. | .adjustTableRecordCount tableId _ | .setTableStats tableId ..
  | .applyTableStatsDelta tableId _ => keyTableStats tableId
  | .upsertTableColumnStats tableId columnId _ => keyTableColumnStats tableId columnId
  | .upsertFileColumnStats row => keyFileColumnStats row.tableId row.columnId row.dataFileId
  | .upsertFileVariantStats input =>
    keyFileVariantStats input.tableId input.columnId (env.hashTagKey input.variantKey)
      input.dataFileId
  | .addMacroParameter row => keyMacroParameters row.macroId row.implId row.columnId
  | .scheduleFileDeletion now dataFileId .. => keyFilesScheduledForDeletion now dataFileId
  | .removeScheduledDeletion start dataFileId => keyFilesScheduledForDeletion start dataFileId

def apply (env : Env) (db : Db) : DirectCall → Db
  | .updateTableStats tableId records next bytes =>
    CatalogWriter.updateTableStats db tableId records next bytes
  | .adjustTableRecordCount tableId delta => CatalogWriter.adjustTableRecordCount db tableId delta
  | .setTableStats tableId records bytes next =>
    CatalogWriter.setTableStats db tableId records bytes next
  | .applyTableStatsDelta tableId delta => CatalogWriter.applyTableStatsDelta db tableId delta
  | .upsertTableColumnStats tableId columnId spec =>
    CatalogWriter.upsertTableColumnStats env db tableId columnId spec
  | .upsertFileColumnStats row => CatalogWriter.upsertFileColumnStats db row
  | .upsertFileVariantStats input => CatalogWriter.upsertFileVariantStats env db input
  | .addMacroParameter row => CatalogWriter.addMacroParameterWithOpts db row
  | .scheduleFileDeletion now dataFileId path kind =>
    CatalogWriter.scheduleFileDeletion db now dataFileId path kind
  | .removeScheduledDeletion start dataFileId =>
    CatalogWriter.removeScheduledDeletion db start dataFileId

theorem apply_family (env : Env) (db : Db) (c : DirectCall) (different : f ≠ c.family) :
    c.apply env db f = db f := by
  cases c <;> first | exact db.put_family _ different | exact db.delete_family _ different

theorem apply_get (env : Env) (db : Db) (c : DirectCall)
    (different : (c.family, c.key env) ≠ (f, k)) : (c.apply env db).get f k = db.get f k := by
  by_cases family : f = c.family
  · subst family
    have apart : k ≠ c.key env := fun same => different (by rw [same])
    cases c <;> first | exact db.get_put_key _ apart | exact db.get_delete_key apart
  · exact Db.get_of_family (c.apply_family env db family) k

end DirectCall

/-- The families that are written outside the snapshot commit. -/
def Family.ancillary : Family → Bool
  | .tableStats | .tableColumnStats | .fileColumnStats | .fileVariantStats | .macroParameters
  | .filesScheduledForDeletion => true
  | _ => false

theorem DirectCall.family_ancillary (c : DirectCall) : c.family.ancillary = true := by
  cases c <;> rfl

end RockLake
