import RockLake.Catalog.Frame
import RockLake.Catalog.Interchange

/-! Loading a catalog in bulk: the import of an export, the migration from another catalog and the
rebuild from a list of data files. The first two put rows only, so the counters that a database held
before stay what they were; the rebuild sets the counters past the ids it hands out itself. -/
namespace RockLake

open Db

/-- A line of the input, as the JSON reader makes it out. -/
inductive ImportLine where
  | unreadable (message : String)
  | blank
  | malformed (message : String)
  | row (exported : ExportedRow)

structure ImportResult where
  rowsImported : Nat
  tablesImported : Nat
  deriving DecidableEq

def importLine (codec : Base64) (lineNo : Nat) : ImportLine → Except LoadError (Option (List Write))
  | .unreadable message => .error (.slateDb message)
  | .blank => .ok none
  | .malformed message => .error (.importRow lineNo "unknown" ("JSON parse error: " ++ message))
  | .row exported =>
    match DuckLakeTable.ofName exported.table with
    | some kind => (importRow ⟨lineNo, exported.table⟩ exported.data codec kind).map some
    | none => .ok none

/-- The lines from number `lineNo + 1` on. Each row is put before the next line is read, so an error
leaves the rows of the earlier lines behind. -/
def importLines (codec : Base64) : (lineNo rows : Nat) → Db → List ImportLine →
    Except LoadError Nat × Db
  | _, rows, db, [] => (.ok rows, db)
  | lineNo, rows, db, line :: rest =>
    match importLine codec (lineNo + 1) line with
    | .error e => (.error e, db)
    | .ok none => importLines codec (lineNo + 1) rows db rest
    | .ok (some writes) => importLines codec (lineNo + 1) (rows + 1) (db.putAll writes) rest

def ImportLine.tableName : ImportLine → Option String
  | .row exported => some exported.table
  | _ => none

def importCatalog (codec : Base64) (db : Db) (lines : List ImportLine) :
    Except LoadError ImportResult × Db :=
  match importLines codec 0 0 db lines with
  | (.ok rowsImported, db') =>
    (.ok { rowsImported, tablesImported := (lines.filterMap ImportLine.tableName).dedup.length }, db')
  | (.error e, db') => (.error e, db')

/-! Migration from another catalog. -/

structure DuckLakeSource where
  catalogVersion : Except LoadError Nat
  readTable : DuckLakeTable → Except LoadError (List ExportedRow)

structure MigrationStats where
  rowsMigrated : Nat
  rowsSkipped : Nat
  deriving DecidableEq

structure MigrationReport where
  tables : List (DuckLakeTable × MigrationStats)
  snapshotIdRange : Option (Nat × Nat)
  dataFileCount : Nat
  dryRun : Bool
  sourceCatalogVersion : Nat
  deriving DecidableEq

def duckLakeV10CatalogVersion : Nat := 7
def duckLakeV11Dev1CatalogVersion : Nat := 8
def acceptVersionV11Dev1 : String := "V1_1_DEV_1"

def duckLakeTables : List DuckLakeTable :=
  [.snapshot, .schema, .table, .column, .dataFile, .deleteFile, .view, .macros, .tag, .columnTag,
   .snapshotChanges]

def checkVersion (version : Nat) (acceptVersions : List String) : Except LoadError Unit :=
  if version > duckLakeV10CatalogVersion then
    let token := if version = duckLakeV11Dev1CatalogVersion then acceptVersionV11Dev1
      else "UNKNOWN_VERSION"
    if token ∈ acceptVersions then .ok ()
    else .error (.unsupportedDuckLakeVersion version ("DuckLake catalog version " ++ toString version ++
      " is not supported. Use --accept-version " ++ token ++
      " to opt into experimental support. (SQLSTATE 0A000)"))
  else .ok ()

namespace MigrationReport

def widen (range : Option (Nat × Nat)) (snapshotId : Nat) : Option (Nat × Nat) :=
  match range with
  | none => some (snapshotId, snapshotId)
  | some (least, most) => some (min least snapshotId, max most snapshotId)

def note (report : MigrationReport) (d : Json) : DuckLakeTable → MigrationReport
  | .snapshot =>
    match d.u64 "snapshot_id" with
    | some snapshotId =>
      { report with snapshotIdRange := widen report.snapshotIdRange snapshotId }
    | none => report
  | .dataFile => { report with dataFileCount := report.dataFileCount + 1 }
  | _ => report

/-- What the report of a dry run takes down of the rows of one table, all counted as migrated. -/
def survey (report : MigrationReport) (kind : DuckLakeTable) (rows : List ExportedRow) :
    MigrationReport :=
  { rows.foldl (fun report row => report.note row.data kind) report with
    tables := report.tables ++ [(kind, ⟨rows.length, 0⟩)] }

end MigrationReport

/-- The rows of one table: the batch of those that could be read, and the count of the others. -/
def migrateRows (env : Env) (kind : DuckLakeTable) :
    List Write × MigrationStats × MigrationReport → List ExportedRow →
      List Write × MigrationStats × MigrationReport
  | state, [] => state
  | (batch, stats, report), row :: rest =>
    match writeRowToBatch ⟨0, kind.name⟩ row.data env kind with
    | .ok writes => migrateRows env kind
        (batch ++ writes, { stats with rowsMigrated := stats.rowsMigrated + 1 },
          report.note row.data kind) rest
    | .error _ => migrateRows env kind
        (batch, { stats with rowsSkipped := stats.rowsSkipped + 1 }, report) rest

/-- One batch for each table, so an error leaves the tables before it behind. -/
def migrateTables (env : Env) (source : DuckLakeSource) :
    Db → MigrationReport → List DuckLakeTable → Except LoadError MigrationReport × Db
  | db, report, [] => (.ok report, db)
  | db, report, kind :: rest =>
    match source.readTable kind with
    | .error e => (.error e, db)
    | .ok rows =>
      let (batch, stats, report) := migrateRows env kind ([], ⟨0, 0⟩, report) rows
      migrateTables env source (if stats.rowsMigrated > 0 then db.putAll batch else db)
        { report with tables := report.tables ++ [(kind, stats)] } rest

def surveyTables (source : DuckLakeSource) :
    MigrationReport → List DuckLakeTable → Except LoadError MigrationReport
  | report, [] => .ok report
  | report, kind :: rest => do
      let rows ← source.readTable kind
      surveyTables source (report.survey kind rows) rest

def migrateFromSource (env : Env) (source : DuckLakeSource) (db : Db) (acceptVersions : List String)
    (dryRun : Bool) : Except LoadError MigrationReport × Db :=
  match source.catalogVersion with
  | .error e => (.error e, db)
  | .ok version =>
    match checkVersion version acceptVersions with
    | .error e => (.error e, db)
    | .ok () =>
      let report : MigrationReport :=
        { tables := [], snapshotIdRange := none, dataFileCount := 0, dryRun
          sourceCatalogVersion := version }
      if dryRun then (surveyTables source report duckLakeTables, db)
      else match initializeCatalog db with
        | .error e => (.error (.catalog e), db)
        | .ok (_, db) => migrateTables env source db report duckLakeTables

/-! Rebuild from data files. -/

def rebuiltSchema : SchemaRow :=
  { schemaId := 1, schemaName := "main", beginSnapshot := 1, endSnapshot := none, schemaUuid := none
    path := none, pathIsRelative := none }

def rebuiltTable : TableRow :=
  { tableId := 2, schemaId := 1, tableName := "default", beginSnapshot := 1, endSnapshot := none
    path := none, tableUuid := none, pathIsRelative := none }

def rebuiltFile (fileId : Nat) (path : String) : DataFileRow :=
  { dataFileId := fileId, tableId := 2, path, fileFormat := "parquet", recordCount := 0
    fileSizeBytes := 0, footerSize := none, encryptionKey := none, beginSnapshot := some 1
    endSnapshot := none, fileOrder := none, pathIsRelative := some false, rowIdStart := none
    partitionId := none, mappingId := none, partialMax := none }

def rebuiltSnapshot (now : String) : SnapshotRow :=
  { snapshotId := 1, schemaVersion := 1, snapshotTime := now, author := some "rebuild"
    message := some "Catalog rebuilt from Parquet files", nextCatalogId := none, nextFileId := none }

def rebuiltFiles (dataPaths : List String) : List Write :=
  (dataPaths.zipIdx 1).flatMap fun (path, fileId) => dataFilePuts (rebuiltFile fileId path)

def rebuiltWrites (dataPaths : List String) (now : String) : List Write :=
  [⟨.schema, keySchema 1, rebuiltSchema⟩, ⟨.table, keyTable 1 2 1, rebuiltTable⟩] ++
  rebuiltFiles dataPaths ++ ⟨.snapshot, keySnapshot 1, rebuiltSnapshot now⟩ ::
  CatalogWriter.counterWrites ⟨2, 3, dataPaths.length + 1⟩

def rebuildCatalog (db : Db) (dataPaths : List String) (now : String) :
    Except CatalogError (Nat × Db) := do
  let (_, db) ← initializeCatalog db
  return (dataPaths.length, db.putAll (rebuiltWrites dataPaths now))

/-! Allocated ids. -/

inductive IdKind where
  | snapshot | catalog | file
  deriving DecidableEq

def CounterCache.next (c : CounterCache) : IdKind → Nat
  | .snapshot => c.nextSnapshotId
  | .catalog => c.nextCatalogId
  | .file => c.nextFileId

/-- The id of the snapshot, the object or the file that the entry under a key describes. -/
def Family.allocatedId : Family → Key → Option (IdKind × Nat)
  | .snapshot, [snapshotId] => some (.snapshot, snapshotId)
  | .snapshotChanges, [snapshotId] => some (.snapshot, snapshotId)
  | .schema, [schemaId] => some (.catalog, schemaId)
  | .table, [_, tableId, _] => some (.catalog, tableId)
  | .tableById, [tableId] => some (.catalog, tableId)
  | .column, [_, columnId, _] => some (.catalog, columnId)
  | .view, [_, viewId, _] => some (.catalog, viewId)
  | .macros, [_, macroId, _] => some (.catalog, macroId)
  | .macroImpl, [_, implId] => some (.catalog, implId)
  | .dataFile, [_, dataFileId] => some (.file, dataFileId)
  | .dataFileBySnapshot, [_, _, dataFileId] => some (.file, dataFileId)
  | .deleteFile, [_, deleteFileId] => some (.file, deleteFileId)
  | _, _ => none

def Db.Below (db : Db) (c : CounterCache) : Prop :=
  ∀ (f : Family) (k : Key) (row : f.Row) (kind : IdKind) (id : Nat),
    db.get f k = some row → f.allocatedId k = some (kind, id) → id < c.next kind

def Db.FreshIds (db : Db) : Prop := ∃ c, loadCounters db = .ok c ∧ db.Below c

/-- The field of an exchanged row that holds the row's own id. -/
def DuckLakeTable.idField : DuckLakeTable → Option (IdKind × String)
  | .snapshot => some (.snapshot, "snapshot_id")
  | .snapshotChanges => some (.snapshot, "snapshot_id")
  | .schema => some (.catalog, "schema_id")
  | .table => some (.catalog, "table_id")
  | .column => some (.catalog, "column_id")
  | .view => some (.catalog, "view_id")
  | .macros => some (.catalog, "macro_id")
  | .macroImpl => some (.catalog, "impl_id")
  | .dataFile => some (.file, "data_file_id")
  | .deleteFile => some (.file, "delete_file_id")
  | _ => none

/-- The id of an exchanged row is below the counter it comes from. -/
def DuckLakeTable.Below (t : DuckLakeTable) (c : CounterCache) (d : Json) : Prop :=
  ∀ kind field id, t.idField = some (kind, field) → d.u64 field = some id → id < c.next kind

/-- What a loader puts for a row: entries that carry the row's own id, and no counter. -/
def DuckLakeTable.Puts (t : DuckLakeTable) (d : Json) (writes : List Write) : Prop :=
  (∀ w ∈ writes, w.family ≠ .counter) ∧
  match t.idField with
  | some (kind, field) => ∃ id, d.u64 field = some id ∧ writes ≠ [] ∧
      ∀ w ∈ writes, w.family.allocatedId w.key = some (kind, id)
  | none => ∀ w ∈ writes, w.family.allocatedId w.key = none

theorem pure_ok : (pure a : Except ε α) = .ok b ↔ a = b := by
  simp [pure, Except.pure]

theorem reqU64_ok :
    reqU64 place d name = .ok n ↔ d.u64 name = some n := by
  rw [reqU64]
  cases d.u64 name <;> simp [required]

theorem DuckLakeTable.Puts.allocated {t : DuckLakeTable} {id : Nat}
    (named : t.idField = some (kind, field)) (found : d.u64 field = some id)
    (some_put : writes ≠ []) (puts : ∀ w ∈ writes, w.family.allocatedId w.key = some (kind, id)) :
    t.Puts d writes := by
  refine ⟨fun w member family => ?_, ?_⟩
  · have identified := puts w member
    simp [family, Family.allocatedId] at identified
  · rw [named]
    exact ⟨id, found, some_put, puts⟩

theorem DuckLakeTable.Puts.unallocated {t : DuckLakeTable} (unnamed : t.idField = none)
    (puts : ∀ w ∈ writes, w.family ≠ .counter ∧ w.family.allocatedId w.key = none) :
    t.Puts d writes := by
  refine ⟨fun w member => (puts w member).1, ?_⟩
  rw [unnamed]
  exact fun w member => (puts w member).2

theorem dataFilePuts_allocated (row : DataFileRow) :
    ∀ w ∈ dataFilePuts row, w.family.allocatedId w.key = some (.file, row.dataFileId) :=
  List.forall_mem_cons.mpr ⟨rfl, List.forall_mem_cons.mpr ⟨rfl, by simp⟩⟩

/-- Every parser of the import reads the id of a row first and puts the row under it. -/
theorem importRow_puts {place : RowPlace} (loaded : importRow place d codec t = .ok writes) :
    t.Puts d writes := by
  cases t
  all_goals
    simp only [importRow, importSnapshot, importSchema, importTable, importColumn, importDataFile,
      importDeleteFile, importInlinedInsert, importSnapshotChanges, importView, importMacro,
      importMacroImpl, importMacroParameters, importTag, importColumnTag, importPartitionInfo,
      importSortInfo, importSchemaVersions, importTableStats, importTableColumnStats,
      importFileColumnStats, importFileVariantStats, bind_ok, pure_ok, reqU64_ok] at loaded
  case sortExpression | columnMapping | nameMapping | filePartitionValue | encryptedSecret
      | encryptionKey =>
    rw [importUnstored] at loaded
    simp only [bind_ok, pure_ok] at loaded
    obtain ⟨_, _, _, _, rfl⟩ := loaded
    exact .unallocated rfl (by simp)
  case inlinedInsert | macroParameters | tag | columnTag | partitionInfo | sortInfo | schemaVersion
      | tableStats | tableColumnStats | fileColumnStats | fileVariantStats =>
    repeat obtain ⟨_, _, loaded⟩ := loaded
    exact .unallocated rfl (by simp [Family.allocatedId])
  case dataFile =>
    repeat obtain ⟨_, _, loaded⟩ := loaded
    exact .allocated rfl (by assumption) (by simp [dataFilePuts]) (dataFilePuts_allocated _)
  all_goals
    repeat obtain ⟨_, _, loaded⟩ := loaded
    exact .allocated rfl (by assumption) (by simp) (List.forall_mem_cons.mpr ⟨rfl, by simp⟩)

theorem writeRowToBatch_puts {place : RowPlace} (migrates : t ∈ duckLakeTables)
    (loaded : writeRowToBatch place d env t = .ok writes) : t.Puts d writes := by
  cases t
  all_goals
    simp only [writeRowToBatch, migrateSnapshot, migrateSchema, migrateTable, migrateColumn,
      migrateDataFile, migrateDeleteFile, migrateView, migrateMacro, migrateTag, migrateColumnTag,
      migrateSnapshotChanges, bind_ok, pure_ok, reqU64_ok] at loaded
  case tag | columnTag =>
    repeat obtain ⟨_, _, loaded⟩ := loaded
    exact .unallocated rfl (by simp [Family.allocatedId])
  case dataFile =>
    repeat obtain ⟨_, _, loaded⟩ := loaded
    exact .allocated rfl (by assumption) (by simp [dataFilePuts]) (dataFilePuts_allocated _)
  case snapshot | schema | table | column | deleteFile | view | macros | snapshotChanges =>
    repeat obtain ⟨_, _, loaded⟩ := loaded
    exact .allocated rfl (by assumption) (by simp) (List.forall_mem_cons.mpr ⟨rfl, by simp⟩)
  all_goals simp [duckLakeTables] at migrates

def Write.Below (w : Write) (c : CounterCache) : Prop :=
  ∀ kind id, w.family.allocatedId w.key = some (kind, id) → id < c.next kind

theorem DuckLakeTable.Puts.below_iff {t : DuckLakeTable} (puts : t.Puts d writes) (c : CounterCache) :
    (∀ w ∈ writes, w.Below c) ↔ t.Below c d := by
  obtain ⟨-, identified⟩ := puts
  simp only [DuckLakeTable.Below]
  cases named : t.idField with
  | none =>
    rw [named] at identified
    constructor
    · intro _ kind field id own
      cases own
    · intro _ w member kind id same
      rw [identified w member] at same
      cases same
  | some own =>
    obtain ⟨kind, field⟩ := own
    rw [named] at identified
    obtain ⟨id, found, some_put, puts⟩ := identified
    constructor
    · rintro below kind' field' id' ⟨⟩ found'
      obtain ⟨w, member⟩ := List.exists_mem_of_ne_nil writes some_put
      rw [found] at found'
      cases found'
      exact below w member kind id (puts w member)
    · intro below w member kind' id' same
      rw [puts w member] at same
      cases same
      exact below kind field id rfl found

/-- A batch of rows whose ids are below the counters exactly when those of an input are. -/
structure RowPuts (writes : List Write) (input : CounterCache → Prop) : Prop where
  rows : ∀ w ∈ writes, w.family ≠ .counter
  below : ∀ c, (∀ w ∈ writes, w.Below c) ↔ input c

theorem DuckLakeTable.Puts.rowPuts {t : DuckLakeTable} (puts : t.Puts d writes) :
    RowPuts writes fun c => t.Below c d :=
  ⟨puts.1, puts.below_iff⟩

theorem RowPuts.append (left : RowPuts first input) (right : RowPuts second input') :
    RowPuts (first ++ second) fun c => input c ∧ input' c where
  rows w member := by
    rcases List.mem_append.mp member with early | late
    · exact left.rows w early
    · exact right.rows w late
  below c := by rw [List.forall_mem_append, left.below, right.below]

theorem RowPuts.congr (puts : RowPuts writes input) (same : ∀ c, input c ↔ input' c) :
    RowPuts writes input' :=
  ⟨puts.rows, fun c => (puts.below c).trans (same c)⟩

theorem RowPuts.nil (holds : ∀ c, input c) : RowPuts [] input :=
  ⟨by simp, fun c => by simp [holds c]⟩

theorem Db.below_putAll {db : Db} :
    (db.putAll writes).Below c ↔ db.Below c ∧ ∀ w ∈ writes, w.Below c := by
  constructor
  · intro below
    refine ⟨fun f k row kind id found same => ?_, fun w member kind id same => ?_⟩
    · rcases db.get_putAll (f := f) writes k with ⟨row', _, after⟩ | ⟨_, kept⟩
      · exact below f k row' kind id after same
      · exact below f k row kind id (kept.trans found) same
    · rcases db.get_putAll (f := w.family) writes w.key with ⟨row', _, after⟩ | ⟨absent, _⟩
      · exact below w.family w.key row' kind id after same
      · exact absurd member (absent w.row)
  · rintro ⟨below, puts⟩ f k row kind id found same
    rcases db.get_putAll (f := f) writes k with ⟨row', member, _⟩ | ⟨_, kept⟩
    · exact puts ⟨f, k, row'⟩ member kind id same
    · exact below f k row kind id (kept.symm.trans found) same

theorem RowPuts.freshIds_iff {writes : List Write} (puts : RowPuts writes input) (db : Db) :
    (db.putAll writes).FreshIds ↔
      ∃ c, loadCounters db = .ok c ∧ db.Below c ∧ input c := by
  have counters : loadCounters (db.putAll writes) = loadCounters db :=
    loadCounters_congr fun id => get_of_family (db.putAll_family puts.rows) _
  simp [Db.FreshIds, counters, below_putAll, puts.below]

/-- The id of the row on a line, if any, is below the counters. -/
def ImportLine.Below (c : CounterCache) : ImportLine → Prop
  | .row exported => ∀ t, DuckLakeTable.ofName exported.table = some t → t.Below c exported.data
  | _ => True

theorem importLine_puts {codec : Base64} (loaded : importLine codec lineNo line = .ok puts) :
    RowPuts (puts.getD []) fun c => line.Below c := by
  cases line with
  | unreadable | malformed => contradiction
  | blank =>
    cases loaded
    exact .nil fun _ => trivial
  | row exported =>
    simp only [importLine] at loaded
    split at loaded
    · rename_i t known
      cases parsed : importRow ⟨lineNo, exported.table⟩ exported.data codec t with
      | error e => simp [parsed, Except.map] at loaded
      | ok writes =>
        rw [parsed] at loaded
        cases loaded
        exact (importRow_puts parsed).rowPuts.congr fun c => by simp [ImportLine.Below, known]
    · rename_i unknown
      cases loaded
      exact .nil fun c => by simp [ImportLine.Below, unknown]

theorem importLines_puts (done : importLines codec lineNo rows db lines = (.ok rows', db')) :
    ∃ writes, db' = db.putAll writes ∧ RowPuts writes fun c => ∀ line ∈ lines, line.Below c := by
  induction lines generalizing lineNo rows db with
  | nil =>
    cases done
    exact ⟨[], rfl, .nil (by simp)⟩
  | cons line rest ih =>
    simp only [importLines] at done
    cases loaded : importLine codec (lineNo + 1) line with
    | error e => simp [loaded] at done
    | ok puts =>
      have first := importLine_puts loaded
      cases puts with
      | none =>
        simp only [loaded] at done
        obtain ⟨writes, rfl, later⟩ := ih done
        exact ⟨[] ++ writes, rfl, (first.append later).congr (by simp)⟩
      | some new =>
        simp only [loaded] at done
        obtain ⟨writes, rfl, later⟩ := ih done
        exact ⟨new ++ writes, (db.putAll_append new writes).symm,
          (first.append later).congr (by simp)⟩

theorem importCatalog_freshIds (loaded : importCatalog codec db lines = (.ok result, db')) :
    db'.FreshIds ↔
      ∃ c, loadCounters db = .ok c ∧ db.Below c ∧ ∀ line ∈ lines, line.Below c := by
  simp only [importCatalog] at loaded
  split at loaded
  · rename_i done
    cases loaded
    obtain ⟨writes, rfl, puts⟩ := importLines_puts done
    exact puts.freshIds_iff db
  · cases loaded

/-- The ids of the rows that a migration takes over are below the counters. -/
def DuckLakeSource.Below (env : Env) (source : DuckLakeSource) (c : CounterCache)
    (kinds : List DuckLakeTable) : Prop :=
  ∀ kind ∈ kinds, ∀ rows, source.readTable kind = .ok rows → ∀ row ∈ rows, ∀ writes,
    writeRowToBatch ⟨0, kind.name⟩ row.data env kind = .ok writes → kind.Below c row.data

/-- The batch of a table holds the rows that could be read, and nothing if there are none. -/
theorem migrateRows_puts {env : Env} (migrates : kind ∈ duckLakeTables)
    (done : migrateRows env kind (batch, stats, report) rows = (batch', stats', report')) :
    ∃ writes, batch' = batch ++ writes ∧ stats.rowsMigrated ≤ stats'.rowsMigrated ∧
      (stats'.rowsMigrated = stats.rowsMigrated → writes = []) ∧
      RowPuts writes fun c => ∀ row ∈ rows, ∀ writes,
        writeRowToBatch ⟨0, kind.name⟩ row.data env kind = .ok writes → kind.Below c row.data := by
  induction rows generalizing batch stats report with
  | nil =>
    cases done
    exact ⟨[], (List.append_nil _).symm, le_rfl, fun _ => rfl, .nil (by simp)⟩
  | cons row rest ih =>
    simp only [migrateRows] at done
    split at done
    · rename_i new parsed
      obtain ⟨writes, rfl, more, _, later⟩ := ih done
      have counted : stats.rowsMigrated + 1 ≤ stats'.rowsMigrated := more
      refine ⟨new ++ writes, List.append_assoc _ _ _, by omega, fun same => by omega, ?_⟩
      exact ((writeRowToBatch_puts migrates parsed).rowPuts.append later).congr (by simp [parsed])
    · rename_i failed
      obtain ⟨writes, rfl, more, none_put, later⟩ := ih done
      exact ⟨writes, rfl, more, none_put, later.congr (by simp [failed])⟩

theorem migrateTables_puts (migrate : ∀ kind ∈ kinds, kind ∈ duckLakeTables)
    (done : migrateTables env source db report kinds = (.ok report', db')) :
    ∃ writes, db' = db.putAll writes ∧ RowPuts writes fun c => source.Below env c kinds := by
  induction kinds generalizing db report with
  | nil =>
    cases done
    exact ⟨[], rfl, .nil fun c => by simp [DuckLakeSource.Below]⟩
  | cons kind rest ih =>
    simp only [migrateTables] at done
    split at done
    · cases done
    rename_i rows found
    obtain ⟨⟨batch, stats, noted⟩, ran⟩ :
        ∃ state, migrateRows env kind ([], ⟨0, 0⟩, report) rows = state := ⟨_, rfl⟩
    rw [ran] at done
    obtain ⟨first, same, _, none_put, puts⟩ :=
      migrateRows_puts (migrate kind List.mem_cons_self) ran
    obtain rfl : batch = first := same
    -- an empty table is not written at all, which leaves the same database
    have written : (if stats.rowsMigrated > 0 then db.putAll batch else db) =
        db.putAll batch := by
      split
      · rfl
      · rw [none_put (by simp only; omega), putAll_nil]
    simp only [written] at done
    obtain ⟨writes, rfl, later⟩ :=
      ih (fun kind member => migrate kind (List.mem_cons_of_mem _ member)) done
    refine ⟨batch ++ writes, (db.putAll_append batch writes).symm, ?_⟩
    exact (puts.append later).congr fun c => by simp [DuckLakeSource.Below, found]

theorem initializeCatalog_below (opened : initializeCatalog db = .ok (c, db')) :
    loadCounters db' = .ok c ∧ ∀ d, db'.Below d ↔ db.Below d := by
  rcases initializeCatalog_ok opened with ⟨_, loaded, rfl⟩ | ⟨_, rfl, rfl⟩
  · exact ⟨loaded, fun _ => Iff.rfl⟩
  · refine ⟨loadCounters_initial db, fun d => below_putAll.trans (and_iff_left ?_)⟩
    simp [initialWrites, CatalogWriter.counterWrites, Write.Below, Family.allocatedId]

theorem migrateFromSource_freshIds
    (loaded : migrateFromSource env source db acceptVersions false = (.ok report, db')) :
    db'.FreshIds ↔ ∃ c db₀, initializeCatalog db = .ok (c, db₀) ∧ db.Below c ∧
      source.Below env c duckLakeTables := by
  simp only [migrateFromSource, Bool.false_eq_true, if_false] at loaded
  split at loaded
  · cases loaded
  split at loaded
  · cases loaded
  split at loaded
  · cases loaded
  rename_i c db₀ opened
  obtain ⟨counters, below⟩ := initializeCatalog_below opened
  obtain ⟨writes, rfl, puts⟩ := migrateTables_puts (fun _ member => member) loaded
  rw [puts.freshIds_iff, opened]
  simp [counters, below]

theorem rebuiltWrites_below (dataPaths : List String) (now : String) :
    ∀ w ∈ rebuiltWrites dataPaths now, w.Below ⟨2, 3, dataPaths.length + 1⟩ := by
  intro w member kind id same
  simp only [rebuiltWrites, rebuiltFiles, CatalogWriter.counterWrites, List.mem_append, List.mem_cons,
    List.mem_flatMap, List.not_mem_nil, or_false] at member
  rcases member with ((rfl | rfl) | ⟨⟨path, fileId⟩, numbered, put⟩) | rfl | rfl | rfl | rfl
  case inl.inr =>
    rw [dataFilePuts_allocated _ w put] at same
    cases same
    have bound := (List.mem_zipIdx numbered).2.1
    simp only [rebuiltFile, CounterCache.next]
    omega
  all_goals cases same
  all_goals simp [CounterCache.next]

theorem loadCounters_rebuilt (db : Db) :
    loadCounters (db.putAll (rebuiltWrites dataPaths now)) = .ok ⟨2, 3, dataPaths.length + 1⟩ := by
  rw [rebuiltWrites, putAll_append, putAll_cons]
  exact loadCounters_counterWrites _ _

theorem rebuildCatalog_freshIds (rebuilt : rebuildCatalog db dataPaths now = .ok (count, db')) :
    db'.FreshIds ↔ db.Below ⟨2, 3, dataPaths.length + 1⟩ := by
  simp only [rebuildCatalog, bind_ok, pure_ok] at rebuilt
  obtain ⟨⟨c, db₀⟩, opened, rebuilt⟩ := rebuilt
  cases rebuilt
  simp only [Db.FreshIds, loadCounters_rebuilt, Except.ok.injEq, exists_eq_left', below_putAll,
    (initializeCatalog_below opened).2]
  exact and_iff_left (rebuiltWrites_below dataPaths now)

/-- After a bulk load the persisted counters are above every id in use exactly when the counters of the
database before were above the ids in it and in the input, or, for a rebuild, when the database held no
id past those that the rebuild hands out. -/
theorem bulkLoad_freshIds (codec : Base64) (env : Env) (db : Db) :
    (∀ lines result db', importCatalog codec db lines = (.ok result, db') →
      (db'.FreshIds ↔
        ∃ c, loadCounters db = .ok c ∧ db.Below c ∧ ∀ line ∈ lines, line.Below c)) ∧
    (∀ source acceptVersions report db',
      migrateFromSource env source db acceptVersions true = (.ok report, db') →
      (db'.FreshIds ↔ db.FreshIds)) ∧
    (∀ source acceptVersions report db',
      migrateFromSource env source db acceptVersions false = (.ok report, db') →
      (db'.FreshIds ↔ ∃ c db₀, initializeCatalog db = .ok (c, db₀) ∧ db.Below c ∧
        source.Below env c duckLakeTables)) ∧
    (∀ dataPaths now count db', rebuildCatalog db dataPaths now = .ok (count, db') →
      (db'.FreshIds ↔ db.Below ⟨2, 3, dataPaths.length + 1⟩)) := by
  refine ⟨fun _ _ _ loaded => importCatalog_freshIds loaded, fun _ _ _ _ surveyed => ?_,
    fun _ _ _ _ loaded => migrateFromSource_freshIds loaded,
    fun _ _ _ _ rebuilt => rebuildCatalog_freshIds rebuilt⟩
  have untouched := congrArg Prod.snd surveyed
  simp only [migrateFromSource, if_true] at untouched
  split at untouched
  · rw [← untouched]
  · split at untouched <;> rw [← untouched]

/-- A rebuild of an empty database leaves fresh counters. -/
theorem bulkLoad_freshIds_rebuilt : ∃ db, rebuildCatalog Db.empty ["a.parquet", "b.parquet"] "now" =
    .ok (2, db) ∧ db.FreshIds := by
  obtain ⟨_, _, _, fresh⟩ := bulkLoad_freshIds Base64.sample Env.trivial Db.empty
  refine ⟨_, (fun rebuilt => ⟨rebuilt, (fresh _ _ _ _ rebuilt).mpr ?_⟩) rfl⟩
  intro f k row kind id found
  have absent : Db.empty.get f k = none := rfl
  rw [absent] at found
  contradiction

/-- A schema imported into a fresh catalog keeps its id one, which is also the next catalog id: the
first schema created afterwards takes its place. -/
theorem import_reuses_id : ∃ db result store db' catalog commit,
    importCatalog Base64.sample (Db.empty.putAll initialWrites)
      [.row ⟨"ducklake_schema", .obj [("schema_id", .ofNat 1), ("schema_name", .str "sales"),
        ("begin_snapshot", .ofNat 1)]⟩] = (.ok result, db) ∧
    ¬ db.FreshIds ∧ (db.get .schema (keySchema 1)).map (·.schemaName) = some "sales" ∧
    CatalogStore.openCatalog db "a" = .ok (store, db') ∧
    Session.commit Env.trivial ⟨db', store⟩ ⟨[.staging (.createSchema "main" "4b1d")], {}⟩ =
      .ok (commit, catalog) ∧
    (catalog.db.get .schema (keySchema 1)).map (·.schemaName) = some "main" := by
  refine ⟨_, _, _, _, _, _, rfl, ?_, rfl, rfl, rfl, rfl⟩
  rintro ⟨c, loaded, below⟩
  cases loaded
  have reused := below .schema (keySchema 1) _ .catalog 1 rfl rfl
  exact absurd reused (by decide)

end RockLake
