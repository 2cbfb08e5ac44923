import RockLake.Catalog.RetainedReads

/-! Deletion of data files in the object store. The sweep for orphans compares the locations of the
objects with the paths as they are stored; scheduled deletions compare the clock reading of the
schedule with the floor, which is a snapshot identifier. -/
namespace RockLake

inductive DataPathMode where
  | absolute
  | relativeToDataPrefix
  deriving DecidableEq

structure CatalogPath where
  objectStoreRoot : String
  dataPrefix : String
  dataPathMode : DataPathMode
  deriving DecidableEq

def normalizeTrailingSlash (path : String) : String :=
  if !path.isEmpty && !"/".toList.isSuffixOf path.toList then path ++ "/" else path

namespace CatalogPath

def new (objectStoreRoot dataPrefix : String) (dataPathMode : DataPathMode) : CatalogPath :=
  ⟨normalizeTrailingSlash objectStoreRoot, normalizeTrailingSlash dataPrefix, dataPathMode⟩

def resolveDataPath (paths : CatalogPath) (storedPath : String) : String :=
  match paths.dataPathMode with
  | .absolute => storedPath
  | .relativeToDataPrefix =>
    paths.dataPrefix ++ String.ofList (storedPath.toList.dropWhile (· = '/'))

/-- Where in the bucket the file of a stored path is: a URI names it in full, any other path is
resolved first. -/
def location (paths : CatalogPath) (storedPath : String) : String :=
  let full :=
    if Text.contains "://".toList storedPath.toList then storedPath
    else paths.resolveDataPath storedPath
  let inBucket := (Text.stripPrefix paths.objectStoreRoot.toList full.toList).getD full.toList
  String.ofList (inBucket.dropWhile (· = '/'))

end CatalogPath

def Family.filePath : (f : Family) → f.Row → Option String
  | .dataFile, row => some row.path
  | .deleteFile, row => some row.path
  | _, _ => none

def collectReferencedPaths (db : Db) : List String :=
  (db.scanPrefix .dataFile []).map (·.2.path) ++ (db.scanPrefix .deleteFile []).map (·.2.path)

theorem mem_collectReferencedPaths :
    path ∈ collectReferencedPaths db ↔
      ∃ f k, ∃ row : f.Row, db.get f k = some row ∧ f.filePath row = some path := by
  simp only [collectReferencedPaths, List.mem_append, List.mem_map]
  constructor
  · rintro (⟨⟨k, row⟩, scanned, rfl⟩ | ⟨⟨k, row⟩, scanned, rfl⟩)
    · exact ⟨.dataFile, k, row, Db.mem_scan.mp scanned, rfl⟩
    · exact ⟨.deleteFile, k, row, Db.mem_scan.mp scanned, rfl⟩
  · rintro ⟨f, k, row, found, named⟩
    cases f with
    | dataFile => exact .inl ⟨(k, row), Db.mem_scan.mpr found, Option.some.inj named⟩
    | deleteFile => exact .inr ⟨(k, row), Db.mem_scan.mpr found, Option.some.inj named⟩
    | _ => contradiction

/-- An object as a listing returns it, with its time in seconds since the epoch. -/
structure StoredObject where
  location : String
  lastModified : Int

structure OrphanedFileSweepResult where
  orphanedFiles : List String
  deletedFiles : List String
  totalFilesScanned : Nat
  deriving DecidableEq

def isDataFile (location : String) : Bool :=
  [".parquet", ".arrow", ".avro"].any fun extension => extension.toList.isSuffixOf location.toList

def StoredObject.ageSecs (now : Nat) (object : StoredObject) : Nat :=
  now - (object.lastModified % 2 ^ 64).toNat

section Sweep

-- `refused` says which deletions the object store refuses
variable (referenced : List String) (now gracePeriodSecs : Nat) (apply : Bool)
  (refused : String → Bool)

def sweepObject (result : OrphanedFileSweepResult) (object : StoredObject) :
    OrphanedFileSweepResult :=
  if isDataFile object.location then
    let result := { result with totalFilesScanned := result.totalFilesScanned + 1 }
    if object.location ∉ referenced ∧ object.ageSecs now ≥ gracePeriodSecs then
      let result := { result with orphanedFiles := result.orphanedFiles ++ [object.location] }
      if apply && !refused object.location then
        { result with deletedFiles := result.deletedFiles ++ [object.location] }
      else result
    else result
  else result

def sweepObjects (objects : List StoredObject) : OrphanedFileSweepResult :=
  objects.foldl (sweepObject referenced now gracePeriodSecs apply refused) ⟨[], [], 0⟩

def StoredObject.Swept (object : StoredObject) : Prop :=
  isDataFile object.location = true ∧ object.location ∉ referenced ∧
    gracePeriodSecs ≤ object.ageSecs now ∧ apply = true ∧ refused object.location = false

theorem sweepObject_deleted (result : OrphanedFileSweepResult) (object : StoredObject)
    (location : String) :
    location ∈ (sweepObject referenced now gracePeriodSecs apply refused result object).deletedFiles ↔
      location ∈ result.deletedFiles ∨ object.location = location ∧
        object.Swept referenced now gracePeriodSecs apply refused := by
  simp only [sweepObject, StoredObject.Swept]
  split
  · rename_i data
    split
    · rename_i orphan
      split
      · rename_i accepted
        simp only [Bool.and_eq_true, Bool.not_eq_true'] at accepted
        simp [data, orphan.1, orphan.2, accepted.1, accepted.2, eq_comm]
      · rename_i kept
        have unswept : ¬ (apply = true ∧ refused object.location = false) := by simpa using kept
        simp [unswept]
    · rename_i spared
      have unswept : ¬ (object.location ∉ referenced ∧ gracePeriodSecs ≤ object.ageSecs now) := spared
      tauto
  · rename_i other
    simp [other]

theorem sweepObjects_deleted (objects : List StoredObject) (location : String) :
    location ∈ (sweepObjects referenced now gracePeriodSecs apply refused objects).deletedFiles ↔
      ∃ object ∈ objects, object.location = location ∧
        object.Swept referenced now gracePeriodSecs apply refused := by
  have fold : ∀ result : OrphanedFileSweepResult,
      location ∈ (objects.foldl (sweepObject referenced now gracePeriodSecs apply refused)
        result).deletedFiles ↔ location ∈ result.deletedFiles ∨ ∃ object ∈ objects,
          object.location = location ∧
            object.Swept referenced now gracePeriodSecs apply refused := by
    induction objects with
    | nil => simp
    | cons first rest ih =>
      intro result
      rw [List.foldl_cons, ih, sweepObject_deleted, or_assoc]
      simp
  rw [sweepObjects, fold]
  simp

end Sweep

def orphanedFileSweep (db : Db) (listed : Except String (List StoredObject))
    (now gracePeriodSecs : Nat) (apply : Bool) (refused : String → Bool) : OrphanedFileSweepResult :=
  match listed with
  | .ok objects =>
    sweepObjects (collectReferencedPaths db) now gracePeriodSecs apply refused objects
  | .error _ => ⟨[], [], 0⟩

/-- The sweep spares the file of every stored path exactly if each object it would reach at the
location of a stored path is itself stored under its location. -/
theorem sweep_spares_referenced_iff (paths : CatalogPath) (db : Db)
    (listed : Except String (List StoredObject)) (now gracePeriodSecs : Nat) (apply : Bool)
    (refused : String → Bool) :
    (∀ f k, ∀ row : f.Row, ∀ path, db.get f k = some row → f.filePath row = some path →
      paths.location path ∉
        (orphanedFileSweep db listed now gracePeriodSecs apply refused).deletedFiles) ↔
    ∀ objects, listed = .ok objects → apply = true →
      ∀ f k, ∀ row : f.Row, ∀ path, db.get f k = some row → f.filePath row = some path →
        ∀ object ∈ objects, object.location = paths.location path →
          isDataFile object.location = true → gracePeriodSecs ≤ object.ageSecs now →
          refused object.location = false →
            ∃ f' k', ∃ row' : f'.Row,
              db.get f' k' = some row' ∧ f'.filePath row' = some object.location := by
  cases listed with
  | error message => simp [orphanedFileSweep]
  | ok objects =>
    simp only [orphanedFileSweep, sweepObjects_deleted]
    constructor
    · rintro spared _ ⟨⟩ applied f k row path found named object member same data old accepted
      by_contra unreferenced
      refine spared f k row path found named ⟨object, member, same, data, fun referenced => ?_, old,
        applied, accepted⟩
      exact unreferenced (mem_collectReferencedPaths.mp referenced)
    · rintro stored f k row path found named ⟨object, member, same, data, unreferenced, old,
        applied, accepted⟩
      exact unreferenced (mem_collectReferencedPaths.mpr
        (stored objects rfl applied f k row path found named object member same data old accepted))

/-- Files stored under a relative path and under a URI are both swept. -/
theorem sweep_deletes_referenced :
    let paths := CatalogPath.new "s3://bucket" "data" .relativeToDataPrefix
    paths.location "t/f.parquet" = "data/t/f.parquet" ∧
    paths.location "s3://bucket/data/t/g.parquet" = "data/t/g.parquet" ∧
    ∃ catalog : Catalog, catalog.Reachable Env.trivial ∧
      collectReferencedPaths catalog.db = ["t/f.parquet", "s3://bucket/data/t/g.parquet"] ∧
      (orphanedFileSweep catalog.db (.ok [⟨"data/t/f.parquet", 0⟩, ⟨"data/t/g.parquet", 0⟩]) 100000
        86400 true fun _ => false).deletedFiles = ["data/t/f.parquet", "data/t/g.parquet"] := by
  refine ⟨by decide +kernel, by decide +kernel, _, .session (.session (.opened "a" rfl)
    Catalog.createOrders rfl) ⟨[.staging (.registerDataFile 2 (.parquet "t/f.parquet" 1 10)),
    .staging (.registerDataFile 2 (.parquet "s3://bucket/data/t/g.parquet" 1 10))], {}⟩ rfl, rfl, ?_⟩
  decide +kernel

inductive DeleteOutcome where
  | deleted
  | notFound
  | failed
  deriving DecidableEq

/-- The outcome: how many objects were deleted, which ones, and the store without the rows that are
done with. -/
structure ScheduledDeletions where
  deletedCount : Nat
  deletedObjects : List String
  db : Db

/-- The objects of rows scheduled before the floor are deleted. `objectPath` normalises a path as the
object store does, `delete` is its answer for the row under a key, and `refused` says which of the
rows done with cannot be removed. -/
def processScheduledDeletions (objectPath : String → String) (delete : Key → DeleteOutcome)
    (refused : Key → Bool) (db : Db) (retainFrom : Nat) : ScheduledDeletions :=
  let due := (db.scanPrefix .filesScheduledForDeletion []).filter fun e =>
    retainFrom > 0 && e.2.scheduleStart < retainFrom
  let deleted := due.filter fun e => delete e.1 = .deleted
  let toRemoveFromCatalog := (due.filter fun e => delete e.1 ≠ .failed).map Prod.fst
  { deletedCount := deleted.length
    deletedObjects := deleted.map fun e => objectPath e.2.path
    db := (toRemoveFromCatalog.filter fun k => !refused k).foldl
      (fun db k => db.delete .filesScheduledForDeletion k) db }

theorem mem_deletedObjects :
    location ∈ (processScheduledDeletions objectPath delete refused db retainFrom).deletedObjects ↔
      ∃ k row, db.get .filesScheduledForDeletion k = some row ∧ 0 < retainFrom ∧
        row.scheduleStart < retainFrom ∧ delete k = .deleted ∧ objectPath row.path = location := by
  simp only [processScheduledDeletions, List.mem_map, List.mem_filter, Bool.and_eq_true,
    decide_eq_true_eq]
  constructor
  · rintro ⟨⟨k, row⟩, ⟨⟨scanned, floor, early⟩, gone⟩, rfl⟩
    exact ⟨k, row, Db.mem_scan.mp scanned, floor, early, gone, rfl⟩
  · rintro ⟨k, row, found, floor, early, gone, rfl⟩
    exact ⟨(k, row), ⟨⟨Db.mem_scan.mpr found, floor, early⟩, gone⟩, rfl⟩

/-- Scheduled deletions spare the files that a retained snapshot shows exactly if each object deleted
for a row scheduled before the floor is that of files out of sight from the floor on. -/
theorem scheduled_spares_visible_iff (catalog : Catalog) (objectPath : String → String)
    (delete : Key → DeleteOutcome) (refused : Key → Bool) :
    (∀ location ∈ (processScheduledDeletions objectPath delete refused catalog.db
        (readRetainFrom catalog.db)).deletedObjects,
      ∀ f k, ∀ row : f.Row, ∀ path, catalog.db.get f k = some row → f.filePath row = some path →
        objectPath path = location → ∀ snapshot, readRetainFrom catalog.db ≤ snapshot →
          snapshot ≤ catalog.store.latestSnapshot →
            isVisible (f.beginOf row) (f.endOf row) snapshot = false) ↔
    ∀ k scheduled, catalog.db.get .filesScheduledForDeletion k = some scheduled →
      scheduled.scheduleStart < readRetainFrom catalog.db → delete k = .deleted →
      ∀ f k', ∀ row : f.Row, ∀ path, catalog.db.get f k' = some row → f.filePath row = some path →
        objectPath path = objectPath scheduled.path →
        max (readRetainFrom catalog.db) (f.beginOf row) ≤ catalog.store.latestSnapshot →
          ∃ ended, f.endOf row = some ended ∧
            ended ≤ max (readRetainFrom catalog.db) (f.beginOf row) := by
  simp only [mem_deletedObjects]
  constructor
  · intro spared k scheduled found early gone f k' row path stored named same
    refine isVisible_outside.mp (spared _ ⟨k, scheduled, found, ?_, early, gone, rfl⟩ f k' row path
      stored named same)
    omega
  · rintro ended _ ⟨k, scheduled, found, _, early, gone, rfl⟩ f k' row path stored named same
    exact isVisible_outside.mpr (ended k scheduled found early gone f k' row path stored named same)

/-- A live data file, scheduled while the clock was at the epoch, is deleted once the floor is 1. -/
theorem scheduled_deletes_live : ∃ (catalog : Catalog) (reader : CatalogReader),
    catalog.Maintained Env.trivial ∧ readRetainFrom catalog.db = 1 ∧
    catalog.store.latestSnapshot = 2 ∧ catalog.store.readAt catalog.db 2 = .ok reader ∧
    (reader.listDataFiles 2).map (·.path) = ["f.parquet"] ∧
    (processScheduledDeletions id (fun _ => .deleted) (fun _ => false) catalog.db 1).deletedObjects =
      ["f.parquet"] :=
  ⟨_, _, .upkeep (.session (.session (.opened "a" rfl) Catalog.createOrders rfl) ⟨[.staging
    (.registerDataFile 2 (.parquet "f.parquet" 1 10)), .direct
    (.scheduleFileDeletion 0 1 "f.parquet" "data")], {}⟩ rfl) (.gcApply 1 0) rfl,
    rfl, rfl, rfl, rfl, rfl⟩

end RockLake
