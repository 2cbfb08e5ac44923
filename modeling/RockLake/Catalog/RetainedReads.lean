import RockLake.Catalog.Listings
import RockLake.Catalog.Maintenance
import RockLake.Catalog.Retirement

/-! Excision against what the retained snapshots show. A version that ended by the floor is out of
sight at every retained snapshot; an inlined delete marker has no end and is in sight at all of
them. A data file that began before some snapshot may well be in sight after it. -/
namespace RockLake

open List CatalogReader OrderedMap

structure ExcisePlan where
  beforeSnapshot : Nat
  versionRowsEligible : Nat
  inlinedInsertsEligible : Nat
  inlinedDeletesEligible : Nat
  dataFilesEligible : List String
  isSafe : Bool
  deriving DecidableEq

def countExcisable (db : Db) (beforeSnapshot : Nat) (f : Family) : Nat :=
  ((db.scanPrefix f []).filter fun e => f.excisable beforeSnapshot e.2).length

def findExcisableDataFiles (db : Db) (beforeSnapshot : Nat) : List String :=
  ((db.scanPrefix .dataFile []).filter fun e => e.2.beginSnapshot.getD 0 < beforeSnapshot).map
    (·.2.path)

def excisePlan (db : Db) (beforeSnapshot : Nat) : ExcisePlan :=
  let retainFrom := readRetainFrom db
  { beforeSnapshot
    versionRowsEligible := countExcisable db beforeSnapshot .schema +
      countExcisable db beforeSnapshot .table + countExcisable db beforeSnapshot .column
    inlinedInsertsEligible := countExcisable db beforeSnapshot .inlinedInsert
    inlinedDeletesEligible := countExcisable db beforeSnapshot .inlinedDelete
    dataFilesEligible := findExcisableDataFiles db beforeSnapshot
    isSafe := retainFrom > 0 && retainFrom ≥ beforeSnapshot }

theorem map_filter_eq_iff {l : List A} :
    (l.filter p).map g = l.map g ↔ ∀ a ∈ l, p a = true := by
  constructor
  · intro same
    have lengths := congrArg List.length same
    rw [length_map, length_map] at lengths
    exact length_filter_eq_length_iff.mp lengths
  · intro all
    rw [filter_eq_self.mpr all]

theorem CatalogReader.listVisible_restrict {db db' : Db} {snapshot : Nat}
    (same : db' f = (db f).restrict keep) :
    listVisible ⟨db', snapshot⟩ f start = (((db.scanPrefix f start).filter fun e =>
      isVisible (f.beginOf e.2) (f.endOf e.2) snapshot).filter fun e => keep e.1 e.2).map Prod.snd := by
  simp only [listVisible, Db.scanPrefix_eq, same, OrderedMap.restrict, filter_filter]
  congr 1
  refine filter_congr fun e _ => ?_
  cases keep e.1 e.2 <;> simp

section Excision

variable {db db' : Db} {beforeSnapshot timestampMillis snapshot : Nat} {operator : String}
  {fails : Family → Key → Bool} {result : ExciseResult}

theorem Family.excisable_hidden {f : Family} {row : f.Row} (versioned : f.versioned = true)
    (marker : f ≠ .inlinedDelete) (retained : beforeSnapshot ≤ snapshot)
    (eligible : f.excisable beforeSnapshot row = true) :
    isVisible (f.beginOf row) (f.endOf row) snapshot = false := by
  have ended : (f.endOf row).any (· ≤ beforeSnapshot) = true := by
    cases f <;> first | exact eligible | contradiction
  cases same : f.endOf row with
  | none => simp [same] at ended
  | some last =>
    simp only [same, Option.any_some, decide_eq_true_eq] at ended
    have passed : ¬ snapshot < last := by omega
    simp [isVisible, passed]

section

variable
  (applied : exciseApply db beforeSnapshot operator timestampMillis fails = .ok (result, db'))
include applied

/-- Apart from the markers, a reader of a retained snapshot is shown the same rows. -/
theorem exciseApply_shown
    (retained : readRetainFrom db ≤ snapshot) (listed : f.listed = true) (k : Key) :
    CatalogReader.shown ⟨db', snapshot⟩ f k = CatalogReader.shown ⟨db, snapshot⟩ f k := by
  obtain ⟨_, safe, rows, _⟩ := exciseApply_ok applied
  have kept := rows f k (by rintro rfl; contradiction) (by rintro rfl; contradiction)
  simp only [shown, kept]
  cases db.get f k with
  | none => rfl
  | some row =>
    cases eligible : f.excisable beforeSnapshot row with
    | false => simp [Option.filter, eligible]
    | true =>
      have versioned : f.versioned = true := by
        cases f <;> first | rfl | contradiction
      have hidden := Family.excisable_hidden versioned (by rintro rfl; contradiction)
        (safe.trans retained) eligible
      cases fails f k <;> simp [Option.filter, eligible, hidden]

theorem exciseApply_family
    (unbooked : f.booked = false) :
    db' f = (db f).restrict fun k row => !f.excisable beforeSnapshot row || fails f k := by
  obtain ⟨_, _, rows, _⟩ := exciseApply_ok applied
  refine ext_get fun k => ?_
  rw [get_restrict]
  exact rows f k (by rintro rfl; contradiction) (by rintro rfl; contradiction)

theorem exciseApply_markers
    (retained : readRetainFrom db ≤ snapshot) (tableId : Nat) :
    CatalogReader.listInlinedDeletes ⟨db', snapshot⟩ tableId =
        CatalogReader.listInlinedDeletes ⟨db, snapshot⟩ tableId ↔
      ∀ k row, [tableId] <+: k → db.get .inlinedDelete k = some row →
        row.beginSnapshot < beforeSnapshot → fails .inlinedDelete k = true := by
  obtain ⟨_, safe, _⟩ := exciseApply_ok applied
  rw [listInlinedDeletes, listInlinedDeletes, listVisible_restrict (exciseApply_family applied rfl),
    listVisible, map_filter_eq_iff]
  simp only [mem_filter, Bool.or_eq_true, Bool.not_eq_true']
  constructor
  · intro kept k row starts found early
    have visible : isVisible row.beginSnapshot none snapshot = true := by
      have begun : ¬ row.beginSnapshot > snapshot := by omega
      simp [isVisible, begun]
    have eligible : Family.inlinedDelete.excisable beforeSnapshot row = true := by
      simpa [Family.excisable] using early
    have outcome := kept (k, row) ⟨db.mem_scanPrefix.mpr ⟨found, starts⟩, visible⟩
    rw [eligible] at outcome
    exact outcome.resolve_left (by simp)
  · rintro deletions ⟨k, row⟩ ⟨scanned, _⟩
    obtain ⟨found, starts⟩ := db.mem_scanPrefix.mp scanned
    cases eligible : Family.inlinedDelete.excisable beforeSnapshot row with
    | false => exact .inl rfl
    | true =>
      simp only [Family.excisable, decide_eq_true_eq] at eligible
      exact .inr (deletions k row starts found eligible)

end

theorem exciseApply_list (hashOrder : List Nat → List Nat)
    (applied : exciseApply db beforeSnapshot operator timestampMillis fails = .ok (result, db'))
    (retained : readRetainFrom db ≤ snapshot)
    (markers : ∀ tableId k row, [tableId] <+: k → db.get .inlinedDelete k = some row →
      row.beginSnapshot < beforeSnapshot → fails .inlinedDelete k = true) (l : Listing) :
    CatalogReader.list hashOrder ⟨db', snapshot⟩ l = CatalogReader.list hashOrder ⟨db, snapshot⟩ l := by
  refine (list_shownApart Retouches.refl (fun f listed k => ?_) hashOrder
    (fun tableId => ?_) (fun tableId => ?_) l).trans (map_id _)
  · rw [exciseApply_shown applied retained listed k]
    exact Option.map_id'.symm
  · have index : db' .dataFileBySnapshot = db .dataFileBySnapshot := by
      rw [exciseApply_family applied rfl]
      refine ext_get fun k => ?_
      rw [get_restrict]
      cases (db .dataFileBySnapshot).get k <;> rfl
    simp [listDataFiles, Db.scanPrefix, index, map_id']
  · rw [(exciseApply_markers applied retained tableId).mpr (markers tableId), map_id']

theorem exciseApply_getSnapshot
    (applied : exciseApply db beforeSnapshot operator timestampMillis fails = .ok (result, db'))
    (retained : readRetainFrom db ≤ snapshot)
    (keyed : ∀ k row, db.get .snapshot k = some row → k = keySnapshot row.snapshotId) :
    CatalogReader.getSnapshot ⟨db', snapshot⟩ = CatalogReader.getSnapshot ⟨db, snapshot⟩ := by
  obtain ⟨_, safe, rows, _⟩ := exciseApply_ok applied
  rw [getSnapshot, getSnapshot, rows .snapshot _ (by decide) (by decide)]
  cases found : db.get .snapshot (keySnapshot snapshot) with
  | none => rfl
  | some row =>
    have same : snapshot = row.snapshotId := singleton_inj.mp (keyed _ row found)
    have spared : ¬ row.snapshotId < beforeSnapshot := by omega
    simp [Option.filter, Family.excisable, spared]

end Excision

/-- A row is out of sight in a range of snapshots exactly if it has ended by the first of them at
which it could be seen. -/
theorem isVisible_outside :
    (∀ snapshot, first ≤ snapshot → snapshot ≤ last →
      isVisible beginSnapshot endSnapshot snapshot = false) ↔
    (max first beginSnapshot ≤ last →
      ∃ ended, endSnapshot = some ended ∧ ended ≤ max first beginSnapshot) := by
  constructor
  · intro hidden range
    have outside := hidden _ (le_max_left _ _) range
    have begun : ¬ beginSnapshot > max first beginSnapshot := by omega
    cases endSnapshot with
    | none => simp [isVisible, begun] at outside
    | some ended =>
      simp only [isVisible, begun, if_false, decide_eq_false_iff_not, not_lt] at outside
      exact ⟨ended, rfl, outside⟩
  · intro ended snapshot lower upper
    by_cases begun : beginSnapshot > snapshot
    · simp [isVisible, begun]
    · obtain ⟨last, rfl, le⟩ := ended (by omega)
      have passed : ¬ snapshot < last := by omega
      simp [isVisible, passed]

namespace Catalog

variable {env : Env} {catalog : Catalog}

/-- An excision leaves all reads of retained snapshots alone exactly if it deletes no marker. -/
theorem excise_preserves_iff (hashOrder : List Nat → List Nat) (maintained : catalog.Maintained env)
    {beforeSnapshot timestampMillis : Nat} {operator : String} {fails : Family → Key → Bool}
    {result : ExciseResult} {db : Db}
    (applied : exciseApply catalog.db beforeSnapshot operator timestampMillis fails =
      .ok (result, db)) :
    (∀ snapshot, readRetainFrom catalog.db ≤ snapshot → snapshot ≤ catalog.store.latestSnapshot →
      ∃ before after, catalog.store.readAt catalog.db snapshot = .ok before ∧
        catalog.store.readAt db snapshot = .ok after ∧ after.getSnapshot = before.getSnapshot ∧
        ∀ l, after.list hashOrder l = before.list hashOrder l) ↔
    (readRetainFrom catalog.db ≤ catalog.store.latestSnapshot →
      ∀ tableId k row, [tableId] <+: k → catalog.db.get .inlinedDelete k = some row →
        row.beginSnapshot < beforeSnapshot → fails .inlinedDelete k = true) := by
  have tended := maintained.tended
  have read : ∀ (db : Db) (snapshot : Nat), readRetainFrom catalog.db ≤ snapshot →
      catalog.store.readAt db snapshot = .ok ⟨db, snapshot⟩ := by
    intro db snapshot retained
    have allowed : ¬ snapshot < catalog.store.retainFromCache := by
      have cached := tended.cached
      omega
    simp [CatalogStore.readAt, allowed]
  constructor
  · intro preserved range tableId
    obtain ⟨before, after, opened, opened', _, lists⟩ := preserved _ range le_rfl
    cases (read catalog.db _ range).symm.trans opened
    cases (read db _ range).symm.trans opened'
    have same := map_injective_iff.mpr sigma_mk_injective (lists (.inlinedDeletes tableId))
    exact (exciseApply_markers applied range tableId).mp same
  · intro markers snapshot retained latest
    refine ⟨_, _, read _ _ retained, read _ _ retained,
      exciseApply_getSnapshot applied retained tended.snapshots, ?_⟩
    exact exciseApply_list hashOrder applied retained (markers (retained.trans latest))

/-- A dropped schema is excised; it is out of sight at the floor. -/
theorem excise_preserves_dropped : ∃ (catalog : Catalog) (result : ExciseResult) (db : Db)
    (before after : CatalogReader), catalog.Maintained Env.trivial ∧
    readRetainFrom catalog.db = 2 ∧
    exciseApply catalog.db 2 "op" 7 (fun _ _ => false) = .ok (result, db) ∧ result.keysDeleted = 2 ∧
    catalog.store.readAt catalog.db 2 = .ok before ∧ catalog.store.readAt db 2 = .ok after ∧
    ∀ l, after.list id l = before.list id l := by
  have maintained : Catalog.Maintained Env.trivial _ :=
    .upkeep (.session (.session (.opened "a" rfl) createMain rfl) dropMain rfl) (.gcApply 2 0) rfl
  have preserved := (excise_preserves_iff id maintained
    (rfl : exciseApply _ 2 "op" 7 (fun _ _ => false) = _)).mpr fun _ tableId k row _ found =>
      absurd (get_eq_some.mp found) not_mem_nil
  obtain ⟨before, after, opened, opened', _, lists⟩ := preserved 2 (by decide) (by decide)
  exact ⟨_, _, _, before, after, maintained, rfl, rfl, rfl, opened, opened', lists⟩

/-- A row of a data file that was deleted before the floor is no longer deleted after the excision. -/
theorem excise_revives_row : ∃ (catalog : Catalog) (result : ExciseResult) (db : Db)
    (before after : CatalogReader), catalog.Maintained Env.trivial ∧
    readRetainFrom catalog.db = 3 ∧ catalog.store.latestSnapshot = 3 ∧
    exciseApply catalog.db 3 "op" 7 (fun _ _ => false) = .ok (result, db) ∧
    catalog.store.readAt catalog.db 3 = .ok before ∧ catalog.store.readAt db 3 = .ok after ∧
    (before.listDataFiles 2).map (·.path) = ["f.parquet"] ∧
    (before.listInlinedDeletes 2).map (·.rowId) = [0] ∧
    (after.listDataFiles 2).map (·.path) = ["f.parquet"] ∧ after.listInlinedDeletes 2 = [] :=
  ⟨_, _, _, _, _, .upkeep (.session (.session (.session (.opened "a" rfl) createOrders rfl)
    ⟨[.staging (.registerDataFile 2 (.parquet "f.parquet" 1 10)),
    .staging (.registerInlinedDelete 2 1 0)], {}⟩ rfl) ⟨[.staging (.createSchema "other" "77aa")],
    {}⟩ rfl) (.gcApply 3 0) rfl, rfl, rfl, rfl, rfl, rfl, rfl, rfl, rfl, rfl⟩

/-- The plan of an excision spares the files that a retained snapshot shows exactly if each file
begun before the given snapshot shares its path only with files that are out of sight from the
floor on. -/
theorem plan_spares_visible_iff (catalog : Catalog) (beforeSnapshot : Nat) :
    (∀ path ∈ (excisePlan catalog.db beforeSnapshot).dataFilesEligible,
      ∀ k row, catalog.db.get .dataFile k = some row → row.path = path →
        ∀ snapshot, readRetainFrom catalog.db ≤ snapshot → snapshot ≤ catalog.store.latestSnapshot →
          isVisible (row.beginSnapshot.getD 0) row.endSnapshot snapshot = false) ↔
    ∀ k row k' row', catalog.db.get .dataFile k = some row →
      row.beginSnapshot.getD 0 < beforeSnapshot → catalog.db.get .dataFile k' = some row' →
      row'.path = row.path → max (readRetainFrom catalog.db) (row'.beginSnapshot.getD 0) ≤
        catalog.store.latestSnapshot → ∃ ended, row'.endSnapshot = some ended ∧
          ended ≤ max (readRetainFrom catalog.db) (row'.beginSnapshot.getD 0) := by
  have eligible : ∀ path, path ∈ (excisePlan catalog.db beforeSnapshot).dataFilesEligible ↔
      ∃ k row, catalog.db.get .dataFile k = some row ∧ row.beginSnapshot.getD 0 < beforeSnapshot ∧
        row.path = path := by
    intro path
    simp only [excisePlan, findExcisableDataFiles, mem_map, mem_filter, decide_eq_true_eq]
    constructor
    · rintro ⟨⟨k, row⟩, ⟨scanned, begun⟩, rfl⟩
      exact ⟨k, row, Db.mem_scan.mp scanned, begun, rfl⟩
    · rintro ⟨k, row, found, begun, rfl⟩
      exact ⟨(k, row), ⟨Db.mem_scan.mpr found, begun⟩, rfl⟩
  constructor
  · intro spared k row k' row' found begun found' same
    exact isVisible_outside.mp
      (spared _ ((eligible _).mpr ⟨k, row, found, begun, rfl⟩) k' row' found' same)
  · intro ended path listed k' row' found' same
    obtain ⟨k, row, found, begun, rfl⟩ := (eligible path).mp listed
    exact isVisible_outside.mpr (ended k row k' row' found begun found' same)

/-- A live data file is planned for deletion. -/
theorem plan_lists_live : ∃ (catalog : Catalog) (reader : CatalogReader),
    catalog.Maintained Env.trivial ∧ readRetainFrom catalog.db = 3 ∧
    catalog.store.latestSnapshot = 3 ∧
    (excisePlan catalog.db 3).isSafe = true ∧
    (excisePlan catalog.db 3).dataFilesEligible = ["f.parquet"] ∧
    catalog.store.readAt catalog.db 3 = .ok reader ∧
    (reader.listDataFiles 2).map (·.path) = ["f.parquet"] :=
  ⟨_, _, .upkeep (.session (.session (.session (.opened "a" rfl) createOrders rfl) ⟨[.staging
    (.registerDataFile 2 (.parquet "f.parquet" 1 10))], {}⟩ rfl)
    ⟨[.staging (.createSchema "other" "77aa")], {}⟩ rfl) (.gcApply 3 0)
    rfl, rfl, rfl, rfl, rfl, rfl, rfl⟩

end Catalog

end RockLake
