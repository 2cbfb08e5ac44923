import RockLake.Catalog.Consistency
import RockLake.Catalog.Diagnosis
import RockLake.Catalog.FileRanges

/-! What goes on through restarts, restores, collections and excisions: the numbers of snapshots, the
floor, and the indexes. -/
namespace RockLake.Catalog

open CatalogWriter CatalogStore UpkeepCall

variable {env : Env} {catalog catalog' : Catalog}

/-- How many of the events are committed sessions. -/
def sessions (events : List MaintenanceEvent) : Nat :=
  events.countP fun | .writer (.session _) => true | _ => false

theorem Upheld.advance (upheld : catalog.Upheld) (loaded : loadCounters catalog.db = .ok c)
    (stepped : MaintainInStep env catalog event catalog') :
    readRetainFrom catalog.db ≤ readRetainFrom catalog'.db ∧ ∃ d, loadCounters catalog'.db = .ok d ∧
      c.nextSnapshotId + sessions [event] ≤ d.nextSnapshotId := by
  obtain ⟨inStep, stepped⟩ := stepped
  cases stepped with
  | writer stepped =>
    refine ⟨(readRetainFrom_congr (stepped.tended upheld.tended.format rfl)).ge, ?_⟩
    cases stepped with
    | session committed =>
      obtain ⟨row, _, _, _, _, stored, next, up⟩ := Session.commit_version committed
      cases loaded.symm.trans (inStep _ rfl)
      exact ⟨_, stored, (next ▸ up).ge⟩
    | abandon =>
      exact ⟨c, (loadCounters_congr fun id => runCalls_counter _ _ _ _ id).trans loaded, le_rfl⟩
    | reopen opened =>
      obtain ⟨d, epoch, stored, acquired, rfl⟩ := openCatalog_ok upheld.tended.format opened
      obtain ⟨_, _, _, other⟩ := acquireEpoch_ok acquired
      refine ⟨c, (loadCounters_congr fun id => ?_).trans loaded, le_rfl⟩
      exact Db.get_of_family (other .counter (by decide) (by decide)) _
  | upkeep applied =>
    rw [apply_floor applied]
    exact ⟨le_raises _ _, apply_next applied loaded⟩
  | updateRetainFromCache => exact ⟨le_rfl, c, loaded, le_rfl⟩

/-- Between any two points of a maintained history the floor has not gone down, and the stored snapshot
counter has gone up by at least the number of sessions committed in between: no number of a snapshot
comes back, whatever is restored, collected, excised or opened again. -/
theorem snapshot_numbers_advance (reached : catalog.MaintainedInStep env)
    (ran : Run (MaintainInStep env) catalog events catalog') :
    readRetainFrom catalog.db ≤ readRetainFrom catalog'.db ∧ ∃ c d,
      loadCounters catalog.db = .ok c ∧ loadCounters catalog'.db = .ok d ∧
        c.nextSnapshotId + sessions events ≤ d.nextSnapshotId := by
  have upheld := reached.upheld
  clear reached
  induction ran with
  | done =>
    obtain ⟨c, loaded, _⟩ := upheld.stored
    exact ⟨le_rfl, c, c, loaded, loaded, le_rfl⟩
  | @next _ _ _ event events stepped _ ih =>
    obtain ⟨c, loaded, _⟩ := upheld.stored
    obtain ⟨floor, d, loaded', first⟩ := upheld.advance loaded stepped
    obtain ⟨floor', _, e, again, last, rest⟩ := ih (upheld.step stepped)
    cases again.symm.trans loaded'
    have counted : sessions (event :: events) = sessions [event] + sessions events :=
      @List.countP_append _ _ [event] events
    exact ⟨floor.trans floor', c, e, loaded, last, by omega⟩

/-- A restore that undoes the registration of two files, which are then registered by a new writer. -/
def restoredOrders : List MaintenanceEvent :=
  [.upkeep (.createCheckpoint 5 "" none), .writer (.session registerTwo), .upkeep (.restoreCheckpoint 5),
    .writer (.reopen "b"), .writer (.session registerTwo)]

theorem restoredOrders_run : ∃ begun catalog row, Catalog.MaintainedInStep Env.trivial begun ∧
    Run (MaintainInStep Env.trivial) begun restoredOrders catalog ∧
    catalog.db.get .dataFile (keyDataFile 2 1) = some row ∧ row.tableId = 2 ∧
    row.beginSnapshot = some 2 ∧ row.endSnapshot = none :=
  ⟨_, _, _, ⟨"a", _, _, [.writer (.session createOrders)], rfl, .single ⟨fun _ _ => rfl, .writer
    (.session rfl)⟩⟩, .next ⟨nofun, .upkeep rfl⟩ (.next ⟨fun _ _ => rfl, .writer (.session rfl)⟩ (.next
    ⟨nofun, .upkeep rfl⟩ (.next ⟨nofun, .writer (.reopen rfl)⟩ (.single ⟨fun _ _ => rfl, .writer
    (.session rfl)⟩)))), rfl, rfl, rfl, rfl⟩

theorem snapshot_numbers_advance_restore : ∃ begun catalog c d,
    Catalog.MaintainedInStep Env.trivial begun ∧
    Run (MaintainInStep Env.trivial) begun restoredOrders catalog ∧ loadCounters begun.db = .ok c ∧
    loadCounters catalog.db = .ok d ∧ c.nextSnapshotId + 2 ≤ d.nextSnapshotId := by
  obtain ⟨begun, catalog, _, reached, ran, _⟩ := restoredOrders_run
  obtain ⟨_, c, d, first, last, advanced⟩ := snapshot_numbers_advance reached ran
  exact ⟨begun, catalog, c, d, reached, ran, first, last, advanced⟩

/-- Over maintained histories the check of the data file index finds no gap, the index lists exactly the
canonical rows in sight, each once, and a table is found through its index as by a scan. -/
theorem indexes_agree (reached : catalog.MaintainedInStep env) (tableId snapshot : Nat) :
    (checkSecondaryIndex catalog.db).1 = [] ∧
    ((CatalogReader.mk catalog.db snapshot).listDataFiles tableId).Nodup ∧
    (∀ row, row ∈ (CatalogReader.mk catalog.db snapshot).listDataFiles tableId ↔
      ∃ k, catalog.db.get .dataFile k = some row ∧ row.tableId = tableId ∧
        row.beginSnapshot.getD 0 ≤ snapshot ∧ ∀ ended, row.endSnapshot = some ended → snapshot < ended) ∧
    (CatalogReader.mk catalog.db snapshot).findTableByIndex tableId =
      (CatalogReader.mk catalog.db snapshot).findTableByScan tableId := by
  obtain ⟨c, _, consistent, _⟩ := reached.upheld.stored
  have mirrored := consistent.linked.mirrored
  have keyed := consistent.sound.indexKeyed
  refine ⟨checkSecondaryIndex_clean.mpr fun k row found => ?_, CatalogReader.listDataFiles_nodup keyed _,
    fun row => CatalogReader.mem_listDataFiles keyed mirrored, CatalogReader.findTableByIndex_eq consistent _⟩
  rw [mirrored.1 k row found]
  rfl

/-- The restore leaves the files of the snapshot it undoes, in the rows and in the index. -/
theorem indexes_agree_restore : ∃ catalog row, Catalog.MaintainedInStep Env.trivial catalog ∧
    row ∈ (CatalogReader.mk catalog.db 3).listDataFiles 2 := by
  obtain ⟨begun, catalog, row, ⟨nonce, store, db, events, opened, before⟩, ran, stored, owner, begins, live⟩ :=
    restoredOrders_run
  have reached : catalog.MaintainedInStep Env.trivial :=
    ⟨nonce, store, db, events ++ restoredOrders, opened, before.append ran⟩
  obtain ⟨_, _, listed, _⟩ := indexes_agree reached 2 3
  refine ⟨catalog, row, reached, (listed row).mpr ⟨_, stored, owner, by simp [begins], ?_⟩⟩
  simp [live]

end RockLake.Catalog
