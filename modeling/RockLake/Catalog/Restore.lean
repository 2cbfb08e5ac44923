import RockLake.Catalog.Listings
import RockLake.Catalog.Maintenance

/-! What restoring a checkpoint does to the listings of a catalog that was written to and
checkpointed. At the new latest snapshot a reader gets the rows that were live before the restore,
without those of six kinds that began after the checkpoint; rows retired since the checkpoint do not
come back, and rows of other kinds stay. At earlier snapshots the rows begun after the checkpoint
change their end. -/
namespace RockLake

open Option CatalogStore Db OrderedMap

def MaintenanceEvent.checkpoints : MaintenanceEvent → Bool
  | .writer _ => true
  | .upkeep (.createCheckpoint ..) => true
  | _ => false

def Catalog.CheckpointStep (env : Env) (catalog : Catalog) (event : MaintenanceEvent)
    (catalog' : Catalog) : Prop :=
  Catalog.Maintain env catalog event catalog' ∧ event.checkpoints = true

def Catalog.Checkpointed (env : Env) (catalog : Catalog) : Prop := catalog.ReachedBy (CheckpointStep env)

namespace Catalog

variable {env : Env} {catalog catalog' : Catalog}

/-- A valid catalog whose checkpoints are of committed snapshots. -/
structure Marked (catalog : Catalog) : Prop where
  valid : catalog.Valid
  marks : ∀ k info, catalog.db.get .checkpoint k = some info →
    info.snapshotId < catalog.store.counters.nextSnapshotId

theorem Valid.checkpointSnapshot (valid : catalog.Valid) :
    checkpointSnapshot catalog.db = catalog.store.latestSnapshot := by
  have positive := valid.positive
  have latest := valid.latest
  simp only [RockLake.checkpointSnapshot, (loadCounters_ok.mp valid.loaded).1]
  split <;> omega

theorem Valid.createCheckpoint (valid : catalog.Valid) {db : Db}
    (applied : (UpkeepCall.createCheckpoint millis createdAt label).apply catalog.db = .ok db) :
    Valid ⟨db, catalog.store⟩ := by
  refine valid.ofAside (fun f read => UpkeepCall.apply_family applied ?_)
    (UpkeepCall.apply_counters applied rfl)
  cases f <;> first | contradiction | simp [UpkeepCall.touched]

theorem Marked.step (marked : catalog.Marked) (stepped : CheckpointStep env catalog event catalog') :
    catalog'.Marked := by
  obtain ⟨stepped, checkpoints⟩ := stepped
  cases stepped with
  | writer stepped =>
    refine ⟨marked.valid.step stepped, fun k info found => ?_⟩
    rw [get_of_family (stepped.tended marked.valid.format rfl)] at found
    exact (marked.marks k info found).trans_le (stepped.snapshot_le marked.valid)
  | @upkeep call db applied =>
    cases call with
    | createCheckpoint millis createdAt label =>
      refine ⟨marked.valid.createCheckpoint applied, fun k info found => ?_⟩
      have latest := marked.valid.latest
      cases applied
      by_cases same : k = checkpointKey (createCheckpoint catalog.db millis createdAt label).1.id
      · subst same
        cases found.symm.trans (get_put_same _ _ _)
        simp only [marked.valid.checkpointSnapshot]
        omega
      · exact marked.marks k info ((get_put_key _ _ same).symm.trans found)
    | _ => contradiction
  | updateRetainFromCache => contradiction

theorem Checkpointed.marked (reached : catalog.Checkpointed env) : catalog.Marked := by
  obtain ⟨nonce, store, db, events, opened, ran⟩ := reached
  refine ran.invariant Marked (fun _ _ _ marked stepped => marked.step stepped) ?_
  refine ⟨initial_valid opened, fun k info found => ?_⟩
  rw [get_of_family (openCatalog_initial opened (by decide) (by decide))] at found
  contradiction

end Catalog

def Family.clearSpan : (f : Family) → f.Row → f.Row
  | .schema, row => { row with beginSnapshot := 0, endSnapshot := none }
  | .table, row => { row with beginSnapshot := 0, endSnapshot := none }
  | .column, row => { row with beginSnapshot := 0, endSnapshot := none }
  | .view, row => { row with beginSnapshot := 0, endSnapshot := none }
  | .macros, row => { row with beginSnapshot := 0, endSnapshot := none }
  | .dataFile, row => { row with beginSnapshot := none, endSnapshot := none }
  | .dataFileBySnapshot, row => { row with beginSnapshot := none, endSnapshot := none }
  | .deleteFile, row => { row with beginSnapshot := none, endSnapshot := none }
  | .partitionInfo, row => { row with beginSnapshot := 0, endSnapshot := none }
  | .sortInfo, row => { row with beginSnapshot := 0, endSnapshot := none }
  | .tag, row => { row with beginSnapshot := 0, endSnapshot := none }
  | .columnTag, row => { row with beginSnapshot := 0, endSnapshot := none }
  | .inlinedInsert, row => { row with beginSnapshot := 0, endSnapshot := none }
  | .inlinedDelete, row => { row with beginSnapshot := 0 }
  | _, row => row

def logical (answer : List AnyRow) : List AnyRow := answer.map fun x => ⟨x.1, x.1.clearSpan x.2⟩

def restoreRow (checkpointSnapshotId hideSnapshot : Nat) (f : Family) (row : f.Row) : f.Row :=
  if f ∈ Family.restorable then f.hide checkpointSnapshotId hideSnapshot row else row

/-- The store without the rows of the restored kinds that began after a snapshot. -/
def Db.upTo (db : Db) (snapshot : Nat) : Db := fun f =>
  if f ∈ Family.restorable then (db f).restrict fun _ row => f.beginOf row ≤ snapshot else db f

section Rows

variable {db : Db} {f : Family} {k : Key} {row : f.Row}

theorem Family.retirable_of_restorable (restorable : f ∈ Family.restorable) : f.retirable = true := by
  revert restorable
  cases f <;> decide

theorem Family.hide_of_begun (begun : f.beginOf row ≤ p) : f.hide p h row = row := by
  simp [Family.hide, Family.postCheckpoint, Nat.not_lt.mpr begun]

theorem restoreRow_restorable (restorable : f ∈ Family.restorable) :
    restoreRow p h f = f.hide p h := by
  funext row
  exact if_pos restorable

theorem restoreRow_other (other : f ∉ Family.restorable) : restoreRow p h f = id := by
  funext row
  exact if_neg other

theorem restoreRow_of_begun (begun : f.beginOf row ≤ p) : restoreRow p h f row = row := by
  simp [restoreRow, Family.hide_of_begun begun]

theorem restoreRow_retouches (p h : Nat) : Retouches (restoreRow p h) := by
  intro f row
  simp only [restoreRow, Family.hide]
  split
  · split
    · exact ⟨some h, rfl⟩
    · exact ⟨f.endOf row, (Family.setEnd_endOf row).symm⟩
  · exact ⟨f.endOf row, (Family.setEnd_endOf row).symm⟩

theorem hidden_get (notCounter : f ≠ .counter) (k : Key) :
    ((hidePostCheckpointFacts db p h).put ⟨.counter, keyCounter counterNextSnapshotId, h + 1⟩).get f k =
      (db.get f k).map (restoreRow p h f) := by
  rw [get_of_family (put_family _ _ notCounter), hidePostCheckpointFacts_get]
  split
  · rename_i restorable
    rw [restoreRow_restorable restorable]
  · rename_i other
    rw [restoreRow_other other, map_id_fun, id_eq]

theorem Db.upTo_get (f : Family) (k : Key) : (db.upTo p).get f k =
    if f ∈ Family.restorable then (db.get f k).filter fun row => f.beginOf row ≤ p
    else db.get f k := by
  simp only [Db.get, Db.upTo]
  split
  · exact get_restrict _ _ k
  · rfl

theorem Db.Sound.upTo (sound : db.Sound c) (p : Nat) : (db.upTo p).Sound c := by
  intro f k row found
  rw [upTo_get] at found
  split at found
  · exact sound f k row (filter_eq_some_iff.mp found).1
  · exact sound f k row found

theorem Family.Fits.restored (fits : f.Fits c k row) (p : Nat) :
    f.Fits { c with nextSnapshotId := c.nextSnapshotId + 1 } k
      (restoreRow p c.nextSnapshotId f row) := by
  have later : c.Le { c with nextSnapshotId := c.nextSnapshotId + 1 } :=
    ⟨Nat.le_succ _, le_rfl, le_rfl⟩
  simp only [RockLake.restoreRow, Family.hide]
  split
  · rename_i restorable
    split
    · refine ⟨(fits.keyed.mono later).setEnd _, fun versioned => ?_, fun ended found => ?_⟩
      · rw [Family.beginOf_setEnd]
        exact (fits.mono later).begun versioned
      · rw [Family.endOf_setEnd (retirable_of_restorable restorable), some.injEq] at found
        exact found ▸ Nat.lt_succ_self _
    · exact fits.mono later
  · exact fits.mono later

theorem Db.Consistent.restored {db' : Db} (consistent : db.Consistent c)
    (rows : ∀ f, f.booked = false → ∀ k,
      db'.get f k = (db.get f k).map (restoreRow p c.nextSnapshotId f)) :
    db'.Consistent { c with nextSnapshotId := c.nextSnapshotId + 1 } := by
  have table : ∀ k row, db'.get .table k = some row → ∃ old, db.get .table k = some old ∧
      row.tableId = old.tableId ∧ row.schemaId = old.schemaId := by
    intro k row found
    rw [rows .table rfl, map_eq_some_iff] at found
    obtain ⟨old, stored, rfl⟩ := found
    obtain ⟨ended, same⟩ := restoreRow_retouches p c.nextSnapshotId .table old
    rw [same]
    exact ⟨old, stored, rfl, rfl⟩
  have other : ∀ f, f.booked = false → f ∉ Family.restorable → ∀ k, db'.get f k = db.get f k := by
    intro f unbooked notRestorable k
    rw [rows f unbooked, restoreRow_other notRestorable, map_id_fun, id_eq]
  refine ⟨?_, ⟨⟨?_, ?_⟩, ?_, ?_⟩⟩
  · intro f k row found
    cases booked : f.booked with
    | true => exact Family.fits_of_aside (by simp [Family.aside, booked]) _ k row
    | false =>
      rw [rows f booked, map_eq_some_iff] at found
      obtain ⟨old, stored, rfl⟩ := found
      exact (consistent.sound f k old stored).restored p
  · intro k row found
    rw [other .dataFile rfl (by decide)] at found
    rw [other .dataFileBySnapshot rfl (by decide)]
    exact consistent.linked.mirrored.indexed k row found
  · intro k row found
    rw [other .dataFileBySnapshot rfl (by decide)] at found
    rw [other .dataFile rfl (by decide)]
    exact consistent.linked.mirrored.stored k row found
  · intro k row found
    obtain ⟨old, stored, ident, owner⟩ := table k row found
    rw [other .tableById rfl (by decide), ident, owner]
    exact consistent.linked.indexed k old stored
  · intro k row k' row' found found' same
    obtain ⟨old, stored, ident, _⟩ := table k row found
    obtain ⟨old', stored', ident', _⟩ := table k' row' found'
    exact consistent.linked.single k old k' old' stored stored' (by rw [← ident, ← ident', same])

/-- Where the restored catalog is read, a row shows exactly if it was live before and, for the restored
kinds, begun by the checkpoint; and then it is the row of before. The catalog is read at the
identifier left out, or at the latest snapshot if the checkpoint was of that one. -/
theorem Family.Fits.shown_restored (fits : f.Fits c k row) {latest snapshot : Nat}
    (next : latest + 1 = c.nextSnapshotId)
    (read : c.nextSnapshotId ≤ snapshot ∨ snapshot = latest ∧ c.nextSnapshotId ≤ p + 1) :
    (some (restoreRow p c.nextSnapshotId f row)).filter (fun row =>
        isVisible (f.beginOf row) (f.endOf row) snapshot) =
      (if f ∈ Family.restorable then (some row).filter fun row => f.beginOf row ≤ p
        else some row).filter fun row => isVisible (f.beginOf row) (f.endOf row) latest := by
  have reached : c.nextSnapshotId ≤ snapshot + 1 := by omega
  have now := fits.visible_latest reached
  have past := fits.visible_latest next.ge
  by_cases restorable : f ∈ Family.restorable
  · by_cases begun : f.beginOf row ≤ p
    · simp [restorable, begun, restoreRow_of_begun begun, Option.filter, now, past]
    · have retires := Family.retirable_of_restorable restorable
      have earlier := fits.begun (Family.versioned_of_retirable retires)
      have ended : ¬ snapshot < c.nextSnapshotId := by omega
      simp only [restorable, if_true, Option.filter, begun, decide_false, Bool.false_eq_true, if_false]
      rw [restoreRow_restorable restorable, Family.hide]
      split
      · simp [Family.endOf_setEnd retires, isVisible, ended]
      rename_i kept
      have retired : f.endOf row ≠ none := by
        rintro live
        simp [Family.postCheckpoint, live, Nat.lt_of_not_le begun] at kept
      simp [now, retired]
  · simp [restorable, restoreRow_other restorable, Option.filter, now, past]

/-- At a snapshot that no row begun after the checkpoint was retired by, a restore changes ends
only. -/
theorem restoreRow_shown (committed : snapshot < h)
    (unretired : f ∈ Family.restorable → p < f.beginOf row → ∀ ended, f.endOf row = some ended → snapshot < ended) :
    (some (restoreRow p h f row)).filter (fun row =>
        isVisible (f.beginOf row) (f.endOf row) snapshot) =
      ((some row).filter fun row => isVisible (f.beginOf row) (f.endOf row) snapshot).map
        (restoreRow p h f) := by
  by_cases same : restoreRow p h f row = row
  · simp only [same, Option.filter]
    split <;> simp [same]
  · have restorable : f ∈ Family.restorable := by
      by_contra other
      exact same (congrFun (restoreRow_other other) row)
    have begun : p < f.beginOf row := by
      by_contra early
      exact same (restoreRow_of_begun (Nat.le_of_not_lt early))
    have visible : isVisible (f.beginOf (restoreRow p h f row))
        (f.endOf (restoreRow p h f row)) snapshot =
          isVisible (f.beginOf row) (f.endOf row) snapshot := by
      rw [restoreRow_restorable restorable, Family.hide]
      split
      · rw [Family.beginOf_setEnd, Family.endOf_setEnd (Family.retirable_of_restorable restorable)]
        cases ended : f.endOf row with
        | none => simp [isVisible, committed]
        | some e => simp [isVisible, committed, unretired restorable begun e ended]
      · rfl
    simp only [Option.filter, visible]
    split <;> rfl

end Rows

namespace Catalog

variable {env : Env} {catalog : Catalog} {checkpointId : Nat} {info : CheckpointMetadata} {db : Db}

theorem Marked.hideSnapshot (marked : catalog.Marked) (info : CheckpointMetadata) :
    hideSnapshot catalog.db info = catalog.store.counters.nextSnapshotId := by
  simp [RockLake.hideSnapshot, (loadCounters_ok.mp marked.valid.loaded).1]

theorem Marked.restored (marked : catalog.Marked)
    (restored : restoreCheckpoint catalog.db checkpointId = .ok (info, db)) :
    info.snapshotId < catalog.store.counters.nextSnapshotId ∧
      (∀ f, f.booked = false → ∀ k, db.get f k =
        (catalog.db.get f k).map (restoreRow info.snapshotId catalog.store.counters.nextSnapshotId f)) ∧
      (∀ f, f.booked = true → f ≠ .counter → db f = catalog.db f) ∧
      ∃ next, loadCounters db = .ok { catalog.store.counters with nextSnapshotId := next } ∧
        (next = catalog.store.counters.nextSnapshotId + 1 ∨
          next = catalog.store.counters.nextSnapshotId ∧ next ≤ info.snapshotId + 1) := by
  obtain ⟨found, outcome⟩ := restoreCheckpoint_ok restored
  refine ⟨marked.marks _ info found, ?_⟩
  rw [marked.hideSnapshot] at outcome
  rcases outcome with ⟨current, rfl⟩ | ⟨later, rfl⟩
  · refine ⟨?_, fun _ _ _ => rfl, _, marked.valid.loaded, .inr ⟨rfl, current⟩⟩
    intro f _ k
    cases stored : catalog.db.get f k with
    | none => rfl
    | some row =>
      have fits := marked.valid.consistent.sound f k row stored
      have same : restoreRow info.snapshotId catalog.store.counters.nextSnapshotId f row = row := by
        by_cases restorable : f ∈ Family.restorable
        · have begun := fits.begun
            (Family.versioned_of_retirable (Family.retirable_of_restorable restorable))
          exact restoreRow_of_begun (by omega)
        · exact congrFun (restoreRow_other restorable) row
      rw [map_some, same]
  · refine ⟨fun f unbooked k => hidden_get (by rintro rfl; contradiction) k, ?_, _,
      loadCounters_hidden marked.valid.loaded _ _ _, .inl rfl⟩
    intro f booked notCounter
    rw [put_family _ _ notCounter]
    refine ext_get fun k => (hidePostCheckpointFacts_get f k).trans (if_neg ?_)
    cases f <;> first | decide | contradiction

theorem Marked.reopened (marked : catalog.Marked)
    (restored : restoreCheckpoint catalog.db checkpointId = .ok (info, db)) {store}
    (opened : CatalogStore.openCatalog db nonce = .ok (store, db')) :
    (∀ f, f.booked = false → ∀ k, db'.get f k = (catalog.db.get f k).map
      (restoreRow info.snapshotId catalog.store.counters.nextSnapshotId f)) ∧
      (catalog.store.counters.nextSnapshotId ≤ store.latestSnapshot ∨
        store.latestSnapshot = catalog.store.latestSnapshot ∧
          catalog.store.counters.nextSnapshotId ≤ info.snapshotId + 1) := by
  obtain ⟨_, rows, records, next, loaded, counted⟩ := marked.restored restored
  have format := (get_of_family (records .catalogFormatVersion rfl (by decide)) keySystem).trans
    marked.valid.format
  obtain ⟨c, epoch, loaded', acquired, rfl⟩ := openCatalog_ok format opened
  obtain ⟨_, _, _, other⟩ := acquireEpoch_ok acquired
  cases loaded.symm.trans loaded'
  refine ⟨fun f unbooked k => ?_, ?_⟩
  · rw [← rows f unbooked]
    exact get_of_family (other f (by rintro rfl; contradiction) (by rintro rfl; contradiction)) k
  · rw [latestSnapshot_eq, latestSnapshot_eq]
    simp only [finishOpen]
    omega

/-- The reader of the restored catalog is shown what a reader of the latest snapshot before the
restore would be shown without the rows of the restored kinds begun after the checkpoint. -/
theorem Marked.list_restored (hashOrder : List Nat → List Nat) (marked : catalog.Marked)
    (restored : restoreCheckpoint catalog.db checkpointId = .ok (info, db)) {nonce : String}
    {store} (opened : CatalogStore.openCatalog db nonce = .ok (store, db'))
    (l : Listing) : (store.readLatest db').list hashOrder l =
      (⟨catalog.db.upTo info.snapshotId, catalog.store.latestSnapshot⟩ : CatalogReader).list
        hashOrder l := by
  obtain ⟨rows, read⟩ := marked.reopened restored opened
  have sound := marked.valid.consistent.sound
  refine (CatalogReader.list_shown hashOrder Retouches.refl (sound.upTo _)
    (marked.valid.consistent.restored rows).sound ?_ l).trans (List.map_id _)
  intro f unbooked k
  rw [map_id', CatalogReader.shown, CatalogReader.shown, upTo_get]
  simp only [readLatest, rows f unbooked]
  cases stored : catalog.db.get f k with
  | none => simp
  | some row => exact (sound f k row stored).shown_restored marked.valid.latest read

/-- Restoring a checkpoint reproduces a listing exactly if the rows that were live at the latest
snapshot before the restore, without those of the restored kinds begun after the checkpoint, gave
the same logical rows already. -/
theorem restore_reproduces_iff (hashOrder : List Nat → List Nat) (reached : catalog.Checkpointed env)
    (restored : restoreCheckpoint catalog.db checkpointId = .ok (info, db)) {nonce : String}
    {store db'} (opened : CatalogStore.openCatalog db nonce = .ok (store, db'))
    (l : Listing) :
    ∃ before, catalog.store.readAt catalog.db info.snapshotId = .ok before ∧
      (logical ((store.readLatest db').list hashOrder l) = logical (before.list hashOrder l) ↔
        logical ((⟨catalog.db.upTo info.snapshotId, catalog.store.latestSnapshot⟩ :
          CatalogReader).list hashOrder l) = logical (before.list hashOrder l)) := by
  have marked := reached.marked
  refine ⟨⟨catalog.db, info.snapshotId⟩, ?_, ?_⟩
  · simp [readAt, marked.valid.cached]
  · rw [marked.list_restored hashOrder restored opened]

/-- A schema created after the checkpoint is gone after the restore. -/
theorem restore_reproduces_created : ∃ (catalog : Catalog) (info : CheckpointMetadata) (db db' : Db)
    (store : CatalogStore) (before : CatalogReader), catalog.Checkpointed Env.trivial ∧
    restoreCheckpoint catalog.db 5 = .ok (info, db) ∧
    CatalogStore.openCatalog db "b" = .ok (store, db') ∧
    catalog.store.readAt catalog.db info.snapshotId = .ok before ∧
    catalog.store.latestSnapshot = 2 ∧ info.snapshotId = 1 ∧
    logical ((store.readLatest db').list id .schemas) = logical (before.list id .schemas) := by
  have reached : Catalog.Checkpointed Env.trivial _ :=
    ⟨"a", _, _, [.writer (.session createMain), .upkeep (.createCheckpoint 5 "" none), .writer
      (.session ⟨[.staging (.createSchema "extra" "77aa")], {}⟩)], rfl, .next ⟨.writer (.session
      rfl), rfl⟩ (.next ⟨.upkeep rfl, rfl⟩ (.next ⟨.writer (.session rfl), rfl⟩ .done))⟩
  obtain ⟨before, read, reproduces⟩ := restore_reproduces_iff id reached
    (rfl : restoreCheckpoint _ 5 = _) (rfl : openCatalog _ "b" = _) .schemas
  refine ⟨_, _, _, _, _, before, reached, rfl, rfl, read, rfl, rfl, reproduces.mpr ?_⟩
  cases read
  rfl

/-- A schema dropped after the checkpoint does not come back. -/
theorem restore_forgets_dropped : ∃ (catalog : Catalog) (info : CheckpointMetadata) (db db' : Db)
    (store : CatalogStore) (before : CatalogReader), catalog.Checkpointed Env.trivial ∧
    restoreCheckpoint catalog.db 5 = .ok (info, db) ∧ info.snapshotId = 1 ∧
    CatalogStore.openCatalog db "b" = .ok (store, db') ∧
    catalog.store.readAt catalog.db 1 = .ok before ∧
    before.listSchemas.map (·.schemaName) = ["main"] ∧ (store.readLatest db').listSchemas = [] :=
  ⟨_, _, _, _, _, _, ⟨"a", _, _, [.writer (.session createMain), .upkeep (.createCheckpoint 5 ""
    none), .writer (.session dropMain)], rfl, .next ⟨.writer (.session rfl), rfl⟩ (.next ⟨.upkeep
    rfl, rfl⟩ (.next ⟨.writer (.session rfl), rfl⟩ .done))⟩, rfl, rfl, rfl, rfl, rfl, rfl⟩

/-- At a snapshot committed before the restore, by which no row of the restored kinds begun after the
checkpoint was retired, every listing gives the rows of before in the same order, with new ends for
the rows begun after the checkpoint. -/
theorem restore_keeps_history (hashOrder : List Nat → List Nat) (reached : catalog.Checkpointed env)
    (restored : restoreCheckpoint catalog.db checkpointId = .ok (info, db)) {snapshot : Nat}
    (committed : snapshot < catalog.store.counters.nextSnapshotId)
    (unretired : ∀ f ∈ Family.restorable, ∀ k row ended, catalog.db.get f k = some row →
      info.snapshotId < f.beginOf row → f.endOf row = some ended → snapshot < ended)
    (l : Listing) :
    ∃ before after, catalog.store.readAt catalog.db snapshot = .ok before ∧
      catalog.store.readAt db snapshot = .ok after ∧
      after.list hashOrder l = (before.list hashOrder l).map (CatalogReader.retouch
        (restoreRow info.snapshotId catalog.store.counters.nextSnapshotId)) := by
  have marked := reached.marked
  obtain ⟨_, rows, _⟩ := marked.restored restored
  have sound := marked.valid.consistent.sound
  refine ⟨⟨catalog.db, snapshot⟩, ⟨db, snapshot⟩, by simp [readAt, marked.valid.cached],
    by simp [readAt, marked.valid.cached], ?_⟩
  refine CatalogReader.list_shown hashOrder (restoreRow_retouches _ _) sound
    (marked.valid.consistent.restored rows).sound (fun f unbooked k => ?_) l
  simp only [CatalogReader.shown, rows f unbooked]
  cases stored : catalog.db.get f k with
  | none => rfl
  | some row =>
    exact restoreRow_shown committed fun restorable begun ended retired =>
      unretired f restorable k row ended stored begun retired

/-- The schema created after the checkpoint is listed as before at its snapshot, with an end. -/
theorem restore_keeps_created : ∃ (catalog : Catalog) (info : CheckpointMetadata) (db : Db)
    (before after : CatalogReader), catalog.Checkpointed Env.trivial ∧
    restoreCheckpoint catalog.db 5 = .ok (info, db) ∧
    catalog.store.readAt catalog.db 1 = .ok before ∧ catalog.store.readAt db 1 = .ok after ∧
    before.listSchemas.length = 1 ∧
    after.list id .schemas = (before.list id .schemas).map (CatalogReader.retouch
      (restoreRow info.snapshotId catalog.store.counters.nextSnapshotId)) := by
  have reached : Catalog.Checkpointed Env.trivial _ := ⟨"a", _, _,
    [.upkeep (.createCheckpoint 5 "" none), .writer (.session createMain)], rfl,
    .next ⟨.upkeep rfl, rfl⟩ (.next ⟨.writer (.session rfl), rfl⟩ .done)⟩
  obtain ⟨before, after, read, read', kept⟩ := restore_keeps_history id reached
    (rfl : restoreCheckpoint _ 5 = _) (Nat.le_refl 2)
    (fun f restorable k row ended stored _ retired => by
      simp only [Family.restorable, List.mem_cons, List.not_mem_nil, or_false] at restorable
      have member := get_eq_some.mp stored
      rcases restorable with rfl | rfl | rfl | rfl | rfl | rfl
      · cases List.mem_singleton.mp member
        cases retired
      all_goals cases member) .schemas
  cases read
  exact ⟨_, _, _, _, after, reached, rfl, rfl, read', rfl, kept⟩

/-- A restore to before the schema was created, after it was dropped: its row ends later at snapshot
1, and it is listed at snapshot 2, at which it was dropped. -/
theorem restore_changes_history : ∃ (catalog : Catalog) (info : CheckpointMetadata) (db : Db)
    (first first' second second' : CatalogReader), catalog.Checkpointed Env.trivial ∧
    restoreCheckpoint catalog.db 5 = .ok (info, db) ∧ info.snapshotId = 0 ∧
    catalog.store.readAt catalog.db 1 = .ok first ∧ catalog.store.readAt db 1 = .ok first' ∧
    catalog.store.readAt catalog.db 2 = .ok second ∧ catalog.store.readAt db 2 = .ok second' ∧
    first.listSchemas.map (·.endSnapshot) = [some 2] ∧
    first'.listSchemas.map (·.endSnapshot) = [some 3] ∧
    second.listSchemas = [] ∧ second'.listSchemas.map (·.schemaName) = ["main"] :=
  ⟨_, _, _, _, _, _, _, ⟨"a", _, _, [.upkeep (.createCheckpoint 5 "" none),
    .writer (.session createMain), .writer (.session dropMain)], rfl,
    .next ⟨.upkeep rfl, rfl⟩ (.next ⟨.writer (.session rfl), rfl⟩
      (.next ⟨.writer (.session rfl), rfl⟩ .done))⟩, rfl, rfl, rfl, rfl, rfl, rfl, rfl, rfl, rfl, rfl⟩

end Catalog

end RockLake
