import RockLake.Catalog.History
import RockLake.Catalog.Reads

/-! Time travel. A reader of a committed snapshot gets the same rows in the same order at every
later point of a careful history, up to the end snapshots that later retirements store in the
returned rows. -/
namespace RockLake

open Family

namespace CatalogReader

/-- The reads of `r'` are the reads of `r` once the end snapshots in them are cleared. The order of
columns whose parent is absent comes from one iteration order of the hash map. -/
structure Replays (hashOrder : List Nat → List Nat) (r r' : CatalogReader) : Prop where
  schemas : r'.listSchemas.map (setEnd .schema none) = r.listSchemas
  tables : ∀ schemaId,
    (r'.listTables schemaId).map (setEnd .table none) = r.listTables schemaId
  description : ∀ tableId, (r'.describeTable hashOrder tableId).map
      (fun d => (setEnd .table none d.1, d.2.map (setEnd .column none))) =
    r.describeTable hashOrder tableId
  dataFiles : ∀ tableId,
    (r'.listDataFiles tableId).map (setEnd .dataFile none) = r.listDataFiles tableId
  deleteFiles : ∀ tableId,
    (r'.listDeleteFiles tableId).map (setEnd .deleteFile none) = r.listDeleteFiles tableId
  inlinedInserts : ∀ tableId,
    (r'.listInlinedInserts tableId).map (setEnd .inlinedInsert none) =
      r.listInlinedInserts tableId
  inlinedDeletes : ∀ tableId, r'.listInlinedDeletes tableId = r.listInlinedDeletes tableId

variable {r r' : CatalogReader}

/-- Readers of one snapshot list the same rows when the snapshot shows the same of each row. -/
theorem listVisible_sameSeen (bound : r'.snapshot = r.snapshot)
    (same : r.db.SameSeen r.snapshot f r'.db) (start : Key) :
    (r'.listVisible f start).map (f.setEnd none) = (r.listVisible f start).map (f.setEnd none) := by
  rw [listVisible_cleared, listVisible_cleared, bound]
  refine OrderedMap.collect_congr fun k => ?_
  by_cases starts : start <+: k
  · simp only [if_pos starts]
    exact same k
  · simp [if_neg starts]

/-- At the latest snapshot every visible row is live, since retirements so far end earlier. -/
theorem listVisible_latest (sound : r.db.Sound c) (latest : c.nextSnapshotId = r.snapshot + 1)
    (f : Family) (start : Key) :
    (r.listVisible f start).map (f.setEnd none) = r.listVisible f start := by
  refine (List.map_congr_left fun row member => ?_).trans (List.map_id _)
  obtain ⟨k, stored, _, visible⟩ := r.mem_listVisible.mp member
  rw [(sound f k row stored).visible_latest latest.le, Option.isNone_iff_eq_none] at visible
  exact visible ▸ setEnd_endOf row

theorem clearColumn_keepsOrder : KeepsOrder (setEnd .column none) :=
  ⟨fun _ => rfl, fun _ => rfl, fun _ => rfl, fun _ => rfl⟩

/-- The reads at the latest snapshot are replayed by every store that shows the same of each row. -/
theorem replays_of_sameSeen (hashOrder : List Nat → List Nat) (bound : r'.snapshot = r.snapshot)
    (consistent : r.db.Consistent c) (consistent' : r'.db.Consistent c')
    (latest : c.nextSnapshotId = r.snapshot + 1)
    (same : ∀ f, f.history = true → r.db.SameSeen r.snapshot f r'.db) : r.Replays hashOrder r' := by
  have listed : ∀ f, f.history = true → ∀ start,
      (r'.listVisible f start).map (f.setEnd none) = r.listVisible f start := fun f inHistory start =>
    (listVisible_sameSeen bound (same f inHistory) start).trans
      (listVisible_latest consistent.sound latest f start)
  have found : ∀ tableId,
      (r'.findTable tableId).map (setEnd .table none) = r.findTable tableId := by
    intro tableId
    have rows := congrArg (List.filter fun row => decide (row.tableId = tableId)) (listed .table rfl [])
    rw [List.filter_map] at rows
    rw [findTable_eq consistent.sound consistent.linked.indexed, findTable_eq consistent'.sound
      consistent'.linked.indexed, ← newest_map (setEnd .table none) (fun _ => rfl)]
    exact congrArg newest rows
  refine ⟨listed .schema rfl [], fun schemaId => listed .table rfl [schemaId], ?_, ?_, ?_,
    fun tableId => listed .inlinedInsert rfl [tableId], ?_⟩
  · intro tableId
    simp [describeTable, ← found tableId, ← listed .column rfl [tableId], currentColumns_map
      clearColumn_keepsOrder.columnId clearColumn_keepsOrder.beginSnapshot, sortColumnsTree_map
      clearColumn_keepsOrder, Function.comp_def]
  · intro tableId
    rw [listDataFiles_eq consistent.sound, listDataFiles_eq consistent'.sound,
      ← listed .dataFileBySnapshot rfl [tableId],
      sortByKey_map _ (setEnd .dataFileBySnapshot none) (fun _ => rfl)]
    rfl
  · intro tableId
    simp only [listDeleteFiles, ← listed .deleteFile rfl [], List.filter_map]
    rfl
  · intro tableId
    have unended : setEnd .inlinedDelete none = id := rfl
    have rows := listed .inlinedDelete rfl [tableId]
    rwa [unended, List.map_id] at rows

end CatalogReader

namespace Catalog

variable {env : Env} {committedAt now : Catalog}

theorem commit_latest {session : Session}
    (committed : session.commit env catalog = .ok (result, committedAt)) :
    committedAt.store.counters.nextSnapshotId = result.snapshotId + 1 := by
  obtain ⟨db, w, _, rfl, _, handle⟩ := session.commit_ok committed
  rw [handle]
  rfl

/-- Time travel: whatever careful history follows the commit of a snapshot, reading at that
snapshot gives what it gave right after the commit, up to the end snapshots of retired rows. -/
theorem readAt_immutable (hashOrder : List Nat → List Nat) {before : Catalog}
    (reachable : before.Reachable env) {session : Session} {result}
    (committed : session.commit env before = .ok (result, committedAt))
    {events : List CatalogEvent} (later : Run (CarefulStep env) committedAt events now) :
    ∃ first last, committedAt.store.readAt committedAt.db result.snapshotId = .ok first ∧
      now.store.readAt now.db result.snapshotId = .ok last ∧ first.Replays hashOrder last := by
  have valid := reachable.valid.ofCommit committed
  have latest := commit_latest committed
  have validNow := valid.run (later.mono fun _ _ _ stepped => stepped.1)
  refine ⟨⟨committedAt.db, result.snapshotId⟩, ⟨now.db, result.snapshotId⟩, ?_, ?_, ?_⟩
  · simp [CatalogStore.readAt, valid.cached]
  · simp [CatalogStore.readAt, validNow.cached]
  · refine CatalogReader.replays_of_sameSeen hashOrder rfl valid.consistent validNow.consistent
      latest fun f inHistory => ?_
    exact valid.seen_run inHistory (latest ▸ Nat.lt_succ_self _) later

/-- A session that creates the schema `main`, which gets the identifier 1 in a new catalog. -/
def createMain : Session := ⟨[.staging (.createSchema "main" "4b1d")], {}⟩

def dropMain : Session := ⟨[.staging (.dropSchema 1)], {}⟩

theorem readAt_immutable_dropMain : ∃ before committedAt now result,
    before.Reachable Env.trivial ∧
    createMain.commit Env.trivial before = .ok (result, committedAt) ∧
    Run (CarefulStep Env.trivial) committedAt [.session dropMain] now ∧
    ∃ first last, committedAt.store.readAt committedAt.db result.snapshotId = .ok first ∧
      now.store.readAt now.db result.snapshotId = .ok last ∧ first.Replays id last := by
  have reachable : Catalog.Reachable Env.trivial _ := .opened "a" rfl
  exact ⟨_, _, _, _, reachable, rfl, (fun later => ⟨later, readAt_immutable id reachable
    (rfl : createMain.commit Env.trivial _ = _) later⟩) (.single ⟨.session rfl, by decide⟩)⟩

/-- A later drop shows in the row that a reader of an earlier snapshot gets. -/
theorem dropSchema_changes_row : ∃ before committedAt now result result',
    before.Reachable Env.trivial ∧
    createMain.commit Env.trivial before = .ok (result, committedAt) ∧
    dropMain.commit Env.trivial committedAt = .ok (result', now) ∧
    ∃ first last, committedAt.store.readAt committedAt.db result.snapshotId = .ok first ∧
      now.store.readAt now.db result.snapshotId = .ok last ∧
      first.listSchemas.map (·.endSnapshot) = [none] ∧
      last.listSchemas.map (·.endSnapshot) = [some 2] := by
  refine ⟨_, _, _, _, _, .opened "a" rfl, rfl, rfl, _, _, rfl, rfl, ?_, ?_⟩
  · decide
  · decide

end Catalog

end RockLake
