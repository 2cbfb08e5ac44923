import RockLake.Catalog.Immutability
import RockLake.Catalog.Upkeep

/-! The schema version of a catalog under maintenance. The store handle keeps the version of the last
commit and counts it up in each commit that changes the schema. An open reads it back from the row of
the snapshot before the next one. Where that row is missing, because it was excised or because a
restore has moved the counter past it, the version starts again at zero. -/
namespace RockLake

open CatalogWriter Db UpkeepCall CatalogStore Session

/-- A catalog and the schema versions recorded by its commits so far, the last one first, each with
whether the session changed the schema. -/
structure SchemaHistory where
  catalog : Catalog
  versions : List (Nat × Bool)

namespace SchemaHistory

variable {env : Env} {history history' : SchemaHistory} {event : MaintenanceEvent}

/-- The schema version recorded last, zero before the first commit. -/
def last : List (Nat × Bool) → Nat
  | [] => 0
  | (version, _) :: _ => version

/-- No version is below the one before, and one of a session that changes the schema is above it. -/
def Ascending : List (Nat × Bool) → Prop
  | [] => True
  | (version, changed) :: earlier => last earlier ≤ version ∧
      (changed = true → last earlier < version) ∧ Ascending earlier

/-- A commit adds what its snapshot row records. -/
inductive Step (env : Env) (history : SchemaHistory) : MaintenanceEvent → SchemaHistory → Prop
  | commit {session result catalog row} (ended : session.commit env history.catalog = .ok (result, catalog))
      (recorded : catalog.db.get .snapshot (keySnapshot result.snapshotId) = some row) :
      Step env history (.writer (.session session))
        ⟨catalog, (row.schemaVersion, session.changesSchema env history.catalog) :: history.versions⟩
  | other {event catalog} (uncommitted : ∀ session, event ≠ .writer (.session session))
      (stepped : Catalog.Maintain env history.catalog event catalog) :
      Step env history event ⟨catalog, history.versions⟩

def InOrder (env : Env) (history : SchemaHistory) : Prop :=
  ∀ session result catalog row, commit env history.catalog session = .ok (result, catalog) →
    catalog.db.get .snapshot (keySnapshot result.snapshotId) = some row →
    Ascending ((row.schemaVersion, session.changesSchema env history.catalog) :: history.versions)

/-- An open finds the row of the snapshot before the next one, or there is no version to lose. -/
def Rereads (history : SchemaHistory) : MaintenanceEvent → Prop
  | .writer (.reopen _) => last history.versions = 0 ∨ ∃ c row,
      loadCounters history.catalog.db = .ok c ∧
      history.catalog.db.get .snapshot (keySnapshot (c.nextSnapshotId - 1)) = some row
  | _ => True

/-- The store handle may commit, it is not ahead of the stored counter, the snapshots so far are below
it, and a row that stands right before its next one has the version recorded last. -/
structure Tracked (history : SchemaHistory) : Prop where
  tended : history.catalog.Tended
  epoch : history.catalog.db.get .writerEpoch keySystem = some history.catalog.store.writerEpoch
  nonce : history.catalog.db.get .writerNonce keySystem = some history.catalog.store.writerNonce
  positive : 0 < history.catalog.store.counters.nextSnapshotId
  stored : ∃ c, loadCounters history.catalog.db = .ok c ∧
    history.catalog.store.counters.nextSnapshotId ≤ c.nextSnapshotId
  below : ∀ k row, history.catalog.db.get .snapshot k = some row →
    row.snapshotId < history.catalog.store.counters.nextSnapshotId
  latest : ∀ row, history.catalog.db.get .snapshot
      (keySnapshot (history.catalog.store.counters.nextSnapshotId - 1)) = some row →
    row.schemaVersion = last history.versions
  fresh : history.catalog.store.counters.nextSnapshotId ≤ 1 → last history.versions = 0

section

variable (tracked : history.Tracked)
include tracked

/-- The next commit is in order exactly if the store handle has the version recorded last. -/
theorem Tracked.inOrder_iff : history.InOrder env ↔
    Ascending history.versions ∧ last history.versions ≤ history.catalog.store.schemaVersion := by
  constructor
  · intro inOrder
    have created : (history.catalog.store.beginWrite.createSnapshot history.catalog.db {}).1 =
        .ok (_, _) := (createSnapshot_ok _ _).mpr
      ⟨⟨tracked.epoch, tracked.nonce⟩, rfl, rfl, rfl⟩
    obtain ⟨result, catalog, ended⟩ : ∃ result catalog,
        commit env history.catalog ⟨[], {}⟩ = .ok (result, catalog) := by
      simp only [commit, runCalls]
      rw [created]
      exact ⟨_, _, rfl⟩
    obtain ⟨row, id, version, _, rows, _⟩ := commit_version ended
    obtain ⟨le, _, ascending⟩ := inOrder _ _ _ row ended (by rw [rows, if_pos (by rw [id])])
    have same : row.schemaVersion = history.catalog.store.schemaVersion := version
    exact ⟨ascending, same ▸ le⟩
  · rintro ⟨ascending, le⟩ session result catalog row ended recorded
    obtain ⟨row', id, version, _, rows, _⟩ := session.commit_version ended
    rw [rows, if_pos (by rw [id])] at recorded
    cases recorded
    refine ⟨by omega, fun changed => ?_, ascending⟩
    rw [version, changed]
    exact Nat.lt_succ_of_le le

theorem Tracked.reread {nonce : String}
    (opened : CatalogStore.openCatalog history.catalog.db nonce = .ok (store, db))
    (tended : Catalog.Tended ⟨db, store⟩) : Tracked ⟨⟨db, store⟩, history.versions⟩ ∧
      (last history.versions ≤ store.schemaVersion ↔ history.Rereads (.writer (.reopen nonce))) := by
  obtain ⟨c, epoch, loaded, acquired, rfl⟩ := openCatalog_ok tracked.tended.format opened
  obtain ⟨_, held, drawn, other⟩ := acquireEpoch_ok acquired
  have rows : ∀ k, db.get .snapshot k = history.catalog.db.get .snapshot k :=
    get_of_family (other .snapshot (by decide) (by decide))
  have counters : loadCounters db = .ok c := (loadCounters_congr fun id =>
    get_of_family (other .counter (by decide) (by decide)) _).trans loaded
  obtain ⟨c', loaded', ahead⟩ := tracked.stored
  cases loaded.symm.trans loaded'
  have latest : ∀ row, history.catalog.db.get .snapshot (keySnapshot (c.nextSnapshotId - 1)) =
      some row → row.schemaVersion = last history.versions := by
    intro row found
    have key := tracked.tended.snapshots _ row found
    have below := tracked.below _ row found
    simp only [keySnapshot, List.cons.injEq, and_true] at key
    have same : c.nextSnapshotId = history.catalog.store.counters.nextSnapshotId := by omega
    exact tracked.latest row (same ▸ found)
  have fresh : c.nextSnapshotId ≤ 1 → last history.versions = 0 :=
    fun few => tracked.fresh (ahead.trans few)
  refine ⟨⟨tended, held, drawn, tracked.positive.trans_le ahead, ⟨c, counters, le_rfl⟩,
    fun k row found => ?_, fun row found => latest row (rows _ ▸ found), fresh⟩, ?_⟩
  · exact (tracked.below k row (rows k ▸ found)).trans_le ahead
  simp only [finishOpen, loadSchemaVersion, rows]
  constructor
  · intro le
    split at le
    · split at le
      · rename_i row found
        exact .inr ⟨c, row, loaded, found⟩
      · exact .inl (Nat.le_zero.mp le)
    · exact .inl (Nat.le_zero.mp le)
  · rintro (unversioned | ⟨c', row, loaded', found⟩)
    · rw [unversioned]
      exact Nat.zero_le _
    · cases loaded.symm.trans loaded'
      by_cases many : c.nextSnapshotId > 1
      · rw [if_pos many, found]
        exact (latest row found).ge
      · rw [if_neg many]
        exact (fresh (Nat.le_of_not_lt many)).le

/-- Steps that leave the store handle alone do not put snapshot rows or take the counter back. -/
theorem Tracked.beside (tended : Catalog.Tended ⟨db, store⟩)
    (counters : store.counters = history.catalog.store.counters)
    (epoch : store.writerEpoch = history.catalog.store.writerEpoch)
    (nonce : store.writerNonce = history.catalog.store.writerNonce)
    (held : db .writerEpoch = history.catalog.db .writerEpoch)
    (drawn : db .writerNonce = history.catalog.db .writerNonce)
    (next : ∀ c, loadCounters history.catalog.db = .ok c → ∃ d, loadCounters db = .ok d ∧ c.nextSnapshotId ≤ d.nextSnapshotId)
    (rows : ∀ k row, db.get .snapshot k = some row → history.catalog.db.get .snapshot k = some row) :
    Tracked ⟨⟨db, store⟩, history.versions⟩ := by
  obtain ⟨c, loaded, ahead⟩ := tracked.stored
  obtain ⟨d, loaded', later⟩ := next c loaded
  refine ⟨tended, ?_, ?_, counters ▸ tracked.positive, ⟨d, loaded', counters ▸ ahead.trans later⟩,
    fun k row found => counters ▸ tracked.below k row (rows k row found), fun row found => ?_,
    counters ▸ tracked.fresh⟩
  · rw [epoch]
    exact (get_of_family held _).trans tracked.epoch
  · rw [nonce]
    exact (get_of_family drawn _).trans tracked.nonce
  · exact tracked.latest row (rows _ row (counters ▸ found))

theorem Tracked.step (stepped : Step env history event history') :
    history'.Tracked := by
  cases stepped with
  | @commit session result catalog row ended recorded =>
    have stepped := Catalog.Step.session ended
    obtain ⟨row', id, _, _, rows, loaded, next, up⟩ := session.commit_version ended
    rw [rows, if_pos (by rw [id])] at recorded
    cases recorded
    obtain ⟨db, w, ran, rfl, written, handle⟩ := session.commit_ok ended
    have held : ∀ {f : Family}, f = .writerEpoch ∨ f = .writerNonce →
        catalog.db f = history.catalog.db f := by
      intro f either
      obtain ⟨_, core, staged⟩ := runCalls_ran ran
      rw [written, ← core f (by rcases either with rfl | rfl <;> rfl)]
      refine commitWrites_family staged ?_ ?_ ?_ ?_ <;>
        rcases either with rfl | rfl <;> first | rfl | decide
    refine ⟨tracked.tended.step (.writer stepped), ?_, ?_, ?_, ⟨_, loaded, le_rfl⟩, ?_, ?_, ?_⟩
    · rw [get_of_family (held (.inl rfl)), handle]
      exact tracked.epoch
    · rw [get_of_family (held (.inr rfl)), handle]
      exact tracked.nonce
    · rw [up]
      exact Nat.succ_pos _
    · intro k row found
      rw [up]
      rw [rows] at found
      split at found
      · cases found
        exact Nat.lt_succ_self _
      · have below := tracked.below k row found
        omega
    · intro row found
      rw [up, Nat.add_sub_cancel, rows, if_pos rfl] at found
      cases found
      rfl
    · have positive := tracked.positive
      rw [up]
      omega
  | @other event catalog uncommitted stepped =>
    have tended := tracked.tended.step stepped
    cases stepped with
    | @writer _ event stepped =>
      cases stepped with
      | @session _ session result committed => exact absurd rfl (uncommitted session)
      | abandon =>
        refine tracked.beside tended rfl rfl rfl (runCalls_core _ _ _ _ rfl)
          (runCalls_core _ _ _ _ rfl) (fun c loaded => ⟨c, ?_, le_rfl⟩)
          fun k row found => ?_
        · exact (loadCounters_congr fun id => runCalls_counter _ _ _ _ id).trans loaded
        · exact (get_of_family (runCalls_core _ _ _ _ rfl) k).symm.trans found
      | reopen opened => exact (tracked.reread opened tended).1
    | @upkeep call db applied =>
      refine tracked.beside tended rfl rfl rfl (apply_family applied ?_)
        (apply_family applied ?_) (fun c loaded => apply_next applied loaded)
        fun k row found => apply_snapshot applied found
      all_goals cases call <;> simp [UpkeepCall.touched, Family.restorable, Family.excised]
    | updateRetainFromCache =>
      exact tracked.beside tended rfl rfl rfl rfl rfl (fun c loaded => ⟨c, loaded, le_rfl⟩)
        fun _ _ found => found

theorem Tracked.inOrder_step (inOrder : history.InOrder env)
    (stepped : Step env history event history') : history'.InOrder env ↔ history.Rereads event := by
  rw [(tracked.step stepped).inOrder_iff]
  obtain ⟨ascending, le⟩ := tracked.inOrder_iff.mp inOrder
  cases stepped with
  | @commit session result catalog row ended recorded =>
    refine iff_of_true ⟨inOrder _ _ _ _ ended recorded, ?_⟩ trivial
    obtain ⟨row', id, _, version, rows, _⟩ := session.commit_version ended
    rw [rows, if_pos (by rw [id])] at recorded
    cases recorded
    exact version.ge
  | @other event catalog uncommitted stepped =>
    rw [and_iff_right ascending]
    have tended := tracked.tended.step stepped
    cases stepped with
    | @writer _ event stepped =>
      cases stepped with
      | @session _ session result committed => exact absurd rfl (uncommitted session)
      | abandon => exact iff_of_true le trivial
      | reopen opened => exact (tracked.reread opened tended).2
    | upkeep applied => exact iff_of_true le trivial
    | updateRetainFromCache => exact iff_of_true le trivial

end

/-- From the first open on, the schema versions ascend, and go on to whatever is committed next, in the
runs in which every later open finds the row it reads the version from, and in no others. -/
theorem schemaVersion_ascends_iff {nonce store db}
    {events : List MaintenanceEvent} {history : SchemaHistory}
    (opened : Catalog.Opens nonce store db) :
    (Run (fun before event after => Step env before event after ∧ after.InOrder env)
        ⟨⟨db, store⟩, []⟩ events history ↔
      Run (fun before event after => Step env before event after ∧ before.Rereads event)
        ⟨⟨db, store⟩, []⟩ events history) ∧
    (Run (fun before event after => Step env before event after ∧ before.Rereads event)
        ⟨⟨db, store⟩, []⟩ events history → Ascending history.versions) := by
  obtain ⟨tended, counted, _⟩ := Catalog.initial_tended opened
  have valid := Catalog.initial_valid opened
  have absent : ∀ k, db.get .snapshot k = none :=
    get_of_family (openCatalog_initial opened (by decide) (by decide))
  have tracked : Tracked ⟨⟨db, store⟩, []⟩ := by
    refine ⟨tended, valid.epoch, valid.nonce, valid.positive, ⟨_, valid.loaded, le_rfl⟩, counted.below,
      fun row found => ?_, fun _ => rfl⟩
    rw [absent] at found
    contradiction
  have inOrder : InOrder env ⟨⟨db, store⟩, []⟩ := tracked.inOrder_iff.mpr ⟨trivial, Nat.zero_le _⟩
  have each : ∀ before event after, before.Tracked → before.InOrder env →
      Step env before event after → (after.InOrder env ↔ before.Rereads event) :=
    fun _ _ _ kept good stepped => kept.inOrder_step good stepped
  have kept : ∀ before event after, before.Tracked → Step env before event after → after.Tracked :=
    fun _ _ _ kept stepped => kept.step stepped
  refine ⟨Run.keeps_iff Tracked (InOrder env) Rereads kept each tracked inOrder, fun ran => ?_⟩
  have both := ran.invariant (fun history => history.Tracked ∧ history.InOrder env)
    (fun before event after good stepped => ⟨kept _ _ _ good.1 stepped.1,
      (each _ _ _ good.1 good.2 stepped.1).mpr stepped.2⟩) ⟨tracked, inOrder⟩
  exact (both.1.inOrder_iff.mp both.2).1

/-- A restore that moves the counter, an open, and an empty session. -/
theorem reopened_version_falls : ∃ store db, ∃ history : SchemaHistory,
    Catalog.Opens "a" store db ∧
    Run (Step Env.trivial) ⟨⟨db, store⟩, []⟩
      [.writer (.session Catalog.createMain), .upkeep (.createCheckpoint 5 "" none),
        .writer (.session Catalog.dropMain), .upkeep (.restoreCheckpoint 5), .writer (.reopen "b"),
        .writer (.session ⟨[], {}⟩)] history ∧
    history.versions = [(0, false), (2, true), (1, true)] ∧ ¬ Ascending history.versions := by
  obtain ⟨store, db, history, opened, ran, versions, forgotten, result, catalog, ended⟩ :
      ∃ store db, ∃ history : SchemaHistory,
        Catalog.Opens "a" store db ∧
        Run (Step Env.trivial) ⟨⟨db, store⟩, []⟩
          [.writer (.session Catalog.createMain), .upkeep (.createCheckpoint 5 "" none),
            .writer (.session Catalog.dropMain), .upkeep (.restoreCheckpoint 5),
            .writer (.reopen "b")] history ∧
        history.versions = [(2, true), (1, true)] ∧ history.catalog.store.schemaVersion = 0 ∧
        ∃ result catalog,
          commit Env.trivial history.catalog ⟨[], {}⟩ = .ok (result, catalog) := by
    refine ⟨_, _, _, rfl, .next (.commit rfl rfl) (.next (.other ?_ (.upkeep rfl))
      (.next (.commit rfl rfl) (.next (.other ?_ (.upkeep rfl))
        (.single (.other ?_ (.writer (.reopen rfl))))))), rfl, rfl, _, _, rfl⟩
    all_goals
      intro session
      simp
  obtain ⟨row, id, version, _, rows, _⟩ := commit_version ended
  have found : catalog.db.get .snapshot (keySnapshot result.snapshotId) = some row := by
    rw [rows, if_pos (by rw [id])]
  have recorded : (row.schemaVersion, changesSchema Env.trivial history.catalog ⟨[], {}⟩) =
      (0, false) := by
    rw [version, forgotten]
    rfl
  refine ⟨store, db, _, opened, ran.append (.single (.commit ended found)), ?_, ?_⟩
  · rw [recorded, versions]
  · rw [recorded, versions]
    rintro ⟨le, _⟩
    contradiction

theorem schemaVersion_ascends_reopened : ∃ store db, ∃ history : SchemaHistory,
    Catalog.Opens "a" store db ∧
    history.versions = [(2, true), (1, true)] ∧ Ascending history.versions := by
  obtain ⟨store, db, history, opened, ran, versions⟩ :
      ∃ store db, ∃ history : SchemaHistory,
        Catalog.Opens "a" store db ∧
        Run (fun before event after => Step Env.trivial before event after ∧ before.Rereads event)
          ⟨⟨db, store⟩, []⟩ [.writer (.session Catalog.createMain), .writer (.reopen "b"),
            .writer (.session Catalog.dropMain)] history ∧
        history.versions = [(2, true), (1, true)] := by
    refine ⟨_, _, _, rfl, .next ⟨.commit rfl rfl, trivial⟩ (.next ⟨.other ?_ (.writer (.reopen rfl)),
      .inr ⟨_, _, rfl, rfl⟩⟩ (.single ⟨.commit rfl rfl, trivial⟩)), rfl⟩
    intro session
    simp
  exact ⟨store, db, history, opened, versions, (schemaVersion_ascends_iff opened).2 ran⟩

end SchemaHistory

end RockLake
