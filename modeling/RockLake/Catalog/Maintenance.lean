import RockLake.Catalog.Immutability
import RockLake.Catalog.Upkeep

/-! What maintenance keeps, and when: the row of the latest snapshot, the latest snapshot within
retention, reads above the floor, and a floor held back for a checkpoint pin. Each result names the
condition on the state and on the call that it needs, and shows that it cannot do without. -/
namespace RockLake

open UpkeepCall CatalogStore Db Env

/-- The snapshot that the stored counters name as the latest one has a row. -/
def Db.LatestExists (db : Db) : Prop :=
  ∀ c, loadCounters db = .ok c → 1 < c.nextSnapshotId →
    ∃ row, db.get .snapshot (keySnapshot (c.nextSnapshotId - 1)) = some row

theorem Db.LatestExists.congr (rows : db' .snapshot = db .snapshot)
    (counters : loadCounters db' = loadCounters db) : db'.LatestExists ↔ db.LatestExists := by
  simp [LatestExists, counters, get_of_family rows]

namespace Catalog

variable {env : Env} {catalog catalog' : Catalog}

section

variable (counted : catalog.Counted)
include counted

theorem Counted.latest :
    catalog.store.latestSnapshot + 1 = catalog.store.counters.nextSnapshotId := by
  rw [latestSnapshot_eq]
  exact Nat.sub_add_cancel counted.positive

theorem Counted.latestExists_iff : catalog.db.LatestExists ↔
    (1 < catalog.store.counters.nextSnapshotId →
      ∃ row, catalog.db.get .snapshot (keySnapshot catalog.store.latestSnapshot) = some row) := by
  have latest := counted.latest
  have same : catalog.store.latestSnapshot = catalog.store.counters.nextSnapshotId - 1 := by omega
  rw [same]
  constructor
  · intro all
    exact all _ counted.loaded
  · intro one c loaded
    cases counted.loaded.symm.trans loaded
    exact one

/-- A restore goes back to a checkpoint of the latest snapshot, and an excision stays at or below
the latest snapshot or fails to delete its row. -/
def KeepsLatest (catalog : Catalog) : MaintenanceEvent → Prop
  | .upkeep (.restoreCheckpoint checkpointId) => ∀ info,
      catalog.db.get .checkpoint (checkpointKey checkpointId) = some info →
      catalog.store.counters.nextSnapshotId ≤ info.snapshotId + 1
  | .upkeep (.exciseApply beforeSnapshot _ _ fails) =>
    1 < catalog.store.counters.nextSnapshotId →
      beforeSnapshot ≤ catalog.store.latestSnapshot ∨
        fails .snapshot (keySnapshot catalog.store.latestSnapshot) = true
  | _ => True

theorem Counted.hideSnapshot (info : CheckpointMetadata) :
    hideSnapshot catalog.db info = catalog.store.counters.nextSnapshotId :=
  hideSnapshot_eq counted.loaded info

theorem Counted.rewinds_iff :
    UpkeepCall.rewinds catalog.db (.restoreCheckpoint checkpointId) = false ↔
      catalog.KeepsLatest (.upkeep (.restoreCheckpoint checkpointId)) := by
  simp only [UpkeepCall.rewinds, KeepsLatest, counted.hideSnapshot]
  cases catalog.db.get .checkpoint (checkpointKey checkpointId) with
  | none => simp
  | some info => simp

theorem Counted.steady (keeps : catalog.KeepsLatest event) :
    catalog.Steady event := by
  cases event with
  | upkeep call =>
    cases call with
    | restoreCheckpoint checkpointId => exact counted.rewinds_iff.mpr keeps
    | _ => rfl
  | _ => trivial

/-- A restore that moves the counter leaves it one past an identifier without a row. -/
theorem Counted.rewound (tended : catalog.Tended) {db : Db}
    (applied : (UpkeepCall.restoreCheckpoint checkpointId).apply catalog.db = .ok db)
    (rewinds : UpkeepCall.rewinds catalog.db (.restoreCheckpoint checkpointId) = true) :
    ¬ db.LatestExists := by
  obtain ⟨info, restored⟩ := apply_snd applied
  obtain ⟨found, ⟨current, _⟩ | ⟨later, rfl⟩⟩ := restoreCheckpoint_ok restored
  · simp only [UpkeepCall.rewinds, found, Option.any_some, decide_eq_true_eq] at rewinds
    omega
  · rw [counted.hideSnapshot]
    intro all
    have rows : ∀ k, ((hidePostCheckpointFacts catalog.db info.snapshotId
        catalog.store.counters.nextSnapshotId).put ⟨.counter, keyCounter counterNextSnapshotId,
          catalog.store.counters.nextSnapshotId + 1⟩).get .snapshot k =
        catalog.db.get .snapshot k := by
      intro k
      refine (get_of_family (put_family _ _ (by simp)) k).trans ?_
      rw [hidePostCheckpointFacts_get, if_neg (by decide)]
    have positive := counted.positive
    obtain ⟨row, stored⟩ := all _ (loadCounters_hidden counted.loaded _ _ _) (by simpa using positive)
    rw [rows] at stored
    have key := tended.snapshots _ row stored
    have below := counted.below _ row stored
    simp only [keySnapshot, List.cons.injEq, and_true, Nat.add_sub_cancel] at key
    omega

/-- After an excision the latest snapshot has its row exactly if the row was out of reach. -/
theorem Counted.excised_iff (tended : catalog.Tended)
    (present : catalog.db.LatestExists) {db : Db}
    (applied : (UpkeepCall.exciseApply beforeSnapshot operator timestampMillis fails).apply catalog.db = .ok db) :
    db.LatestExists ↔ catalog.KeepsLatest
      (.upkeep (.exciseApply beforeSnapshot operator timestampMillis fails)) := by
  have stepped : Maintain trivial catalog
      (.upkeep (.exciseApply beforeSnapshot operator timestampMillis fails)) ⟨db, catalog.store⟩ :=
    .upkeep applied
  have steady : catalog.Steady
      (.upkeep (.exciseApply beforeSnapshot operator timestampMillis fails)) := rfl
  have after := counted.step tended steady stepped
  obtain ⟨result, excised⟩ := apply_snd applied
  refine after.latestExists_iff.trans (forall_congr' fun committed => ?_)
  obtain ⟨row, stored⟩ := counted.latestExists_iff.mp present committed
  have key := tended.snapshots _ row stored
  simp only [keySnapshot, List.cons.injEq, and_true] at key
  have left := (exciseApply_ok excised).2.2.1 .snapshot
    (keySnapshot catalog.store.latestSnapshot) (by decide) (by decide)
  rw [stored] at left
  simp only [left, Option.filter, Family.excisable, ← key]
  by_cases below : catalog.store.latestSnapshot < beforeSnapshot
  · simp [below, Nat.not_le.mpr below]
  · simp [below, Nat.le_of_not_lt below]

theorem Counted.latestExists_step (tended : catalog.Tended)
    (present : catalog.db.LatestExists) (stepped : Maintain env catalog event catalog') :
    catalog'.db.LatestExists ↔ catalog.KeepsLatest event := by
  cases stepped with
  | writer stepped =>
    refine iff_of_true ?_ trivial
    rcases stepped.snapshot tended.format with ⟨rows, counters, _⟩ | ⟨new, next, rows, loaded, up⟩
    · exact (Db.LatestExists.congr rows counters).mpr present
    · intro c loaded' _
      cases loaded.symm.trans loaded'
      rw [up, Nat.add_sub_cancel, rows, if_pos (by rw [next])]
      exact ⟨new, rfl⟩
  | @upkeep call db applied =>
    cases call with
    | restoreCheckpoint checkpointId =>
      rw [← counted.rewinds_iff]
      cases rewinds : UpkeepCall.rewinds catalog.db (.restoreCheckpoint checkpointId) with
      | true => exact iff_of_false (counted.rewound tended applied rewinds) (by simp)
      | false =>
        refine iff_of_true ((Db.LatestExists.congr (apply_family applied ?_)
          (apply_counters applied rewinds)).mpr present) rfl
        simp [UpkeepCall.touched, Family.restorable]
    | exciseApply => exact counted.excised_iff tended present applied
    | _ =>
      refine iff_of_true ((Db.LatestExists.congr (apply_family applied ?_)
        (apply_counters applied rfl)).mpr present) trivial
      simp [UpkeepCall.touched]
  | updateRetainFromCache => exact iff_of_true present trivial

end

def MaintainLatest (env : Env) (catalog : Catalog) (event : MaintenanceEvent) (catalog' : Catalog) :
    Prop :=
  Maintain env catalog event catalog' ∧ catalog.KeepsLatest event

/-- The latest snapshot exists along every run of steps that keep it, and the first step that does
not keep it loses it. -/
theorem latest_snapshot_exists {nonce store db} {events : List MaintenanceEvent}
    (opened : Catalog.Opens nonce store db)
    (ran : Run (MaintainLatest env) ⟨db, store⟩ events catalog) :
    catalog.db.LatestExists ∧
      (1 < catalog.store.counters.nextSnapshotId →
        ∃ row, (catalog.store.readLatest catalog.db).getSnapshot = some row) ∧
      ∀ event catalog', Maintain env catalog event catalog' →
        (catalog'.db.LatestExists ↔ catalog.KeepsLatest event) := by
  obtain ⟨tended, counted, counters, _⟩ := initial_tended opened
  have start : db.LatestExists := by
    refine counted.latestExists_iff.mpr fun committed => ?_
    rw [counters] at committed
    exact absurd committed (by decide)
  obtain ⟨tended, counted, present⟩ := ran.invariant
    (fun c => c.Tended ∧ c.Counted ∧ c.db.LatestExists)
    (fun _ _ _ ⟨tended, counted, present⟩ ⟨stepped, keeps⟩ => ⟨tended.step stepped,
      counted.step tended (counted.steady keeps) stepped,
      (counted.latestExists_step tended present stepped).mpr keeps⟩)
    ⟨tended, counted, start⟩
  exact ⟨present, counted.latestExists_iff.mp present,
    fun _ _ stepped => counted.latestExists_step tended present stepped⟩

/-- A run that keeps the latest snapshot through a checkpoint, a restore, a collection and an
excision. -/
theorem latest_snapshot_exists_excised : ∃ store db catalog,
    Catalog.Opens "a" store db ∧
    Run (MaintainLatest trivial) ⟨db, store⟩ [.writer (.session createMain),
      .upkeep (.createCheckpoint 5 "" none), .upkeep (.restoreCheckpoint 5), .upkeep (.gcApply 1 0),
      .upkeep (.exciseApply 1 "op" 7 fun _ _ => false)] catalog ∧
    1 < catalog.store.counters.nextSnapshotId ∧
    ∃ row, (catalog.store.readLatest catalog.db).getSnapshot = some row := by
  refine ⟨_, _, _, rfl, (fun ran => ⟨ran, ?_, (latest_snapshot_exists rfl ran).2.1 ?_⟩)
    (.next ⟨.writer (.session rfl), trivial⟩ (.next ⟨.upkeep rfl, trivial⟩ (.next ⟨.upkeep rfl, ?_⟩
      (.next ⟨.upkeep rfl, trivial⟩ (.next ⟨.upkeep rfl, ?_⟩ .done)))))⟩
  · decide
  · decide
  · rintro info ⟨⟩
    decide
  · exact fun _ => .inl (by decide)

/-- A restore after a later commit leaves the snapshot counter at 4 and no row for snapshot 3, and
a store opened then reads at snapshot 3. -/
theorem restore_loses_latest : ∃ (catalog : Catalog) (store : CatalogStore) (db : Db),
    catalog.Maintained trivial ∧
    loadCounters catalog.db = .ok ⟨4, 2, 1⟩ ∧ catalog.db.get .snapshot (keySnapshot 3) = none ∧
    CatalogStore.openCatalog catalog.db "b" = .ok (store, db) ∧
    (store.readLatest db).snapshot = 3 ∧ (store.readLatest db).getSnapshot = none := by
  refine ⟨_, _, _, .upkeep (.session (.upkeep (.session (.opened "a" rfl) createMain rfl)
    (.createCheckpoint 5 "" none) rfl) dropMain rfl) (.restoreCheckpoint 5) rfl,
    rfl, rfl, rfl, rfl, rfl⟩

/-- A collection stays at or below the latest snapshot. Restores are left out: they move the latest
snapshot away from the store handle. -/
def CollectsBelow (catalog : Catalog) : MaintenanceEvent → Prop
  | .upkeep (.gcApply newRetainFrom _) => newRetainFrom ≤ catalog.store.latestSnapshot
  | .upkeep (.restoreCheckpoint _) => False
  | _ => True

theorem CollectsBelow.steady (collects : catalog.CollectsBelow event) :
    catalog.Steady event := by
  cases event with
  | upkeep call =>
    cases call with
    | restoreCheckpoint checkpointId => exact collects.elim
    | _ => rfl
  | _ => trivial

/-- The latest snapshot does not go back in a step without a restore, nor does a step outside a
commit move it. -/
theorem Counted.latest_le (counted : catalog.Counted) (tended : catalog.Tended)
    (stepped : Step env catalog event catalog') :
    catalog.store.latestSnapshot ≤ catalog'.store.latestSnapshot := by
  have steady : catalog.Steady (.writer event) := trivial
  have after := counted.step tended steady (.writer stepped)
  have latest := counted.latest
  have latest' := after.latest
  rcases stepped.snapshot tended.format with ⟨_, _, handle⟩ | ⟨_, _, _, _, up⟩
  · have same := handle _ counted.loaded rfl
    rw [same] at latest'
    omega
  · omega

theorem Counted.retained_step (counted : catalog.Counted) (tended : catalog.Tended)
    (retained : readRetainFrom catalog.db ≤ catalog.store.latestSnapshot)
    (noRestore : ∀ checkpointId, event ≠ .upkeep (.restoreCheckpoint checkpointId))
    (stepped : Maintain env catalog event catalog') :
    readRetainFrom catalog'.db ≤ catalog'.store.latestSnapshot ↔ catalog.CollectsBelow event := by
  cases stepped with
  | writer stepped =>
    refine iff_of_true ?_ trivial
    rw [readRetainFrom_congr (stepped.tended tended.format rfl)]
    exact retained.trans (counted.latest_le tended stepped)
  | @upkeep call db applied =>
    rw [apply_floor applied]
    cases call with
    | gcApply newRetainFrom nowMs => exact Nat.max_le.trans (and_iff_right retained)
    | restoreCheckpoint checkpointId => exact absurd rfl (noRestore checkpointId)
    | _ => exact iff_of_true retained trivial
  | updateRetainFromCache => exact iff_of_true retained trivial

theorem reopened {db db' : Db} {store : CatalogStore}
    (format : db.get .catalogFormatVersion keySystem = some catalogFormatVersion)
    (opened : CatalogStore.openCatalog db nonce = .ok (store, db')) :
    store.retainFromCache = readRetainFrom db ∧ loadCounters db = .ok store.counters := by
  obtain ⟨c, epoch, loaded, acquired, rfl⟩ := openCatalog_ok format opened
  obtain ⟨_, _, _, other⟩ := acquireEpoch_ok acquired
  exact ⟨readRetainFrom_congr (other .retainFrom (by decide) (by decide)), loaded⟩

/-- A step without a restore whose collection stays at or below the latest snapshot. -/
def MaintainRetained (env : Env) (catalog : Catalog) (event : MaintenanceEvent)
    (catalog' : Catalog) : Prop :=
  Maintain env catalog event catalog' ∧ catalog.CollectsBelow event

/-- The latest snapshot stays within retention along every run whose collections stay at or below
it, so a store opened at any time may read it; the first collection above it breaks this. -/
theorem latest_snapshot_retained {nonce store db} {events : List MaintenanceEvent}
    (opened : Catalog.Opens nonce store db)
    (ran : Run (MaintainRetained env) ⟨db, store⟩ events catalog) :
    readRetainFrom catalog.db ≤ catalog.store.latestSnapshot ∧
      (∀ nonce store db, CatalogStore.openCatalog catalog.db nonce = .ok (store, db) →
        store.readAt db store.latestSnapshot = .ok (store.readLatest db)) ∧
      ∀ event catalog', Maintain env catalog event catalog' →
        (∀ checkpointId, event ≠ .upkeep (.restoreCheckpoint checkpointId)) →
        (readRetainFrom catalog'.db ≤ catalog'.store.latestSnapshot ↔
          catalog.CollectsBelow event) := by
  obtain ⟨tended, counted, _, floor⟩ := initial_tended opened
  have noRestore : ∀ {c : Catalog} {event}, c.CollectsBelow event →
      ∀ checkpointId, event ≠ .upkeep (.restoreCheckpoint checkpointId) := by
    rintro c _ collects checkpointId rfl
    exact collects
  obtain ⟨tended, counted, retained⟩ := ran.invariant
    (fun c => c.Tended ∧ c.Counted ∧ readRetainFrom c.db ≤ c.store.latestSnapshot)
    (fun _ _ _ ⟨tended, counted, retained⟩ ⟨stepped, collects⟩ => ⟨tended.step stepped,
      counted.step tended collects.steady stepped,
      (counted.retained_step tended retained (noRestore collects) stepped).mpr collects⟩)
    ⟨tended, counted, floor.le.trans (Nat.zero_le _)⟩
  refine ⟨retained, ?_, fun _ _ stepped noRestore =>
    counted.retained_step tended retained noRestore stepped⟩
  intro nonce store db opened'
  obtain ⟨cached, loaded⟩ := reopened tended.format opened'
  have same : store.counters = catalog.store.counters :=
    Except.ok.inj (loaded.symm.trans counted.loaded)
  have latest : store.latestSnapshot = catalog.store.latestSnapshot := by
    simp [latestSnapshot, same]
  have above : ¬ store.latestSnapshot < store.retainFromCache := by omega
  simp [readAt, readLatest, above]

theorem latest_snapshot_retained_collected : ∃ store db catalog,
    Catalog.Opens "a" store db ∧
    Run (MaintainRetained trivial) ⟨db, store⟩
      [.writer (.session createMain), .upkeep (.gcApply 1 0)] catalog ∧
    readRetainFrom catalog.db = 1 ∧ readRetainFrom catalog.db ≤ catalog.store.latestSnapshot := by
  refine ⟨_, _, _, rfl, (fun ran => ⟨ran, ?_, (latest_snapshot_retained rfl ran).1⟩)
    (.next ⟨.writer (.session rfl), trivial⟩ (.next ⟨.upkeep rfl, Nat.le_refl 1⟩ .done))⟩
  rfl

/-- A collection up to 5 in a catalog with one snapshot: a store opened then cannot read it. -/
theorem collection_passes_latest : ∃ (catalog : Catalog) (store : CatalogStore) (db : Db),
    catalog.Maintained trivial ∧ catalog.store.latestSnapshot = 1 ∧
    readRetainFrom catalog.db = 5 ∧
    CatalogStore.openCatalog catalog.db "b" = .ok (store, db) ∧ store.latestSnapshot = 1 ∧
    store.readAt db 1 = .error (.snapshotOutOfRetention 1 5) := by
  refine ⟨_, _, _, .upkeep (.session (.opened "a" rfl) createMain rfl) (.gcApply 5 0)
    rfl, rfl, rfl, rfl, rfl, rfl⟩

/-- The proposal of a plan can be applied exactly if for each live lease no old snapshot comes after both
the floor and the snapshot of the lease, or a pin holds the proposal back to there. -/
theorem gcPlan_applies_iff {db : Db} {chrono : Chrono Time}
    (cut : chrono.cutoffTime now retentionDays = some cutoff)
    (planned : gcPlan db chrono now retentionDays = some plan) (nowMs : Nat) :
    (∃ outcome, gcApply db plan.proposedRetainFrom nowMs = .ok outcome) ↔
      ∀ k lease, db.get .snapshotLease k = some lease → nowMs < lease.expiresAtUnixMs →
        db.OlderBelow retentionDays (·.snapshotTime < chrono.toRfc3339 cutoff)
            (max (readRetainFrom db) lease.minSnapshotId) ∨
          ∃ k pin, db.get .pinnedSnapshot k = some pin ∧
            pin ≤ max (readRetainFrom db) lease.minSnapshotId + 1 := by
  have within := gcPlan_le_iff cut planned
  generalize plan.proposedRetainFrom = target at within ⊢
  have unpinned : readRetainFrom db < target → ∀ k snapshotId,
      db.get .pinnedSnapshot k = some snapshotId → target < snapshotId := by
    intro high k (snapshotId : Nat) pinned
    have below := (within (snapshotId - 1)).mpr (.inr ⟨k, snapshotId, pinned, le_tsub_add⟩)
    omega
  have applies : (∃ outcome, gcApply db target nowMs = .ok outcome) ↔
      ¬ (readRetainFrom db < target ∧ ¬ db.Unheld target nowMs) := by
    rw [← gcApply_refused]
    cases gcApply db target nowMs <;> simp
  simp only [← within]
  rw [applies, not_and, not_not]
  constructor
  · intro free k lease found live
    by_cases high : readRetainFrom db < target
    · exact ((free high).leased k lease found live).trans (le_max_right _ _)
    · exact (not_lt.mp high).trans (le_max_left _ _)
  · intro unleased high
    refine ⟨unpinned high, fun k lease found live => ?_⟩
    exact (le_max_iff.mp (unleased k lease found live)).resolve_left (not_le.mpr high)

/-- Times by their texts, with the first of January as the cutoff. -/
def january : Chrono String := ⟨id, fun _ _ => some "2026-01-01T00:00:00+00:00"⟩

/-- What a plan for thirty days proposes at the end of January. -/
def januaryProposal (db : Db) : Option Nat :=
  (gcPlan db january "2026-01-31T00:00:00+00:00" 30).map (·.proposedRetainFrom)

/-- A lease on the first of two old snapshots, and a pin on the second that holds the plan back. -/
theorem gcPlan_applies_pinned : ∃ catalog : Catalog, catalog.Maintained trivial ∧
    januaryProposal catalog.db = some 1 ∧ ∃ outcome, gcApply catalog.db 1 1000 = .ok outcome := by
  obtain ⟨catalog, maintained, leases, pinned, proposed⟩ : ∃ catalog : Catalog,
      catalog.Maintained trivial ∧
      (catalog.db .snapshotLease).entries = [(leaseWords "feed", ⟨"feed", 1, 60000⟩)] ∧
      catalog.db.get .pinnedSnapshot (keyPinnedSnapshot 2) = some 2 ∧
      januaryProposal catalog.db = some 1 :=
    ⟨_, .upkeep (.upkeep (.session (.session (.opened "a" rfl) createMain rfl) dropMain rfl)
      (.holdSnapshot 0 "feed" 1 60) rfl) (.pinSnapshot 2) rfl, rfl, rfl, by decide⟩
  obtain ⟨plan, planned, one⟩ := Option.map_eq_some_iff.mp proposed
  refine ⟨catalog, maintained, proposed, ?_⟩
  rw [← one]
  refine (gcPlan_applies_iff rfl planned 1000).mpr fun k lease found _ => .inr ⟨_, 2, pinned, ?_⟩
  cases List.mem_singleton.mp (leases ▸ OrderedMap.get_eq_some.mp found)
  exact Nat.succ_le_succ (le_max_right _ 1)

/-- Two snapshots, the first of them leased: the plan proposes to retain from the second, which the lease
refuses. -/
theorem gcPlan_passes_lease : ∃ catalog : Catalog, catalog.Maintained trivial ∧
    januaryProposal catalog.db = some 2 ∧
    gcApply catalog.db 2 1000 = .error (.pinnedSnapshotBlocks 1 2) :=
  ⟨_, .upkeep (.session (.session (.opened "a" rfl) createMain rfl) dropMain rfl) (.holdSnapshot 0
    "feed" 1 60) rfl, by decide, rfl⟩

def atTime (now : String) (session : Session) : Session := { session with request := { now } }

/-- A snapshot before the cutoff and one after it, which stays above the proposal. -/
theorem gcPlan_keeps_recent_ordered : ∃ catalog : Catalog, catalog.Maintained trivial ∧
    januaryProposal catalog.db = some 1 ∧
    ∀ k row, catalog.db.get .snapshot k = some row →
      ¬ row.snapshotTime < "2026-01-01T00:00:00+00:00" → 1 ≤ row.snapshotId := by
  obtain ⟨catalog, maintained, ⟨first, second, k₁, k₂, rows, id₁, before, id₂⟩, proposed⟩ :
      ∃ catalog : Catalog, catalog.Maintained trivial ∧
      (∃ first second k₁ k₂, (catalog.db .snapshot).entries = [(k₁, first), (k₂, second)] ∧
        first.snapshotId = 1 ∧ first.snapshotTime < "2026-01-01T00:00:00+00:00" ∧
        second.snapshotId = 2) ∧ januaryProposal catalog.db = some 1 :=
    ⟨_, .session (.session (.opened "a" rfl) (atTime "2025-12-15T00:00:00+00:00" createMain) rfl)
      (atTime "2026-01-15T00:00:00+00:00" dropMain) rfl, ⟨_, _, _, _, rfl, rfl, by decide, rfl⟩, by decide⟩
  have stored : ∀ k row, catalog.db.get .snapshot k = some row → row = first ∨ row = second := by
    intro k row found
    have member := OrderedMap.get_eq_some.mp found
    rw [rows] at member
    simp only [List.mem_cons, Prod.mk.injEq, List.not_mem_nil, or_false] at member
    exact member.imp And.right And.right
  obtain ⟨plan, planned, one⟩ := Option.map_eq_some_iff.mp proposed
  refine ⟨catalog, maintained, proposed, ?_⟩
  rw [← one]
  refine (@gcPlan_keeps_recent_iff _ _ january _ _ _ _ _ (fun _ _ => Iff.rfl) rfl planned
    (·.snapshotTime) fun _ _ _ => rfl).mpr fun k row found late => .inl fun k' row' found' _ _ => ?_
  rcases stored k row found with rfl | rfl
  · exact absurd before late
  · rcases stored k' row' found' with rfl | rfl <;> omega

/-- The clock goes back between two commits: the older snapshot is the later one by the clock. -/
theorem gcPlan_hides_recent : ∃ catalog : Catalog, catalog.Maintained trivial ∧
    (∃ row, catalog.db.get .snapshot (keySnapshot 1) = some row ∧
      ¬ row.snapshotTime < "2026-01-01T00:00:00+00:00") ∧
    januaryProposal catalog.db = some 2 :=
  ⟨_, .session (.session (.opened "a" rfl) (atTime "2026-01-15T00:00:00+00:00" createMain) rfl)
    (atTime "2025-12-15T00:00:00+00:00" dropMain) rfl, ⟨_, rfl, by decide⟩, by decide⟩

/-- Under any maintenance, the store rejects every snapshot below the stored floor exactly if the
floor it has cached is the stored one. The cached floor is never ahead. -/
theorem readAt_rejects_iff (maintained : catalog.Maintained env) :
    catalog.store.retainFromCache ≤ readRetainFrom catalog.db ∧
      ((∀ snapshot, snapshot < readRetainFrom catalog.db →
        catalog.store.readAt catalog.db snapshot =
          .error (.snapshotOutOfRetention snapshot (readRetainFrom catalog.db))) ↔
        catalog.store.retainFromCache = readRetainFrom catalog.db) := by
  have cached := maintained.tended.cached
  refine ⟨cached, ?_, ?_⟩
  · intro rejects
    by_contra different
    have behind : catalog.store.retainFromCache < readRetainFrom catalog.db :=
      lt_of_le_of_ne cached different
    have rejected := rejects _ behind
    simp [readAt] at rejected
  · intro same snapshot below
    rw [← same] at below ⊢
    have positive : 0 < catalog.store.retainFromCache := by omega
    simp [readAt, below, positive]

theorem readAt_rejects_refreshed : ∃ catalog : Catalog, catalog.Maintained trivial ∧
    readRetainFrom catalog.db = 1 ∧ catalog.store.retainFromCache = 1 ∧
    catalog.store.readAt catalog.db 0 = .error (.snapshotOutOfRetention 0 1) := by
  have maintained : Catalog.Maintained trivial _ :=
    ⟨"a", _, _, [.writer (.session createMain), .upkeep (.gcApply 1 0), .updateRetainFromCache], rfl,
      .next (.writer (.session rfl)) (.next (.upkeep rfl) (.next .updateRetainFromCache .done))⟩
  exact ⟨_, maintained, rfl, rfl, (readAt_rejects_iff maintained).2.mpr rfl 0 (by decide)⟩

/-- A collection by another process up to 2 is not known to the store, which goes on to hand out
readers of snapshot 1. -/
theorem stale_floor_grants_read : ∃ catalog : Catalog, catalog.Maintained trivial ∧
    readRetainFrom catalog.db = 2 ∧ catalog.store.retainFromCache = 0 ∧
    ∃ reader, catalog.store.readAt catalog.db 1 = .ok reader ∧ reader.snapshot = 1 :=
  ⟨_, .upkeep (.session (.session (.opened "a" rfl) createMain rfl) dropMain rfl) (.gcApply 2 0)
    rfl, rfl, rfl, _, rfl, rfl⟩

end Catalog

/-- A collection while something holds back the given floor, or an excision. -/
def UpkeepCall.SweepsBelow (start : Db) (held : Nat) : UpkeepCall → Prop
  | .gcApply _ nowMs => ¬ start.Unheld held nowMs
  | .exciseApply .. => True
  | _ => False

def UpkeepCall.Sweep (start : Db) (held : Nat) (db : Db) (call : UpkeepCall) (db' : Db) : Prop :=
  call.apply db = .ok db' ∧ call.SweepsBelow start held

/-- What sweeping below a snapshot keeps: a floor that is not above it, what holds the floor back,
and the row of the snapshot. -/
structure Db.Spared (start : Db) (snapshot : Nat) (db : Db) : Prop where
  floor : readRetainFrom db ≤ snapshot
  pins : db .pinnedSnapshot = start .pinnedSnapshot
  leases : db .snapshotLease = start .snapshotLease
  format : db .catalogFormatVersion = start .catalogFormatVersion
  row : ∀ row, row.snapshotId = snapshot →
    start.get .snapshot (keySnapshot snapshot) = some row →
    db.get .snapshot (keySnapshot snapshot) = some row

theorem Db.Spared.step (spared : start.Spared snapshot db)
    (stepped : UpkeepCall.Sweep start (snapshot + 1) db call db') :
    start.Spared snapshot db' := by
  obtain ⟨applied, sweeps⟩ := stepped
  cases call with
  | gcApply newRetainFrom nowMs =>
    have family := fun {f : Family} => apply_family applied (f := f)
    obtain ⟨result, collected⟩ := apply_snd applied
    refine ⟨?_, (family (by simp [UpkeepCall.touched])).trans spared.pins,
      (family (by simp [UpkeepCall.touched])).trans spared.leases,
      (family (by simp [UpkeepCall.touched])).trans spared.format, ?_⟩
    · rw [(gcApply_ok collected).1]
      refine Nat.max_le.mpr ⟨spared.floor, ?_⟩
      by_contra past
      have free := (gcApply_ok collected).2.2 (by have := spared.floor; omega)
      exact sweeps ((free.mono (Nat.lt_of_not_le past)).congr spared.pins spared.leases)
    · intro row own stored
      rw [get_of_family (family (by simp [UpkeepCall.touched]))]
      exact spared.row row own stored
  | exciseApply beforeSnapshot operator timestampMillis fails =>
    have family := fun {f : Family} => apply_family applied (f := f)
    have floor := apply_floor applied
    obtain ⟨result, excised⟩ := apply_snd applied
    obtain ⟨_, safe, rows, _⟩ := exciseApply_ok excised
    refine ⟨floor.le.trans spared.floor,
      (family (by simp [UpkeepCall.touched, Family.excised])).trans spared.pins,
      (family (by simp [UpkeepCall.touched, Family.excised])).trans spared.leases,
      (family (by simp [UpkeepCall.touched, Family.excised])).trans spared.format, ?_⟩
    intro row own stored
    have reach : ¬ row.snapshotId < beforeSnapshot := by
      have bound := spared.floor
      omega
    rw [rows .snapshot _ (by decide) (by decide), spared.row row own stored]
    simp [Option.filter, Family.excisable, reach]
  | _ => exact sweeps.elim

namespace Catalog

variable {env : Env} {catalog : Catalog}

/-- A pin of a checkpoint at snapshot `p` does not enter into the decision: at a given time all
collections past `p` are refused exactly if the floor is not past `p` yet and a pinned snapshot or
a live lease holds back the next floor. As long as that is so, sweeping leaves `p` readable. -/
theorem checkpointPin_blocks_iff (maintained : catalog.Maintained env) :
    ∀ name pin, catalog.db.get .checkpointPin (checkpointPinKey name) = some pin →
      (∀ nowMs, (∀ newRetainFrom, pin.snapshotId < newRetainFrom →
          ∃ e, gcApply catalog.db newRetainFrom nowMs = .error e) ↔
        readRetainFrom catalog.db ≤ pin.snapshotId ∧
          ¬ catalog.db.Unheld (pin.snapshotId + 1) nowMs) ∧
      ∀ calls db, readRetainFrom catalog.db ≤ pin.snapshotId →
        Run (UpkeepCall.Sweep catalog.db (pin.snapshotId + 1)) catalog.db calls db →
        readRetainFrom db ≤ pin.snapshotId ∧
        (∀ row, catalog.db.get .snapshot (keySnapshot pin.snapshotId) = some row →
          db.get .snapshot (keySnapshot pin.snapshotId) = some row) ∧
        ∀ nonce store db', CatalogStore.openCatalog db nonce = .ok (store, db') →
          store.readAt db' pin.snapshotId = .ok ⟨db', pin.snapshotId⟩ := by
  have tended := maintained.tended
  intro name pin _
  refine ⟨fun nowMs => ?_, fun calls db floor ran => ?_⟩
  · simp only [gcApply_refused]
    constructor
    · intro refused
      obtain ⟨low, held⟩ := refused _ (Nat.lt_succ_self _)
      exact ⟨Nat.lt_succ_iff.mp low, held⟩
    · rintro ⟨low, held⟩ newRetainFrom past
      exact ⟨low.trans_lt past, fun free => held (free.mono past)⟩
  · have spared : catalog.db.Spared pin.snapshotId db := ran.invariant _
      (fun _ _ _ before stepped => before.step stepped)
      ⟨floor, rfl, rfl, rfl, fun _ _ stored => stored⟩
    have format := (get_of_family spared.format keySystem).trans tended.format
    refine ⟨spared.floor, ?_, ?_⟩
    · intro row stored
      have key := tended.snapshots _ row stored
      simp only [keySnapshot, List.cons.injEq, and_true] at key
      exact spared.row row key.symm stored
    · intro nonce store db' opened
      have cached := (reopened format opened).1
      have bound := spared.floor
      have above : ¬ pin.snapshotId < store.retainFromCache := by omega
      simp [readAt, above]

/-- Snapshot 2 is pinned as well, so snapshot 1 of the checkpoint pin stays readable through a
collection up to 1 and an excision. -/
theorem checkpointPin_blocks_pinned : ∃ (catalog : Catalog) (pin : CheckpointMetadata) (db : Db),
    catalog.Maintained trivial ∧
    catalog.db.get .checkpointPin (checkpointPinKey "release") = some pin ∧ pin.snapshotId = 1 ∧
    Run (UpkeepCall.Sweep catalog.db (pin.snapshotId + 1)) catalog.db
      [.gcApply 1 0, .exciseApply 1 "op" 7 fun _ _ => false] db ∧
    readRetainFrom db = 1 ∧ readRetainFrom db ≤ pin.snapshotId := by
  have maintained : Catalog.Maintained trivial _ :=
    .upkeep (.upkeep (.session (.session (.opened "a" rfl) createMain rfl) dropMain rfl)
      (.pinCheckpoint "release" 1 "") rfl) (.pinSnapshot 2) rfl
  refine ⟨_, _, _, maintained, rfl, rfl, (fun ran => ⟨ran, ?_, ((checkpointPin_blocks_iff maintained
    "release" _ rfl).2 _ _ ?_ ran).1⟩) (.next ⟨rfl, fun free => ?_⟩ (.next ⟨rfl, trivial⟩ .done))⟩
  · rfl
  · decide
  · exact absurd (free.pinned (keyPinnedSnapshot 2) 2 rfl) (by decide)

/-- With nothing but the checkpoint pin at snapshot 1, a collection up to 2 goes through, and a store
opened then cannot read snapshot 1. -/
theorem checkpointPin_ignored : ∃ (catalog : Catalog) (pin : CheckpointMetadata)
    (result : GcApplyResult) (db db' : Db) (store : CatalogStore), catalog.Maintained trivial ∧
    catalog.db.get .checkpointPin (checkpointPinKey "release") = some pin ∧ pin.snapshotId = 1 ∧
    gcApply catalog.db 2 0 = .ok (result, db) ∧
    CatalogStore.openCatalog db "b" = .ok (store, db') ∧
    store.readAt db' 1 = .error (.snapshotOutOfRetention 1 2) :=
  ⟨_, _, _, _, _, _, .upkeep (.session (.session (.opened "a" rfl) createMain rfl) dropMain rfl)
    (.pinCheckpoint "release" 1 "") rfl, rfl, rfl, rfl, rfl, rfl⟩

end Catalog

end RockLake
