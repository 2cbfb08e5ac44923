import RockLake.Catalog.Checkpoint
import RockLake.Catalog.Excision
import RockLake.Catalog.History

/-! A catalog under maintenance. Checkpoints, leases, pins, collections, excisions and restores work
on the database itself, beside the store handle that commits sessions and caches the floor. What
each such call leaves alone is said once, and two invariants follow: one of all runs, and one of the
runs in which no restore moves the snapshot counter. -/
namespace RockLake

open CatalogWriter CatalogStore Db Family

/-- A call on the database, as operators and consumers of change feeds make it. -/
inductive UpkeepCall where
  | createCheckpoint (millis : Nat) (createdAt : String) (label : Option String)
  | restoreCheckpoint (checkpointId : Nat)
  | pinCheckpoint (name : String) (snapshotId : Nat) (createdAt : String)
  | unpinCheckpoint (name : String)
  | holdSnapshot (nowMs : Nat) (consumerId : String) (minSnapshotId ttlSeconds : Nat)
  | releaseSnapshot (consumerId : String)
  | pinSnapshot (snapshotId : Nat)
  | unpinSnapshot (snapshotId : Nat)
  | gcApply (newRetainFrom nowMs : Nat)
  | exciseApply (beforeSnapshot : Nat) (operator : String) (timestampMillis : Nat)
      (fails : Family → Key → Bool)

namespace UpkeepCall

def apply (db : Db) : UpkeepCall → Except CatalogError Db
  | .createCheckpoint millis createdAt label =>
    .ok (RockLake.createCheckpoint db millis createdAt label).2
  | .restoreCheckpoint checkpointId => (RockLake.restoreCheckpoint db checkpointId).map Prod.snd
  | .pinCheckpoint name snapshotId createdAt =>
    .ok (RockLake.pinCheckpoint db name snapshotId createdAt)
  | .unpinCheckpoint name => RockLake.unpinCheckpoint db name
  | .holdSnapshot nowMs consumerId minSnapshotId ttlSeconds =>
    (RockLake.holdSnapshot db nowMs consumerId minSnapshotId ttlSeconds).map Prod.snd
  | .releaseSnapshot consumerId => (RockLake.releaseSnapshot db consumerId).map Prod.snd
  | .pinSnapshot snapshotId => .ok (RockLake.pinSnapshot db snapshotId)
  | .unpinSnapshot snapshotId => .ok (RockLake.unpinSnapshot db snapshotId)
  | .gcApply newRetainFrom nowMs => (RockLake.gcApply db newRetainFrom nowMs).map Prod.snd
  | .exciseApply beforeSnapshot operator timestampMillis fails =>
    (RockLake.exciseApply db beforeSnapshot operator timestampMillis fails).map Prod.snd

def touched : UpkeepCall → List Family
  | .createCheckpoint .. => [.counter, .checkpoint]
  | .restoreCheckpoint _ => .counter :: restorable
  | .pinCheckpoint .. | .unpinCheckpoint _ => [.checkpointPin]
  | .holdSnapshot .. | .releaseSnapshot _ => [.snapshotLease]
  | .pinSnapshot _ | .unpinSnapshot _ => [.pinnedSnapshot]
  | .gcApply .. => [.retainFrom]
  | .exciseApply .. => .counter :: .exciseAudit :: excised

def rewinds (db : Db) : UpkeepCall → Bool
  | .restoreCheckpoint checkpointId => (db.get .checkpoint (checkpointKey checkpointId)).any
      fun info => info.snapshotId + 1 < hideSnapshot db info
  | _ => false

variable {db db' : Db} {call : UpkeepCall}

theorem apply_snd {R : Type} {x : Except CatalogError (R × Db)} (mapped : x.map Prod.snd = .ok db') :
    ∃ answer, x = .ok (answer, db') := by
  obtain ⟨⟨answer, db''⟩, done, rfl⟩ := map_ok.mp mapped
  exact ⟨answer, done⟩

section

variable (applied : call.apply db = .ok db')
include applied

theorem apply_family (untouched : f ∉ call.touched) :
    db' f = db f := by
  cases call with
  | createCheckpoint millis createdAt label =>
    cases applied
    refine db.putAll_family fun x member same => untouched ?_
    rcases List.mem_pair.mp member with rfl | rfl <;> simp [touched, ← same]
  | restoreCheckpoint checkpointId =>
    obtain ⟨info, restored⟩ := apply_snd applied
    simp only [touched, List.mem_cons, not_or] at untouched
    rcases (restoreCheckpoint_ok restored).2 with ⟨_, rfl⟩ | ⟨_, rfl⟩
    · rfl
    · rw [put_family _ _ untouched.1]
      refine OrderedMap.ext_get fun k => (hidePostCheckpointFacts_get f k).trans ?_
      exact if_neg untouched.2
  | pinCheckpoint | pinSnapshot =>
    cases applied
    exact db.put_family _ (by simpa [touched] using untouched)
  | unpinCheckpoint name =>
    simp only [apply, RockLake.unpinCheckpoint] at applied
    split at applied
    · contradiction
    · cases applied
      exact db.delete_family _ (by simpa [touched] using untouched)
  | holdSnapshot nowMs consumerId minSnapshotId ttlSeconds =>
    obtain ⟨row, held⟩ := apply_snd applied
    rw [(holdSnapshot_ok held).2]
    exact db.put_family _ (by simpa [touched] using untouched)
  | releaseSnapshot consumerId =>
    obtain ⟨existed, released⟩ := apply_snd applied
    rw [releaseSnapshot_ok released]
    exact db.delete_family _ (by simpa [touched] using untouched)
  | unpinSnapshot snapshotId =>
    cases applied
    exact db.delete_family _ (by simpa [touched] using untouched)
  | gcApply newRetainFrom nowMs =>
    obtain ⟨result, collected⟩ := apply_snd applied
    exact (gcApply_ok collected).2.1 f (by simpa [touched] using untouched)
  | exciseApply beforeSnapshot operator timestampMillis fails =>
    obtain ⟨result, excised⟩ := apply_snd applied
    simp only [touched, List.mem_cons, not_or] at untouched
    refine OrderedMap.ext_get fun k => ?_
    refine ((exciseApply_ok excised).2.2.1 f k untouched.1 untouched.2.1).trans ?_
    cases found : db.get f k with
    | none => exact found.symm
    | some row =>
      refine Eq.trans ?_ found.symm
      simp [Option.filter, not_excisable untouched.2.2]

theorem apply_counter (steady : call.rewinds db = false) (id : Nat)
    (notCheckpoint : id ≠ counterNextCheckpointId) (notExcision : id ≠ counterNextExcisionSeq) :
    db'.get .counter (keyCounter id) = db.get .counter (keyCounter id) := by
  have apart : ∀ other, id ≠ other → keyCounter id ≠ keyCounter other := by
    intro other different
    simpa [keyCounter] using different
  cases call with
  | createCheckpoint millis createdAt label =>
    cases applied
    exact get_put_key db _ (apart _ notCheckpoint)
  | restoreCheckpoint checkpointId =>
    obtain ⟨info, restored⟩ := apply_snd applied
    obtain ⟨found, ⟨_, rfl⟩ | ⟨later, _⟩⟩ := restoreCheckpoint_ok restored
    · rfl
    · simp [rewinds, found, later] at steady
  | exciseApply beforeSnapshot operator timestampMillis fails =>
    obtain ⟨result, excised⟩ := apply_snd applied
    exact (exciseApply_ok excised).2.2.2 id notExcision
  | _ => exact get_of_family (apply_family applied (by simp [touched])) _

theorem apply_counters (steady : call.rewinds db = false) :
    loadCounters db' = loadCounters db := by
  simp [loadCounters, apply_counter applied steady counterNextSnapshotId (by decide) (by decide),
    apply_counter applied steady counterNextCatalogId (by decide) (by decide), apply_counter applied
    steady counterNextFileId (by decide) (by decide)]

theorem apply_next (loaded : loadCounters db = .ok c) :
    ∃ d, loadCounters db' = .ok d ∧ c.nextSnapshotId ≤ d.nextSnapshotId := by
  cases call with
  | restoreCheckpoint checkpointId =>
    obtain ⟨info, restored⟩ := apply_snd applied
    rcases (restoreCheckpoint_ok restored).2 with ⟨_, rfl⟩ | ⟨_, rfl⟩
    · exact ⟨c, loaded, le_rfl⟩
    · rw [hideSnapshot_eq loaded]
      exact ⟨_, loadCounters_hidden loaded _ _ _, Nat.le_succ _⟩
  | _ => exact ⟨c, (apply_counters applied rfl).trans loaded, le_rfl⟩

def raises (floor : Nat) : UpkeepCall → Nat
  | .gcApply newRetainFrom _ => max floor newRetainFrom
  | _ => floor

theorem apply_floor :
    readRetainFrom db' = call.raises (readRetainFrom db) := by
  cases call with
  | gcApply newRetainFrom nowMs =>
    obtain ⟨result, collected⟩ := apply_snd applied
    exact (gcApply_ok collected).1
  | _ =>
    refine readRetainFrom_congr (apply_family applied ?_)
    simp [touched, restorable, excised]

end

theorem le_raises (floor : Nat) (call : UpkeepCall) : floor ≤ call.raises floor := by
  cases call <;> simp [raises]

/-- Snapshot rows are never added or changed, and only an excision takes them away. -/
theorem apply_snapshot (applied : call.apply db = .ok db') {row : SnapshotRow}
    (found : db'.get .snapshot k = some row) : db.get .snapshot k = some row := by
  cases call with
  | exciseApply beforeSnapshot operator timestampMillis fails =>
    obtain ⟨result, excised⟩ := apply_snd applied
    rw [(exciseApply_ok excised).2.2.1 .snapshot k (by decide) (by decide)] at found
    exact (Option.filter_eq_some_iff.mp found).1
  | _ =>
    rwa [← get_of_family (apply_family applied
      (by simp [touched, restorable]) : db' .snapshot = db .snapshot)]

end UpkeepCall

/-- What can happen to a catalog under maintenance. The store may be told the floor. -/
inductive MaintenanceEvent where
  | writer (event : CatalogEvent)
  | upkeep (call : UpkeepCall)
  | updateRetainFromCache

inductive Catalog.Maintain (env : Env) (catalog : Catalog) : MaintenanceEvent → Catalog → Prop
  | writer {catalog' event} (stepped : Catalog.Step env catalog event catalog') :
      Catalog.Maintain env catalog (.writer event) catalog'
  | upkeep {call : UpkeepCall} {db} (applied : call.apply catalog.db = .ok db) :
      Catalog.Maintain env catalog (.upkeep call) ⟨db, catalog.store⟩
  | updateRetainFromCache : Catalog.Maintain env catalog .updateRetainFromCache
        ⟨catalog.db, catalog.store.updateRetainFromCache (readRetainFrom catalog.db)⟩

def Catalog.Maintained (env : Env) (catalog : Catalog) : Prop := catalog.ReachedBy (Maintain env)

namespace Catalog.Maintained

theorem opened (nonce : String) (opened : Catalog.Opens nonce handle base) :
    Maintained env ⟨base, handle⟩ :=
  ⟨nonce, _, _, [], opened, .done⟩

theorem step (maintained : Maintained env catalog)
    (stepped : Maintain env catalog event catalog') : Maintained env catalog' := by
  obtain ⟨nonce, store, db, events, opened, ran⟩ := maintained
  exact ⟨nonce, store, db, _, opened, ran.append (.single stepped)⟩

theorem session (maintained : Maintained env catalog) (session : Session)
    (committed : session.commit env catalog = .ok (result, catalog')) : Maintained env catalog' :=
  maintained.step (.writer (.session committed))

theorem upkeep (maintained : Maintained env catalog) (call : UpkeepCall)
    (applied : call.apply catalog.db = .ok base) : Maintained env ⟨base, catalog.store⟩ :=
  maintained.step (.upkeep applied)

end Catalog.Maintained

namespace CatalogWriter

variable {env : Env} {db : Db} {w w' : CatalogWriter}

theorem runCalls_version (env : Env) (db : Db) (w : CatalogWriter) (calls : List WriterCall) :
    (runCalls env (db, w) calls).2.currentSchemaVersion = w.currentSchemaVersion := by
  induction calls generalizing db w with
  | nil => rfl
  | cons call rest ih =>
    refine (ih _ _).trans ?_
    rcases call_writer env db w call with unchanged | ⟨_, _, _, called⟩
    · rw [unchanged]
    · rw [(staging_spec called).2]

end CatalogWriter

namespace Session

variable {env : Env} {catalog catalog' : Catalog} {session : Session} {result : CommitResult}

def changesSchema (env : Env) (catalog : Catalog) (session : Session) : Bool :=
  (runCalls env (catalog.db, catalog.store.beginWrite) session.calls).2.schemaChanged

/-- A commit records the version that the store handle has, counted up if the schema changes. -/
theorem commit_version (ended : session.commit env catalog = .ok (result, catalog')) :
    ∃ row, row.snapshotId = result.snapshotId ∧
      row.schemaVersion = catalog.store.schemaVersion + (session.changesSchema env catalog).toNat ∧
      catalog'.store.schemaVersion = row.schemaVersion ∧
      (∀ k, catalog'.db.get .snapshot k =
        if k = keySnapshot row.snapshotId then some row else catalog.db.get .snapshot k) ∧
      loadCounters catalog'.db = .ok catalog'.store.counters ∧
      row.snapshotId = catalog.store.counters.nextSnapshotId ∧
      catalog'.store.counters.nextSnapshotId = row.snapshotId + 1 := by
  obtain ⟨db, w, ran, rfl, stored, handle⟩ := session.commit_ok ended
  obtain ⟨frame, before, staged⟩ := runCalls_ran ran
  have version := runCalls_version env catalog.db catalog.store.beginWrite session.calls
  rw [ran] at version
  refine ⟨w.snapshotRow session.request.now, rfl, ?_, ?_, ?_, ?_, frame.snapshot, ?_⟩
  · rw [changesSchema, ran]
    have same : w.currentSchemaVersion = catalog.store.schemaVersion := version
    simp only [snapshotRow, drained, same]
    cases w.schemaChanged <;> rfl
  · rw [handle]
    rfl
  · intro k
    rw [stored, commitWrites_snapshot staged k, get_of_family (before .snapshot rfl)]
    rfl
  · rw [stored, handle]
    exact loadCounters_commit db w session.request
  · rw [handle]
    rfl

end Session

/-- Families that no writer touches once the catalog is initialised. -/
def Family.tended : Family → Bool
  | .retainFrom | .catalogFormatVersion | .snapshotLease | .pinnedSnapshot | .checkpoint
  | .checkpointPin | .exciseAudit => true
  | _ => false

namespace Catalog

variable {catalog catalog' : Catalog}

section

variable (format : catalog.db.get .catalogFormatVersion keySystem = some catalogFormatVersion)
  (stepped : Step env catalog event catalog')
include format stepped

theorem Step.tended (tended : f.tended = true) :
    catalog'.db f = catalog.db f := by
  have core : f.core = true := by cases f <;> first | rfl | contradiction
  cases stepped with
  | @session _ session result committed =>
    obtain ⟨db, w, ran, rfl, stored, _⟩ := session.commit_ok committed
    obtain ⟨_, before, staged⟩ := runCalls_ran ran
    rw [stored, ← before f core]
    refine commitWrites_family staged ?_ ?_ ?_ ?_ <;>
      cases f <;> first | rfl | contradiction | simp
  | abandon => exact runCalls_core _ _ _ _ core
  | reopen opened =>
    exact openCatalog_other format opened (by rintro rfl; contradiction)
      (by rintro rfl; contradiction)

/-- What holds under any maintenance: the catalog is initialised, the cached floor is not ahead of
the stored one, and snapshot rows are stored under their own identifiers. -/
structure Tended (catalog : Catalog) : Prop where
  format : catalog.db.get .catalogFormatVersion keySystem = some catalogFormatVersion
  cached : catalog.store.retainFromCache ≤ readRetainFrom catalog.db
  snapshots : ∀ k row, catalog.db.get .snapshot k = some row → k = keySnapshot row.snapshotId

/-- What holds as long as no restore moves the snapshot counter: the store handle has the stored
counters, and the snapshots so far are below them. -/
structure Counted (catalog : Catalog) : Prop where
  loaded : loadCounters catalog.db = .ok catalog.store.counters
  positive : 0 < catalog.store.counters.nextSnapshotId
  below : ∀ k row, catalog.db.get .snapshot k = some row →
    row.snapshotId < catalog.store.counters.nextSnapshotId

/-- The snapshot rows after a step of the writer: those of before, and in a commit one more. -/
theorem Step.snapshot :
    (catalog'.db .snapshot = catalog.db .snapshot ∧
      loadCounters catalog'.db = loadCounters catalog.db ∧
      ∀ c, loadCounters catalog.db = .ok c → catalog.store.counters = c →
        catalog'.store.counters = c) ∨
    ∃ row, row.snapshotId = catalog.store.counters.nextSnapshotId ∧
      (∀ k, catalog'.db.get .snapshot k =
        if k = keySnapshot row.snapshotId then some row else catalog.db.get .snapshot k) ∧
      loadCounters catalog'.db = .ok catalog'.store.counters ∧
      catalog'.store.counters.nextSnapshotId = catalog.store.counters.nextSnapshotId + 1 := by
  cases stepped with
  | session committed =>
    obtain ⟨row, _, _, _, rows, loaded, next, up⟩ := Session.commit_version committed
    exact .inr ⟨row, next, rows, loaded, next ▸ up⟩
  | abandon =>
    exact .inl ⟨runCalls_core _ _ _ _ rfl,
      loadCounters_congr fun id => runCalls_counter _ _ _ _ id, fun _ _ same => same⟩
  | reopen opened =>
    obtain ⟨c, epoch, loaded, acquired, rfl⟩ := openCatalog_ok format opened
    obtain ⟨_, _, _, other⟩ := acquireEpoch_ok acquired
    refine .inl ⟨other _ (by decide) (by decide),
      loadCounters_congr fun id => get_of_family (other .counter (by decide) (by decide)) _, ?_⟩
    intro d loaded' _
    cases loaded.symm.trans loaded'
    rfl

end

theorem Tended.step (kept : catalog.Tended) (stepped : Maintain env catalog event catalog') :
    catalog'.Tended := by
  cases stepped with
  | @writer _ event stepped =>
    have tended := fun {f : Family} => stepped.tended kept.format (f := f)
    refine ⟨(get_of_family (tended rfl) _).trans kept.format, ?_, ?_⟩
    · rw [readRetainFrom_congr (tended rfl)]
      cases stepped with
      | @session _ session result committed =>
        obtain ⟨db, w, _, rfl, _, handle⟩ := session.commit_ok committed
        rw [handle]
        exact kept.cached
      | abandon => exact kept.cached
      | reopen opened =>
        obtain ⟨c, epoch, _, acquired, rfl⟩ := openCatalog_ok kept.format opened
        exact (readRetainFrom_congr (tended rfl)).le
    · intro k row found
      rcases stepped.snapshot kept.format with ⟨same, _⟩ | ⟨new, _, rows, _⟩
      · exact kept.snapshots k row (get_of_family same k ▸ found)
      rw [rows] at found
      split at found
      · cases found
        assumption
      · exact kept.snapshots k row found
  | @upkeep call db applied =>
    refine ⟨?_, ?_, fun k row found => kept.snapshots k row (UpkeepCall.apply_snapshot applied found)⟩
    · refine (get_of_family (UpkeepCall.apply_family applied ?_) _).trans kept.format
      cases call <;> simp [UpkeepCall.touched, restorable, excised]
    · rw [UpkeepCall.apply_floor applied]
      exact kept.cached.trans (UpkeepCall.le_raises _ call)
  | updateRetainFromCache => exact ⟨kept.format, le_rfl, kept.snapshots⟩

theorem initial_tended (opened : Opens nonce handle base) :
    Tended ⟨base, handle⟩ ∧ Counted ⟨base, handle⟩ ∧ handle.counters = initialCounters ∧
      readRetainFrom base = 0 := by
  have valid := initial_valid opened
  have floor : readRetainFrom base = 0 := by simp [readRetainFrom, valid.retained]
  obtain ⟨epoch, acquired, rfl⟩ := openCatalog_empty opened
  obtain ⟨_, _, _, other⟩ := acquireEpoch_ok acquired
  have absent : ∀ k, base.get .snapshot k = none :=
    get_of_family (other .snapshot (by decide) (by decide))
  refine ⟨⟨valid.format, valid.cached.le.trans (Nat.zero_le _), ?_⟩,
    ⟨valid.loaded, valid.positive, ?_⟩, rfl, floor⟩ <;> intro k row found <;> simp [absent] at found

theorem Maintained.tended (maintained : catalog.Maintained env) : catalog.Tended := by
  obtain ⟨_, _, _, _, opened, ran⟩ := maintained
  exact ran.invariant Tended (fun _ _ _ kept stepped => kept.step stepped) (initial_tended opened).1

/-- An event that does not move the snapshot counter by a restore. -/
def Steady (catalog : Catalog) : MaintenanceEvent → Prop
  | .upkeep call => call.rewinds catalog.db = false
  | _ => True

theorem Counted.step (tended : catalog.Tended) (counted : catalog.Counted)
    (steady : catalog.Steady event) (stepped : Maintain env catalog event catalog') :
    catalog'.Counted := by
  cases stepped with
  | writer stepped =>
    rcases stepped.snapshot tended.format with ⟨same, loaded, handle⟩ | ⟨new, next, rows, loaded, up⟩
    · have unchanged := handle _ counted.loaded rfl
      refine ⟨loaded.trans (unchanged ▸ counted.loaded), unchanged ▸ counted.positive, ?_⟩
      intro k row found
      exact unchanged ▸ counted.below k row (get_of_family same k ▸ found)
    · refine ⟨loaded, by omega, fun k row found => ?_⟩
      rw [rows] at found
      split at found
      · cases found
        omega
      · have earlier := counted.below k row found
        omega
  | upkeep applied =>
    exact ⟨(UpkeepCall.apply_counters applied steady).trans counted.loaded, counted.positive,
      fun k row found => counted.below k row (UpkeepCall.apply_snapshot applied found)⟩
  | updateRetainFromCache => exact ⟨counted.loaded, counted.positive, counted.below⟩

/-- Snapshots are numbered from one, in the store handle and in the database. -/
structure Numbered (catalog : Catalog) : Prop where
  handle : 0 < catalog.store.counters.nextSnapshotId
  stored : ∀ c, loadCounters catalog.db = .ok c → 0 < c.nextSnapshotId

theorem Numbered.step (tended : catalog.Tended) (numbered : catalog.Numbered)
    (stepped : Maintain env catalog event catalog') : catalog'.Numbered := by
  cases stepped with
  | @writer _ event stepped =>
    rcases stepped.snapshot tended.format with ⟨_, loaded, _⟩ | ⟨row, _, _, loaded, up⟩
    · refine ⟨?_, loaded ▸ numbered.stored⟩
      cases stepped with
      | @session _ session result committed =>
        obtain ⟨db, w, ran, rfl, _, handle⟩ := session.commit_ok committed
        rw [handle]
        exact Nat.succ_pos _
      | abandon => exact numbered.handle
      | reopen opened =>
        obtain ⟨c, epoch, stored, _, rfl⟩ := openCatalog_ok tended.format opened
        exact numbered.stored c stored
    · have positive : 0 < catalog'.store.counters.nextSnapshotId := by omega
      refine ⟨positive, fun c stored => ?_⟩
      cases loaded.symm.trans stored
      exact positive
  | @upkeep call db applied =>
    refine ⟨numbered.handle, ?_⟩
    by_cases steady : call.rewinds catalog.db = false
    · rw [UpkeepCall.apply_counters applied steady]
      exact numbered.stored
    · cases call with
      | restoreCheckpoint checkpointId =>
        obtain ⟨info, restored⟩ := UpkeepCall.apply_snd applied
        rcases (restoreCheckpoint_ok restored).2 with ⟨_, rfl⟩ | ⟨_, rfl⟩
        · exact numbered.stored
        intro c stored
        have next := (loadCounters_ok.mp stored).1
        rw [get_put_same] at next
        have same : hideSnapshot catalog.db info + 1 = c.nextSnapshotId := Option.some.inj next
        exact same ▸ Nat.succ_pos _
      | _ => exact absurd rfl steady
  | updateRetainFromCache => exact ⟨numbered.handle, numbered.stored⟩

theorem Maintained.numbered (maintained : catalog.Maintained env) : catalog.Numbered := by
  obtain ⟨_, _, _, _, opened, ran⟩ := maintained
  obtain ⟨tended, counted, _⟩ := initial_tended opened
  have both := ran.invariant (fun c => c.Tended ∧ c.Numbered)
    (fun _ _ _ kept stepped => ⟨kept.1.step stepped, kept.2.step kept.1 stepped⟩)
    ⟨tended, counted.positive, fun c stored => by
      cases counted.loaded.symm.trans stored
      exact counted.positive⟩
  exact both.2

end Catalog

end RockLake
