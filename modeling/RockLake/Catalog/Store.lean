import RockLake.Lib.Run
import RockLake.Catalog.Snapshot

/-! The catalog store handle: opening a catalog, beginning a write session, taking over the
counters of a committed one, and binding readers to a snapshot. -/
namespace RockLake

open Db CatalogWriter

def catalogFormatVersion : Nat := 1

def loadCounters (db : Db) : Except CatalogError CounterCache :=
  match db.get .counter (keyCounter counterNextSnapshotId),
    db.get .counter (keyCounter counterNextCatalogId),
    db.get .counter (keyCounter counterNextFileId) with
  | some nextSnapshotId, some nextCatalogId, some nextFileId =>
    .ok { nextSnapshotId, nextCatalogId, nextFileId }
  | _, _, _ => .error .notInitialized

def initialCounters : CounterCache := ⟨1, 1, 1⟩

def initialWrites : List Write :=
  ⟨.catalogFormatVersion, keySystem, catalogFormatVersion⟩ ::
  counterWrites initialCounters ++ [⟨.retainFrom, keySystem, 0⟩]

/-- First step of an open, one transaction: load the counters of an initialised catalog, or
initialise an empty one. -/
def initializeCatalog (db : Db) : Except CatalogError (CounterCache × Db) :=
  match db.get .catalogFormatVersion keySystem with
  | some version =>
    if version = catalogFormatVersion then (loadCounters db).map fun c => (c, db)
    else .error (.formatVersionMismatch catalogFormatVersion version)
  | none => .ok (initialCounters, db.putAll initialWrites)

/-- Second step of an open, a later transaction: advance the epoch and store a fresh nonce. -/
def acquireEpoch (db : Db) (nonce : String) : Except CatalogError (Nat × Db) :=
  let current := (db.get .writerEpoch keySystem).getD 0
  if current + 1 > u64Max then .error (.internal "writer epoch counter overflow")
  else .ok (current + 1,
    db.putAll [⟨.writerEpoch, keySystem, current + 1⟩, ⟨.writerNonce, keySystem, nonce⟩])

def loadSchemaVersion (db : Db) (c : CounterCache) : Nat :=
  if c.nextSnapshotId > 1 then
    match db.get .snapshot (keySnapshot (c.nextSnapshotId - 1)) with
    | some row => row.schemaVersion
    | none => 0
  else 0

/-- A reader sees the store as it is, through the snapshot it is bound to. -/
structure CatalogReader where
  db : Db
  snapshot : Nat

structure CatalogStore where
  counters : CounterCache
  writerEpoch : Nat
  writerNonce : String
  schemaVersion : Nat
  retainFromCache : Nat

/-- Last step of an open: plain reads that complete the handle. -/
def finishOpen (db : Db) (counters : CounterCache) (writerEpoch : Nat) (writerNonce : String) :
    CatalogStore :=
  { counters, writerEpoch, writerNonce
    schemaVersion := loadSchemaVersion db counters
    retainFromCache := (db.get .retainFrom keySystem).getD 0 }

namespace CatalogStore

def openCatalog (db : Db) (nonce : String) : Except CatalogError (CatalogStore × Db) := do
  let (counters, db) ← initializeCatalog db
  let (epoch, db) ← acquireEpoch db nonce
  .ok (finishOpen db counters epoch nonce, db)

variable (store : CatalogStore)

def beginWrite : CatalogWriter :=
  { counters := store.counters, writerEpoch := store.writerEpoch, writerNonce := store.writerNonce,
    schemaChanged := false, currentSchemaVersion := store.schemaVersion, staged := [],
    pendingSnapshotChanges := none }

def commitWriter (result : CommitResult) : CatalogStore :=
  { store with
    counters := ⟨result.nextSnapshotId, result.nextCatalogId, result.nextFileId⟩
    schemaVersion := result.schemaVersion }

def readAt (db : Db) (snapshot : Nat) : Except CatalogError CatalogReader :=
  if store.retainFromCache > 0 && snapshot < store.retainFromCache then
    .error (.snapshotOutOfRetention snapshot store.retainFromCache)
  else .ok ⟨db, snapshot⟩

def latestSnapshot : Nat :=
  if store.counters.nextSnapshotId > 1 then store.counters.nextSnapshotId - 1 else 0

def readLatest (db : Db) : CatalogReader := ⟨db, store.latestSnapshot⟩

def updateRetainFromCache (newRetainFrom : Nat) : CatalogStore :=
  { store with retainFromCache := newRetainFrom }

end CatalogStore

theorem CatalogStore.latestSnapshot_eq (store : CatalogStore) :
    store.latestSnapshot = store.counters.nextSnapshotId - 1 := by
  simp only [latestSnapshot]
  split <;> omega

theorem loadCounters_ok : loadCounters db = .ok c ↔
    db.get .counter (keyCounter counterNextSnapshotId) = some c.nextSnapshotId ∧
    db.get .counter (keyCounter counterNextCatalogId) = some c.nextCatalogId ∧
    db.get .counter (keyCounter counterNextFileId) = some c.nextFileId := by
  obtain ⟨snapshot, catalog, file⟩ := c
  simp only [loadCounters]
  split
  · rename_i first second third
    simp [first, second, third]
  · rename_i missing
    simp only [reduceCtorEq, false_iff]
    rintro ⟨first, second, third⟩
    exact missing _ _ _ first second third

theorem loadCounters_congr
    (same : ∀ id, db'.get .counter (keyCounter id) = db.get .counter (keyCounter id)) :
    loadCounters db' = loadCounters db := by
  simp [loadCounters, same]

theorem loadCounters_counterWrites (db : Db) (c : CounterCache) :
    loadCounters (db.putAll (counterWrites c)) = .ok c := by
  have first : (db.putAll (counterWrites c)).get .counter
      (keyCounter counterNextSnapshotId) = some c.nextSnapshotId :=
    ((get_put_key _ _ (by decide)).trans (get_put_key _ _ (by decide))).trans
      (get_put_same _ _ _)
  have second : (db.putAll (counterWrites c)).get .counter
      (keyCounter counterNextCatalogId) = some c.nextCatalogId :=
    (get_put_key _ _ (by decide)).trans (get_put_same _ _ _)
  exact loadCounters_ok.mpr ⟨first, second, get_put_same _ _ _⟩

theorem loadCounters_initial (db : Db) :
    loadCounters (db.putAll initialWrites) = .ok initialCounters := by
  refine (loadCounters_congr fun id => ?_).trans
    (loadCounters_counterWrites (db.put ⟨.catalogFormatVersion, keySystem, catalogFormatVersion⟩)
      initialCounters)
  rfl

theorem loadCounters_commit (db : Db) (w : CatalogWriter) (request : SnapshotRequest) :
    loadCounters (db.putAll (w.commitWrites request)) = .ok w.drained.counters := by
  rw [commitWrites, putAll_append, commitTail, putAll_append]
  exact loadCounters_counterWrites _ _

/-- A first step of an open either loads the counters and changes nothing, or finds no catalog and
writes the initial one. -/
theorem initializeCatalog_ok (opened : initializeCatalog db = .ok (c, db')) :
    (db.get .catalogFormatVersion keySystem = some catalogFormatVersion ∧
      loadCounters db = .ok c ∧ db' = db) ∨
    (db.get .catalogFormatVersion keySystem = none ∧ c = initialCounters ∧
      db' = db.putAll initialWrites) := by
  simp only [initializeCatalog] at opened
  split at opened
  · rename_i version found
    split at opened
    · rename_i same
      subst same
      cases loaded : loadCounters db with
      | error e => simp [loaded, Except.map] at opened
      | ok counters =>
        simp only [loaded, Except.map, Except.ok.injEq, Prod.mk.injEq] at opened
        exact .inl ⟨found, congrArg _ opened.1, opened.2.symm⟩
    · contradiction
  · rename_i found
    cases opened
    exact .inr ⟨found, rfl, rfl⟩

theorem acquireEpoch_ok (acquired : acquireEpoch db nonce = .ok (epoch, db')) :
    epoch = (db.get .writerEpoch keySystem).getD 0 + 1 ∧
      db'.get .writerEpoch keySystem = some epoch ∧ db'.get .writerNonce keySystem = some nonce ∧
      ∀ f, f ≠ .writerEpoch → f ≠ .writerNonce → db' f = db f := by
  simp only [acquireEpoch] at acquired
  split at acquired
  · contradiction
  cases acquired
  refine ⟨rfl, get_put_same (f := .writerEpoch) db keySystem _,
    get_put_same (f := .writerNonce) _ keySystem nonce, ?_⟩
  intro f notEpoch notNonce
  refine db.putAll_family fun x member same => ?_
  rcases List.mem_pair.mp member with rfl | rfl
  · exact notEpoch same.symm
  · exact notNonce same.symm

/-- Opening a catalog that is initialised already takes over its counters and acquires the next
epoch. -/
theorem CatalogStore.openCatalog_ok
    (format : db.get .catalogFormatVersion keySystem = some catalogFormatVersion)
    (opened : openCatalog db nonce = .ok (store, db')) :
    ∃ c epoch, loadCounters db = .ok c ∧ acquireEpoch db nonce = .ok (epoch, db') ∧
      store = finishOpen db' c epoch nonce := by
  cases loaded : loadCounters db with
  | error e =>
    simp [openCatalog, initializeCatalog, format, loaded, Except.map, bind, Except.bind] at opened
  | ok c =>
    simp only [openCatalog, initializeCatalog, format, if_true, loaded, Except.map, bind,
      Except.bind] at opened
    split at opened
    · contradiction
    · rename_i acquired
      cases opened
      exact ⟨c, _, rfl, acquired, rfl⟩

/-- Opening an empty database writes the initial catalog and acquires the first epoch. -/
theorem CatalogStore.openCatalog_empty (opened : openCatalog Db.empty nonce = .ok (store, db)) :
    ∃ epoch, acquireEpoch (Db.empty.putAll initialWrites) nonce = .ok (epoch, db) ∧
      store = finishOpen db initialCounters epoch nonce := by
  have start : initializeCatalog Db.empty = .ok (initialCounters, Db.empty.putAll initialWrites) :=
    rfl
  simp only [openCatalog, start, bind, Except.bind] at opened
  split at opened
  · contradiction
  · rename_i acquired
    cases opened
    exact ⟨_, acquired, rfl⟩

/-- Opening writes nothing but the epoch and the nonce to a catalog that is initialised already. -/
theorem CatalogStore.openCatalog_other
    (format : db.get .catalogFormatVersion keySystem = some catalogFormatVersion)
    (opened : openCatalog db nonce = .ok (store, db')) (notEpoch : f ≠ .writerEpoch)
    (notNonce : f ≠ .writerNonce) : db' f = db f := by
  obtain ⟨_, _, _, acquired, _⟩ := openCatalog_ok format opened
  exact (acquireEpoch_ok acquired).2.2.2 f notEpoch notNonce

theorem CatalogStore.openCatalog_initial (opened : openCatalog Db.empty nonce = .ok (store, db))
    (notEpoch : f ≠ .writerEpoch) (notNonce : f ≠ .writerNonce) :
    db f = (Db.empty.putAll initialWrites) f := by
  obtain ⟨_, acquired, _⟩ := openCatalog_empty opened
  exact (acquireEpoch_ok acquired).2.2.2 f notEpoch notNonce

/-- A catalog with the one store handle that writes to it. -/
structure Catalog where
  db : Db
  store : CatalogStore

/-- A write session: calls on a fresh writer, then the commit. -/
structure Session where
  calls : List WriterCall
  request : SnapshotRequest

/-- The calls of a session, each on the store and writer the one before left behind. Failing calls
are part of a session: the caller may go on. -/
def runCalls (env : Env) : Db × CatalogWriter → List WriterCall → Db × CatalogWriter
  | state, [] => state
  | (db, w), c :: rest =>
    let outcome := w.call env db c
    runCalls env (outcome.db, outcome.writer) rest

theorem runCalls_append (env : Env) (state : Db × CatalogWriter) (calls later : List WriterCall) :
    runCalls env state (calls ++ later) = runCalls env (runCalls env state calls) later := by
  induction calls generalizing state with
  | nil => rfl
  | cons call rest ih => exact ih _

/-- A committed session: it ends with a successful `createSnapshot` whose result the store takes
over. -/
def Session.commit (env : Env) (catalog : Catalog) (session : Session) :
    Except CatalogError (CommitResult × Catalog) :=
  let (db, w) := runCalls env (catalog.db, catalog.store.beginWrite) session.calls
  match (w.createSnapshot db session.request).1 with
  | .ok (result, db') => .ok (result, ⟨db', catalog.store.commitWriter result⟩)
  | .error e => .error e

def Env.trivial : Env := ⟨fun _ => 0, fun _ _ => none⟩

end RockLake
