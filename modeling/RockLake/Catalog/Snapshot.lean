import RockLake.Catalog.Staging
import RockLake.Catalog.DirectWrites

/-! The snapshot commit: all staged pairs, the snapshot row, the change log and the counters go
into the store in one serializable transaction, after a check of the writer epoch inside it. -/
namespace RockLake

open List Option

structure CommitResult where
  snapshotId : Nat
  nextSnapshotId : Nat
  nextCatalogId : Nat
  nextFileId : Nat
  schemaVersion : Nat
  deriving DecidableEq

/-- Arguments of a commit, with the clock reading it takes and the outcome of the transaction:
`conflict` is the message of a lost race, absent when the transaction goes through. -/
structure SnapshotRequest where
  author : Option String := none
  message : Option String := none
  now : String := ""
  conflict : Option String := none

namespace CatalogWriter

variable (db : Db) (w : CatalogWriter)

def checkEpoch : Except CatalogError Unit :=
  if db.get .writerEpoch keySystem = some w.writerEpoch then
    if db.get .writerNonce keySystem = some w.writerNonce then .ok ()
    else .error .writerEpochMismatch
  else .error .writerEpochMismatch

/-- The change-log row of the snapshot, kept only when it says something. -/
def finishChanges (snapshotId : Nat) (author message : Option String) : Option SnapshotChangesRow :=
  let row : SnapshotChangesRow := w.pendingSnapshotChanges.getD
    { snapshotId, changeType := "", changeInfo := none, schemaId := none, tableId := none,
      author := none, commitMessage := none, commitExtraInfo := none, changesMade := none }
  let row : SnapshotChangesRow :=
    { row with snapshotId, author := row.author.or author,
               commitMessage := row.commitMessage.or message }
  if row.author.isSome || row.commitMessage.isSome || row.changesMade.isSome ||
      !row.changeType.isEmpty then some row else none

/-- The writer once a commit is attempted: the snapshot id is spent, the schema version advanced
and everything staged is drained, whether or not the transaction succeeds. -/
def drained : CatalogWriter :=
  { w with
    counters := w.counters.allocSnapshotId.2
    currentSchemaVersion := if w.schemaChanged then w.currentSchemaVersion + 1
      else w.currentSchemaVersion
    schemaChanged := false
    staged := []
    pendingSnapshotChanges := none }

def snapshotRow (now : String) : SnapshotRow :=
  { snapshotId := w.snapshotId, schemaVersion := w.drained.currentSchemaVersion,
    snapshotTime := now, author := none, message := none,
    nextCatalogId := some w.counters.nextCatalogId, nextFileId := some w.counters.nextFileId }

def counterWrites (c : CounterCache) : List Write :=
  [⟨.counter, keyCounter counterNextSnapshotId, c.nextSnapshotId⟩,
   ⟨.counter, keyCounter counterNextCatalogId, c.nextCatalogId⟩,
   ⟨.counter, keyCounter counterNextFileId, c.nextFileId⟩]

/-- What a commit adds to the staged pairs: the snapshot row, the change log and the counters. -/
def commitTail (request : SnapshotRequest) : List Write :=
  ⟨.snapshot, keySnapshot w.snapshotId, w.snapshotRow request.now⟩ ::
  ((w.finishChanges w.snapshotId request.author request.message).map fun row =>
    (⟨.snapshotChanges, keySnapshotChanges w.snapshotId, row⟩ : Write)).toList ++
  counterWrites w.drained.counters

def commitWrites (request : SnapshotRequest) : List Write := w.staged ++ w.commitTail request

theorem commitTail_family (member : x ∈ w.commitTail request) :
    x.family = .snapshot ∨ x.family = .snapshotChanges ∨ x.family = .counter := by
  simp only [commitTail, counterWrites, cons_append, mem_cons, mem_append,
    mem_toList, map_eq_some_iff, not_mem_nil, or_false] at member
  rcases member with rfl | ⟨row, _, rfl⟩ | rfl | rfl | rfl
  · exact .inl rfl
  · exact .inr (.inl rfl)
  all_goals exact .inr (.inr rfl)

theorem commitTail_changes :
    (⟨.snapshotChanges, k, row⟩ : Write) ∈ w.commitTail request ↔ k = keySnapshotChanges w.snapshotId ∧
      w.finishChanges w.snapshotId request.author request.message = some row := by
  simp only [commitTail, counterWrites, cons_append, mem_cons, mem_append,
    mem_toList, map_eq_some_iff, not_mem_nil, or_false]
  constructor
  · rintro (other | ⟨row', finished, same⟩ | other | other | other)
    case inr.inl =>
      cases same
      exact ⟨rfl, finished⟩
    all_goals cases other
  · rintro ⟨rfl, finished⟩
    exact .inr (.inl ⟨row, finished, rfl⟩)

theorem finishChanges_snapshotId {snapshotId : Nat}
    (finished : w.finishChanges snapshotId author message = some row) :
    row.snapshotId = snapshotId := by
  simp only [finishChanges] at finished
  split at finished
  · cases finished
    rfl
  · contradiction

def commitResult : CommitResult :=
  { snapshotId := w.snapshotId
    nextSnapshotId := w.drained.counters.nextSnapshotId
    nextCatalogId := w.drained.counters.nextCatalogId
    nextFileId := w.drained.counters.nextFileId
    schemaVersion := w.drained.currentSchemaVersion }

def createSnapshot (request : SnapshotRequest) :
    Except CatalogError (CommitResult × Db) × CatalogWriter :=
  (do
    w.checkEpoch db
    match request.conflict with
    | some message => .error (.transactionConflict message)
    | none => .ok (w.commitResult, db.putAll (w.commitWrites request)),
   w.drained)

/-- A commit succeeds exactly when the epoch check passes and the transaction has no conflict, and
then it puts all its writes. -/
theorem createSnapshot_ok :
    (w.createSnapshot db request).1 = .ok (result, db') ↔
      (db.get .writerEpoch keySystem = some w.writerEpoch ∧
        db.get .writerNonce keySystem = some w.writerNonce) ∧
      request.conflict = none ∧ result = w.commitResult ∧
      db' = db.putAll (w.commitWrites request) := by
  simp only [createSnapshot, checkEpoch]
  by_cases epoch : db.get .writerEpoch keySystem = some w.writerEpoch
  · by_cases nonce : db.get .writerNonce keySystem = some w.writerNonce
    · cases request.conflict <;>
        simp [epoch, nonce, bind, Except.bind, eq_comm]
    · simp [epoch, nonce, bind, Except.bind]
  · simp [epoch, bind, Except.bind]

end CatalogWriter

/-- Any mutating call on a writer other than the commit. -/
inductive WriterCall where
  | staging (call : StagingCall)
  | direct (call : DirectCall)
  | nextRowidRange (tableId count : Nat)

/-- The store, the writer and the answer after one call. -/
structure CallOutcome where
  db : Db
  writer : CatalogWriter
  answer : Except CatalogError Reply

def CatalogWriter.call (env : Env) (db : Db) (w : CatalogWriter) : WriterCall → CallOutcome
  | .staging c =>
    match w.staging env db c with
    | .ok (r, w') => ⟨db, w', .ok r⟩
    | .error e => ⟨db, w, .error e⟩
  | .direct c => ⟨c.apply env db, w, .ok .unit⟩
  | .nextRowidRange tableId count =>
    match CatalogWriter.nextRowidRange db tableId count with
    | .ok (start, stop, db') => ⟨db', w, .ok (.range start stop)⟩
    | .error e => ⟨db, w, .error e⟩

end RockLake
