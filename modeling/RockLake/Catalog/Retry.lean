import RockLake.Catalog.Immutability

/-! A commit that is tried again. The writer spends its snapshot identifier and drains what it has
staged before the transaction starts, so a second call on the same writer commits under the next
identifier, with the schema version of the first call and without its rows and its change record. -/
namespace RockLake

open CatalogWriter

/-- A change record that adds nothing to the author and the message of a commit. -/
def SnapshotChangesRow.SaysNothing (row : SnapshotChangesRow) (author message : Option String) : Prop :=
  row.author.or author = author ∧ row.commitMessage.or message = message ∧ row.changeType = "" ∧
    row.changesMade = none ∧ ((author = none ∧ message = none) ∨
      (row.changeInfo = none ∧ row.schemaId = none ∧ row.tableId = none ∧ row.commitExtraInfo = none))

namespace CatalogWriter

variable {w : CatalogWriter}

/-- The puts of a later commit hold what a first call of this writer would have committed: the staged
rows, in sight at the later snapshot as they would have been at the first, the change record and the
schema version. -/
structure Recommits (w : CatalogWriter) (first : SnapshotRequest) (puts : List Write)
    (snapshotId : Nat) : Prop where
  rows : ∀ x ∈ w.staged, x ∈ puts
  visible : ∀ x ∈ w.staged, x.family.seen snapshotId x.row = x.family.seen w.snapshotId x.row
  changes : ∀ row, w.finishChanges w.snapshotId first.author first.message = some row ↔
    row.snapshotId = w.snapshotId ∧
      (⟨.snapshotChanges, keySnapshotChanges snapshotId, { row with snapshotId }⟩ : Write) ∈ puts
  version : ∃ row, (⟨.snapshot, keySnapshot snapshotId, row⟩ : Write) ∈ puts ∧
    row.schemaVersion = (w.snapshotRow first.now).schemaVersion

/-- The record that a commit starts from where no changes were noted. -/
def blankChanges (snapshotId : Nat) : SnapshotChangesRow :=
  ⟨snapshotId, "", none, none, none, none, none, none, none⟩

theorem finishChanges_eq_some {snapshotId : Nat} :
    w.finishChanges snapshotId author message = some row ↔
      ∃ pending, pending = w.pendingSnapshotChanges.getD (blankChanges snapshotId) ∧
        ((pending.author.or author).isSome ∨ (pending.commitMessage.or message).isSome ∨
          pending.changesMade.isSome ∨ pending.changeType ≠ "") ∧
        row = { pending with snapshotId, author := pending.author.or author,
                             commitMessage := pending.commitMessage.or message } := by
  rw [exists_eq_left, finishChanges]
  show (if _ then some _ else none) = some row ↔ _
  rw [Option.ite_none_right_eq_some, Option.some.injEq, eq_comm (b := row)]
  refine and_congr_left fun _ => ?_
  simp only [Bool.or_eq_true, Bool.not_eq_true', String.isEmpty_eq_false_iff, or_assoc, blankChanges]

theorem finishChanges_drained_iff (author message : Option String) :
    (∀ row, w.finishChanges w.snapshotId author message = some row ↔
      row.snapshotId = w.snapshotId ∧
        w.drained.finishChanges w.drained.snapshotId author message =
          some { row with snapshotId := w.drained.snapshotId }) ↔
      ∀ pending ∈ w.pendingSnapshotChanges, pending.SaysNothing author message := by
  have after : w.drained.pendingSnapshotChanges = none := rfl
  have blank : (blankChanges w.snapshotId).SaysNothing author message :=
    ⟨rfl, rfl, rfl, rfl, .inr ⟨rfl, rfl, rfl, rfl⟩⟩
  have known : (∀ pending ∈ w.pendingSnapshotChanges, pending.SaysNothing author message) ↔
      (w.pendingSnapshotChanges.getD (blankChanges w.snapshotId)).SaysNothing author message := by
    cases w.pendingSnapshotChanges <;> simp [blank]
  simp only [known, finishChanges_eq_some, after, Option.getD_none, exists_eq_left]
  generalize w.pendingSnapshotChanges.getD (blankChanges w.snapshotId) = pending
  simp only [blankChanges, Option.none_or, Option.isSome_none, Bool.false_eq_true, ne_eq,
    not_true_eq_false, or_false]
  constructor
  · intro same
    by_cases given : author.isSome ∨ message.isSome
    · -- the author and the message alone make a record of the second commit
      have row := (same ⟨w.snapshotId, "", none, none, none, author, message, none, none⟩).mpr
        ⟨rfl, given, rfl⟩
      simp only [SnapshotChangesRow.mk.injEq, true_and] at row
      obtain ⟨-, type, info, schema, table, by_, said, extra, made⟩ := row
      exact ⟨by_.symm, said.symm, type.symm, made.symm,
        .inr ⟨info.symm, schema.symm, table.symm, extra.symm⟩⟩
    · have unsaid : ¬ ((pending.author.or author).isSome ∨ (pending.commitMessage.or message).isSome ∨
          pending.changesMade.isSome ∨ ¬ pending.changeType = "") :=
        fun kept => given ((same _).mp ⟨kept, rfl⟩).2.1
      simp only [not_or, Option.not_isSome_iff_eq_none] at given unsaid
      obtain ⟨rfl, rfl⟩ := given
      exact ⟨unsaid.1, unsaid.2.1, not_not.mp unsaid.2.2.2, unsaid.2.2.1, .inl ⟨rfl, rfl⟩⟩
  · rintro ⟨by_, said, type, made, ⟨rfl, rfl⟩ | ⟨info, schema, table, extra⟩⟩ row
    · simp [by_, said, type, made]
    · obtain ⟨snapshotId, changeType, changeInfo, schemaId, tableId, writer, text, extraInfo, changes⟩ :=
        row
      simp only [by_, said, type, made, info, schema, table, extra, SnapshotChangesRow.mk.injEq]
      simp
      tauto

end CatalogWriter

/-- A second call on a writer whose first one failed commits under the next identifier, and what it
commits is what the first call would have committed exactly if nothing was staged and the change
record, if any, says nothing. -/
theorem retry_recommits_iff (env : Env) (base : Db) (store : CatalogStore) (calls : List WriterCall)
    {db db' db'' : Db} {w : CatalogWriter} {first again : SnapshotRequest} {e : CatalogError}
    {result : CommitResult} (ran : runCalls env (base, store.beginWrite) calls = (db, w))
    (_failed : (w.createSnapshot db first).1 = .error e) (author : again.author = first.author)
    (message : again.message = first.message)
    (succeeded : ((w.createSnapshot db first).2.createSnapshot db' again).1 = .ok (result, db'')) :
    let puts := w.drained.commitWrites again
    db'' = db'.putAll puts ∧ result.snapshotId = w.snapshotId + 1 ∧
      (w.Recommits first puts result.snapshotId ↔
        w.staged = [] ∧
          ∀ pending ∈ w.pendingSnapshotChanges, pending.SaysNothing first.author first.message) := by
  obtain ⟨-, -, rfl, rfl⟩ := (createSnapshot_ok _ _).mp succeeded
  refine ⟨rfl, rfl, ?_⟩
  have staged : ∀ x ∈ w.staged, x.family.stageable = true := by
    have all := runCalls_staged env base store calls
    rwa [ran] at all
  have puts : w.drained.commitWrites again = w.drained.commitTail again := rfl
  have changes : ∀ row : SnapshotChangesRow,
      (⟨.snapshotChanges, keySnapshotChanges w.drained.snapshotId, row⟩ : Write) ∈
          w.drained.commitTail again ↔
        w.drained.finishChanges w.drained.snapshotId first.author first.message = some row := by
    intro row
    rw [w.drained.commitTail_changes, author, message]
    simp
  rw [← finishChanges_drained_iff]
  constructor
  · intro recommits
    refine ⟨List.eq_nil_iff_forall_not_mem.mpr fun x member => ?_, fun row => ?_⟩
    · have stageable := staged x member
      rcases w.drained.commitTail_family (recommits.rows x member) with same | same | same <;>
        rw [same] at stageable <;> contradiction
    · rw [recommits.changes row, puts, ← changes]
      rfl
  · rintro ⟨none, logged⟩
    refine ⟨by simp [none], by simp [none], fun row => ?_, ?_⟩
    · rw [logged row, puts, ← changes]
      rfl
    · exact ⟨_, List.mem_cons_self, rfl⟩

def lostRace : SnapshotRequest := { conflict := some "write conflict" }

/-- A writer that only noted a change of the schema loses a race, and tries again. -/
theorem retry_recommits_version : ∃ (catalog : Catalog) (w : CatalogWriter) (puts : List Write)
    (result : CommitResult), catalog.Reachable Env.trivial ∧ w.schemaChanged = true ∧
    (w.createSnapshot catalog.db lostRace).1 =
      .error (.transactionConflict "write conflict") ∧
    (w.drained.createSnapshot catalog.db {}).1 = .ok (result, catalog.db.putAll puts) ∧
    result.schemaVersion = 1 ∧ w.Recommits lostRace puts result.snapshotId := by
  obtain ⟨catalog, w, result, db', reachable, ran, changed, failed, succeeded, version⟩ :
      ∃ (catalog : Catalog) (w : CatalogWriter) (result : CommitResult) (db' : Db),
        catalog.Reachable Env.trivial ∧
        runCalls Env.trivial (catalog.db, catalog.store.beginWrite) [.staging .markSchemaChanged] =
          (catalog.db, w) ∧ w.schemaChanged = true ∧
        (w.createSnapshot catalog.db lostRace).1 =
          .error (.transactionConflict "write conflict") ∧
        (w.drained.createSnapshot catalog.db {}).1 = .ok (result, db') ∧ result.schemaVersion = 1 :=
    ⟨_, _, _, _, .opened "a" rfl, rfl, rfl, rfl, rfl, rfl⟩
  have author : ({} : SnapshotRequest).author = lostRace.author := rfl
  have message : ({} : SnapshotRequest).message = lostRace.message := rfl
  obtain ⟨rfl, _, recommits⟩ := retry_recommits_iff Env.trivial catalog.db catalog.store
    [.staging .markSchemaChanged] ran failed author message succeeded
  refine ⟨catalog, w, _, result, reachable, changed, failed, succeeded, version, recommits.mpr ?_⟩
  cases ran
  refine ⟨rfl, fun pending noted => ?_⟩
  cases noted

/-- The schema that a writer has staged is not in the commit that succeeds. -/
theorem retry_loses_schema : ∃ (catalog : Catalog) (w : CatalogWriter) (result : CommitResult)
    (db' : Db) (puts : List Write), catalog.Reachable Env.trivial ∧
    runCalls Env.trivial (catalog.db, catalog.store.beginWrite) Catalog.createMain.calls =
      (catalog.db, w) ∧ w.staged.map (·.family) = [.schema] ∧
    (w.createSnapshot catalog.db lostRace).1 =
      .error (.transactionConflict "write conflict") ∧
    (w.drained.createSnapshot catalog.db {}).1 = .ok (result, db') ∧
    db' = catalog.db.putAll puts ∧ result.snapshotId = 2 ∧ result.schemaVersion = 1 ∧
    (CatalogReader.mk db' 2).listSchemas = [] ∧ ¬ w.Recommits lostRace puts result.snapshotId := by
  refine ⟨_, _, _, _, _, .opened "a" rfl, rfl, rfl, rfl, rfl, rfl, rfl, rfl, rfl, ?_⟩
  intro recommits
  have lost := recommits.rows _ List.mem_cons_self
  simp [commitWrites, commitTail, drained, counterWrites] at lost

end RockLake
