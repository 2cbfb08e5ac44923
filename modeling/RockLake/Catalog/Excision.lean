import RockLake.Catalog.Retention

/-! Excision: the physical deletion of rows that no retained snapshot is taken to need. It is refused
above the floor. Deletions are single writes; one that fails is counted and passed over. -/
namespace RockLake

open List Db

structure ExciseResult where
  keysDeleted : Nat
  keysFailed : Nat
  auditEntryId : Nat
  deriving DecidableEq

namespace Family

/-- The kinds of rows that an excision deletes, in the order it goes through them. -/
def excised : List Family := [.schema, .table, .column, .inlinedInsert, .inlinedDelete, .snapshot]

/-- Versions that ended by the given snapshot, and markers and snapshots from before it. -/
def excisable : (f : Family) → Nat → f.Row → Bool
  | .schema, beforeSnapshot, row => row.endSnapshot.any (· ≤ beforeSnapshot)
  | .table, beforeSnapshot, row => row.endSnapshot.any (· ≤ beforeSnapshot)
  | .column, beforeSnapshot, row => row.endSnapshot.any (· ≤ beforeSnapshot)
  | .inlinedInsert, beforeSnapshot, row => row.endSnapshot.any (· ≤ beforeSnapshot)
  | .inlinedDelete, beforeSnapshot, row => row.beginSnapshot < beforeSnapshot
  | .snapshot, beforeSnapshot, row => row.snapshotId < beforeSnapshot
  | _, _, _ => false

theorem not_excisable (other : f ∉ excised) (beforeSnapshot : Nat) (row : f.Row) :
    f.excisable beforeSnapshot row = false := by
  cases f <;> first | rfl | exact absurd (by decide) other

end Family

/-- The store during an excision, with the numbers of keys deleted and of failed deletions. -/
structure Excision where
  db : Db
  keysDeleted : Nat
  keysFailed : Nat

namespace Excision

/-- One key; `fails` says which deletions the storage refuses. -/
def deleteKey (fails : Family → Key → Bool) (f : Family) (e : Excision) (k : Key) : Excision :=
  if fails f k then { e with keysFailed := e.keysFailed + 1 }
  else { e with db := e.db.delete f k, keysDeleted := e.keysDeleted + 1 }

/-- The loop over one kind of rows: all keys are collected before the first is deleted. -/
def deleteExcisable (fails : Family → Key → Bool) (beforeSnapshot : Nat) (e : Excision)
    (f : Family) : Excision :=
  (((e.db.scanPrefix f []).filter fun entry => f.excisable beforeSnapshot entry.2).map
    Prod.fst).foldl (deleteKey fails f) e

def run (fails : Family → Key → Bool) (beforeSnapshot : Nat) (db : Db) : Excision :=
  Family.excised.foldl (deleteExcisable fails beforeSnapshot) ⟨db, 0, 0⟩

end Excision

/-- The sequence number keeps two entries of one millisecond apart. It has 32 bits. -/
def recordAuditEntry (db : Db) (entry : ExciseAuditEntry) : Db :=
  let seq := (db.get .counter (keyCounter counterNextExcisionSeq)).getD 0 % 2 ^ 32
  db.putAll [⟨.counter, keyCounter counterNextExcisionSeq, (seq + 1) % 2 ^ 32⟩,
    ⟨.exciseAudit, exciseAuditKeyWithSeq entry.timestampMillis seq, entry⟩]

def exciseApply (db : Db) (beforeSnapshot : Nat) (operator : String) (timestampMillis : Nat)
    (fails : Family → Key → Bool) : Except CatalogError (ExciseResult × Db) :=
  let retainFrom := readRetainFrom db
  if retainFrom = 0 ∨ retainFrom < beforeSnapshot then
    .error (.excisionUnsafe retainFrom beforeSnapshot)
  else
    let done := Excision.run fails beforeSnapshot db
    .ok (⟨done.keysDeleted, done.keysFailed, timestampMillis⟩,
      recordAuditEntry done.db
        { timestampMillis, beforeSnapshot, keysDeleted := done.keysDeleted,
          keysFailed := done.keysFailed, operator })

namespace Excision

variable {e : Excision}

theorem deleteKey_get (k k' : Key) : (e.deleteKey fails f k).db.get f k' =
    if k' = k ∧ fails f k = false then none else e.db.get f k' := by
  simp only [deleteKey]
  split
  · rename_i refused
    simp [refused]
  · rename_i accepted
    simp [Db.get, Db.delete, OrderedMap.get_delete, accepted]

theorem deleteKeys_get (keys : List Key) (k : Key) :
    (keys.foldl (deleteKey fails f) e).db.get f k =
      if k ∈ keys ∧ fails f k = false then none else e.db.get f k := by
  induction keys generalizing e with
  | nil => simp
  | cons first rest ih =>
    rw [foldl_cons, ih, deleteKey_get]
    by_cases same : k = first
    · subst same
      by_cases refused : fails f k = true
      · simp [refused]
      · simp [refused]
    · simp [same]

theorem deleteKeys_other (different : g ≠ f) (keys : List Key) :
    (keys.foldl (deleteKey fails f) e).db g = e.db g := by
  induction keys generalizing e with
  | nil => rfl
  | cons first rest ih =>
    rw [foldl_cons, ih]
    simp only [deleteKey]
    split
    · rfl
    · exact e.db.delete_family first different

theorem deleteExcisable_get (k : Key) : (e.deleteExcisable fails beforeSnapshot f).db.get f k =
    (e.db.get f k).filter fun row => !f.excisable beforeSnapshot row || fails f k := by
  rw [deleteExcisable, deleteKeys_get]
  cases found : e.db.get f k with
  | none => simp
  | some row =>
    have listed : k ∈ ((e.db.scanPrefix f []).filter
        fun entry => f.excisable beforeSnapshot entry.2).map Prod.fst ↔
        f.excisable beforeSnapshot row = true := by
      simp only [mem_map, mem_filter]
      constructor
      · rintro ⟨⟨k', row'⟩, ⟨scanned, eligible⟩, rfl⟩
        rw [mem_scan, found] at scanned
        cases scanned
        exact eligible
      · intro eligible
        exact ⟨(k, row), ⟨mem_scan.mpr found, eligible⟩, rfl⟩
    simp only [listed, Option.filter]
    by_cases eligible : f.excisable beforeSnapshot row = true <;>
      by_cases refused : fails f k = true <;> simp [eligible, refused]

theorem deleteRounds_get {families : List Family} (once : families.Nodup) (f : Family) (k : Key) :
    (families.foldl (deleteExcisable fails beforeSnapshot) e).db.get f k =
      if f ∈ families then
        (e.db.get f k).filter fun row => !f.excisable beforeSnapshot row || fails f k
      else e.db.get f k := by
  induction families generalizing e with
  | nil => rfl
  | cons g rest ih =>
    obtain ⟨fresh, onceRest⟩ := nodup_cons.mp once
    rw [foldl_cons, ih onceRest]
    by_cases same : f = g
    · subst same
      rw [if_neg fresh, if_pos mem_cons_self, deleteExcisable_get]
    · rw [deleteExcisable, get_of_family (deleteKeys_other same _)]
      simp [same]

theorem run_get (fails : Family → Key → Bool) (beforeSnapshot : Nat) (db : Db) (f : Family)
    (k : Key) : (run fails beforeSnapshot db).db.get f k =
      (db.get f k).filter fun row => !f.excisable beforeSnapshot row || fails f k := by
  rw [run, deleteRounds_get (by decide)]
  split
  · rfl
  · rename_i other
    cases db.get f k with
    | none => rfl
    | some row => simp [Option.filter, Family.not_excisable other]

end Excision

theorem recordAuditEntry_counter {id : Nat} (other : id ≠ counterNextExcisionSeq) :
    (recordAuditEntry db entry).get .counter (keyCounter id) =
      db.get .counter (keyCounter id) := by
  have apart : keyCounter id ≠ keyCounter counterNextExcisionSeq := by
    simpa [keyCounter] using other
  exact get_put_key db _ apart

/-- An excision that is let through is at or below the floor, and it changes only rows that are
excisable, the sequence number and the audit log. -/
theorem exciseApply_ok {operator : String}
    (applied : exciseApply db beforeSnapshot operator timestampMillis fails = .ok (result, db')) :
    0 < readRetainFrom db ∧ beforeSnapshot ≤ readRetainFrom db ∧
      (∀ f k, f ≠ .counter → f ≠ .exciseAudit → db'.get f k =
        (db.get f k).filter fun row => !f.excisable beforeSnapshot row || fails f k) ∧
      ∀ id, id ≠ counterNextExcisionSeq →
        db'.get .counter (keyCounter id) = db.get .counter (keyCounter id) := by
  simp only [exciseApply] at applied
  split at applied
  · contradiction
  rename_i safe
  rw [not_or] at safe
  obtain ⟨_, rfl⟩ := Prod.mk.inj (Except.ok.inj applied)
  refine ⟨Nat.pos_of_ne_zero safe.1, Nat.le_of_not_lt safe.2, ?_, ?_⟩
  · intro f k notCounter notAudit
    rw [← Excision.run_get]
    refine get_of_family (putAll_family _ fun x member same => ?_) k
    rcases mem_pair.mp member with rfl | rfl
    · exact notCounter same.symm
    · exact notAudit same.symm
  · intro id other
    rw [recordAuditEntry_counter other, Excision.run_get]
    cases db.get .counter (keyCounter id) with
    | none => rfl
    | some value => rfl

end RockLake
