import RockLake.Catalog.Retention

/-! Checkpoints: named markers of a snapshot. Restoring one ends the rows that began after it, at
the snapshot identifier that would come next, and moves on to the identifier after that one. Rows
of six kinds are ended. A checkpoint pin is a record of its own. -/
namespace RockLake

open Db

def checkpointSnapshot (db : Db) : Nat :=
  match db.get .counter (keyCounter counterNextSnapshotId) with
  | some next => if next > 0 then next - 1 else 0
  | none => 0

/-- The clock reads `millis`, and an identifier that is taken already is passed over. -/
def createCheckpoint (db : Db) (millis : Nat) (createdAt : String) (label : Option String) :
    CheckpointMetadata × Db :=
  let id := max millis ((db.get .counter (keyCounter counterNextCheckpointId)).getD 0)
  let info : CheckpointMetadata := { id, createdAt, snapshotId := checkpointSnapshot db, label }
  (info, db.putAll [⟨.counter, keyCounter counterNextCheckpointId, id + 1⟩,
    ⟨.checkpoint, checkpointKey id, info⟩])

namespace Family

/-- The kinds of rows that a restore ends, in the order it goes through them. -/
def restorable : List Family := [.schema, .table, .column, .view, .macros, .inlinedInsert]

/-- A row that began after the checkpoint and did not end by then. -/
def postCheckpoint (f : Family) (checkpointSnapshotId : Nat) (row : f.Row) : Bool :=
  f.beginOf row > checkpointSnapshotId && (f.endOf row).all (· > checkpointSnapshotId)

/-- The row after a restore, if its kind is restored. The end it may have had is replaced. -/
def hide (f : Family) (checkpointSnapshotId hideSnapshot : Nat) (row : f.Row) : f.Row :=
  if f.postCheckpoint checkpointSnapshotId row then f.setEnd (some hideSnapshot) row else row

end Family

def hideWrites (db : Db) (checkpointSnapshotId hideSnapshot : Nat) (f : Family) : List Write :=
  ((db.scanPrefix f []).filter fun e => f.postCheckpoint checkpointSnapshotId e.2).map
    fun e => ⟨f, e.1, f.setEnd (some hideSnapshot) e.2⟩

def hidePostCheckpointFacts (db : Db) (checkpointSnapshotId hideSnapshot : Nat) : Db :=
  Family.restorable.foldl
    (fun db f => db.putAll (hideWrites db checkpointSnapshotId hideSnapshot f)) db

def hideSnapshot (db : Db) (info : CheckpointMetadata) : Nat :=
  (db.get .counter (keyCounter counterNextSnapshotId)).getD (info.snapshotId + 1)

def restoreCheckpoint (db : Db) (checkpointId : Nat) :
    Except CatalogError (CheckpointMetadata × Db) :=
  match db.get .checkpoint (checkpointKey checkpointId) with
  | none => .error (.notFound s!"checkpoint {checkpointId}")
  | some info =>
    let hide := hideSnapshot db info
    if hide > info.snapshotId + 1 then
      .ok (info, (hidePostCheckpointFacts db info.snapshotId hide).put
        ⟨.counter, keyCounter counterNextSnapshotId, hide + 1⟩)
    else .ok (info, db)

def pinCheckpoint (db : Db) (name : String) (snapshotId : Nat) (createdAt : String) : Db :=
  db.put ⟨.checkpointPin, checkpointPinKey name,
    { id := 0, createdAt, snapshotId, label := some name }⟩

def unpinCheckpoint (db : Db) (name : String) : Except CatalogError Db :=
  match db.get .checkpointPin (checkpointPinKey name) with
  | none => .error (.notFound s!"checkpoint pin '{name}'")
  | some _ => .ok (db.delete .checkpointPin (checkpointPinKey name))

section Hide

variable {db : Db} {checkpointSnapshotId hideSnapshot : Nat}

theorem hideWrites_get (k : Key) :
    (db.putAll (hideWrites db checkpointSnapshotId hideSnapshot f)).get f k =
      (db.get f k).map (f.hide checkpointSnapshotId hideSnapshot) := by
  have member : ∀ row, (⟨f, k, row⟩ : Write) ∈ hideWrites db checkpointSnapshotId hideSnapshot f ↔
      ∃ old, db.get f k = some old ∧ f.postCheckpoint checkpointSnapshotId old = true ∧
        row = f.setEnd (some hideSnapshot) old := by
    intro row
    simp only [hideWrites, List.mem_map, List.mem_filter, mem_scan]
    constructor
    · rintro ⟨⟨k', old⟩, ⟨found, after⟩, same⟩
      cases same
      exact ⟨old, found, after, rfl⟩
    · rintro ⟨old, found, after, rfl⟩
      exact ⟨(k, old), ⟨found, after⟩, rfl⟩
  rcases db.get_putAll (f := f) (hideWrites db checkpointSnapshotId hideSnapshot f) k with
    ⟨row, written, stored⟩ | ⟨unwritten, kept⟩
  · obtain ⟨old, found, after, rfl⟩ := (member row).mp written
    rw [stored, found, Option.map_some, Family.hide, if_pos after]
  · rw [kept]
    cases found : db.get f k with
    | none => rfl
    | some old =>
      rw [Option.map_some, Family.hide, if_neg]
      intro after
      exact unwritten _ ((member _).mpr ⟨old, found, after, rfl⟩)

/-- A family is rewritten in its own round of the loop and left alone in the others. -/
theorem hideRounds_get {families : List Family} (once : families.Nodup) (f : Family) (k : Key) :
    (families.foldl (fun db f => db.putAll (hideWrites db checkpointSnapshotId hideSnapshot f))
      db).get f k = if f ∈ families then (db.get f k).map (f.hide checkpointSnapshotId hideSnapshot)
        else db.get f k := by
  induction families generalizing db with
  | nil => rfl
  | cons g rest ih =>
    obtain ⟨fresh, onceRest⟩ := List.nodup_cons.mp once
    rw [List.foldl_cons, ih onceRest]
    by_cases same : f = g
    · subst same
      rw [if_neg fresh, if_pos List.mem_cons_self, hideWrites_get]
    · rw [get_of_family (putAll_family _ fun x member => ?_)]
      · simp [same]
      · obtain ⟨e, _, rfl⟩ := List.mem_map.mp member
        exact Ne.symm same

theorem hidePostCheckpointFacts_get (f : Family) (k : Key) :
    (hidePostCheckpointFacts db checkpointSnapshotId hideSnapshot).get f k =
      if f ∈ Family.restorable then (db.get f k).map (f.hide checkpointSnapshotId hideSnapshot)
      else db.get f k :=
  hideRounds_get (by decide) f k

end Hide

theorem hideSnapshot_eq (loaded : loadCounters db = .ok c) (info : CheckpointMetadata) :
    hideSnapshot db info = c.nextSnapshotId := by
  simp [hideSnapshot, (loadCounters_ok.mp loaded).1]

theorem loadCounters_hidden (loaded : loadCounters db = .ok c)
    (checkpointSnapshotId hideSnapshot next : Nat) :
    loadCounters ((hidePostCheckpointFacts db checkpointSnapshotId hideSnapshot).put
      ⟨.counter, keyCounter counterNextSnapshotId, next⟩) =
        .ok { c with nextSnapshotId := next } := by
  obtain ⟨_, second, third⟩ := loadCounters_ok.mp loaded
  have kept : ∀ k, (hidePostCheckpointFacts db checkpointSnapshotId hideSnapshot).get .counter k =
      db.get .counter k := by
    intro k
    rw [hidePostCheckpointFacts_get, if_neg (by decide)]
  refine loadCounters_ok.mpr ⟨get_put_same _ _ _, ?_, ?_⟩
  · rw [get_put_key _ _ (by decide), kept, second]
  · rw [get_put_key _ _ (by decide), kept, third]

/-- A restore with nothing after the checkpoint changes nothing. Any other one ends the rows begun
after it, at the identifier that came next, and leaves that identifier out. -/
theorem restoreCheckpoint_ok (restored : restoreCheckpoint db checkpointId = .ok (info, db')) :
    db.get .checkpoint (checkpointKey checkpointId) = some info ∧
      (hideSnapshot db info ≤ info.snapshotId + 1 ∧ db' = db ∨
        info.snapshotId + 1 < hideSnapshot db info ∧
          db' = (hidePostCheckpointFacts db info.snapshotId (hideSnapshot db info)).put
            ⟨.counter, keyCounter counterNextSnapshotId, hideSnapshot db info + 1⟩) := by
  simp only [restoreCheckpoint] at restored
  split at restored
  · contradiction
  rename_i info' found
  split at restored
  · rename_i later
    obtain ⟨rfl, rfl⟩ := Prod.mk.inj (Except.ok.inj restored)
    exact ⟨found, .inr ⟨later, rfl⟩⟩
  · rename_i current
    obtain ⟨rfl, rfl⟩ := Prod.mk.inj (Except.ok.inj restored)
    exact ⟨found, .inl ⟨Nat.le_of_not_lt current, rfl⟩⟩

end RockLake
