import RockLake.PgWire.Commit

/-! The notifications of a commit. The tables that got data files are listed in the order of the
operations, and only neighbours in the list are merged. -/
namespace RockLake

open List

structure Notification where
  channel : String
  payload : String
  deriving DecidableEq

/-- The channels that have a sender, which the first LISTEN creates. -/
structure NotifyManager where
  channels : List String

def NotifyManager.notify (manager : NotifyManager) (channel payload : String) : List Notification :=
  if channel ∈ manager.channels then [⟨channel, payload⟩] else []

def sourceChanged (tableId : Nat) : String := "pgt_source_changed_" ++ toString tableId

def NotifyManager.notifySnapshotAdvance (manager : NotifyManager) (tableIds : List Nat) : List Notification :=
  tableIds.flatMap fun tableId => manager.notify (sourceChanged tableId) ""

def dedup : List Nat → List Nat
  | [] => []
  | [x] => [x]
  | x :: y :: rest => if x = y then dedup (y :: rest) else x :: dedup (y :: rest)

def dataFileTables (ops : List BufferedOp) : List Nat :=
  ops.filterMap fun
    | .insertDataFile tableId .. => some tableId
    | _ => none

def affectedTableIds (ops : List BufferedOp) : List Nat := dedup (dataFileTables ops)

def commitNotifications (ctx : CommitContext) (ops : List BufferedOp) (catalog : Catalog)
    (manager : NotifyManager) : List Notification :=
  match (executeCommit ctx ops catalog).2 with
  | .ok () => manager.notifySnapshotAdvance (affectedTableIds ops)
  | .error _ => []

/-- One notification for each table that got a data file and has a sender, no others, and none at all
from a commit that fails. -/
def OncePerTable (ctx : CommitContext) (ops : List BufferedOp) (catalog : Catalog)
    (manager : NotifyManager) : Prop :=
  let sent := commitNotifications ctx ops catalog manager
  match (executeCommit ctx ops catalog).2 with
  | .ok () =>
    (∀ tableId, sourceChanged tableId ∈ manager.channels →
      sent.count ⟨sourceChanged tableId, ""⟩ = if tableId ∈ dataFileTables ops then 1 else 0) ∧
    ∀ notification ∈ sent, ∃ tableId ∈ dataFileTables ops, notification = ⟨sourceChanged tableId, ""⟩
  | .error _ => sent = []

def Together (x : Nat) (xs : List Nat) : Prop := ∀ y, [x, y, x].Sublist xs → y = x

theorem mem_dedup : x ∈ dedup xs ↔ x ∈ xs := by
  induction xs using dedup.induct with
  | case1 => rfl
  | case2 y => rfl
  | case3 y rest ih =>
    rw [dedup, if_pos rfl, ih]
    simp
  | case4 y z rest other ih => rw [dedup, if_neg other, mem_cons, ih, mem_cons (b := y)]

theorem count_dedup : (dedup xs).count x ≤ 1 ↔ Together x xs := by
  induction xs using dedup.induct with
  | case1 => simp [dedup, Together]
  | case2 y =>
    refine iff_of_true ?_ fun z found => ?_
    · exact count_le_length
    · have long := found.length_le
      simp at long
  | case3 y rest ih =>
    rw [dedup, if_pos rfl, ih]
    refine ⟨fun together z found => ?_, fun together z found => together z (found.cons y)⟩
    rcases sublist_cons_iff.mp found with later | ⟨_, same, later⟩
    · exact together z later
    · obtain ⟨rfl, rfl⟩ := cons.inj same
      rcases sublist_cons_iff.mp later with last | ⟨_, next, _⟩
      · exact together z (last.cons_cons x)
      · exact (cons.inj next).1
  | case4 y z rest other ih =>
    rw [dedup, if_neg other]
    by_cases first : y = x
    · subst first
      have away : y ∉ z :: rest ↔ Together y (y :: z :: rest) := by
        constructor
        · intro absent u found
          have last : [u, y].Sublist (z :: rest) ∨ [y, u, y].Sublist (z :: rest) := by
            rcases sublist_cons_iff.mp found with later | ⟨_, same, later⟩
            · exact .inr later
            · exact .inl ((cons.inj same).2 ▸ later)
          rcases last with short | long
          · exact absurd (short.subset (by simp)) absent
          · exact absurd (long.subset (by simp)) absent
        · intro together member
          have later : y ∈ rest := (mem_cons.mp member).resolve_left other
          refine other (together z ?_).symm
          exact ((singleton_sublist.mpr later).cons_cons z).cons_cons y
      rw [count_cons_self, ← away, ← mem_dedup, ← count_eq_zero]
      omega
    · rw [count_cons_of_ne (fun same => first same), ih]
      refine ⟨fun together u found => ?_, fun together u found => together u (found.cons y)⟩
      rcases sublist_cons_iff.mp found with later | ⟨_, same, _⟩
      · exact together u later
      · exact absurd (cons.inj same).1.symm first

theorem numbered_injective (start : String) {a b : Nat} (same : start ++ toString a = start ++ toString b) :
    a = b := by
  have texts := congrArg String.toList same
  rw [String.toList_append, String.toList_append] at texts
  have digits : Nat.toDigits 10 a = Nat.toDigits 10 b := by
    simpa only [Nat.toString_eq_repr, Nat.toList_repr] using append_cancel_left texts
  rw [← @Nat.ofDigitChars_ten_toDigits a, digits, Nat.ofDigitChars_ten_toDigits]

theorem sourceChanged_injective : Function.Injective sourceChanged := fun _ _ => numbered_injective _

theorem count_notifySnapshotAdvance {manager : NotifyManager}
    (listened : sourceChanged tableId ∈ manager.channels) (tableIds : List Nat) :
    (manager.notifySnapshotAdvance tableIds).count ⟨sourceChanged tableId, ""⟩ = tableIds.count tableId := by
  induction tableIds with
  | nil => rfl
  | cons other tableIds ih =>
    rw [NotifyManager.notifySnapshotAdvance, flatMap_cons, count_append,
      ← NotifyManager.notifySnapshotAdvance, ih, count_cons, Nat.add_comm]
    congr 1
    rw [NotifyManager.notify]
    by_cases same : other = tableId
    · subst same
      rw [if_pos listened]
      simp
    · have apart : sourceChanged other ≠ sourceChanged tableId := fun equal =>
        same (sourceChanged_injective equal)
      split <;> simp [same, apart]

theorem mem_notifySnapshotAdvance {manager : NotifyManager}
    (sent : notification ∈ manager.notifySnapshotAdvance tableIds) :
    ∃ tableId ∈ tableIds, notification = ⟨sourceChanged tableId, ""⟩ := by
  obtain ⟨tableId, member, inside⟩ := mem_flatMap.mp sent
  refine ⟨tableId, member, ?_⟩
  rw [NotifyManager.notify] at inside
  split at inside
  · exact mem_singleton.mp inside
  · cases inside

/-- A commit sends what it should exactly if the files of each table with a sender stand together among
its operations, or it fails. -/
theorem one_notification_iff (ctx : CommitContext) (ops : List BufferedOp) (catalog : Catalog)
    (manager : NotifyManager) :
    OncePerTable ctx ops catalog manager ↔
      ((executeCommit ctx ops catalog).2 = .ok () → ∀ tableId, sourceChanged tableId ∈ manager.channels →
        Together tableId (dataFileTables ops)) := by
  simp only [OncePerTable, commitNotifications]
  split
  · rename_i committed
    have others : ∀ notification ∈ manager.notifySnapshotAdvance (affectedTableIds ops),
        ∃ tableId ∈ dataFileTables ops, notification = ⟨sourceChanged tableId, ""⟩ := by
      intro notification sent
      obtain ⟨tableId, member, same⟩ := mem_notifySnapshotAdvance sent
      exact ⟨tableId, mem_dedup.mp member, same⟩
    rw [and_iff_left others, committed]
    simp only [true_imp_iff]
    refine forall_congr' fun tableId => imp_congr_right fun listened => ?_
    rw [count_notifySnapshotAdvance listened, ← count_dedup, affectedTableIds]
    have member := @mem_dedup (dataFileTables ops) tableId
    rw [← count_pos_iff] at member
    split
    · rename_i found
      have some_left := member.mpr found
      omega
    · rename_i missing
      have none_left := mt member.mp missing
      omega
  · rename_i failed
    simp [failed]

/-- Files for table 1, table 2 and table 1 again: table 1 is announced twice. -/
theorem table_notified_twice : ∃ store db, CatalogStore.openCatalog Db.empty "a" = .ok (store, db) ∧
    commitNotifications .trivial [.insertDataFile 1 "a" "parquet" 1 1, .insertDataFile 2 "b" "parquet" 1 1,
      .insertDataFile 1 "c" "parquet" 1 1] ⟨db, store⟩ ⟨["pgt_source_changed_1"]⟩ =
    [⟨"pgt_source_changed_1", ""⟩, ⟨"pgt_source_changed_1", ""⟩] :=
  ⟨_, _, rfl, by decide⟩

end RockLake
