import RockLake.Lib.Lifetimes
import RockLake.Catalog.Reads

/-! Diffs between snapshots. A diff lists what began and what ended after one snapshot and by another,
for four kinds of row. Diffs of adjoining ranges add up, and a diff leads from the rows visible at its
first snapshot to those visible at its last one. -/
namespace RockLake

open Lifetimes

inductive DiffKind where
  | schema
  | table
  | column
  | dataFile
  deriving DecidableEq

def DiffKind.family : DiffKind → Family
  | .schema => .schema
  | .table => .table
  | .column => .column
  | .dataFile => .dataFile

namespace SnapshotDiff

variable (diff : SnapshotDiff)

def added : (kind : DiffKind) → List kind.family.Row
  | .schema => diff.addedSchemas
  | .table => diff.addedTables
  | .column => diff.addedColumns
  | .dataFile => diff.addedDataFiles

def retired : (kind : DiffKind) → List kind.family.Row
  | .schema => diff.retiredSchemas
  | .table => diff.retiredTables
  | .column => diff.retiredColumns
  | .dataFile => diff.retiredDataFiles

def isEmpty : Bool :=
  diff.addedSchemas.isEmpty && diff.retiredSchemas.isEmpty && diff.addedTables.isEmpty &&
  diff.retiredTables.isEmpty && diff.addedColumns.isEmpty && diff.retiredColumns.isEmpty &&
  diff.addedDataFiles.isEmpty && diff.retiredDataFiles.isEmpty

end SnapshotDiff

theorem isVisible_eq_aliveAt (begins : α → Nat) (ends : α → Option Nat) (time : Nat) (a : α) :
    isVisible (begins a) (ends a) time = Lifetimes.aliveAt begins ends time a := by
  rcases Nat.lt_or_ge time (begins a) with early | begun
  · simp [isVisible, aliveAt, early]
  · cases ended : ends a <;> simp [isVisible, aliveAt, ended, begun, begun.not_gt]

namespace CatalogReader

variable (r : CatalogReader) (fromSnapshot toSnapshot : Nat) (kind : DiffKind)

def visibleAt (snapshot : Nat) : List kind.family.Row :=
  (CatalogReader.mk r.db snapshot).listVisible kind.family []

theorem snapshotDiff_added : (r.snapshotDiff fromSnapshot toSnapshot).added kind =
    (r.listStored kind.family []).filter
      (Lifetimes.stampedIn (fun row => some (kind.family.beginOf row)) fromSnapshot toSnapshot) := by
  cases kind <;> rfl

theorem snapshotDiff_retired : (r.snapshotDiff fromSnapshot toSnapshot).retired kind =
    (r.listStored kind.family []).filter
      (Lifetimes.stampedIn kind.family.endOf fromSnapshot toSnapshot) := by
  cases kind <;> rfl

theorem visibleAt_eq (snapshot : Nat) : r.visibleAt kind snapshot =
    (r.listStored kind.family []).filter
      (Lifetimes.aliveAt kind.family.beginOf kind.family.endOf snapshot) := by
  rw [visibleAt, listVisible, listStored, List.filter_map]
  congr 1
  exact List.filter_congr fun e _ => isVisible_eq_aliveAt kind.family.beginOf kind.family.endOf _ e.2

/-- The diffs from `a` to `b` and from `b` to `c` make up that from `a` to `c`, each row once, and the
rows visible at `b` are those visible at `a` with the added and without the retired ones. -/
structure Composes (a b c : Nat) : Prop where
  added : ((r.snapshotDiff a c).added kind).Perm
    ((r.snapshotDiff a b).added kind ++ (r.snapshotDiff b c).added kind)
  added_disjoint : ((r.snapshotDiff a b).added kind).Disjoint ((r.snapshotDiff b c).added kind)
  retired : ((r.snapshotDiff a c).retired kind).Perm
    ((r.snapshotDiff a b).retired kind ++ (r.snapshotDiff b c).retired kind)
  retired_disjoint :
    ((r.snapshotDiff a b).retired kind).Disjoint ((r.snapshotDiff b c).retired kind)
  visible : (r.visibleAt kind b ++ (r.snapshotDiff a b).retired kind).Perm
    (r.visibleAt kind a ++ (r.snapshotDiff a b).added kind)
  visible_retired : (r.visibleAt kind b).Disjoint ((r.snapshotDiff a b).retired kind)
  visible_added : (r.visibleAt kind a).Disjoint ((r.snapshotDiff a b).added kind)

/-- Diffs compose and reconcile in every store whose rows end after they began. -/
theorem snapshotDiff_composes {a b c : Nat}
    (proper : ∀ (kind : DiffKind) k row ended, r.db.get kind.family k = some row →
      kind.family.endOf row = some ended → kind.family.beginOf row < ended)
    (first : a ≤ b) (second : b ≤ c) : r.Composes kind a b c := by
  have stored : ∀ row ∈ r.listStored kind.family [], ∀ ended, kind.family.endOf row = some ended →
      kind.family.beginOf row < ended := by
    intro row member ended found
    obtain ⟨e, scanned, rfl⟩ := List.mem_map.mp member
    exact proper kind e.1 e.2 ended (r.db.mem_scanPrefix.mp scanned).1 found
  constructor
  · simp only [snapshotDiff_added]
    exact stampedIn_split first second
  · simp only [snapshotDiff_added]
    exact filter_disjoint fun _ => stampedIn_apart
  · simp only [snapshotDiff_retired]
    exact stampedIn_split first second
  · simp only [snapshotDiff_retired]
    exact filter_disjoint fun _ => stampedIn_apart
  · simp only [snapshotDiff_added, snapshotDiff_retired, visibleAt_eq]
    exact aliveAt_balance stored first
  · simp only [snapshotDiff_retired, visibleAt_eq]
    exact filter_disjoint fun _ => aliveAt_unended
  · simp only [snapshotDiff_added, visibleAt_eq]
    exact filter_disjoint fun _ => aliveAt_begun

/-- A store with one schema, created at snapshot 1 and dropped at snapshot 3. -/
def droppedMain : CatalogReader :=
  ⟨Db.empty.put ⟨.schema, keySchema 1, ⟨1, "main", 1, some 3, some "4b1d", none, some true⟩⟩, 4⟩

theorem droppedMain_composes : droppedMain.Composes .schema 0 2 4 ∧
    (droppedMain.visibleAt .schema 2).map (·.schemaName) = ["main"] ∧
    ((droppedMain.snapshotDiff 2 4).retired .schema).map (·.schemaName) = ["main"] := by
  refine ⟨droppedMain.snapshotDiff_composes .schema ?_ (by decide) (by decide), rfl, rfl⟩
  intro kind k row ended found retired
  cases kind with
  | schema =>
    cases List.mem_singleton.mp (OrderedMap.get_eq_some.mp found)
    cases retired
    decide
  | table | column | dataFile => cases found

end CatalogReader

end RockLake
