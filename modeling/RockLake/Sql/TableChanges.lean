import Mathlib.Data.List.Dedup
import RockLake.Lib.OrderedMap

/-! The change feed of a table: rows that were added and rows that were removed between two
snapshots, paired up into updates where both sides have a row of the same identifier, and what a
consumer makes of them. Where identifiers are distinct the records are known by membership alone, so
the order of the hash set does not matter to the consumer. -/
namespace RockLake

open List OrderedMap

inductive ChangeType where
  | insert | delete | updatePreimage | updatePostimage
  deriving DecidableEq

def ChangeType.asStr : ChangeType → String
  | .insert => "insert"
  | .delete => "delete"
  | .updatePreimage => "update_preimage"
  | .updatePostimage => "update_postimage"

structure ChangeRecord where
  rowid : Option Nat
  changeType : ChangeType
  columnsJson : String
  deriving DecidableEq

structure TableChangesResult where
  tableRef : String
  startSnapshot : Nat
  endSnapshot : Nat
  records : List ChangeRecord
  deriving DecidableEq

inductive TableChangesError where
  | snapshotTooOld (requested retainFrom : Nat)
  | tableNotFound (table : String)
  | storage (message : String)
  | other (message : String)
  deriving DecidableEq

namespace TableChangesError

def sqlstate : TableChangesError → String
  | .snapshotTooOld .. => "55000"
  | .tableNotFound _ => "42P01"
  | .storage _ => "58030"
  | .other _ => "XX000"

def message : TableChangesError → String
  | .snapshotTooOld requested retainFrom =>
    s!"snapshot {requested} has been garbage collected (retain_from={retainFrom})"
  | .tableNotFound table => s!"table not found: {table}"
  | .storage message => s!"object storage error: {message}"
  | .other message => message

end TableChangesError

/-- A row of a data file, with its columns as one JSON text. -/
structure ParquetRowData where
  rowid : Nat
  columnsJson : String
  deriving DecidableEq

/-- The row a hash map from row identifiers holds after all rows went in: the last one. -/
def rowWithId (rows : List ParquetRowData) (rowid : Nat) : Option ParquetRowData :=
  rows.reverse.find? fun row => row.rowid = rowid

def updateImages (addedRows removedRows : List ParquetRowData) (rowid : Nat) : List ChangeRecord :=
  match rowWithId removedRows rowid, rowWithId addedRows rowid with
  | some preimage, some postimage =>
    [⟨some rowid, .updatePreimage, preimage.columnsJson⟩,
     ⟨some rowid, .updatePostimage, postimage.columnsJson⟩]
  | _, _ => []

/-- Updates come first, in the iteration order of the set of their identifiers. -/
def computeTableChanges (hashOrder : List Nat → List Nat) (tableRef : String)
    (startSnapshot endSnapshot retainFrom : Nat) (addedRows removedRows : List ParquetRowData) :
    Except TableChangesError TableChangesResult :=
  if startSnapshot < retainFrom ∧ retainFrom > 0 then
    .error (.snapshotTooOld startSnapshot retainFrom)
  else
    let updated := ((removedRows.map (·.rowid)).filter fun rowid =>
      (addedRows.map (·.rowid)).contains rowid).dedup
    let change (changeType : ChangeType) (row : ParquetRowData) : Option ChangeRecord :=
      if updated.contains row.rowid then none else some ⟨some row.rowid, changeType, row.columnsJson⟩
    .ok { tableRef, startSnapshot, endSnapshot,
          records := (hashOrder updated).flatMap (updateImages addedRows removedRows) ++
            addedRows.filterMap (change .insert) ++ removedRows.filterMap (change .delete) }

/-- Rows by identifier as a hash map holds them: the last one of each. -/
def rowsById (rows : List ParquetRowData) : OrderedMap Nat ParquetRowData :=
  rows.foldl (fun state row => state.put row.rowid row) .empty

def applyChange (state : OrderedMap Nat ParquetRowData) (change : ChangeRecord) :
    OrderedMap Nat ParquetRowData :=
  let rowid := change.rowid.getD 0
  match change.changeType with
  | .insert | .updatePostimage => state.put rowid ⟨rowid, change.columnsJson⟩
  | .delete => state.delete rowid
  | .updatePreimage => state

/-- The values of a map in the order of their row identifiers. -/
def rowsInOrder (state : OrderedMap Nat ParquetRowData) : List ParquetRowData :=
  state.collect fun _ row => some row

def applyChanges (startState : List ParquetRowData) (changes : List ChangeRecord) :
    List ParquetRowData :=
  rowsInOrder (changes.foldl applyChange (rowsById startState))

section Apply

variable {state : OrderedMap Nat ParquetRowData} {changes : List ChangeRecord} {rowid : Nat}

def ChangeRecord.Sets (change : ChangeRecord) (rowid : Nat) : Prop :=
  change.changeType ≠ .updatePreimage ∧ change.rowid.getD 0 = rowid

def ChangeRecord.left (change : ChangeRecord) : Option ParquetRowData :=
  if change.changeType = .delete then none
  else some ⟨change.rowid.getD 0, change.columnsJson⟩

theorem get_applyChange_set (sets : change.Sets rowid) :
    (applyChange state change).get rowid = change.left := by
  obtain ⟨decisive, rfl⟩ := sets
  cases type : change.changeType with
  | updatePreimage => exact absurd type decisive
  | _ => simp [applyChange, ChangeRecord.left, type, get_delete]

theorem get_applyChange_of_not_set (kept : ¬ change.Sets rowid) :
    (applyChange state change).get rowid = state.get rowid := by
  cases type : change.changeType with
  | updatePreimage => simp [applyChange, type]
  | _ =>
    have apart : rowid ≠ change.rowid.getD 0 := by
      rintro rfl
      exact kept ⟨by simp [type], rfl⟩
    simp [applyChange, type, get_put_of_ne, get_delete, apart]

theorem get_applyChanges_of_not_set (kept : ∀ change ∈ changes, ¬ change.Sets rowid) :
    (changes.foldl applyChange state).get rowid = state.get rowid := by
  induction changes generalizing state with
  | nil => rfl
  | cons change rest ih =>
    obtain ⟨first, later⟩ := forall_mem_cons.mp kept
    rw [foldl_cons, ih later, get_applyChange_of_not_set first]

theorem get_applyChanges_set (agree : ∀ change ∈ changes, change.Sets rowid → change.left = row)
    (decided : state.get rowid = row ∨ ∃ change ∈ changes, change.Sets rowid) :
    (changes.foldl applyChange state).get rowid = row := by
  induction changes generalizing state with
  | nil => simpa using decided
  | cons change rest ih =>
    obtain ⟨first, later⟩ := forall_mem_cons.mp agree
    rw [foldl_cons]
    refine ih later ?_
    by_cases sets : change.Sets rowid
    · exact .inl ((get_applyChange_set sets).trans (first sets))
    rw [get_applyChange_of_not_set sets]
    refine decided.imp_right ?_
    rintro ⟨other, member, others⟩
    rcases mem_cons.mp member with rfl | member
    · exact absurd others sets
    · exact ⟨other, member, others⟩

def StoredById (state : OrderedMap Nat ParquetRowData) : Prop :=
  ∀ rowid row, state.get rowid = some row → row.rowid = rowid

theorem StoredById.put (stored : StoredById state) (own : row.rowid = key) :
    StoredById (state.put key row) := by
  intro rowid found get
  rw [get_put] at get
  split at get
  · cases get
    exact own.trans (Eq.symm ‹_›)
  · exact stored rowid found get

theorem rowsById_stored (rows : List ParquetRowData) : StoredById (rowsById rows) := by
  have all : ∀ (state : OrderedMap Nat ParquetRowData), StoredById state →
      StoredById (rows.foldl (fun state row => state.put row.rowid row) state) := by
    induction rows with
    | nil => exact fun _ stored => stored
    | cons row rest ih => exact fun state stored => ih _ (stored.put rfl)
  exact all .empty fun rowid row found => by simp at found

theorem applyChanges_stored (stored : StoredById state) :
    StoredById (changes.foldl applyChange state) := by
  induction changes generalizing state with
  | nil => exact stored
  | cons change rest ih =>
    refine ih ?_
    simp only [applyChange]
    split
    · exact stored.put rfl
    · exact stored.put rfl
    · intro rowid row found
      rw [get_delete] at found
      split at found
      · contradiction
      · exact stored rowid row found
    · exact stored

theorem mem_rowsInOrder (stored : StoredById state) :
    row ∈ rowsInOrder state ↔ state.get row.rowid = some row := by
  simp only [rowsInOrder, mem_collect, Option.some.injEq]
  constructor
  · rintro ⟨key, value, found, rfl⟩
    rwa [stored key value found]
  · exact fun found => ⟨row.rowid, row, found, rfl⟩

theorem rowsInOrder_inj (stored : StoredById state) (stored' : StoredById state') :
    rowsInOrder state = rowsInOrder state' ↔ state = state' := by
  refine ⟨fun same => ?_, fun same => same ▸ rfl⟩
  apply OrderedMap.ext_get
  intro rowid
  apply Option.ext
  intro row
  by_cases own : row.rowid = rowid
  · subst own
    rw [← mem_rowsInOrder stored, same, mem_rowsInOrder stored']
  · exact ⟨fun found => absurd (stored rowid row found) own,
      fun found => absurd (stored' rowid row found) own⟩

theorem applyChanges_eq_iff :
    applyChanges rows changes = rowsInOrder (rowsById rows') ↔
      changes.foldl applyChange (rowsById rows) = rowsById rows' :=
  rowsInOrder_inj (applyChanges_stored (rowsById_stored rows)) (rowsById_stored rows')

theorem mem_of_get_rowsById (found : (rowsById rows).get rowid = some row) : row ∈ rows := by
  have all : ∀ (rows : List ParquetRowData) (state : OrderedMap Nat ParquetRowData),
      (rows.foldl (fun state row => state.put row.rowid row) state).get rowid = some row →
        row ∈ rows ∨ state.get rowid = some row := by
    intro rows
    induction rows with
    | nil => exact fun _ found => .inr found
    | cons head rest ih =>
      intro state found
      rcases ih _ found with later | earlier
      · exact .inl (mem_cons_of_mem _ later)
      rw [get_put] at earlier
      split at earlier
      · cases earlier
        exact .inl mem_cons_self
      · exact .inr earlier
  rcases all rows .empty found with member | none
  · exact member
  · simp at none

end Apply

section Compute

variable {hashOrder : List Nat → List Nat} {addedRows removedRows : List ParquetRowData}

def DistinctIds (rows : List ParquetRowData) : Prop := (rows.map (·.rowid)).Nodup

theorem DistinctIds.eq (distinct : DistinctIds rows) (member : row ∈ rows) (member' : row' ∈ rows)
    (same : row.rowid = row'.rowid) : row = row' :=
  inj_on_of_nodup_map distinct member member' same

theorem get_rowsById (distinct : DistinctIds rows) (member : row ∈ rows) :
    (rowsById rows).get row.rowid = some row := by
  have inserts : rowsById rows = (rows.map fun row =>
      (⟨some row.rowid, .insert, row.columnsJson⟩ : ChangeRecord)).foldl applyChange .empty := by
    rw [foldl_map]
    rfl
  rw [inserts]
  refine get_applyChanges_set ?_ (.inr ⟨_, mem_map_of_mem member, by simp, rfl⟩)
  intro change present sets
  obtain ⟨other, otherMember, rfl⟩ := mem_map.mp present
  exact congrArg some (distinct.eq otherMember member sets.2)

theorem rowWithId_eq_some (distinct : DistinctIds rows) :
    rowWithId rows rowid = some row ↔ row ∈ rows ∧ row.rowid = rowid := by
  constructor
  · intro found
    have same := find?_some found
    exact ⟨mem_reverse.mp (mem_of_find?_eq_some found), by simpa using same⟩
  · rintro ⟨member, rfl⟩
    cases found : rowWithId rows row.rowid with
    | none =>
      have apart := find?_eq_none.mp found row (mem_reverse.mpr member)
      simp at apart
    | some other =>
      have same := find?_some found
      have present := mem_reverse.mp (mem_of_find?_eq_some found)
      exact congrArg some (distinct.eq present member (by simpa using same))

/-- The records a feed of these rows has, whatever their order. -/
inductive ChangeOf (addedRows removedRows : List ParquetRowData) : ChangeRecord → Prop
  | preimage {row new} : row ∈ removedRows → new ∈ addedRows →
      new.rowid = row.rowid →
      ChangeOf addedRows removedRows ⟨some row.rowid, .updatePreimage, row.columnsJson⟩
  | postimage {row old} : row ∈ addedRows → old ∈ removedRows →
      old.rowid = row.rowid →
      ChangeOf addedRows removedRows ⟨some row.rowid, .updatePostimage, row.columnsJson⟩
  | insert {row} : row ∈ addedRows → (∀ old ∈ removedRows, old.rowid ≠ row.rowid) →
      ChangeOf addedRows removedRows ⟨some row.rowid, .insert, row.columnsJson⟩
  | delete {row} : row ∈ removedRows → (∀ new ∈ addedRows, new.rowid ≠ row.rowid) →
      ChangeOf addedRows removedRows ⟨some row.rowid, .delete, row.columnsJson⟩

theorem mem_updateImages (added : DistinctIds addedRows) (removed : DistinctIds removedRows) :
    change ∈ updateImages addedRows removedRows rowid ↔
      ∃ old ∈ removedRows, ∃ new ∈ addedRows, old.rowid = rowid ∧ new.rowid = rowid ∧
        (change = ⟨some rowid, .updatePreimage, old.columnsJson⟩ ∨
          change = ⟨some rowid, .updatePostimage, new.columnsJson⟩) := by
  constructor
  · intro member
    simp only [updateImages] at member
    split at member
    · rename_i old new oldFound newFound
      obtain ⟨oldMember, oldId⟩ := (rowWithId_eq_some removed).mp oldFound
      obtain ⟨newMember, newId⟩ := (rowWithId_eq_some added).mp newFound
      exact ⟨old, oldMember, new, newMember, oldId, newId, by simpa using member⟩
    · simp at member
  · rintro ⟨old, oldMember, new, newMember, oldId, newId, image⟩
    have oldFound := (rowWithId_eq_some removed).mpr ⟨oldMember, oldId⟩
    have newFound := (rowWithId_eq_some added).mpr ⟨newMember, newId⟩
    simpa [updateImages, oldFound, newFound] using image

theorem computeTableChanges_ok (complete : ∀ ids : List Nat, (hashOrder ids).Perm ids)
    (added : DistinctIds addedRows) (removed : DistinctIds removedRows) (tableRef : String)
    (retained : retainFrom ≤ startSnapshot) :
    ∃ records, computeTableChanges hashOrder tableRef startSnapshot endSnapshot retainFrom addedRows
        removedRows = .ok ⟨tableRef, startSnapshot, endSnapshot, records⟩ ∧
      ∀ change, change ∈ records ↔ ChangeOf addedRows removedRows change := by
  refine ⟨_, if_neg (by omega), ?_⟩
  intro change
  have paired : ∀ rowid, rowid ∈ ((removedRows.map (·.rowid)).filter fun rowid =>
      decide (rowid ∈ addedRows.map (·.rowid))).dedup ↔
        (∃ old ∈ removedRows, old.rowid = rowid) ∧ ∃ new ∈ addedRows, new.rowid = rowid := by
    simp [mem_filter]
  simp only [mem_append, mem_flatMap, mem_filterMap, (complete _).mem_iff,
    mem_updateImages added removed, contains_eq_mem, decide_eq_true_eq, paired,
    Option.ite_none_left_eq_some, Option.some.injEq]
  constructor
  · rintro ((⟨rowid, -, old, oldMember, new, newMember, rfl, same, rfl | rfl⟩ |
      ⟨row, member, single, rfl⟩) | ⟨row, member, single, rfl⟩)
    · exact .preimage oldMember newMember same
    · rw [← same]
      exact .postimage newMember oldMember same.symm
    · exact .insert member fun old oldMember same =>
        single ⟨⟨old, oldMember, same⟩, row, member, rfl⟩
    · exact .delete member fun new newMember same =>
        single ⟨⟨row, member, rfl⟩, new, newMember, same⟩
  · rintro (⟨member, newMember, same⟩ | ⟨member, oldMember, same⟩ | ⟨member, single⟩ |
      ⟨member, single⟩)
    · exact .inl (.inl ⟨_, ⟨⟨_, member, rfl⟩, _, newMember, same⟩, _, member, _, newMember, rfl, same,
        .inl rfl⟩)
    · exact .inl (.inl ⟨_, ⟨⟨_, oldMember, same⟩, _, member, rfl⟩, _, oldMember, _, member, same, rfl,
        .inr rfl⟩)
    · exact .inl (.inr ⟨_, member, fun both => both.1.elim fun old h => single old h.1 h.2, rfl⟩)
    · exact .inr ⟨_, member, fun both => both.2.elim fun new h => single new h.1 h.2, rfl⟩

end Compute

section Consume

variable {addedRows removedRows : List ParquetRowData} {records : List ChangeRecord}
  {state : OrderedMap Nat ParquetRowData}

section

variable (changes : ∀ change, change ∈ records ↔ ChangeOf addedRows removedRows change)
include changes

theorem get_applied_added
    (added : DistinctIds addedRows) (member : row ∈ addedRows) :
    (records.foldl applyChange state).get row.rowid = some row := by
  refine get_applyChanges_set ?_ (.inr ?_)
  · rintro change present ⟨decisive, same⟩
    cases (changes change).mp present with
    | preimage => exact absurd rfl decisive
    | postimage other => exact congrArg some (added.eq other member same)
    | insert other => exact congrArg some (added.eq other member same)
    | delete _ single => exact absurd same.symm (single row member)
  · by_cases paired : ∃ old ∈ removedRows, old.rowid = row.rowid
    · obtain ⟨old, oldMember, same⟩ := paired
      exact ⟨_, (changes _).mpr (.postimage member oldMember same), by simp, rfl⟩
    · refine ⟨_, (changes _).mpr (.insert member fun old oldMember same => ?_), by simp, rfl⟩
      exact paired ⟨old, oldMember, same⟩

theorem get_applied_removed
    (member : row ∈ removedRows) (single : ∀ new ∈ addedRows, new.rowid ≠ row.rowid) :
    (records.foldl applyChange state).get row.rowid = none := by
  refine get_applyChanges_set ?_ (.inr ⟨_, (changes _).mpr (.delete member single), by simp, rfl⟩)
  rintro change present ⟨decisive, same⟩
  cases (changes change).mp present with
  | preimage => exact absurd rfl decisive
  | postimage other => exact absurd same (single _ other)
  | insert other => exact absurd same (single _ other)
  | delete => rfl

theorem get_applied_other
    (notAdded : ∀ new ∈ addedRows, new.rowid ≠ rowid)
    (notRemoved : ∀ old ∈ removedRows, old.rowid ≠ rowid) :
    (records.foldl applyChange state).get rowid = state.get rowid := by
  refine get_applyChanges_of_not_set ?_
  rintro change present ⟨decisive, same⟩
  cases (changes change).mp present with
  | preimage => exact absurd rfl decisive
  | postimage other => exact notAdded _ other same
  | insert other => exact notAdded _ other same
  | delete other => exact notRemoved _ other same

end

end Consume

section Reconstruct

variable {hashOrder : List Nat → List Nat} {startRows addedRows removedRows : List ParquetRowData}

def sortByRowid (rows : List ParquetRowData) : List ParquetRowData :=
  rows.insertionSort fun a b => a.rowid ≤ b.rowid

/-- Applying changes with the iteration order of the hash map written out: its values are sorted by
row identifier at the end. -/
def applyChangesIn (iterate : List ParquetRowData → List ParquetRowData)
    (startState : List ParquetRowData) (changes : List ChangeRecord) : List ParquetRowData :=
  sortByRowid (iterate (applyChanges startState changes))

/-- The rows whose identifiers are not removed, overlaid with the added rows. -/
def overlay (startRows removedRows addedRows : List ParquetRowData) : List ParquetRowData :=
  (startRows.filter fun row => !(removedRows.map (·.rowid)).contains row.rowid &&
    !(addedRows.map (·.rowid)).contains row.rowid) ++ addedRows

theorem sortByRowid_perm (rows : List ParquetRowData) : (sortByRowid rows).Perm rows :=
  perm_insertionSort _ rows

theorem sortByRowid_ext (distinct : DistinctIds rows) (distinct' : DistinctIds rows')
    (same : ∀ row, row ∈ rows ↔ row ∈ rows') :
    sortByRowid rows = sortByRowid rows' := by
  have perm : rows.Perm rows' := (perm_ext_iff_of_nodup distinct.of_map distinct'.of_map).mpr same
  have sorted : ∀ rows, (sortByRowid rows).Pairwise fun a b => a.rowid ≤ b.rowid := fun rows =>
    pairwise_insertionSort _ rows
  refine ((sortByRowid_perm rows).trans (perm.trans (sortByRowid_perm rows').symm)).eq_of_pairwise ?_
    (sorted rows) (sorted rows')
  intro a b left right le ge
  exact distinct.eq ((sortByRowid_perm rows).mem_iff.mp left)
    (perm.mem_iff.mpr ((sortByRowid_perm rows').mem_iff.mp right)) (le_antisymm le ge)

theorem rowsInOrder_distinct (stored : StoredById state) :
    DistinctIds (rowsInOrder state) := by
  have ids : (rowsInOrder state).map (·.rowid) = state.entries.map Prod.fst := by
    rw [rowsInOrder, collect, map_filterMap, ← filterMap_eq_map]
    refine filterMap_congr fun e member => ?_
    exact congrArg some (stored e.1 e.2 (get_eq_some.mpr member))
  rw [DistinctIds, ids]
  exact (pairwise_map.mpr state.sorted).imp fun less => less.ne

theorem mem_overlay : row ∈ overlay startRows removedRows addedRows ↔
    row ∈ addedRows ∨ row ∈ startRows ∧ (∀ old ∈ removedRows, old.rowid ≠ row.rowid) ∧
      ∀ new ∈ addedRows, new.rowid ≠ row.rowid := by
  simp only [overlay, mem_append, mem_filter, Bool.and_eq_true, Bool.not_eq_true',
    contains_eq_mem, decide_eq_false_iff_not, mem_map, not_exists, not_and]
  exact or_comm

theorem overlay_distinct (start : DistinctIds startRows) (added : DistinctIds addedRows) :
    DistinctIds (overlay startRows removedRows addedRows) := by
  rw [DistinctIds, overlay, map_append, nodup_append']
  refine ⟨start.sublist (filter_sublist.map _), added, ?_⟩
  intro rowid left right
  obtain ⟨row, member, rfl⟩ := mem_map.mp left
  have kept := (mem_filter.mp member).2
  simp only [Bool.and_eq_true, Bool.not_eq_true', contains_eq_mem, decide_eq_false_iff_not] at kept
  exact kept.2 right

/-- Applied to the rows at the start, the computed changes give the rows without the removed
identifiers, overlaid with the added rows, in the order of row identifiers. -/
theorem apply_computed_changes (complete : ∀ ids : List Nat, (hashOrder ids).Perm ids)
    {iterate : List ParquetRowData → List ParquetRowData}
    (iterates : ∀ rows, (iterate rows).Perm rows) (start : DistinctIds startRows)
    (added : DistinctIds addedRows) (removed : DistinctIds removedRows) (tableRef : String)
    {startSnapshot endSnapshot retainFrom : Nat} (retained : retainFrom ≤ startSnapshot) :
    ∃ result, computeTableChanges hashOrder tableRef startSnapshot endSnapshot retainFrom addedRows
        removedRows = .ok result ∧
      applyChangesIn iterate startRows result.records =
        sortByRowid (overlay startRows removedRows addedRows) := by
  obtain ⟨records, computed, changes⟩ : ∃ records, computeTableChanges hashOrder tableRef
        startSnapshot endSnapshot retainFrom addedRows removedRows =
          .ok ⟨tableRef, startSnapshot, endSnapshot, records⟩ ∧
      ∀ change, change ∈ records ↔ ChangeOf addedRows removedRows change :=
    computeTableChanges_ok complete added removed tableRef retained
  refine ⟨_, computed, ?_⟩
  have stored : StoredById (records.foldl applyChange (rowsById startRows)) :=
    applyChanges_stored (rowsById_stored startRows)
  have values := iterates (applyChanges startRows records)
  refine sortByRowid_ext ?_ (overlay_distinct start added) fun row => ?_
  · exact (values.map _).nodup_iff.mpr (rowsInOrder_distinct stored)
  rw [values.mem_iff, applyChanges, mem_rowsInOrder stored, mem_overlay]
  by_cases overlaid : ∃ new ∈ addedRows, new.rowid = row.rowid
  · obtain ⟨new, member, same⟩ := overlaid
    rw [← same, get_applied_added changes added member, Option.some.injEq]
    constructor
    · rintro rfl
      exact .inl member
    · rintro (present | ⟨_, _, apart⟩)
      · exact added.eq member present same
      · exact absurd rfl (apart new member)
  · have notAdded : ∀ new ∈ addedRows, new.rowid ≠ row.rowid := fun new member same =>
      overlaid ⟨new, member, same⟩
    have absent : row ∉ addedRows := fun member => notAdded row member rfl
    by_cases gone : ∃ old ∈ removedRows, old.rowid = row.rowid
    · obtain ⟨old, member, same⟩ := gone
      have single : ∀ new ∈ addedRows, new.rowid ≠ old.rowid := same ▸ notAdded
      rw [← same, get_applied_removed changes member single]
      simp only [reduceCtorEq, absent, false_or, false_iff, not_and]
      exact fun _ kept => absurd rfl (kept old member)
    · have notRemoved : ∀ old ∈ removedRows, old.rowid ≠ row.rowid := fun old member same =>
        gone ⟨old, member, same⟩
      rw [get_applied_other changes notAdded notRemoved]
      simp only [absent, false_or]
      exact ⟨fun found => ⟨mem_of_get_rowsById found, notRemoved, notAdded⟩,
        fun kept => get_rowsById start kept.1⟩

theorem apply_computed_overlap : ∃ result,
    computeTableChanges id "main.orders" 1 2 1 [⟨2, "d"⟩, ⟨1, "c"⟩] [⟨1, "b"⟩] = .ok result ∧
    applyChangesIn List.reverse [⟨0, "a"⟩, ⟨1, "b"⟩] result.records = [⟨0, "a"⟩, ⟨1, "c"⟩, ⟨2, "d"⟩] := by
  obtain ⟨result, computed, applied⟩ : ∃ result,
      computeTableChanges id "main.orders" 1 2 1 [⟨2, "d"⟩, ⟨1, "c"⟩] [⟨1, "b"⟩] = .ok result ∧
      applyChangesIn reverse [⟨0, "a"⟩, ⟨1, "b"⟩] result.records =
        sortByRowid (overlay [⟨0, "a"⟩, ⟨1, "b"⟩] [⟨1, "b"⟩] [⟨2, "d"⟩, ⟨1, "c"⟩]) :=
    apply_computed_changes (fun _ => .refl _) reverse_perm (by decide : Nodup _)
      (by decide : Nodup _) (by decide : Nodup _) "main.orders" le_rfl
  exact ⟨result, computed, applied.trans (by decide)⟩

end Reconstruct

end RockLake
