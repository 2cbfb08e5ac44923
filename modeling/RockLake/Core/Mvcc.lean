import RockLake.Core.Keys

/-! Snapshot visibility and the lifetime of versioned rows: the snapshot a row begins at, the
snapshot it ends at, and what a reader bound to one snapshot sees of it. -/
namespace RockLake

/-- A row is visible from its begin snapshot on, up to but not including its end snapshot. -/
def isVisible (beginSnapshot : Nat) (endSnapshot : Option Nat) (snapshot : Nat) : Bool :=
  if beginSnapshot > snapshot then false
  else match endSnapshot with
    | none => true
    | some ended => snapshot < ended

/-- In-memory allocation counters of a store or a writer. -/
structure CounterCache where
  nextSnapshotId : Nat
  nextCatalogId : Nat
  nextFileId : Nat
  deriving DecidableEq

namespace CounterCache

def allocSnapshotId (c : CounterCache) : Nat × CounterCache :=
  (c.nextSnapshotId, { c with nextSnapshotId := c.nextSnapshotId + 1 })

def allocCatalogId (c : CounterCache) : Nat × CounterCache :=
  (c.nextCatalogId, { c with nextCatalogId := c.nextCatalogId + 1 })

def allocFileId (c : CounterCache) : Nat × CounterCache :=
  (c.nextFileId, { c with nextFileId := c.nextFileId + 1 })

/-- Every counter of `c` is at most the one of `d`. -/
structure Le (c d : CounterCache) : Prop where
  snapshot : c.nextSnapshotId ≤ d.nextSnapshotId
  catalog : c.nextCatalogId ≤ d.nextCatalogId
  file : c.nextFileId ≤ d.nextFileId

theorem Le.refl (c : CounterCache) : Le c c := ⟨le_rfl, le_rfl, le_rfl⟩

theorem Le.trans (first : Le c d) (second : Le d e) : Le c e :=
  ⟨first.snapshot.trans second.snapshot, first.catalog.trans second.catalog,
    first.file.trans second.file⟩

end CounterCache

namespace Family

/-- Families whose rows carry an end snapshot that a later write session may set. -/
def retirable : Family → Bool
  | .schema | .table | .column | .view | .macros | .dataFile | .dataFileBySnapshot | .deleteFile
  | .partitionInfo | .sortInfo | .tag | .columnTag | .inlinedInsert => true
  | _ => false

/-- Families read through a snapshot: the retirable ones and the inlined delete markers, which
have no end. -/
def versioned (f : Family) : Bool := f.retirable || f = .inlinedDelete

def beginOf : (f : Family) → f.Row → Nat
  | .schema, row => row.beginSnapshot
  | .table, row => row.beginSnapshot
  | .column, row => row.beginSnapshot
  | .view, row => row.beginSnapshot
  | .macros, row => row.beginSnapshot
  | .dataFile, row => row.beginSnapshot.getD 0
  | .dataFileBySnapshot, row => row.beginSnapshot.getD 0
  | .deleteFile, row => row.beginSnapshot.getD row.snapshotId
  | .partitionInfo, row => row.beginSnapshot
  | .sortInfo, row => row.beginSnapshot
  | .tag, row => row.beginSnapshot
  | .columnTag, row => row.beginSnapshot
  | .inlinedInsert, row => row.beginSnapshot
  | .inlinedDelete, row => row.beginSnapshot
  | _, _ => 0

def endOf : (f : Family) → f.Row → Option Nat
  | .schema, row => row.endSnapshot
  | .table, row => row.endSnapshot
  | .column, row => row.endSnapshot
  | .view, row => row.endSnapshot
  | .macros, row => row.endSnapshot
  | .dataFile, row => row.endSnapshot
  | .dataFileBySnapshot, row => row.endSnapshot
  | .deleteFile, row => row.endSnapshot
  | .partitionInfo, row => row.endSnapshot
  | .sortInfo, row => row.endSnapshot
  | .tag, row => row.endSnapshot
  | .columnTag, row => row.endSnapshot
  | .inlinedInsert, row => row.endSnapshot
  | _, _ => none

def setEnd : (f : Family) → Option Nat → f.Row → f.Row
  | .schema, ended, row => { row with endSnapshot := ended }
  | .table, ended, row => { row with endSnapshot := ended }
  | .column, ended, row => { row with endSnapshot := ended }
  | .view, ended, row => { row with endSnapshot := ended }
  | .macros, ended, row => { row with endSnapshot := ended }
  | .dataFile, ended, row => { row with endSnapshot := ended }
  | .dataFileBySnapshot, ended, row => { row with endSnapshot := ended }
  | .deleteFile, ended, row => { row with endSnapshot := ended }
  | .partitionInfo, ended, row => { row with endSnapshot := ended }
  | .sortInfo, ended, row => { row with endSnapshot := ended }
  | .tag, ended, row => { row with endSnapshot := ended }
  | .columnTag, ended, row => { row with endSnapshot := ended }
  | .inlinedInsert, ended, row => { row with endSnapshot := ended }
  | _, _, row => row

variable {f : Family}

@[simp] theorem beginOf_setEnd (ended : Option Nat) (row : f.Row) :
    f.beginOf (f.setEnd ended row) = f.beginOf row := by
  cases f <;> rfl

theorem endOf_setEnd (retires : f.retirable = true) (ended : Option Nat) (row : f.Row) :
    f.endOf (f.setEnd ended row) = ended := by
  cases f <;> first | rfl | contradiction

theorem endOf_of_not_retirable (unretired : f.retirable = false) (row : f.Row) :
    f.endOf row = none := by
  cases f <;> first | rfl | contradiction

@[simp] theorem setEnd_setEnd (first second : Option Nat) (row : f.Row) :
    f.setEnd second (f.setEnd first row) = f.setEnd second row := by
  cases f <;> rfl

theorem setEnd_endOf (row : f.Row) : f.setEnd (f.endOf row) row = row := by
  cases f <;> rfl

/-- What a reader bound to a snapshot sees of a row: nothing when the row is not visible, else the
row without the end snapshot that a later retirement may have stored. -/
def seen (f : Family) (snapshot : Nat) (row : f.Row) : Option f.Row :=
  if isVisible (f.beginOf row) (f.endOf row) snapshot then some (f.setEnd none row) else none

theorem seen_of_later {snapshot : Nat} (later : snapshot < f.beginOf row) :
    f.seen snapshot row = none := by
  simp [seen, isVisible, later]

/-- Retiring a live row at a later snapshot changes nothing for a reader of an earlier one. -/
theorem seen_retired (retires : f.retirable = true) {snapshot ended : Nat}
    (live : f.endOf row = none) (earlier : snapshot < ended) :
    f.seen snapshot (f.setEnd (some ended) row) = f.seen snapshot row := by
  simp [seen, isVisible, endOf_setEnd retires, live, earlier]

end Family

end RockLake
