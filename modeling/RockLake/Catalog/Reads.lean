import Mathlib.Data.List.Dedup
import RockLake.Catalog.Reader
import RockLake.Catalog.Sessions

/-! What the snapshot reads return over a consistent store, as selections of stored rows: data files
by visibility rather than by a range of index keys, tables by identifier rather than through the
table index. Sorting, deduplication and tree order do not look at end snapshots. -/
namespace RockLake

open List

/-- In a list where a kept element makes everything before it kept, the kept elements come first. -/
theorem takeWhile_eq_filter {l : List α} (downward : l.Pairwise fun a b => p b = true → p a = true) :
    l.takeWhile p = l.filter p := by
  induction l with
  | nil => rfl
  | cons a l ih =>
    obtain ⟨above, rest⟩ := pairwise_cons.mp downward
    cases kept : p a with
    | true => simp [kept, ih rest]
    | false =>
      have dropped : l.filter p = [] := by
        refine filter_eq_nil_iff.mpr fun b member later => ?_
        simp [above b member later] at kept
      simp [kept, dropped]

theorem Db.scanPrefix_eq (db : Db) (f : Family) (start : Key) :
    db.scanPrefix f start = (db f).entries.filter fun e => start <+: e.1 := by
  rw [scanPrefix, OrderedMap.collect, ← filterMap_eq_filter]
  refine filterMap_congr fun e _ => ?_
  simp [Option.guard]

theorem Db.scanPrefix_sorted (db : Db) (f : Family) (start : Key) :
    (db.scanPrefix f start).Pairwise fun a b => a.1 < b.1 := by
  rw [scanPrefix_eq]
  exact (db f).sorted.filter _

namespace CatalogReader

variable (r : CatalogReader)

theorem listVisible_eq (f : Family) (start : Key) :
    r.listVisible f start = ((r.db f).entries.filter fun e =>
      decide (start <+: e.1) && isVisible (f.beginOf e.2) (f.endOf e.2) r.snapshot).map Prod.snd := by
  rw [listVisible, Db.scanPrefix_eq, filter_filter]
  simp [Bool.and_comm]

theorem mem_listVisible :
    row ∈ r.listVisible f start ↔ ∃ k, r.db.get f k = some row ∧ start <+: k ∧
      isVisible (f.beginOf row) (f.endOf row) r.snapshot = true := by
  simp only [listVisible, mem_map, mem_filter, Db.mem_scanPrefix]
  constructor
  · rintro ⟨⟨k, row⟩, ⟨⟨found, starts⟩, visible⟩, rfl⟩
    exact ⟨k, found, starts, visible⟩
  · rintro ⟨k, found, starts, visible⟩
    exact ⟨(k, row), ⟨⟨found, starts⟩, visible⟩, rfl⟩

/-- Without the end snapshots, a listing is a scan of what the snapshot shows of each row. -/
theorem listVisible_cleared (f : Family) (start : Key) :
    (r.listVisible f start).map (f.setEnd none) =
      (r.db f).collect fun k row => if start <+: k then f.seen r.snapshot row else none := by
  rw [listVisible_eq, map_map, OrderedMap.collect, ← filterMap_eq_map, filterMap_filter]
  refine filterMap_congr fun e _ => ?_
  by_cases starts : start <+: e.1 <;>
    by_cases visible : isVisible (f.beginOf e.2) (f.endOf e.2) r.snapshot = true <;>
      simp [starts, visible, Family.seen]

variable {r}

theorem indexKey_lt {tableId begun fileId snapshot : Nat} :
    keyDataFileBySnapshot tableId begun fileId < [tableId, snapshot + 1] ↔ begun ≤ snapshot := by
  have words : keyDataFileBySnapshot tableId begun fileId < [tableId, snapshot + 1] ↔
      begun < snapshot + 1 := by
    simp [keyDataFileBySnapshot, cons_lt_cons_iff]
  rw [words, Nat.lt_succ_iff]

theorem listDataFiles_ofIndex
    (indexed : ∀ k row, r.db.get .dataFileBySnapshot k = some row → k = row.indexKey)
    (tableId : Nat) :
    r.listDataFiles tableId = sortByKey (fun row => row.fileOrder.getD row.dataFileId)
      (r.listVisible .dataFileBySnapshot [tableId]) := by
  have ranged := takeWhile_eq_filter (p := fun e => decide (e.1 < [tableId, r.snapshot + 1]))
    ((r.db.scanPrefix_sorted .dataFileBySnapshot [tableId]).imp fun {a b} less bound => by
      simp only [decide_eq_true_eq] at bound ⊢
      exact less.trans bound)
  simp only [listDataFiles, ranged, listVisible, filter_map, filter_filter]
  congr 2
  refine filter_congr fun e member => ?_
  obtain ⟨stored, starts⟩ := (r.db.mem_scanPrefix).mp member
  have key := indexed e.1 e.2 stored
  have owner : e.2.tableId = tableId := by
    rw [key] at starts
    simpa [DataFileRow.indexKey, keyDataFileBySnapshot, eq_comm] using starts
  rw [key, DataFileRow.indexKey, owner]
  simp only [indexKey_lt, Function.comp, Family.beginOf, Family.endOf, isVisible]
  by_cases later : e.2.beginSnapshot.getD 0 > r.snapshot
  · simp [later]
  · cases ended : e.2.endSnapshot <;> simp [later, Nat.le_of_not_lt later]

theorem listDataFiles_eq (sound : r.db.Sound c) (tableId : Nat) :
    r.listDataFiles tableId = sortByKey (fun row => row.fileOrder.getD row.dataFileId)
      (r.listVisible .dataFileBySnapshot [tableId]) :=
  listDataFiles_ofIndex (fun k row found => (sound .dataFileBySnapshot k row found).keyed.1) tableId

theorem findTable_eq (sound : r.db.Sound c) (indexed : r.db.Indexed) (tableId : Nat) :
    r.findTable tableId = newest ((r.listVisible .table []).filter fun row =>
      row.tableId = tableId) := by
  simp only [findTable]
  split
  · rename_i schemaId index
    congr 1
    rw [listVisible_eq, listVisible_eq, filter_map, filter_filter]
    congr 1
    refine filter_congr fun e member => ?_
    have stored : r.db.get .table e.1 = some e.2 := OrderedMap.get_eq_some.mpr member
    have key := (sound .table e.1 e.2 stored).keyed.1
    have owner := indexed e.1 e.2 stored
    have starts : [schemaId, tableId] <+: e.1 ↔ e.2.tableId = tableId := by
      rw [key]
      simp only [keyTable, cons_prefix_cons, nil_prefix, and_true]
      constructor
      · rintro ⟨_, same⟩
        exact same.symm
      · rintro rfl
        rw [index] at owner
        exact ⟨Option.some.inj owner, rfl⟩
    simp [starts]
  · rfl

/-! Clearing end snapshots commutes with the order of the results. -/

theorem newest_map (clear : TableRow → TableRow)
    (begun : ∀ row, (clear row).beginSnapshot = row.beginSnapshot) (rows : List TableRow) :
    newest (rows.map clear) = (newest rows).map clear := by
  have fold : ∀ best : Option TableRow,
      (rows.map clear).foldl newer (best.map clear) = (rows.foldl newer best).map clear := by
    induction rows with
    | nil => exact fun _ => rfl
    | cons row rows ih =>
      intro best
      rw [map_cons, foldl_cons, foldl_cons, ← ih]
      congr 1
      cases best with
      | none => rfl
      | some existing =>
        simp only [newer, Option.map_some, begun]
        split <;> rfl
  exact fold none

theorem sortByKey_map (key : R → Nat) (clear : R → R) (same : ∀ row, key (clear row) = key row)
    (rows : List R) : sortByKey key (rows.map clear) = (sortByKey key rows).map clear := by
  refine (map_insertionSort _ _ clear rows fun a _ b _ => ?_).symm
  simp [same]

/-- A change to column rows that the order of columns does not depend on. -/
structure KeepsOrder (clear : ColumnRow → ColumnRow) : Prop where
  columnId : ∀ row, (clear row).columnId = row.columnId
  columnIndex : ∀ row, (clear row).columnIndex = row.columnIndex
  beginSnapshot : ∀ row, (clear row).beginSnapshot = row.beginSnapshot
  parentColumn : ∀ row, (clear row).parentColumn = row.parentColumn

section Columns

theorem dedupColumns_map (columnId : ∀ row, (clear row).columnId = row.columnId)
    (rows : List ColumnRow) : dedupColumns (rows.map clear) = (dedupColumns rows).map clear := by
  induction rows with
  | nil => rfl
  | cons row rest ih =>
    simp [dedupColumns, ih, dropWhile_map, Function.comp_def, columnId]

theorem currentColumns_map (columnId : ∀ row, (clear row).columnId = row.columnId)
    (beginSnapshot : ∀ row, (clear row).beginSnapshot = row.beginSnapshot) (rows : List ColumnRow) :
    currentColumns (rows.map clear) = (currentColumns rows).map clear := by
  rw [currentColumns, currentColumns, ← dedupColumns_map columnId]
  congr 1
  refine (map_insertionSort _ _ clear rows fun a _ b _ => ?_).symm
  simp [columnId, beginSnapshot]

theorem expand_map (keeps : KeepsOrder clear) (fuel : Nat) (waiting children : List ColumnRow) :
    expand fuel (waiting.map clear) (children.map clear) =
      ((expand fuel waiting children).1.map clear, (expand fuel waiting children).2.map clear) := by
  induction fuel generalizing waiting children with
  | zero => rfl
  | succ fuel ih =>
    cases waiting with
    | nil => rfl
    | cons col waiting =>
      simp only [expand, map_cons, filter_map, Function.comp_def, keeps.parentColumn,
        keeps.columnId, sortByKey_map _ clear keeps.columnIndex]
      rw [← map_append, ih]

theorem sortColumnsTree_map (keeps : KeepsOrder clear) (hashOrder : List Nat → List Nat)
    (columns : List ColumnRow) :
    sortColumnsTree hashOrder (columns.map clear) =
      (sortColumnsTree hashOrder columns).map clear := by
  simp [sortColumnsTree, sortByKey_map _ clear keeps.columnIndex, filter_map, Function.comp_def,
    keeps.parentColumn, expand_map keeps, map_flatMap]

end Columns

/-! Where the rows of an answer come from. -/

theorem newest_mem (found : newest rows = some row) :
    row ∈ rows := by
  have fold : ∀ best : Option TableRow, rows.foldl newer best = some row →
      row ∈ rows ∨ best = some row := by
    clear found
    induction rows with
    | nil => exact fun _ same => .inr same
    | cons first rest ih =>
      intro best same
      rcases ih _ same with later | chosen
      · exact .inl (mem_cons_of_mem _ later)
      cases best with
      | none =>
        cases chosen
        exact .inl mem_cons_self
      | some existing =>
        simp only [newer] at chosen
        split at chosen
        · cases chosen
          exact .inl mem_cons_self
        · exact .inr chosen
  rcases fold none found with member | impossible
  · exact member
  · contradiction

theorem mem_of_mem_dedupColumns (member : row ∈ dedupColumns rows) : row ∈ rows := by
  induction rows with
  | nil => exact member
  | cons first rest ih =>
    rcases mem_cons.mp member with rfl | later
    · exact mem_cons_self
    · exact mem_cons_of_mem _ (ih ((dropWhile_sublist _).subset later))

theorem mem_of_mem_currentColumns (member : row ∈ currentColumns rows) : row ∈ rows :=
  (mem_insertionSort _).mp (mem_of_mem_dedupColumns member)

theorem expand_perm (enough : waiting.length + children.length ≤ fuel) :
    ((expand fuel waiting children).1 ++ (expand fuel waiting children).2).Perm
      (waiting ++ children) := by
  induction fuel generalizing waiting children with
  | zero =>
    obtain rfl : waiting = [] := length_eq_zero_iff.mp (by omega)
    rfl
  | succ fuel ih =>
    cases waiting with
    | nil => rfl
    | cons col waiting =>
      have parted := filter_append_perm
        (fun c => decide (c.parentColumn = some col.columnId)) children
      simp only [← decide_not, ← ne_eq] at parted
      have sorted := perm_insertionSort (fun a b => a.columnIndex ≤ b.columnIndex)
        (children.filter fun c => c.parentColumn = some col.columnId)
      have regrouped : (sortByKey (·.columnIndex) (children.filter fun c =>
          c.parentColumn = some col.columnId) ++ waiting ++
          children.filter fun c => c.parentColumn ≠ some col.columnId).Perm
          (waiting ++ children) := by
        refine (perm_append_comm.append_right _).trans ?_
        rw [append_assoc]
        exact ((sorted.append_right _).trans parted).append_left waiting
      have shorter := regrouped.length_eq
      simp only [length_append, length_cons] at shorter enough
      refine Perm.cons col ((ih ?_).trans regrouped)
      rw [length_append]
      omega

theorem mem_expand_left (left : row ∈ (expand fuel waiting children).2) : row ∈ children := by
  induction fuel generalizing waiting children with
  | zero => exact left
  | succ fuel ih =>
    cases waiting with
    | nil => exact left
    | cons col waiting => exact mem_of_mem_filter (ih left)

theorem grouped_perm {parents : List Nat} (distinct : parents.Nodup) (rows : List ColumnRow)
    (covered : ∀ row ∈ rows, ∃ parent ∈ parents, row.parentColumn = some parent) :
    (parents.flatMap fun parent => rows.filter fun c => c.parentColumn = some parent).Perm rows := by
  induction parents generalizing rows with
  | nil =>
    obtain rfl : rows = [] := eq_nil_iff_forall_not_mem.mpr fun row member =>
      (covered row member).elim fun _ found => not_mem_nil found.1
    rfl
  | cons parent parents ih =>
    obtain ⟨absent, distinct⟩ := nodup_cons.mp distinct
    have parted := filter_append_perm (fun c => decide (c.parentColumn = some parent)) rows
    -- the later groups lie in what the first one leaves
    have later : (parents.flatMap fun other => rows.filter fun c => c.parentColumn = some other) =
        parents.flatMap fun other =>
          (rows.filter fun c => !decide (c.parentColumn = some parent)).filter
            fun c => c.parentColumn = some other := by
      refine flatMap_congr fun other member => ?_
      rw [filter_filter]
      refine filter_congr fun row _ => ?_
      by_cases named : row.parentColumn = some other
      · have apart : other ≠ parent := fun same => absent (same ▸ member)
        simp [named, apart]
      · simp [named]
    rw [flatMap_cons, later]
    refine ((ih distinct _ fun row member => ?_).append_left _).trans parted
    obtain ⟨member, other⟩ := mem_filter.mp member
    obtain ⟨found, among, named⟩ := covered row member
    rcases mem_cons.mp among with rfl | among
    · simp [named] at other
    · exact ⟨found, among, named⟩

theorem sortColumnsTree_perm {hashOrder : List Nat → List Nat}
    (complete : ∀ parents, (hashOrder parents).Perm parents) (columns : List ColumnRow) :
    (sortColumnsTree hashOrder columns).Perm columns := by
  have sorted : (sortByKey (·.columnIndex) columns).Perm columns := perm_insertionSort _ _
  have parted := filter_append_perm (fun c : ColumnRow => c.parentColumn.isNone)
    (sortByKey (·.columnIndex) columns)
  simp only [Option.not_isNone] at parted
  have length := (parted.trans sorted).length_eq
  rw [length_append] at length
  have expanded := expand_perm length.le
  have waited : ∀ c ∈ (expand columns.length
      ((sortByKey (·.columnIndex) columns).filter fun c => c.parentColumn.isNone)
      ((sortByKey (·.columnIndex) columns).filter fun c => c.parentColumn.isSome)).2,
      c ∈ (sortByKey (·.columnIndex) columns).filter fun c => c.parentColumn.isSome :=
    fun _ => mem_expand_left
  simp only [sortColumnsTree]
  generalize expand columns.length _ _ = tree at expanded waited ⊢
  have orphans := grouped_perm
    ((complete _).nodup_iff.mpr (nodup_dedup (tree.2.filterMap (·.parentColumn)))) tree.2 ?_
  · exact (orphans.append_left _).trans (expanded.trans (parted.trans sorted))
  intro row orphan
  obtain ⟨parent, named⟩ := Option.isSome_iff_exists.mp
    (mem_filter.mp (waited row orphan)).2
  refine ⟨parent, ?_, named⟩
  rw [(complete _).mem_iff, mem_dedup, mem_filterMap]
  exact ⟨row, orphan, named⟩

theorem mem_sortColumnsTree (complete : ∀ parents, (hashOrder parents).Perm parents) :
    row ∈ sortColumnsTree hashOrder columns ↔ row ∈ columns :=
  (sortColumnsTree_perm complete columns).mem_iff

end CatalogReader

end RockLake
