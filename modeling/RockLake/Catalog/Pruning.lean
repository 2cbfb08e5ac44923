import RockLake.Catalog.Reader
import RockLake.Catalog.Retirement
import RockLake.Core.Types

/-! Pruning of data files by statistics. The files that are kept are read off the statistics of the
column, whether or not the file is visible at the snapshot of the reader, and a file without
statistics is not among them. A file may be dropped once more for the upper bound it was registered
with, whatever column that bound is for. -/
namespace RockLake

open List

section Prune

variable (parse : String → Option F64) (predicateValue : String) (colType : DuckLakeType)

def FileColumnStatsRow.prune (row : FileColumnStatsRow) : Except TypeCompareError PruneResult :=
  pruneFile parse predicateValue row.minValue row.maxValue row.containsNan colType

def keptFileIds : List FileColumnStatsRow → Except TypeCompareError (List Nat)
  | [] => .ok []
  | row :: rest => do
      let result ← row.prune parse predicateValue colType
      let ids ← keptFileIds rest
      .ok (if result = .keep then row.dataFileId :: ids else ids)

/-- The upper bounds by file; for a file listed twice the later one counts. -/
def partialMap (files : List DataFileRow) (fileId : Nat) : Option String :=
  (files.filterMap fun file => file.partialMax.map (file.dataFileId, ·)).reverse.lookup fileId

/-- The value is above the upper bound that the file was registered with. -/
def abovePartialMax (files : List DataFileRow) (fileId : Nat) : Bool :=
  match partialMap files fileId with
  | none => false
  | some partialMax =>
    match typeAwareCompare parse predicateValue partialMax colType with
    | .ok .gt => true
    | _ => false

def CatalogReader.pruneFiles (r : CatalogReader) (tableId columnId : Nat) :
    Except TypeCompareError (List Nat) := do
  let ids ← keptFileIds parse predicateValue colType (r.listFileColumnStats tableId columnId)
  .ok (ids.filter fun fileId =>
    !abovePartialMax parse predicateValue colType (r.listDataFiles tableId) fileId)

/-- The statistics exclude the value: it lies below the minimum or above the maximum, or it is NaN
and there is none. -/
def FileColumnStatsRow.Excludes (row : FileColumnStatsRow) : Prop :=
  (∃ min ∈ row.minValue, typeAwareCompare parse predicateValue min colType = .ok .lt) ∨
    (∃ max ∈ row.maxValue, typeAwareCompare parse predicateValue max colType = .ok .gt) ∨
    (colType.isFloat = true ∧ (predicateValue = "NaN" ∨ predicateValue = "nan") ∧
      row.containsNan = false)

/-- Only visible files are kept, and a visible file is omitted only if it has statistics of the
column that exclude the value. -/
structure CatalogReader.PrunesSafely (r : CatalogReader) (tableId columnId : Nat)
    (kept : List Nat) : Prop where
  visible : ∀ fileId ∈ kept, ∃ file ∈ r.listDataFiles tableId, file.dataFileId = fileId
  omitted : ∀ file ∈ r.listDataFiles tableId, file.dataFileId ∉ kept →
    ∃ stats ∈ r.listFileColumnStats tableId columnId, stats.dataFileId = file.dataFileId ∧
      stats.Excludes parse predicateValue colType

end Prune

section Kept

variable {parse : String → Option F64} {predicateValue : String} {colType : DuckLakeType}

theorem pruneBound_prune
    (pruned : pruneBound parse predicateValue bound excluding colType otherwise = .ok .prune) :
    (∃ value ∈ bound, typeAwareCompare parse predicateValue value colType = .ok excluding) ∨
      otherwise = .ok .prune := by
  cases bound with
  | none => exact .inr pruned
  | some value =>
    simp only [pruneBound] at pruned
    split at pruned
    · exact .inr pruned
    split at pruned
    · cases pruned
    · cases pruned
    · rename_i order compared
      split at pruned
      · rename_i same
        exact .inl ⟨value, rfl, same ▸ compared⟩
      · exact .inr pruned

theorem FileColumnStatsRow.excludes_of_prune {row : FileColumnStatsRow}
    (pruned : row.prune parse predicateValue colType = .ok .prune) :
    row.Excludes parse predicateValue colType := by
  simp only [prune, pruneFile] at pruned
  split at pruned
  · cases pruned
  split at pruned
  · cases pruned
  · split at pruned
    · rename_i isNan
      simp only [Bool.and_eq_true, Bool.or_eq_true, decide_eq_true_eq] at isNan
      split at pruned
      · cases pruned
      · rename_i without
        exact .inr (.inr ⟨isNan.1, isNan.2, Bool.eq_false_iff.mpr without⟩)
    · rcases pruneBound_prune pruned with below | pruned
      · exact .inl below
      · rcases pruneBound_prune pruned with above | pruned
        · exact .inr (.inl above)
        · cases pruned

/-- The rows of statistics decide, each for its file, as long as all of them can be compared. -/
theorem keptFileIds_ok (kept : keptFileIds parse predicateValue colType rows = .ok ids) :
    (∀ row ∈ rows, row.prune parse predicateValue colType = .ok .keep ∨
      row.prune parse predicateValue colType = .ok .prune) ∧
    ∀ fileId, fileId ∈ ids ↔ ∃ row ∈ rows, row.dataFileId = fileId ∧
      row.prune parse predicateValue colType = .ok .keep := by
  induction rows generalizing ids with
  | nil =>
    cases kept
    simp
  | cons row rest ih =>
    obtain ⟨result, pruned, kept⟩ := bind_ok.mp kept
    obtain ⟨later, keptLater, kept⟩ := bind_ok.mp kept
    obtain ⟨decided, members⟩ := ih keptLater
    cases kept
    refine ⟨forall_mem_cons.mpr ⟨?_, decided⟩, fun fileId => ?_⟩
    · cases result with
      | keep => exact .inl pruned
      | prune => exact .inr pruned
    · cases result with
      | keep => simp [pruned, members, eq_comm]
      | prune => simp [pruned, members]

theorem abovePartialMax_listed
    (above : abovePartialMax parse predicateValue colType files fileId = true) :
    ∃ file ∈ files, file.dataFileId = fileId := by
  simp only [abovePartialMax] at above
  split at above
  · cases above
  rename_i partialMax found
  obtain ⟨earlier, later, split, _⟩ := lookup_eq_some_iff.mp found
  have member : (fileId, partialMax) ∈
      (files.filterMap fun file => file.partialMax.map (file.dataFileId, ·)).reverse := by
    rw [split]
    simp
  simp only [mem_reverse, mem_filterMap, Option.map_eq_some_iff, Prod.mk.injEq] at member
  obtain ⟨file, listed, _, _, same, _⟩ := member
  exact ⟨file, listed, same⟩

theorem mem_pruneFiles {r : CatalogReader}
    (pruned : r.pruneFiles parse predicateValue colType tableId columnId = .ok kept) (fileId : Nat) :
    fileId ∈ kept ↔ (∃ row ∈ r.listFileColumnStats tableId columnId, row.dataFileId = fileId ∧
        row.prune parse predicateValue colType = .ok .keep) ∧
      abovePartialMax parse predicateValue colType (r.listDataFiles tableId) fileId = false := by
  obtain ⟨ids, listed, same⟩ := bind_ok.mp pruned
  cases same
  rw [mem_filter, (keptFileIds_ok listed).2]
  simp

end Kept

/-- Pruning is safe exactly where the files of the statistics that are kept are visible, every visible
file has statistics of the column, and the statistics of a visible file exclude the value where the
upper bound of the file does. -/
theorem pruneFiles_safe_iff (parse : String → Option F64) (predicateValue : String)
    (colType : DuckLakeType) (r : CatalogReader) (tableId columnId : Nat) {kept : List Nat}
    (pruned : r.pruneFiles parse predicateValue colType tableId columnId = .ok kept) :
    r.PrunesSafely parse predicateValue colType tableId columnId kept ↔
      (∀ stats ∈ r.listFileColumnStats tableId columnId,
        stats.prune parse predicateValue colType = .ok .keep →
          ∃ file ∈ r.listDataFiles tableId, file.dataFileId = stats.dataFileId) ∧
      ∀ file ∈ r.listDataFiles tableId,
        (∃ stats ∈ r.listFileColumnStats tableId columnId, stats.dataFileId = file.dataFileId) ∧
        (abovePartialMax parse predicateValue colType (r.listDataFiles tableId) file.dataFileId =
            true →
          ∃ stats ∈ r.listFileColumnStats tableId columnId, stats.dataFileId = file.dataFileId ∧
            stats.Excludes parse predicateValue colType) := by
  obtain ⟨ids, listed, _⟩ := bind_ok.mp pruned
  have decided := (keptFileIds_ok listed).1
  have members := mem_pruneFiles pruned
  constructor
  · rintro ⟨visible, omitted⟩
    refine ⟨fun stats member keeps => ?_, fun file present => ⟨?_, fun above => ?_⟩⟩
    · cases above : abovePartialMax parse predicateValue colType (r.listDataFiles tableId)
          stats.dataFileId with
      | true => exact abovePartialMax_listed above
      | false => exact visible _ ((members _).mpr ⟨⟨stats, member, rfl, keeps⟩, above⟩)
    · by_cases stays : file.dataFileId ∈ kept
      · obtain ⟨⟨stats, member, same, _⟩, _⟩ := (members _).mp stays
        exact ⟨stats, member, same⟩
      · obtain ⟨stats, member, same, _⟩ := omitted file present stays
        exact ⟨stats, member, same⟩
    · refine omitted file present fun stays => ?_
      rw [((members _).mp stays).2] at above
      cases above
  · rintro ⟨backed, covered⟩
    refine ⟨fun fileId stays => ?_, fun file present dropped => ?_⟩
    · obtain ⟨⟨stats, member, rfl, keeps⟩, _⟩ := (members _).mp stays
      exact backed stats member keeps
    · obtain ⟨⟨stats, member, same⟩, bounded⟩ := covered file present
      cases above : abovePartialMax parse predicateValue colType (r.listDataFiles tableId)
          file.dataFileId with
      | true => exact bounded above
      | false =>
        rcases decided stats member with keeps | prunes
        · exact absurd ((members _).mpr ⟨⟨stats, member, same, keeps⟩, above⟩) dropped
        · exact ⟨stats, member, same, stats.excludes_of_prune prunes⟩

def registerFiles : Session :=
  ⟨[.staging (.addColumn 2 ⟨"amount", "INT", 0, true, none, none, none, none, none⟩),
    .staging (.registerDataFile 2 (.parquet "f.parquet" 2 64)),
    .staging (.registerDataFile 2 (.parquet "g.parquet" 2 64))], {}⟩

/-- The amounts of the first file lie between 10 and 20, those of the second between 30 and 40. -/
def recordStats : Session :=
  ⟨[(1, "10", "20"), (2, "30", "40")].map fun (file, least, greatest) =>
    .direct (.upsertFileColumnStats ⟨2, 3, file, false, some least, some greatest, false, none, none,
      none, none⟩), {}⟩

/-- With statistics, one file is kept for 15, which they do not exclude, and the other is pruned. -/
theorem pruneFiles_safe_recorded : ∃ (catalog : Catalog) (r : CatalogReader),
    catalog.Reachable Env.trivial ∧ catalog.store.readAt catalog.db 3 = .ok r ∧
    r.pruneFiles (fun _ => none) "15" (.integer true 32) 2 3 = .ok [1] ∧
    r.PrunesSafely (fun _ => none) "15" (.integer true 32) 2 3 [1] := by
  refine ⟨_, _, .session (.session (.session (.opened "a" rfl) Catalog.createOrders rfl)
    registerFiles rfl) recordStats rfl,
    rfl, rfl, (pruneFiles_safe_iff _ _ _ _ 2 3 rfl).mpr ⟨fun stats member _ => ?_, fun file member => ?_⟩⟩
  · rcases mem_pair.mp member with rfl | rfl
    · exact ⟨_, mem_cons_self, rfl⟩
    · exact ⟨_, mem_cons_of_mem _ mem_cons_self, rfl⟩
  · rcases mem_pair.mp member with rfl | rfl
    · exact ⟨⟨_, mem_cons_self, rfl⟩, fun above => by cases above⟩
    · exact ⟨⟨_, mem_cons_of_mem _ mem_cons_self, rfl⟩, fun above => by cases above⟩

/-- Without statistics, the files are visible and yet not kept. -/
theorem pruneFiles_loses_unrecorded : ∃ (catalog : Catalog) (r : CatalogReader),
    catalog.Reachable Env.trivial ∧ catalog.store.readAt catalog.db 2 = .ok r ∧
    (r.listDataFiles 2).map (·.dataFileId) = [1, 2] ∧ r.listFileColumnStats 2 3 = [] ∧
    r.pruneFiles (fun _ => none) "15" (.integer true 32) 2 3 = .ok [] :=
  ⟨_, _, .session (.session (.opened "a" rfl) Catalog.createOrders rfl) registerFiles
    rfl, rfl, rfl, rfl, rfl⟩

/-- The statistics of a column after those of files have been merged in, one after the other. -/
def mergedStats (env : Env) (db : Db) (tableId columnId : Nat)
    (files : List CatalogWriter.ColumnStatsSpec) : Option TableColumnStatsRow :=
  (files.foldl (CatalogWriter.upsertTableColumnStats env · tableId columnId ·) db).get
    .tableColumnStats (keyTableColumnStats tableId columnId)

def VarcharLe (parse : String → Option F64) (left right : String) : Prop :=
  typeAwareCompare parse left right .varchar ≠ .ok .gt

theorem varcharLe_iff : VarcharLe parse left right ↔ (compare left right).isLE = true := by
  cases compared : compare left right <;> simp [VarcharLe, typeAwareCompare, compared]

theorem mergedStats_bounds (env : Env) (db : Db) (tableId columnId : Nat)
    (files : List CatalogWriter.ColumnStatsSpec) :
    (mergedStats env db tableId columnId files).bind (·.minValue) = (files.map (·.minValue)).foldl
        (mergeMin env) ((mergedStats env db tableId columnId []).bind (·.minValue)) ∧
      (mergedStats env db tableId columnId files).bind (·.maxValue) = (files.map (·.maxValue)).foldl
        (mergeMax env) ((mergedStats env db tableId columnId []).bind (·.maxValue)) := by
  induction files generalizing db with
  | nil => exact ⟨rfl, rfl⟩
  | cons spec rest ih =>
    have later := ih (CatalogWriter.upsertTableColumnStats env db tableId columnId spec)
    simp only [mergedStats, foldl_nil, CatalogWriter.upsertTableColumnStats, Db.get_put_same] at later
    exact later

/-- Merging by a choice that lies on the right side of both bounds gives a bound of all. -/
theorem foldl_mergeBound (values : Set String) {r : String → String → Prop} (same : ∀ v, r v v)
    (trans : ∀ {a b c}, r a b → r b c → r a c)
    (picks : ∀ a ∈ values, ∀ b ∈ values, pick a b ∈ values ∧ r (pick a b) a ∧ r (pick a b) b)
    {start : Option String} {bounds : List (Option String)}
    (inside : ∀ v, some v ∈ start :: bounds → v ∈ values) :
    ∀ v, some v ∈ start :: bounds → ∃ m ∈ bounds.foldl (mergeBound pick) start, r m v := by
  induction bounds generalizing start with
  | nil =>
    intro v member
    exact ⟨v, (mem_singleton.mp member).symm, same v⟩
  | cons bound rest ih =>
    have first : (∀ v, some v = mergeBound pick start bound → v ∈ values) ∧
        ∀ v, some v = start ∨ some v = bound → ∃ m ∈ mergeBound pick start bound, r m v := by
      cases start <;> cases bound <;> simp_all [mergeBound]
    have later := @ih (mergeBound pick start bound) fun v member =>
      (mem_cons.mp member).elim (first.1 v) fun deeper => inside v (by simp [deeper])
    intro v member
    rw [mem_cons, mem_cons, ← or_assoc] at member
    rcases member with here | deeper
    · obtain ⟨m, chosen, le⟩ := first.2 v here
      obtain ⟨n, found, le'⟩ := later m (mem_cons.mpr (.inl chosen.symm))
      exact ⟨n, found, trans le' le⟩
    · exact later v (mem_cons_of_mem _ deeper)

/-- The merged bounds of texts are bounds in the order of the pruning exactly if the guess of the merge
agrees with that order on all of them. -/
theorem varcharStats_iff (env : Env) (parse : String → Option F64) (values : Set String) :
    (∀ db tableId columnId files, mergedStats env db tableId columnId [] = none →
      (∀ spec ∈ files, ∀ v, spec.minValue = some v ∨ spec.maxValue = some v → v ∈ values) →
      ∀ spec ∈ files,
        (∀ v ∈ spec.minValue, ∃ least ∈ (mergedStats env db tableId columnId files).bind (·.minValue),
          VarcharLe parse least v) ∧
        ∀ v ∈ spec.maxValue, ∃ greatest ∈ (mergedStats env db tableId columnId files).bind (·.maxValue),
          VarcharLe parse v greatest) ↔
    ∀ a ∈ values, ∀ b ∈ values,
      if statsValueLessOrEqual env a b then VarcharLe parse a b else VarcharLe parse b a := by
  constructor
  · intro bounds a left b right
    let files : List CatalogWriter.ColumnStatsSpec :=
      [⟨false, some a, none, none, none⟩, ⟨false, some b, none, none, none⟩]
    have merged := bounds Db.empty 0 0 files rfl (by simp [files, left, right])
    have picked : _ = some (if statsValueLessOrEqual env a b then a else b) :=
      (mergedStats_bounds env Db.empty 0 0 files).1
    simp only [picked, files] at merged
    split <;> simp_all
  · intro agrees db tableId columnId files empty inside spec member
    have same (v : String) : VarcharLe parse v v := varcharLe_iff.mpr Std.ReflCmp.isLE_rfl
    have trans {a b c : String} : VarcharLe parse a b → VarcharLe parse b c → VarcharLe parse a c := by
      simp only [varcharLe_iff]
      exact Std.TransCmp.isLE_trans
    rw [(mergedStats_bounds ..).1, (mergedStats_bounds ..).2, empty]
    constructor
    · intro v stored
      refine foldl_mergeBound values same trans (fun a left b right => ?_) (fun v => ?_) v
        (mem_cons_of_mem _ (mem_map.mpr ⟨spec, member, stored⟩))
      · have agreed := agrees a left b right
        split <;> simp_all
      · simpa using fun spec member stored => inside spec member v (.inl stored)
    · intro v stored
      refine foldl_mergeBound values (r := fun m v => VarcharLe parse v m) same
        (fun le le' => trans le' le) (fun a left b right => ?_) (fun v => ?_) v
        (mem_cons_of_mem _ (mem_map.mpr ⟨spec, member, stored⟩))
      · have agreed := agrees a left b right
        split <;> simp_all
      · simpa using fun spec member stored => inside spec member v (.inr stored)

/-- The minimum is the last one in the order of texts, as the merge compares numbers. -/
theorem varcharStats_unbound : ∃ row, mergedStats Env.trivial Db.empty 2 1
      [⟨false, some "10", some "10", none, none⟩, ⟨false, some "9", some "9", none, none⟩] = some row ∧
    row.minValue = some "9" ∧ row.maxValue = some "10" ∧ ∀ parse, ¬ VarcharLe parse "9" "10" := by
  refine ⟨_, rfl, by decide +kernel, by decide +kernel, fun parse => ?_⟩
  rw [varcharLe_iff]
  decide

end RockLake
