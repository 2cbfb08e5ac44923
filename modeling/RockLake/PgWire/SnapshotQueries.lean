import Mathlib.Order.Bounds.Defs
import RockLake.Catalog.Immutability
import RockLake.Catalog.Upkeep
import RockLake.Sql.Statements

/-! Queries for the first and for the last snapshot, from their trees to their answers. The direction of
the order is not looked at: both are queries for snapshot 1. -/
namespace RockLake.SnapshotQueries

open Unicode Sql Catalog

/-- `SELECT … FROM ducklake_snapshot ORDER BY snapshot_id LIMIT 1`, in either direction. -/
def snapshotQuery (projection : List (SelectItem Expr)) (descending : Bool) : Query Expr :=
  .mk .nil (.select (.mk false projection
      (.cons (.table [ident "ducklake_snapshot"] none none) .nil .nil) none (.expressions [] []) none []))
    (some [⟨.identifier (ident "snapshot_id"), descending⟩]) (some (.number ['1'] false)) none none

theorem classify_snapshotQuery (unicode : CharData) (projection : List (SelectItem Expr))
    (descending : Bool) :
    classifyQuery unicode (snapshotQuery projection descending) = .passive .selectFirstSnapshot := by
  have lowered : unicode.lowercase "ducklake_snapshot".toList = "ducklake_snapshot".toList :=
    unicode.lowercase_of_ascii (by simp)
  have read : classifyQuery unicode (snapshotQuery projection descending) =
      classifyTableSelectWithQuery unicode
        (Classifier.stripPublicSchema (unicode.lowercase "ducklake_snapshot".toList)) _ _ := rfl
  have plain : Classifier.stripPublicSchema "ducklake_snapshot".toList = "ducklake_snapshot".toList := by
    decide
  rw [read, lowered, plain, classifyTableSelectWithQuery]
  simp only [lowered, if_true]
  rfl

def selectFirstSnapshot (catalog : Catalog) : Except CatalogError (Option SnapshotRow) :=
  (catalog.store.readAt catalog.db 1).map CatalogReader.getSnapshot

def Answers (unicode : CharData) (catalog : Catalog) (query : Query Expr) (snapshot : Nat) : Prop :=
  classifyQuery unicode query = .passive .selectFirstSnapshot ∧
    ∃ row, row.snapshotId = snapshot ∧ selectFirstSnapshot catalog = .ok (some row)

def snapshotIds (catalog : Catalog) : Set Nat :=
  { snapshot | ∃ row, catalog.db.get .snapshot (keySnapshot snapshot) = some row }

theorem answers_iff (tended : catalog.Tended) (stored : snapshot ∈ snapshotIds catalog) :
    Answers unicode catalog (snapshotQuery projection descending) snapshot ↔
      snapshot = 1 ∧ catalog.store.retainFromCache ≤ 1 := by
  have own : ∀ {row}, catalog.db.get .snapshot (keySnapshot 1) = some row → row.snapshotId = 1 :=
    fun found => (List.cons.inj (tended.snapshots _ _ found)).1.symm
  rw [Answers, and_iff_right (classify_snapshotQuery ..), selectFirstSnapshot, CatalogStore.readAt]
  by_cases floor : catalog.store.retainFromCache ≤ 1
  · rw [if_neg (by simp; omega)]
    simp only [Except.map, CatalogReader.getSnapshot, Except.ok.injEq, floor, and_true]
    constructor
    · rintro ⟨row, rfl, found⟩
      exact own found
    · rintro rfl
      obtain ⟨row, found⟩ := stored
      exact ⟨row, own found, found⟩
  · rw [if_pos (by simp; omega)]
    simp [Except.map, floor]

/-- The last snapshot is found as long as it is the only one ever, the first one as long as it is
snapshot 1, and neither once the floor is above snapshot 1. -/
theorem snapshotQuery_iff (unicode : CharData) (projection : List (SelectItem Expr))
    (maintained : catalog.Maintained env) (newest : IsGreatest (snapshotIds catalog) last)
    (oldest : IsLeast (snapshotIds catalog) first) :
    (Answers unicode catalog (snapshotQuery projection true) last ↔
      last = 1 ∧ catalog.store.retainFromCache ≤ 1) ∧
    (Answers unicode catalog (snapshotQuery projection false) first ↔
      first = 1 ∧ catalog.store.retainFromCache ≤ 1) :=
  ⟨answers_iff maintained.tended newest.1, answers_iff maintained.tended oldest.1⟩

theorem snapshotQuery_one_commit : ∃ catalog : Catalog, catalog.Maintained Env.trivial ∧
    ∀ unicode descending, Answers unicode catalog (snapshotQuery [.wildcard] descending) 1 := by
  obtain ⟨catalog, row, maintained, rows, floor⟩ : ∃ (catalog : Catalog) (row : SnapshotRow),
      catalog.Maintained Env.trivial ∧ (catalog.db .snapshot).entries = [(keySnapshot 1, row)] ∧
        catalog.store.retainFromCache ≤ 1 :=
    ⟨_, _, .session (.opened "a" rfl) createMain rfl, rfl, by decide⟩
  have ids : ∀ {snapshot}, snapshot ∈ snapshotIds catalog ↔ snapshot = 1 := by
    simp [snapshotIds, Db.get, OrderedMap.get, rows, keySnapshot, eq_comm]
  refine ⟨catalog, maintained, fun unicode descending => ?_⟩
  have both := snapshotQuery_iff unicode [.wildcard] maintained
    ⟨ids.mpr rfl, fun _ member => (ids.mp member).le⟩ ⟨ids.mpr rfl, fun _ member => (ids.mp member).ge⟩
  cases descending with
  | true => exact both.1.mpr ⟨rfl, floor⟩
  | false => exact both.2.mpr ⟨rfl, floor⟩

/-- After two commits the query for the last snapshot is answered with the first one. Once snapshot 1 is
below the floor, the query for the first one fails. -/
theorem snapshotQuery_fails : ∃ catalog collected : Catalog,
    catalog.Maintained Env.trivial ∧ 2 ∈ snapshotIds catalog ∧
    (∀ unicode, Answers unicode catalog (snapshotQuery [.wildcard] true) 1) ∧
    collected.Maintained Env.trivial ∧ 2 ∈ snapshotIds collected ∧
    selectFirstSnapshot collected = .error (.snapshotOutOfRetention 1 2) :=
  ⟨_, _, .session (.session (.opened "a" rfl) createMain rfl) dropMain rfl, ⟨_, rfl⟩,
    fun _ => ⟨classify_snapshotQuery .., _, rfl, rfl⟩,
    ⟨"a", _, _, [.writer (.session createMain), .writer (.session dropMain), .upkeep (.gcApply 2 0),
      .updateRetainFromCache], rfl, .next (.writer (.session rfl)) (.next (.writer (.session rfl))
        (.next (.upkeep rfl) (.next .updateRetainFromCache .done)))⟩, ⟨_, rfl⟩, rfl⟩

end RockLake.SnapshotQueries
