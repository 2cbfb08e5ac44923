import RockLake.Catalog.Pending
import RockLake.Catalog.References

/-! The versions of a column. A rename ends the live version and begins another one; a drop ends the
version it names. Both look at stored rows only, so a session that drops a column and renames it, in
whichever order, leaves the renamed version behind. -/
namespace RockLake

open List Db

namespace CatalogReader

theorem dedupColumns_sorted (sorted : rows.Pairwise fun a b => a.columnId ≤ b.columnId) :
    (dedupColumns rows).Pairwise fun a b => a.columnId < b.columnId := by
  induction rows with
  | nil => exact .nil
  | cons row rest ih =>
    obtain ⟨least, sorted⟩ := pairwise_cons.mp sorted
    have strict := ih sorted
    refine pairwise_cons.mpr ⟨?_, strict.sublist (dropWhile_sublist _)⟩
    have among : ∀ next ∈ dedupColumns rest, row.columnId ≤ next.columnId :=
      fun next member => least next (mem_of_mem_dedupColumns member)
    generalize dedupColumns rest = later at strict among
    cases later with
    | nil => simp
    | cons next later =>
      have above := (pairwise_cons.mp strict).1
      have first := among next mem_cons_self
      by_cases same : next.columnId = row.columnId
      · rw [dropWhile_cons_of_pos (by simpa using same)]
        intro x member
        exact same ▸ above x ((dropWhile_sublist _).subset member)
      · rw [dropWhile_cons_of_neg (by simpa using same)]
        have before : row.columnId < next.columnId := by omega
        exact forall_mem_cons.mpr ⟨before, fun x member => before.trans (above x member)⟩

theorem mem_dedupColumns_ids :
    columnId ∈ (dedupColumns rows).map (·.columnId) ↔ columnId ∈ rows.map (·.columnId) := by
  induction rows with
  | nil => rfl
  | cons row rest ih =>
    simp only [dedupColumns, map_cons, mem_cons]
    rw [← ih]
    refine or_congr_right' fun other => ?_
    constructor
    · exact fun member => (dropWhile_sublist _).map _ |>.subset member
    intro member
    obtain ⟨x, found, rfl⟩ := mem_map.mp member
    rw [← takeWhile_append_dropWhile (p := fun next => next.columnId = row.columnId)
      (l := dedupColumns rest)] at found
    rcases mem_append.mp found with taken | left
    · exact absurd (by simpa using mem_takeWhile_imp taken) other
    · exact mem_map_of_mem left

theorem currentColumns_distinct (rows : List ColumnRow) :
    ((currentColumns rows).map (·.columnId)).Nodup := by
  let before := fun a b : ColumnRow =>
    a.columnId < b.columnId ∨ a.columnId = b.columnId ∧ b.beginSnapshot ≤ a.beginSnapshot
  have : Std.Total before := ⟨fun a b => by simp only [before]; omega⟩
  have : IsTrans ColumnRow before := ⟨fun a b c => by simp only [before]; omega⟩
  have sorted : (rows.insertionSort before).Pairwise before := pairwise_insertionSort _ _
  refine pairwise_map.mpr ((dedupColumns_sorted (sorted.imp ?_)).imp Nat.ne_of_lt)
  intro a b
  simp only [before]
  omega

theorem describeTable_columns {r : CatalogReader}
    (complete : ∀ parents, (hashOrder parents).Perm parents)
    (described : r.describeTable hashOrder tableId = some (table, columns)) :
    (columns.map (·.columnId)).Nodup ∧ ∀ columnId, columnId ∈ columns.map (·.columnId) ↔
      ∃ row ∈ r.listVisible .column [tableId], row.columnId = columnId := by
  obtain ⟨table', _, same⟩ := Option.map_eq_some_iff.mp described
  cases same
  have listed := (sortColumnsTree_perm complete
    (currentColumns (r.listVisible .column [tableId]))).map (·.columnId)
  refine ⟨listed.nodup_iff.mpr (currentColumns_distinct _), fun columnId => ?_⟩
  rw [listed.mem_iff, currentColumns, mem_dedupColumns_ids, mem_map]
  simp

end CatalogReader

/-- A column has one live version, and its identifier is in use. -/
structure Db.OneVersion (db : Db) (c : CounterCache) : Prop where
  single : ∀ k row k' row', db.Live .column k row → db.Live .column k' row' →
    row.tableId = row'.tableId → row.columnId = row'.columnId → k = k'
  known : ∀ k row, db.get .column k = some row → row.columnId < c.nextCatalogId

/-- Drops name the stored live version, and the second half of a rename gets the stored live version
that the session has ended. -/
def WriterCall.Current (db : Db) (w : CatalogWriter) : WriterCall → Prop
  | .staging (.dropColumn tableId columnId begun) =>
    ∀ row, db.get .column (keyColumn tableId columnId begun) = some row → row.endSnapshot = none
  | .staging (.insertRenamedColumn row _) => ∃ k ended, db.Live .column k row ∧
      (db.putAll w.staged).get .column k = some ended ∧ ended.endSnapshot ≠ none
  | _ => True

/-- A column row that an up-to-date call creates replaces the pending live one of its column, if there
is any. -/
theorem InSession.column_replaced {call : StagingCall} (consistent : base.Consistent c)
    (session : InSession base False c db w) (stored : base.OneVersion c)
    (one : (base.putAll w.staged).OneVersion w.counters)
    (current : WriterCall.Current db w (.staging call))
    (created : CatalogWriter.Creates env db w call ⟨.column, k, row⟩)
    (pending : (base.putAll w.staged).Live .column k' row') (table : row.tableId = row'.tableId)
    (id : row.columnId = row'.columnId) : k = k' := by
  obtain ⟨pending, live⟩ := pending
  have now : w.snapshotId = c.nextSnapshotId := session.snapshot
  cases created with
  | column tableId spec =>
    have bound := one.known k' row' pending
    rw [← id] at bound
    exact absurd bound (lt_irrefl _)
  | renamed old newName =>
    obtain ⟨k₀, ended, ⟨present, unended⟩, retired, dead⟩ := current
    rw [get_of_family (session.core .column rfl)] at present
    rw [get_of_family (putAll_congr (session.core .column rfl) w.staged)] at retired
    rcases session.pending_cases consistent (f := .column) rfl rfl k' with
      same | ⟨_, _, same⟩ | ⟨row'', _, same, begun, _⟩
    · have stored' : base.Live .column k' row' := ⟨same ▸ pending, live⟩
      cases stored.single k' row' k₀ old stored' ⟨present, unended⟩ table.symm id.symm
      cases retired.symm.trans pending
      exact absurd live dead
    · cases pending.symm.trans same
      contradiction
    · cases pending.symm.trans same
      have keyed := session.derived.keyed consistent.sound session.le pending
      rw [keyed, now, ← begun, ← table, ← id]
      rfl

theorem oneVersion_invariant (env : Env) :
    SessionInvariant env (fun db w call => call.Current db w) Db.OneVersion where
  congr same one := by
    have columns := same .column rfl
    refine ⟨fun k row k' row' live live' => one.single k row k' row' ?_ ?_, fun k row found => ?_⟩
    · exact ⟨columns k ▸ live.1, live.2⟩
    · exact ⟨columns k' ▸ live'.1, live'.2⟩
    · exact one.known k row (columns k ▸ found)
  grow le one := ⟨one.single, fun k row found => (one.known k row found).trans_le le.catalog⟩
  staging {base db c w w' call reply} consistent session stored current called one := by
    have rows : ∀ {k row}, (base.putAll w'.staged).get .column k = some row → _ :=
      session.staged_row consistent called (f := .column) rfl
    have lives : ∀ k row, (base.putAll w'.staged).Live .column k row →
        (base.putAll w.staged).Live .column k row ∨
        CatalogWriter.Creates env db w call ⟨.column, k, row⟩ := by
      rintro k row ⟨found, live⟩
      rcases rows found with pending | ⟨old, _, rfl⟩ | created
      · exact .inl ⟨pending, live⟩
      · contradiction
      · exact .inr created
    refine ⟨fun k row k' row' first second table id => ?_, fun k row found => ?_⟩
    · rcases lives k row first with pending | created
      · rcases lives k' row' second with pending' | created'
        · exact one.single k row k' row' pending pending' table id
        · exact (session.column_replaced consistent stored one current created' pending table.symm
            id.symm).symm
      · rcases lives k' row' second with pending' | created'
        · exact session.column_replaced consistent stored one current created pending' table id
        · cases created with
          | column | renamed =>
            cases created'
            rfl
    · have le := (CatalogWriter.staging_frame called).catalog
      rcases rows found with pending | ⟨old, present, rfl⟩ | created
      · exact (one.known k row pending).trans_le le
      · exact (stored.known k old present).trans_le (session.catalog.trans le)
      · cases created with
        | column =>
          cases called
          exact Nat.lt_succ_self _
        | renamed old newName =>
          obtain ⟨k₀, _, ⟨present, _⟩, _⟩ := current
          rw [get_of_family (session.core .column rfl)] at present
          exact (stored.known k₀ old present).trans_le (session.catalog.trans le)

section Session

variable {env : Env} {base db : Db} {w : CatalogWriter} {row : ColumnRow}

/-- A column row that a session adds is one of a new column, or the new version of a renamed one. -/
theorem InSession.column_added (session : InSession base False c db w)
    (consistent : base.Consistent c) (fresh : w.staged = []) (env : Env) (calls : List WriterCall)
    (absent : base.get .column k = none)
    (pending : (base.putAll (RockLake.runCalls env (db, w) calls).2.staged).get .column k = some row) :
    c.nextCatalogId ≤ row.columnId ∨ ∃ old newName,
      .staging (.insertRenamedColumn old newName) ∈ calls ∧ old.tableId = row.tableId ∧
        old.columnId = row.columnId := by
  refine session.calls_keep env consistent
    (fun w => ∀ row, (base.putAll w.staged).get .column k = some row → c.nextCatalogId ≤
      row.columnId ∨ ∃ old newName, .staging (.insertRenamedColumn old newName) ∈ calls ∧
      old.tableId = row.tableId ∧ old.columnId = row.columnId)
    (fun _ _ call => call ∈ calls) ?_ calls ?_ (callsMeet_iff.mpr fun _ member => member) row pending
  · intro db w call reply w' session made called added row found
    rcases session.staged_row consistent called (f := .column) rfl found with
      pending | ⟨old, present, _⟩ | created
    · exact added row pending
    · rw [absent] at present
      contradiction
    · cases created with
      | column tableId spec => exact .inl session.catalog
      | renamed old newName => exact .inr ⟨old, newName, made, rfl, rfl⟩
  · intro row found
    rw [fresh] at found
    rw [putAll_nil, absent] at found
    contradiction

/-- A stored row that a call of the session names is ended at the end of the session. -/
theorem InSession.named_ended {call : StagingCall} (session : InSession base False c db w)
    (consistent : base.Consistent c) (env : Env) (versioned : f.versioned = true)
    (allocated : f.callerKeyed = false) (named : call.retires env = some (f, k))
    (stored : base.get f k = some old) (made : .staging call ∈ calls) :
    (base.putAll (RockLake.runCalls env (db, w) calls).2.staged).get f k =
      some (f.setEnd (some c.nextSnapshotId) old) := by
  have stages : ∀ {db w}, InSession base False c db w → ∃ reply w' row,
      w.staging env db call = .ok (reply, w') ∧ (⟨f, k, row⟩ : Write) ∈ w'.staged := by
    intro db w session
    have current := (get_of_family (session.core f (Family.core_of_versioned versioned)) k).trans
      stored
    obtain ⟨reply, w', new, called, appended, member⟩ :=
      CatalogWriter.staging_named (w := w) named current
    exact ⟨reply, w', _, called, appended ▸ mem_append_right _ member⟩
  obtain ⟨row, staged⟩ := session.calls_stage env consistent stages made
  have after := session.runCalls env consistent calls False.elim
  rcases base.get_putAll (f := f) (RockLake.runCalls env (db, w) calls).2.staged k with
    ⟨row', member, found⟩ | ⟨absent, _⟩
  · rw [found, (after.admissible _ member).retired consistent.sound versioned allocated stored]
  · exact absurd staged (absent row)

/-- A column that the session drops is live at its end exactly if the session renames it too. -/
theorem Catalog.Valid.column_survives_iff {catalog : Catalog} (valid : catalog.Valid)
    (one : catalog.db.OneVersion catalog.store.counters)
    (ran : runCalls env (catalog.db, catalog.store.beginWrite) calls = (db, w))
    (stored : catalog.db.Live .column (keyColumn tableId columnId begun) old)
    (dropped : .staging (.dropColumn tableId columnId begun) ∈ calls) :
    (∃ k row, (catalog.db.putAll w.staged).Live .column k row ∧ row.tableId = tableId ∧
        row.columnId = columnId) ↔
      ∃ row newName, .staging (.insertRenamedColumn row newName) ∈ calls ∧ row.tableId = tableId ∧
        row.columnId = columnId := by
  have start := InSession.begin False catalog.store valid.consistent
  have session := valid.inSession False calls False.elim ran
  have keyed := (valid.consistent.sound .column _ old stored.1).keyed
  simp only [Family.Keyed, keyColumn, cons.injEq, and_true] at keyed
  obtain ⟨sameTable, sameColumn, _⟩ := keyed
  constructor
  · rintro ⟨k, row, ⟨pending, live⟩, rfl, rfl⟩
    rcases session.pending_cases valid.consistent (f := .column) rfl rfl k with
      same | ⟨_, _, same⟩ | ⟨row', absent, same, _, _⟩
    · have found : catalog.db.Live .column k row := ⟨same ▸ pending, live⟩
      cases one.single k row _ old found stored sameTable sameColumn
      have ended := start.named_ended valid.consistent env (f := .column) rfl rfl rfl stored.1 dropped
      rw [ran, pending] at ended
      cases ended
      contradiction
    · cases pending.symm.trans same
      contradiction
    · rcases start.column_added valid.consistent rfl env calls absent (by rw [ran]; exact pending)
        with new | renamed
      · have bound := one.known _ old stored.1
        omega
      · exact renamed
  · rintro ⟨row, newName, made, rfl, rfl⟩
    have stages : ∀ {db w}, InSession catalog.db False catalog.store.counters db w →
        ∃ reply w' row', w.staging env db (.insertRenamedColumn row newName) = .ok (reply, w') ∧
          (⟨.column, keyColumn row.tableId row.columnId catalog.store.counters.nextSnapshotId, row'⟩ :
            Write) ∈ w'.staged := by
      intro db w session
      have now : catalog.store.counters.nextSnapshotId = w.snapshotId := session.snapshot.symm
      rw [now]
      exact ⟨_, _, _, rfl, mem_append_right _ (mem_singleton_self _)⟩
    obtain ⟨row', staged⟩ := start.calls_stage env valid.consistent stages made
    rw [ran] at staged
    have absent : catalog.db.get .column
        (keyColumn row.tableId row.columnId catalog.store.counters.nextSnapshotId) = none := by
      rw [Option.eq_none_iff_forall_ne_some]
      intro early found
      have fits := valid.consistent.sound .column _ early found
      have keyed := fits.keyed
      have past := fits.begun rfl
      simp only [Family.Keyed, keyColumn, cons.injEq, and_true] at keyed
      exact absurd past (keyed.2.2 ▸ lt_irrefl _)
    rcases session.pending_cases valid.consistent (f := .column) rfl rfl
        (keyColumn row.tableId row.columnId catalog.store.counters.nextSnapshotId) with
      same | ⟨early, found, _⟩ | ⟨added, _, pending, _, live⟩
    · rcases catalog.db.get_putAll (f := .column) w.staged _ with ⟨_, _, found⟩ | ⟨missing, _⟩
      · rw [same, absent] at found
        contradiction
      · exact absurd staged (missing row')
    · rw [absent] at found
      contradiction
    · have keyed := session.derived.keyed valid.consistent.sound session.le pending
      simp only [Family.Keyed, keyColumn, cons.injEq, and_true] at keyed
      exact ⟨_, added, ⟨pending, live⟩, keyed.1.symm, keyed.2.1.symm⟩

end Session

namespace Catalog

/-- A step of a history in which drops and renames are up to date. -/
def ColumnStep (env : Env) (before : Catalog) (event : CatalogEvent) (after : Catalog) : Prop :=
  Step env before event after ∧ SessionInvariant.Meets env (fun db w call => call.Current db w) before event

theorem Valid.describes_iff {catalog : Catalog} (valid : catalog.Valid)
    (complete : ∀ parents, (hashOrder parents).Perm parents)
    (latest : catalog.store.counters.nextSnapshotId = snapshot + 1)
    (read : catalog.store.readAt catalog.db snapshot = .ok reader)
    (described : reader.describeTable hashOrder tableId = some (table, columns)) :
    columnId ∈ columns.map (·.columnId) ↔ ∃ k row, catalog.db.Live .column k row ∧
      row.tableId = tableId ∧ row.columnId = columnId := by
  have bound : reader = ⟨catalog.db, snapshot⟩ := by
    simpa [CatalogStore.readAt, valid.cached, eq_comm] using read
  subst bound
  have shown : ∀ k row, catalog.db.get .column k = some row →
      ([tableId] <+: k ↔ row.tableId = tableId) ∧
      (isVisible (Family.column.beginOf row) (Family.column.endOf row) snapshot = true ↔
        Family.column.endOf row = none) := by
    intro k row stored
    have fits := valid.consistent.sound .column k row stored
    refine ⟨?_, by rw [fits.visible_latest latest.le, Option.isNone_iff_eq_none]⟩
    rw [show k = keyColumn row.tableId row.columnId row.beginSnapshot from fits.keyed]
    simp [keyColumn, eq_comm]
  rw [(CatalogReader.describeTable_columns complete described).2]
  constructor
  · rintro ⟨row, listed, rfl⟩
    obtain ⟨k, stored, starts, visible⟩ := (CatalogReader.mem_listVisible _).mp listed
    obtain ⟨owner, live⟩ := shown k row stored
    exact ⟨k, row, ⟨stored, live.mp visible⟩, owner.mp starts, rfl⟩
  · rintro ⟨k, row, ⟨stored, unended⟩, owned, rfl⟩
    obtain ⟨owner, live⟩ := shown k row stored
    exact ⟨row, (CatalogReader.mem_listVisible _).mpr ⟨k, stored, owner.mpr owned, live.mpr unended⟩,
      rfl⟩

/-- In a history of up-to-date drops and renames every snapshot describes one version of each column.
A column that a session drops is absent at the session's snapshot if and only if the session does not
rename it as well. -/
theorem dropped_column_absent_iff {env : Env} {nonce store db}
    {events : List CatalogEvent} {catalog after : Catalog} {session : Session} {result : CommitResult}
    {hashOrder : List Nat → List Nat}
    (opened : Catalog.Opens nonce store db)
    (ran : Run (ColumnStep env) ⟨db, store⟩ events catalog)
    (current : CallsMeet env (fun db w call => call.Current db w)
      (catalog.db, catalog.store.beginWrite) session.calls)
    (ended : session.commit env catalog = .ok (result, after))
    (complete : ∀ parents, (hashOrder parents).Perm parents) :
    (∀ snapshot reader tableId table columns, after.store.readAt after.db snapshot = .ok reader →
      reader.describeTable hashOrder tableId = some (table, columns) →
      (columns.map (·.columnId)).Nodup) ∧
    ∀ tableId columnId begun old reader table columns,
      catalog.db.get .column (keyColumn tableId columnId begun) = some old →
      .staging (.dropColumn tableId columnId begun) ∈ session.calls →
      after.store.readAt after.db result.snapshotId = .ok reader →
      reader.describeTable hashOrder tableId = some (table, columns) →
      (columnId ∉ columns.map (·.columnId) ↔
        ∀ row newName, .staging (.insertRenamedColumn row newName) ∈ session.calls →
          ¬ (row.tableId = tableId ∧ row.columnId = columnId)) := by
  constructor
  · intro snapshot reader tableId table columns _ described
    exact (CatalogReader.describeTable_columns complete described).1
  · intro tableId columnId begun old reader table columns stored dropped read described
    have reachable : catalog.Reachable env := ⟨nonce, store, db, events, opened,
      ran.mono fun _ _ _ stepped => stepped.1⟩
    have valid := reachable.valid
    have one : catalog.db.OneVersion catalog.store.counters := by
      refine (oneVersion_invariant env).run opened (fun empty => ⟨?_, ?_⟩) ran
      · rintro k row k' row' ⟨found, _⟩
        rw [empty .column rfl] at found
        contradiction
      · intro k row found
        rw [empty .column rfl] at found
        contradiction
    obtain ⟨calls, w, ran', rfl, written, handle⟩ := session.commit_ok ended
    have valid' := valid.ofCommit ended
    have inSession := valid.inSession False session.calls False.elim ran'
    have live : old.endSnapshot = none := by
      obtain ⟨db', w', within, named⟩ := (InSession.begin False catalog.store
        valid.consistent).meets_of_mem valid.consistent current dropped
      exact named old ((get_of_family (within.core .column rfl) _).trans stored)
    have survives := valid.column_survives_iff one ran' ⟨stored, live⟩ dropped
    rw [valid'.describes_iff complete (commit_latest ended) read described]
    have pending : ∀ k row, after.db.Live .column k row ↔
        (catalog.db.putAll w.staged).Live .column k row := by
      intro k row
      rw [Db.Live, Db.Live, written, inSession.get_commit session.request rfl]
    simp only [pending, survives]
    push Not
    rfl

def dropAndRename : Session :=
  ⟨[.staging (.dropColumn 2 3 1), .staging (.renameColumn 2 3),
    .staging (.insertRenamedColumn
      { columnId := 3, tableId := 2, columnName := "id", dataType := "int64", columnIndex := 0,
        beginSnapshot := 1, endSnapshot := none, defaultValue := none, isNullable := false,
        initialDefault := none, defaultValueType := none, defaultValueDialect := none,
        parentColumn := none } "key")], {}⟩

/-- The column is there at the session's snapshot. -/
theorem dropped_column_renamed : ∃ (nonce : String) (store : CatalogStore) (db : Db)
    (catalog after : Catalog) (result : CommitResult) (reader : CatalogReader) (table : TableRow)
    (columns : List ColumnRow), Catalog.Opens nonce store db ∧
    Run (ColumnStep Env.trivial) ⟨db, store⟩ [.session createWideOrders] catalog ∧
    CallsMeet Env.trivial (fun db w call => call.Current db w)
      (catalog.db, catalog.store.beginWrite) dropAndRename.calls ∧
    dropAndRename.commit Env.trivial catalog = .ok (result, after) ∧
    after.store.readAt after.db result.snapshotId = .ok reader ∧
    reader.describeTable id 2 = some (table, columns) ∧ 3 ∈ columns.map (·.columnId) := by
  refine ⟨"a", _, _, _, _, _, _, _, _, rfl, .single ⟨.session rfl, ?_⟩, ?_, rfl, rfl, rfl,
    mem_singleton_self _⟩
  · exact ⟨trivial, trivial, trivial, trivial⟩
  · refine ⟨?_, trivial, ⟨keyColumn 2 3 1, _, ⟨rfl, rfl⟩, rfl, by simp⟩, trivial⟩
    intro row stored
    cases stored
    rfl

theorem dropped_column_absent : ∃ (catalog after : Catalog) (result : CommitResult)
    (reader : CatalogReader) (table : TableRow) (columns : List ColumnRow),
    catalog.Reachable Env.trivial ∧
    (catalog.shows .column (keyColumn 2 3 1)).isSome = true ∧
    Session.commit Env.trivial catalog ⟨[.staging (.dropColumn 2 3 1)], {}⟩ = .ok (result, after) ∧
    after.store.readAt after.db result.snapshotId = .ok reader ∧
    reader.describeTable id 2 = some (table, columns) ∧ 3 ∉ columns.map (·.columnId) := by
  obtain ⟨store, db, catalog, after, result, reader, table, columns, ⟨old, stored⟩, opened, ran,
      current, shown, ended, read, described⟩ :
      ∃ (store : CatalogStore) (db : Db) (catalog after : Catalog) (result : CommitResult)
        (reader : CatalogReader) (table : TableRow) (columns : List ColumnRow),
        (∃ old, catalog.db.get .column (keyColumn 2 3 1) = some old) ∧
        Catalog.Opens "a" store db ∧
        Run (ColumnStep Env.trivial) ⟨db, store⟩ [.session createWideOrders] catalog ∧
        CallsMeet Env.trivial (fun db w call => call.Current db w)
          (catalog.db, catalog.store.beginWrite) [.staging (.dropColumn 2 3 1)] ∧
        (catalog.shows .column (keyColumn 2 3 1)).isSome = true ∧
        Session.commit Env.trivial catalog ⟨[.staging (.dropColumn 2 3 1)], {}⟩ = .ok (result, after) ∧
        after.store.readAt after.db result.snapshotId = .ok reader ∧
        reader.describeTable id 2 = some (table, columns) := by
    refine ⟨_, _, _, _, _, _, _, _, ⟨_, rfl⟩, rfl, .single ⟨.session rfl, ?_⟩, ⟨?_, trivial⟩, rfl, rfl,
      rfl, rfl⟩
    · exact ⟨trivial, trivial, trivial, trivial⟩
    · intro row stored
      cases stored
      rfl
  refine ⟨catalog, after, result, reader, table, columns, ⟨"a", store, db, _, opened, ran.mono fun _
    _ _ stepped => stepped.1⟩, shown, ended, read, described, ?_⟩
  have complete : ∀ parents : List Nat, (id parents).Perm parents := fun _ => .rfl
  refine ((dropped_column_absent_iff opened ran current ended complete).2 2 3 1 old reader table
    columns stored (mem_singleton_self _) read described).mpr ?_
  intro row newName member
  simp at member

end Catalog

end RockLake
