import RockLake.Catalog.Pending
import RockLake.Catalog.References

/-! Delete files and the cascade of a dropped table. A delete file names a data file and, as the writer
registers it, no table. So it is listed for every table, and the cascade has to find it by its data
file. The cascade reads stored rows only: it misses what the session has staged, and delete files of
data files that are retired already. -/
namespace RockLake

open CatalogWriter Family Db

/-- Delete files name no table, and a data-file identifier occurs in one row only. -/
structure Db.Filed (db : Db) (_ : CounterCache) : Prop where
  unowned : ∀ k row, db.get .deleteFile k = some row → row.tableId = none
  single : ∀ k row k' row', db.get .dataFile k = some row → db.get .dataFile k' = some row' →
    row.dataFileId = row'.dataFileId → k = k'

theorem filed_invariant (env : Env) : SessionInvariant env (fun _ _ _ => True) Db.Filed where
  congr same filed :=
    ⟨fun k row found => filed.unowned k row (same .deleteFile rfl k ▸ found),
      fun k row k' row' found found' => filed.single k row k' row' (same .dataFile rfl k ▸ found)
        (same .dataFile rfl k' ▸ found')⟩
  grow _ filed := ⟨filed.unowned, filed.single⟩
  staging {base db c w w' call reply} consistent session stored _ called filed := by
    -- a file row is one that was pending, possibly ended now, or the one just registered
    have files : ∀ k row, (base.putAll w'.staged).get .dataFile k = some row →
        (∃ old, (base.putAll w.staged).get .dataFile k = some old ∧
          old.dataFileId = row.dataFileId) ∨
        ∃ tableId spec, call = .registerDataFile tableId spec ∧
          k = keyDataFile tableId w.counters.nextFileId ∧ row.dataFileId = w.counters.nextFileId := by
      intro k row found
      rcases session.staged_row consistent called (f := .dataFile) rfl found with
        pending | ⟨old, present, rfl⟩ | created
      · exact .inl ⟨row, pending, rfl⟩
      · rcases session.pending_stored consistent rfl rfl present with pending | pending
        · exact .inl ⟨_, pending, rfl⟩
        · exact .inl ⟨_, pending, rfl⟩
      · cases created with
        | dataFile tableId spec => exact .inr ⟨tableId, spec, rfl, rfl, rfl⟩
    have used : ∀ k old, (base.putAll w.staged).get .dataFile k = some old →
        old.dataFileId < w.counters.nextFileId := fun k old found =>
      (session.derived.keyed consistent.sound session.le found).2
    refine ⟨fun k row found => ?_, fun k row k' row' found found' same => ?_⟩
    · rcases session.staged_row consistent called (f := .deleteFile) rfl found with
        pending | ⟨old, present, rfl⟩ | created
      · exact filed.unowned k row pending
      · exact stored.unowned k old present
      · cases created with
        | deleteFile dataFileId spec _ named unowned => exact unowned
    · rcases files k row found with ⟨old, pending, id⟩ | ⟨tableId, spec, register, rfl, id⟩
      · rcases files k' row' found' with ⟨old', pending', id'⟩ | ⟨_, _, _, _, id'⟩
        · exact filed.single k old k' old' pending pending' (by rw [id, id', same])
        · have bound := used k old pending
          omega
      · rcases files k' row' found' with ⟨old', pending', id'⟩ | ⟨tableId', spec', register', rfl, id'⟩
        · have bound := used k' old' pending'
          omega
        · cases register.symm.trans register'
          rfl

theorem Catalog.Reachable.filed {catalog : Catalog} (reachable : catalog.Reachable env) :
    catalog.db.Filed catalog.store.counters := by
  refine (filed_invariant env).reachable (fun empty => ⟨fun k row found => ?_, ?_⟩) reachable
  · rw [empty .deleteFile rfl] at found
    contradiction
  · intro k row k' row' found
    rw [empty .dataFile rfl] at found
    contradiction

def Db.FileOf (db : Db) (tableId dataFileId : Nat) : Prop :=
  ∃ k file, db.get .dataFile k = some file ∧ file.dataFileId = dataFileId ∧ file.tableId = tableId

namespace Catalog

/-- The listing of a table's delete files returns all that the snapshot shows. It returns those of the
table's data files exactly if the snapshot shows no others. -/
theorem deleteFiles_owned_iff {env : Env} {catalog : Catalog} (reachable : catalog.Reachable env)
    (snapshot tableId : Nat) :
    ∃ reader, catalog.store.readAt catalog.db snapshot = .ok reader ∧
      ((∀ row, row ∈ reader.listDeleteFiles tableId ↔
          row ∈ reader.listVisible .deleteFile [] ∧ catalog.db.FileOf tableId row.dataFileId) ↔
        ∀ row ∈ reader.listVisible .deleteFile [], catalog.db.FileOf tableId row.dataFileId) := by
  refine ⟨⟨catalog.db, snapshot⟩, by simp [CatalogStore.readAt, reachable.valid.cached], ?_⟩
  have listed : ∀ row, row ∈ (CatalogReader.mk catalog.db snapshot).listDeleteFiles tableId ↔
      row ∈ (CatalogReader.mk catalog.db snapshot).listVisible .deleteFile [] := by
    intro row
    rw [CatalogReader.listDeleteFiles, List.mem_filter, and_iff_left_iff_imp]
    intro member
    obtain ⟨k, stored, _⟩ := (CatalogReader.mem_listVisible _).mp member
    rw [reachable.filed.unowned k row stored]
  simp [listed]

/-- Two tables, and a data file of the first one with a delete file. -/
def deleteFromOrders : Session :=
  ⟨[.staging (.createSchema "main" "4b1d"), .staging (.createTable 1 "orders" none "5c2e"),
    .staging (.createTable 1 "lines" none "6d3f"),
    .staging (.registerDataFile 2 (.parquet "f.parquet" 2 64)),
    .staging (.registerDeleteFile 1 ⟨"d.parquet", 1, 16, none, none⟩)], {}⟩

/-- The delete file is listed for the other table too. -/
theorem foreign_delete_file_listed : ∃ (catalog : Catalog) (reader : CatalogReader)
    (row : DeleteFileRow), catalog.Reachable Env.trivial ∧
    catalog.store.readAt catalog.db 1 = .ok reader ∧ row ∈ reader.listDeleteFiles 3 ∧
    catalog.db.FileOf 2 row.dataFileId ∧ ¬ catalog.db.FileOf 3 row.dataFileId := by
  refine ⟨_, _, _, .session (.opened "a" rfl) deleteFromOrders rfl, rfl,
    List.mem_singleton_self _, ⟨keyDataFile 2 1, _, rfl, rfl, rfl⟩, ?_⟩
  rintro ⟨k, file, stored, _, owner⟩
  cases List.mem_singleton.mp (OrderedMap.get_eq_some.mp stored)
  contradiction

theorem deleteFiles_owned_orders : ∃ (catalog : Catalog) (reader : CatalogReader),
    catalog.Reachable Env.trivial ∧ catalog.store.readAt catalog.db 1 = .ok reader ∧
    (reader.listDeleteFiles 2).length = 1 ∧
    ∀ row, row ∈ reader.listDeleteFiles 2 ↔
      row ∈ reader.listVisible .deleteFile [] ∧ catalog.db.FileOf 2 row.dataFileId := by
  have reachable : Catalog.Reachable Env.trivial _ :=
    .session (.opened "a" rfl) deleteFromOrders rfl
  obtain ⟨reader, opened, exactly⟩ := deleteFiles_owned_iff reachable 1 2
  cases (Except.ok.inj opened : (⟨_, 1⟩ : CatalogReader) = reader)
  refine ⟨_, _, reachable, rfl, rfl, exactly.mpr fun row member => ?_⟩
  cases List.mem_singleton.mp member
  exact ⟨keyDataFile 2 1, _, rfl, rfl, rfl⟩

end Catalog

/-- The row belongs to the table. A delete file belongs to it by its data file. -/
def Family.OwnedBy (tableId : Nat) (files : Nat → Prop) : (f : Family) → f.Row → Prop
  | .table, row => row.tableId = tableId
  | .column, row => row.tableId = tableId
  | .dataFile, row => row.tableId = tableId
  | .dataFileBySnapshot, row => row.tableId = tableId
  | .deleteFile, row => files row.dataFileId
  | .inlinedInsert, row => row.tableId = tableId
  | .tag, row => row.objectId = tableId
  | .columnTag, row => row.tableId = tableId
  | .partitionInfo, row => row.tableId = tableId
  | .sortInfo, row => row.tableId = tableId
  | _, _ => False

namespace Family

variable {f : Family} {tableId : Nat} {k : Key} {row old : f.Row}

theorem OwnedBy.mono (owned : f.OwnedBy tableId files row) (wider : ∀ id, files id → files' id) :
    f.OwnedBy tableId files' row := by
  cases f <;> first | exact wider _ owned | exact owned

theorem OwnedBy.retirable (owned : f.OwnedBy tableId files row) : f.retirable = true := by
  cases f <;> first | rfl | exact owned.elim

theorem ownedBy_congr (keyed : f.Keyed c k row) (keyed' : f.Keyed d k old) :
    f.OwnedBy tableId files row ↔ f.OwnedBy tableId files old := by
  cases f <;> first
    | exact Iff.rfl
    | simp only [Keyed, keyTable, keyColumn, keyDataFile, keyDataFileBySnapshot, keyDeleteFile,
        keyPartitionInfo, keySortInfo, keyTag, keyColumnTag, keyInlinedInsert] at keyed keyed'
      simp only [OwnedBy]
      grind

end Family

def Db.LiveFileOf (db : Db) (tableId dataFileId : Nat) : Prop :=
  ∃ k file, db.Live .dataFile k file ∧ file.dataFileId = dataFileId ∧ file.tableId = tableId

namespace CatalogWriter

variable {db : Db} {w w' : CatalogWriter} {tableId : Nat} {f : Family} {k : Key}

theorem deleteFileBelongs_iff (unowned : row.tableId = none) :
    deleteFileBelongs tableId ((liveDataFiles db tableId).map (·.2.dataFileId)) row = true ↔
      db.LiveFileOf tableId row.dataFileId := by
  simp only [deleteFileBelongs, unowned, decide_eq_true_eq, List.mem_map, Prod.exists]
  simp only [liveDataFiles, List.mem_filter, Bool.and_eq_true, decide_eq_true_eq,
    Option.isNone_iff_eq_none]
  constructor
  · rintro ⟨k, file, ⟨scanned, owned, live⟩, same⟩
    exact ⟨k, file, ⟨(db.mem_scanPrefix.mp scanned).1, live⟩, same, owned⟩
  · rintro ⟨k, file, ⟨stored, live⟩, same, owned⟩
    exact ⟨k, file, ⟨db.mem_scanPrefix.mpr ⟨stored, List.nil_prefix⟩, owned, live⟩, same⟩

/-- The cascade ends the live rows of the table. Delete files are found by live data files. -/
theorem mem_cascade_iff (consistent : db.Consistent c) (filed : db.Filed c) (other : f ≠ .table) :
    (⟨f, k, row⟩ : Write) ∈ w.dropTableCascade db tableId ↔
      ∃ old, db.Live f k old ∧ f.OwnedBy tableId (db.LiveFileOf tableId) old ∧
        row = f.setEnd (some w.snapshotId) old := by
  by_cases index : f = .dataFileBySnapshot
  · subst index
    rw [mem_cascade_index]
    constructor
    · rintro ⟨key, old, stored, owned, live, rfl, rfl⟩
      exact ⟨old, ⟨consistent.linked.mirrored.indexed key old stored, live⟩, owned, rfl⟩
    · rintro ⟨old, ⟨stored, live⟩, owned, rfl⟩
      exact ⟨old.fileKey, old, consistent.linked.mirrored.stored k old stored, owned, live,
        (consistent.sound _ k old stored).keyed.1, rfl⟩
  · rw [mem_cascade index]
    refine exists_congr fun old => ?_
    rw [Db.Live, and_assoc]
    refine and_congr_right fun stored => ?_
    have keyed := (consistent.sound f k old stored).keyed
    have same : f.cascades db tableId k old ↔ f.OwnedBy tableId (db.LiveFileOf tableId) old := by
      cases f with
      | deleteFile => exact deleteFileBelongs_iff (filed.unowned k old stored)
      | column | inlinedInsert =>
        simp only [Keyed] at keyed
        rw [keyed]
        simp [cascades, OwnedBy, keyColumn, keyInlinedInsert, eq_comm]
      | table => contradiction
      | dataFileBySnapshot => contradiction
      | _ => exact Iff.rfl
    rw [same]
    exact and_left_comm

end CatalogWriter

namespace Db

/-- The row belongs to the table, a delete file by any row of its data file. -/
def Owns (db : Db) (tableId : Nat) (f : Family) (row : f.Row) : Prop :=
  f.OwnedBy tableId (db.FileOf tableId) row

def Drops (db : Db) (schemaId tableId begun : Nat) (f : Family) (k : Key) : Prop :=
  (f = .table ∧ k = keyTable schemaId tableId begun) ∨
    f ≠ .table ∧ ∃ old, db.Live f k old ∧ f.OwnedBy tableId (db.LiveFileOf tableId) old

end Db

section Dropped

variable {env : Env} {db : Db} {w w' : CatalogWriter} {schemaId tableId begun : Nat} {f : Family}
  {k : Key}

theorem CatalogWriter.live_dropped (consistent : db.Consistent c) (filed : db.Filed c)
    (called : w.dropTable db schemaId tableId begun = .ok w') :
    (db.putAll w'.staged).Live f k row ↔
      (db.putAll w.staged).Live f k row ∧ ¬ db.Drops schemaId tableId begun f k := by
  obtain ⟨table, stored, rfl⟩ := dropTable_ok.mp called
  have appended : ∀ new, db.putAll (w.stage new).markSchemaChanged.staged =
      (db.putAll w.staged).putAll new := fun new => putAll_append _ _ _
  rw [appended]
  generalize same : (⟨.table, keyTable schemaId tableId begun,
    { table with endSnapshot := some w.snapshotId }⟩ : Write) :: w.dropTableCascade db tableId = new
  have staged : ∀ x, (⟨f, k, x⟩ : Write) ∈ new →
      f.endOf x ≠ none ∧ db.Drops schemaId tableId begun f k := by
    intro x member
    rcases List.mem_cons.mp (same ▸ member) with head | cascade
    · cases head
      exact ⟨by simp [endOf], .inl ⟨rfl, rfl⟩⟩
    · have other : f ≠ .table := by
        rintro rfl
        have family : Family.table ∈ cascadeFamilies.tail := cascade_families cascade
        contradiction
      obtain ⟨old, live, owned, rfl⟩ := (mem_cascade_iff consistent filed other).mp cascade
      exact ⟨by simp [endOf_setEnd owned.retirable], .inr ⟨other, old, live, owned⟩⟩
  have reached : db.Drops schemaId tableId begun f k → ∃ x, (⟨f, k, x⟩ : Write) ∈ new := by
    rintro (⟨rfl, rfl⟩ | ⟨other, old, live, owned⟩)
    · exact ⟨_, same ▸ List.mem_cons_self⟩
    · exact ⟨_, same ▸ List.mem_cons_of_mem _
        ((mem_cascade_iff consistent filed other).mpr ⟨old, live, owned, rfl⟩)⟩
  rw [Db.Live, Db.Live]
  rcases (db.putAll w.staged).get_putAll (f := f) new k with ⟨x, member, found⟩ | ⟨absent, kept⟩
  · obtain ⟨ended, dropped⟩ := staged x member
    rw [found]
    constructor
    · rintro ⟨same, live⟩
      cases same
      exact absurd live ended
    · exact fun kept => absurd dropped kept.2
  · rw [kept, and_iff_left fun dropped => (reached dropped).elim absent]

theorem Db.fileOf_iff : db.FileOf tableId dataFileId ↔
    ∃ k, (db.get .dataFile k).map (fun file => (file.dataFileId, file.tableId)) =
      some (dataFileId, tableId) := by
  simp [FileOf]

theorem InSession.owns_dropped (consistent : db.Consistent c) (session : InSession db False c db w)
    (called : w.staging env db (.dropTable schemaId tableId begun) = .ok (reply, w')) (owner : Nat) :
    (db.putAll w'.staged).Owns owner f row ↔ (db.putAll w.staged).Owns owner f row := by
  have same : (db.putAll w'.staged).FileOf owner = (db.putAll w.staged).FileOf owner := by
    funext dataFileId
    rw [fileOf_iff, fileOf_iff]
    refine propext (exists_congr fun k => Iff.of_eq (congrArg (· = _) ?_))
    rcases session.staged_get consistent called (f := .dataFile) rfl k with
      same | ⟨old, stored, ended⟩ | ⟨row, _, _, created⟩
    · rw [same]
    · rw [ended]
      rcases session.pending_stored consistent rfl rfl stored with pending | pending
      · rw [pending]
        rfl
      · rw [pending]
    · cases created
  rw [Db.Owns, same, Db.Owns]

theorem InSession.table_dropped (session : InSession db False c db w) (consistent : db.Consistent c)
    (found : db.get .table (keyTable schemaId tableId begun) = some stored)
    (pending : (db.putAll w.staged).get .table k = some row) :
    row.tableId = tableId ↔ k = keyTable schemaId tableId begun := by
  have keyed := (consistent.sound .table _ stored found).keyed.1
  simp only [keyTable, List.cons.injEq, and_true] at keyed
  constructor
  · intro owner
    rcases session.pending_stored consistent rfl rfl found with same | same
    · exact session.linked.single k row _ _ pending same (owner.trans keyed.2.1)
    · exact session.linked.single k row _ _ pending same (owner.trans keyed.2.1)
  · rintro rfl
    have own := (session.derived.keyed consistent.sound session.le pending).1
    simp only [keyTable, List.cons.injEq, and_true] at own
    exact own.2.1.symm

/-- Outside the table rows, a pending row is reached by the drop if a live row is stored under its key
and it belongs to the table, a delete file by a live data file. -/
theorem InSession.drops_iff (consistent : db.Consistent c) (session : InSession db False c db w)
    (other : f ≠ .table) (pending : (db.putAll w.staged).get f k = some row) :
    db.Drops schemaId tableId begun f k ↔
      (∃ old, db.Live f k old) ∧ f.OwnedBy tableId (db.LiveFileOf tableId) row := by
  have keyed := session.derived.keyed consistent.sound session.le pending
  constructor
  · rintro (⟨table, _⟩ | ⟨_, old, live, owned⟩)
    · contradiction
    · exact ⟨⟨old, live⟩, (ownedBy_congr keyed (consistent.sound f k old live.1).keyed).mpr owned⟩
  · rintro ⟨⟨old, live⟩, owned⟩
    exact .inr ⟨other, old, live,
      (ownedBy_congr keyed (consistent.sound f k old live.1).keyed).mp owned⟩

theorem InSession.drops_owned (consistent : db.Consistent c) (session : InSession db False c db w)
    (found : db.get .table (keyTable schemaId tableId begun) = some stored)
    (pending : (db.putAll w.staged).get f k = some row)
    (dropped : db.Drops schemaId tableId begun f k) : (db.putAll w.staged).Owns tableId f row := by
  by_cases table : f = .table
  · subst table
    rcases dropped with ⟨_, same⟩ | ⟨other, _⟩
    · exact (session.table_dropped consistent found pending).mpr same
    · contradiction
  · refine ((session.drops_iff consistent table pending).mp dropped).2.mono ?_
    rintro id ⟨k, file, ⟨stored, _⟩, named, owner⟩
    rcases session.pending_stored consistent rfl rfl stored with pending | pending
    · exact ⟨k, _, pending, named, owner⟩
    · exact ⟨k, _, pending, named, owner⟩

theorem InSession.hidden_iff (consistent : db.Consistent c) (filed : db.Filed c)
    (session : InSession db False c db w)
    (found : db.get .table (keyTable schemaId tableId begun) = some stored)
    (called : w.staging env db (.dropTable schemaId tableId begun) = .ok (reply, w')) :
    (∀ f k row, (db.putAll w'.staged).Live f k row → ¬ (db.putAll w'.staged).Owns tableId f row) ↔
      ∀ f k row, f ≠ .table → (db.putAll w.staged).Live f k row →
        (db.putAll w.staged).Owns tableId f row →
        (∃ old, db.Live f k old) ∧ f.OwnedBy tableId (db.LiveFileOf tableId) row := by
  have drop := (checked_ok.mp called).2
  constructor
  · intro hidden f k row other live owned
    have reached : db.Drops schemaId tableId begun f k := by
      by_contra missed
      exact hidden f k row ((live_dropped consistent filed drop).mpr ⟨live, missed⟩)
        ((session.owns_dropped consistent called tableId).mpr owned)
    exact (session.drops_iff consistent other live.1).mp reached
  · intro reached f k row live owned
    obtain ⟨pending, missed⟩ := (live_dropped consistent filed drop).mp live
    rw [session.owns_dropped consistent called] at owned
    by_cases table : f = .table
    · subst table
      exact missed (.inl ⟨rfl, (session.table_dropped consistent found pending.1).mp owned⟩)
    · exact missed ((session.drops_iff consistent table pending.1).mpr
        (reached f k row table pending owned))

end Dropped

def Family.recorded : Family → Bool
  | .snapshot | .snapshotChanges | .counter => true
  | _ => false

theorem Family.OwnedBy.unrecorded {f : Family} {row : f.Row} (owned : f.OwnedBy tableId files row) :
    f.recorded = false := by
  cases f <;> first | rfl | exact owned.elim

theorem Db.Filed.owner_eq {db : Db} (filed : db.Filed c) (owned : db.Owns owner f row)
    (owned' : db.Owns other f row) :
    owner = other := by
  cases f with
  | deleteFile =>
    obtain ⟨k, file, stored, named, rfl⟩ := owned
    obtain ⟨k', file', stored', named', rfl⟩ := owned'
    cases filed.single k file k' file' stored stored' (named.trans named'.symm)
    cases stored.symm.trans stored'
    rfl
  | _ => first | exact owned.elim | exact owned.symm.trans owned'

namespace Catalog

section Committed

variable {before : Catalog} {db : Db} {f : Family} {k : Key} {row : f.Row}

theorem Valid.shows_committed (valid : before.Valid)
    (session : InSession before.db careful before.store.counters db w) (request : SnapshotRequest)
    (unrecorded : f.recorded = false) :
    (committed before.store db w request).shows f k = some row ↔
      (db.putAll w.staged).Live f k row := by
  have valid' := valid.ofInSession session request
  have kept : (db.putAll (w.commitWrites request)) f = (db.putAll w.staged) f := by
    rw [commitWrites, putAll_append, putAll_family]
    intro x member same
    rcases w.commitTail_family member with family | family | family
    all_goals rw [← same, family] at unrecorded; contradiction
  rw [committed, valid'.shows_eq_some, get_of_family kept, Db.Live]

theorem owns_committed (session : InSession before.db careful before.store.counters db w)
    (request : SnapshotRequest) (owner : Nat) :
    (committed before.store db w request).db.Owns owner f row ↔
      (db.putAll w.staged).Owns owner f row := by
  have same : (committed before.store db w request).db.FileOf owner =
      (db.putAll w.staged).FileOf owner := by
    funext dataFileId
    simp [committed, Db.FileOf, session.rebase.get_commit request (f := .dataFile) rfl]
  rw [Db.Owns, same, Db.Owns]

end Committed

/-- The drop of a table is exact: the latest snapshot shows no row of the table, and it shows the rows
of other tables, and those of no table, as it would without the drop. -/
structure DropExact (tableId : Nat) (after without : Catalog) : Prop where
  hidden : ∀ f k row, after.shows f k = some row → ¬ after.db.Owns tableId f row
  kept : ∀ f k row, f.recorded = false → ¬ after.db.Owns tableId f row →
    (after.shows f k = some row ↔ without.shows f k = some row)
  apart : ∀ owner f row, after.db.Owns owner f row → after.db.Owns tableId f row → owner = tableId

/-- A session that ends with the drop of a stored table commits if it does without the drop. -/
theorem Valid.commit_dropTable (valid : catalog.Valid)
    (found : catalog.db.get .table (keyTable schemaId tableId begun) = some stored)
    (ended : Session.commit env catalog ⟨calls ++ [.staging (.dropTable schemaId tableId begun)], request⟩ = .ok (result, after)) :
    ∃ db w w', runCalls env (catalog.db, catalog.store.beginWrite) calls = (db, w) ∧
      runCalls env (catalog.db, catalog.store.beginWrite)
        (calls ++ [.staging (.dropTable schemaId tableId begun)]) = (db, w') ∧
      w.dropTable db schemaId tableId begun = .ok w' ∧
      after = committed catalog.store db w' request ∧
      Session.commit env catalog ⟨calls, request⟩ =
        .ok (w.commitResult, committed catalog.store db w request) := by
  obtain ⟨⟨db, w⟩, ran⟩ :
      ∃ state, runCalls env (catalog.db, catalog.store.beginWrite) calls = state := ⟨_, rfl⟩
  have core := (valid.inSession False calls False.elim ran).core
  rw [← get_of_family (core .table rfl)] at found
  -- the drop succeeds, since its row is stored
  obtain ⟨w', dropped⟩ : ∃ w', w.dropTable db schemaId tableId begun = .ok w' :=
    ⟨_, dropTable_ok.mpr ⟨stored, found, rfl⟩⟩
  have called : w.staging env db (.dropTable schemaId tableId begun) = .ok (.unit, w') :=
    checked_ok.mpr ⟨rfl, dropped⟩
  have ran' : runCalls env (catalog.db, catalog.store.beginWrite)
      (calls ++ [.staging (.dropTable schemaId tableId begun)]) = (db, w') := by
    rw [runCalls_append, ran]
    simp [runCalls, call, called]
  have frame := staging_frame called
  refine ⟨db, w, w', ran, ran', dropped, ?_⟩
  simp only [Session.commit, ran'] at ended
  split at ended
  swap
  · contradiction
  rename_i result' db' created
  obtain ⟨epoch, calm, rfl, rfl⟩ := (w'.createSnapshot_ok db).mp created
  have created' := (w.createSnapshot_ok db).mpr ⟨frame.epoch ▸ frame.nonce ▸ epoch, calm, rfl, rfl⟩
  constructor
  · cases ended
    rfl
  · simp only [Session.commit, ran, created']
    rfl

/-- A drop at the end of a session is exact if and only if what the session would leave visible of the
table was visible before it, and each delete file among it is one of a data file that was not yet
retired. -/
theorem dropTable_exact_iff {env : Env} {catalog after : Catalog} (reachable : catalog.Reachable env)
    {calls : List WriterCall} {request : SnapshotRequest} {schemaId tableId begun : Nat}
    {stored result} (found : catalog.db.get .table (keyTable schemaId tableId begun) = some stored)
    (ended : Session.commit env catalog
      ⟨calls ++ [.staging (.dropTable schemaId tableId begun)], request⟩ = .ok (result, after)) :
    ∃ result' without, Session.commit env catalog ⟨calls, request⟩ = .ok (result', without) ∧
      (DropExact tableId after without ↔
        ∀ f k row, f ≠ .table → without.shows f k = some row → without.db.Owns tableId f row →
          (∃ old, catalog.shows f k = some old) ∧
            f.OwnedBy tableId (catalog.db.LiveFileOf tableId) row) := by
  have valid := reachable.valid
  have filed' := (reachable.step (.session ended)).filed
  obtain ⟨db, w, w', ran, ran', dropped, rfl, ended'⟩ := valid.commit_dropTable found ended
  refine ⟨w.commitResult, committed catalog.store db w request, ended', ?_⟩
  have begun' := valid.inSession False calls False.elim ran
  have begun'' := valid.inSession False _ False.elim ran'
  have called : w.staging env db (.dropTable schemaId tableId begun) = .ok (.unit, w') :=
    checked_ok.mpr ⟨rfl, dropped⟩
  have core : ∀ {f : Family}, f.core = true → ∀ k, db.get f k = catalog.db.get f k :=
    fun isCore k => get_of_family (begun'.core _ isCore) k
  have consistent := valid.consistent.ofCore begun'.core
  have filed : db.Filed catalog.store.counters := (filed_invariant env).congr
    (fun f versioned => core (core_of_versioned versioned)) reachable.filed
  rw [← core rfl] at found
  have session := begun'.rebase
  have shows : ∀ {f : Family} {k : Key} {row : f.Row}, f.recorded = false →
      ((committed catalog.store db w' request).shows f k = some row ↔
        (db.putAll w.staged).Live f k row ∧ ¬ db.Drops schemaId tableId begun f k) :=
    fun unrecorded => (valid.shows_committed begun'' request unrecorded).trans
      (live_dropped consistent filed dropped)
  trans (∀ f k row, (db.putAll w'.staged).Live f k row → ¬ (db.putAll w'.staged).Owns tableId f row)
  · constructor
    · intro exact' f k row live owned
      exact exact'.hidden f k row ((valid.shows_committed begun'' request owned.unrecorded).mpr live)
        ((owns_committed begun'' request tableId).mpr owned)
    · intro hidden
      refine ⟨fun f k row shown owned => ?_, fun f k row unrecorded foreign => ?_,
        fun owner f row owned owned' => ?_⟩
      · exact hidden f k row ((valid.shows_committed begun'' request owned.unrecorded).mp shown)
          ((owns_committed begun'' request tableId).mp owned)
      · rw [valid.shows_committed begun' request unrecorded]
        refine (shows unrecorded).trans (and_iff_left_of_imp fun live dropped => foreign ?_)
        rw [owns_committed begun'', session.owns_dropped consistent called]
        exact session.drops_owned consistent found live.1 dropped
      · exact filed'.owner_eq owned owned'
  · rw [session.hidden_iff consistent filed found called]
    have files : db.LiveFileOf tableId = catalog.db.LiveFileOf tableId := by
      funext dataFileId
      simp [Db.LiveFileOf, Db.Live, core (f := .dataFile) rfl]
    have known : ∀ {f : Family} {k : Key} {row : f.Row}, (db.putAll w.staged).Owns tableId f row →
        ((∃ old, db.Live f k old) ↔ ∃ old, catalog.shows f k = some old) := by
      intro f k row owned
      simp [valid.shows_eq_some, Db.Live, core (core_of_versioned (versioned_of_retirable
        owned.retirable))]
    rw [files]
    constructor
    · intro reached f k row other shown owned
      rw [owns_committed begun'] at owned
      rw [← known owned]
      exact reached f k row other ((valid.shows_committed begun' request owned.unrecorded).mp shown)
        owned
    · intro reached f k row other live owned
      rw [known owned]
      exact reached f k row other ((valid.shows_committed begun' request owned.unrecorded).mpr live)
        ((owns_committed begun' request tableId).mpr owned)

/-- A data file that the session has registered survives the drop of its table. -/
theorem staged_file_survives_drop : ∃ (catalog after : Catalog) (result : CommitResult) (k : Key)
    (row : DataFileRow), catalog.Reachable Env.trivial ∧
    (catalog.shows .table (keyTable 1 2 1)).isSome = true ∧
    Session.commit Env.trivial catalog ⟨[.staging (.registerDataFile 2
      (.parquet "f.parquet" 2 64)),
      .staging (.dropTable 1 2 1)], {}⟩ = .ok (result, after) ∧
    after.shows .table (keyTable 1 2 1) = none ∧ after.shows .dataFile k = some row ∧
    row.tableId = 2 :=
  ⟨_, _, _, keyDataFile 2 1, _, .session (.opened "a" rfl) createOrders rfl, rfl,
    rfl, rfl, rfl, rfl⟩

theorem dropTable_exact_column : ∃ (catalog after without : Catalog) (result result' : CommitResult),
    catalog.Reachable Env.trivial ∧ (catalog.shows .column (keyColumn 2 3 1)).isSome = true ∧
    Session.commit Env.trivial catalog ⟨[.staging (.dropTable 1 2 1)], {}⟩ = .ok (result, after) ∧
    Session.commit Env.trivial catalog ⟨[], {}⟩ = .ok (result', without) ∧
    DropExact 2 after without := by
  have reachable : Catalog.Reachable Env.trivial _ :=
    .session (.opened "a" rfl) createWideOrders rfl
  obtain ⟨result', without, kept, exactly⟩ := dropTable_exact_iff reachable
    (rfl : Db.get _ .table (keyTable 1 2 1) = _)
    (rfl : Session.commit Env.trivial _ ⟨[] ++ [.staging (.dropTable 1 2 1)], {}⟩ = _)
  refine ⟨_, _, without, _, result', reachable, rfl, rfl, kept, exactly.mpr ?_⟩
  intro f k row _ shown owned
  have valid := reachable.valid
  obtain ⟨db, w, ran, _, written, handle⟩ := Session.commit_ok kept
  cases ran
  have same : without = ⟨_, _⟩ := congr (congrArg Catalog.mk written) handle
  rw [same] at shown
  have seen := (valid.shows_committed (.begin False _ valid.consistent) _ owned.unrecorded).mp shown
  refine ⟨⟨row, valid.shows_eq_some.mpr seen⟩, ?_⟩
  cases f with
  | deleteFile => cases seen.1
  | _ => exact owned

end Catalog

end RockLake
