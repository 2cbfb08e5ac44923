import RockLake.Catalog.Retirement
import RockLake.Lib.Ranges

/-! The row ids of data files. A file is registered with the next row id that the statistics of its
table have at that moment, and the registration does not move it on. The row ids of two files are
different only if the statistics are updated in between. -/
namespace RockLake

open CatalogWriter Db

def DataFileRow.rowIds (row : DataFileRow) : Nat × Nat :=
  (row.rowIdStart.getD 0, row.rowIdStart.getD 0 + row.recordCount)

/-- The table of the file under a key, with the row ids of the file. -/
def Db.fileRange (db : Db) (k : Key) : Option (Nat × Nat × Nat) :=
  (db.get .dataFile k).map fun row => (row.tableId, row.rowIds)

def Db.FilesApart (db : Db) : Prop :=
  ∀ k k' tableId range range', k ≠ k' → db.fileRange k = some (tableId, range) →
    db.fileRange k' = some (tableId, range') → DisjointRanges range range'

section Ranges

variable {db db' : Db}

theorem Db.filesApart_congr (same : ∀ k, db'.fileRange k = db.fileRange k) :
    db'.FilesApart ↔ db.FilesApart := by
  simp [FilesApart, same]

/-- One more file leaves the files apart exactly if it is apart from those of its table. -/
theorem Db.filesApart_add (unused : db.fileRange key = none)
    (added : ∀ k, db'.fileRange k = if k = key then some (tableId, range) else db.fileRange k) :
    db'.FilesApart ↔ db.FilesApart ∧
      ∀ k range', db.fileRange k = some (tableId, range') → DisjointRanges range' range := by
  constructor
  · intro apart
    refine ⟨fun k k' tableId' first second different found found' => ?_, fun k range' found => ?_⟩
    · refine apart k k' tableId' first second different ?_ ?_
      · rw [added, if_neg, found]
        rintro rfl
        rw [unused] at found
        cases found
      · rw [added, if_neg, found']
        rintro rfl
        rw [unused] at found'
        cases found'
    · have other : k ≠ key := by
        rintro rfl
        rw [unused] at found
        cases found
      exact apart k key tableId range' range other (by rw [added, if_neg other, found])
        (by rw [added, if_pos rfl])
  · rintro ⟨apart, fresh⟩ k k' tableId' first second different found found'
    rw [added] at found found'
    by_cases new : k = key
    · rw [if_pos new] at found
      cases found
      rw [if_neg (new ▸ different.symm)] at found'
      exact (fresh k' second found').symm
    · rw [if_neg new] at found
      by_cases new' : k' = key
      · rw [if_pos new'] at found'
        cases found'
        exact fresh k first found
      · rw [if_neg new'] at found'
        exact apart k k' tableId' first second different found found'

end Ranges

/-- A registration takes row ids that no file of the table has, stored or staged. -/
def WriterCall.Apart (db : Db) (w : CatalogWriter) : WriterCall → Prop
  | .staging (.registerDataFile tableId spec) => ∀ k range,
      (db.putAll w.staged).fileRange k = some (tableId, range) →
        DisjointRanges range (w.newDataFileRow db tableId spec).rowIds
  | _ => True

section Session

variable {env : Env} {base db db' : Db} {w w' : CatalogWriter}

theorem fileRange_congr (same : db' .dataFile = db .dataFile) :
    db'.fileRange k = db.fileRange k := by
  simp [fileRange, get_of_family same]

theorem InSession.fileRange_retired (consistent : base.Consistent c)
    (session : InSession base careful c db w)
    (retired : ∀ k row, (⟨.dataFile, k, row⟩ : Write) ∈ new → ∃ old ended, base.get .dataFile k = some old ∧ row = { old with endSnapshot := ended })
    (k : Key) :
    (base.putAll (w.staged ++ new)).fileRange k = (base.putAll w.staged).fileRange k := by
  rw [putAll_append, fileRange]
  rcases (base.putAll w.staged).get_putAll (f := .dataFile) new k with
    ⟨row, member, found⟩ | ⟨_, kept⟩
  · obtain ⟨old, ended, stored, rfl⟩ := retired k row member
    rcases session.pending_stored consistent rfl rfl stored with same | retired
    · rw [found, fileRange, same]
      rfl
    · rw [found, fileRange, retired]
      rfl
  · rw [kept, fileRange]

theorem InSession.pending_files (session : InSession base careful c db w) (writes : List Write)
    (k : Key) :
    (db.putAll writes).fileRange k = (base.putAll writes).fileRange k :=
  fileRange_congr (putAll_congr (session.core .dataFile rfl) writes)

theorem InSession.filesApart_register (consistent : base.Consistent c)
    (session : InSession base careful c db w) (tableId : Nat) (spec : CatalogWriter.DataFileSpec) :
    (db.putAll (w.registerDataFileWithMetadata db tableId spec).2.staged).FilesApart ↔
      (db.putAll w.staged).FilesApart ∧
        (WriterCall.staging (.registerDataFile tableId spec)).Apart db w := by
  have unused : (db.putAll w.staged).fileRange (keyDataFile tableId w.counters.nextFileId) = none := by
    rw [session.pending_files, fileRange, session.unused_dataFile consistent]
    rfl
  refine filesApart_add unused fun k => ?_
  show (db.putAll (w.staged ++ _)).fileRange k = _
  rw [putAll_append]
  split
  · rename_i same
    rw [same, fileRange, putAll_cons, putAll_cons, putAll_nil,
      get_of_family (put_family _ _ Family.noConfusion), get_put_same]
    rfl
  · rename_i other
    rw [fileRange, putAll_cons, putAll_cons, putAll_nil,
      get_of_family (put_family _ _ Family.noConfusion), get_put_key _ _ other]
    rfl

theorem InSession.filesApart_call (consistent : base.Consistent c)
    (session : InSession base False c db w) (call : WriterCall) :
    ((w.call env db call).db.putAll (w.call env db call).writer.staged).FilesApart ↔
      (db.putAll w.staged).FilesApart ∧ call.Apart db w := by
  have kept : ∀ {db' : Db}, db' .dataFile = db .dataFile →
      ((db'.putAll w.staged).FilesApart ↔ (db.putAll w.staged).FilesApart) := fun same =>
    filesApart_congr fun k => fileRange_congr (putAll_congr same w.staged)
  cases call with
  | direct direct =>
    simp only [WriterCall.Apart, and_true]
    exact kept (call_core (.direct direct) rfl)
  | nextRowidRange tableId count =>
    simp only [WriterCall.Apart, and_true, nextRowidRange_writer]
    exact kept (call_core (.nextRowidRange tableId count) rfl)
  | staging staged =>
    cases staged with
    | registerDataFile tableId spec => exact session.filesApart_register consistent tableId spec
    | dropTable schemaId tableId begun =>
      simp only [WriterCall.Apart, and_true, CatalogWriter.call]
      split
      · rename_i reply w' called
        obtain ⟨row, stored, rfl⟩ :=
          dropTable_ok.mp (checked_ok.mp called).2
        refine filesApart_congr fun k => ?_
        rw [session.pending_files, session.pending_files]
        refine session.fileRange_retired consistent (fun k row member => ?_) k
        rcases List.mem_cons.mp member with same | cascade
        · cases same
        · obtain ⟨old, found, _, _, rfl⟩ := (mem_cascade (by decide)).mp cascade
          exact ⟨old, _, (get_of_family (session.core .dataFile rfl) k).symm.trans found, rfl⟩
      · exact Iff.rfl
    | _ =>
      simp only [WriterCall.Apart, and_true, CatalogWriter.call]
      split
      · rename_i reply w' called
        exact filesApart_congr fun k => fileRange_congr
          (staging_untouched called (by simp [StagingCall.families]))
      · exact Iff.rfl

end Session

namespace Catalog

variable {env : Env} {catalog catalog' : Catalog}

/-- The registrations of a committed session take row ids that are not taken. -/
def RegistersApart (env : Env) (catalog : Catalog) : CatalogEvent → Prop
  | .session session => CallsMeet env (fun db w call => call.Apart db w)
      (catalog.db, catalog.store.beginWrite) session.calls
  | _ => True

theorem Step.filesApart_iff (valid : catalog.Valid) (stepped : Step env catalog event catalog') :
    catalog'.db.FilesApart ↔ catalog.db.FilesApart ∧ catalog.RegistersApart env event := by
  have kept : ∀ {db : Db}, db .dataFile = catalog.db .dataFile →
      (db.FilesApart ↔ catalog.db.FilesApart) := fun same =>
    filesApart_congr fun k => fileRange_congr same
  cases event with
  | session session =>
    obtain ⟨committed⟩ := stepped
    obtain ⟨db, w, ran, _, stored, _⟩ := session.commit_ok committed
    have begun := valid.inSession False session.calls False.elim ran
    have calls := (InSession.begin False catalog.store valid.consistent).calls_iff env
      (fun db w => (db.putAll w.staged).FilesApart) (fun db w call => call.Apart db w)
      valid.consistent (fun _ _ call session => session.filesApart_call valid.consistent call)
      session.calls
    rw [ran] at calls
    rw [stored]
    refine Iff.trans (filesApart_congr fun k => ?_) calls
    have committed := begun.commit_family session.request (f := .dataFile) rfl (by decide) (by decide)
    exact (fileRange_congr committed).trans (begun.pending_files w.staged k).symm
  | abandon | reopen =>
    simp only [RegistersApart, and_true]
    exact kept ((stepped.uncommitted valid fun _ => nofun).1 .dataFile rfl)

theorem initial_filesApart (opened : Opens nonce handle base) : base.FilesApart := by
  intro k k' tableId range range' _ found
  rw [fileRange, opened_absent opened rfl] at found
  cases found

/-- In a history from the first open on, the files of every table are apart in each state exactly if
each registration takes row ids that no file of its table has, stored or staged. -/
theorem files_apart_iff {nonce store db}
    (opened : Catalog.Opens nonce store db) (events : List CatalogEvent) :
    Run (fun before event after => Step env before event after ∧ after.db.FilesApart) ⟨db, store⟩
        events catalog ↔
      Run (fun before event after => Step env before event after ∧ before.RegistersApart env event)
        ⟨db, store⟩ events catalog := by
  refine Run.keeps_iff Valid (·.db.FilesApart) (·.RegistersApart env)
    (fun _ _ _ valid stepped => valid.step stepped) ?_ (initial_valid opened)
    (initial_filesApart opened)
  intro before event after valid apart stepped
  rw [stepped.filesApart_iff valid]
  exact and_iff_right apart

/-- A session that registers two files of two rows each for `orders`. -/
def registerTwo : Session :=
  ⟨[.staging (.registerDataFile 2 (.parquet "f.parquet" 2 64)),
    .staging (.registerDataFile 2 (.parquet "g.parquet" 2 64))], {}⟩

/-- Both files get the row ids 0 and 1. -/
theorem registered_files_collide : ∃ catalog : Catalog, catalog.Reachable Env.trivial ∧
    catalog.db.fileRange (keyDataFile 2 1) = some (2, 0, 2) ∧
    catalog.db.fileRange (keyDataFile 2 2) = some (2, 0, 2) ∧ ¬ catalog.db.FilesApart := by
  refine ⟨_, .session (.session (.opened "a" rfl) createOrders rfl) registerTwo
    rfl, rfl, rfl, fun apart => ?_⟩
  have disjoint := apart (keyDataFile 2 1) (keyDataFile 2 2) 2 (0, 2) (0, 2) (by decide) rfl rfl
  have shared : 0 ∈ Set.Ico 0 2 := ⟨le_rfl, by decide⟩
  exact Set.disjoint_left.mp disjoint shared shared

def registerUpdated : Session :=
  ⟨[.staging (.registerDataFile 2 (.parquet "f.parquet" 2 64)),
    .direct (.updateTableStats 2 2 0 64),
    .staging (.registerDataFile 2 (.parquet "g.parquet" 2 64))], {}⟩

theorem files_apart_updated : ∃ store db, ∃ catalog : Catalog,
    Catalog.Opens "a" store db ∧
    Run (fun before event after => Step Env.trivial before event after ∧ after.db.FilesApart)
      ⟨db, store⟩ [.session createOrders, .session registerUpdated] catalog ∧
    catalog.db.fileRange (keyDataFile 2 2) = some (2, 2, 4) := by
  refine ⟨_, _, _, rfl, (files_apart_iff rfl _).mpr (.next ⟨.session rfl, trivial, trivial, trivial⟩
    (.single ⟨.session rfl, fun k range found => ?_, trivial, fun k range found => ?_, trivial⟩)), rfl⟩
  · cases found
  obtain ⟨row, stored, same⟩ := Option.map_eq_some_iff.mp found
  have member := OrderedMap.get_eq_some.mp stored
  cases List.mem_singleton.mp member
  cases same
  exact Set.Ico_disjoint_Ico.mpr (by decide)

end Catalog

end RockLake
