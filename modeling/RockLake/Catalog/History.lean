import RockLake.Catalog.Sessions

/-! Histories of one catalog written through one store handle at a time: committed sessions,
abandoned ones and reopenings. Every state reached from an empty database is valid, and careful
sessions leave what a reader of an earlier snapshot sees of each row unchanged. -/
namespace RockLake

open Option CatalogStore Db

/-- What can happen to a catalog. An abandoned session is a writer dropped without a successful
commit, after any calls. -/
inductive CatalogEvent where
  | session (session : Session)
  | abandon (calls : List WriterCall)
  | reopen (nonce : String)

inductive Catalog.Step (env : Env) (catalog : Catalog) : CatalogEvent → Catalog → Prop
  | session {catalog' session result} (committed : Session.commit env catalog session = .ok (result, catalog')) :
      Catalog.Step env catalog (.session session) catalog'
  | abandon {calls} : Catalog.Step env catalog (.abandon calls)
        ⟨(runCalls env (catalog.db, catalog.store.beginWrite) calls).1, catalog.store⟩
  | reopen {nonce store db} (opened : CatalogStore.openCatalog catalog.db nonce = .ok (store, db)) :
      Catalog.Step env catalog (.reopen nonce) ⟨db, store⟩

abbrev Catalog.Opens (nonce : String) (store : CatalogStore) (db : Db) : Prop :=
  CatalogStore.openCatalog Db.empty nonce = .ok (store, db)

/-- Reached by some steps from the first open of an empty database. -/
def Catalog.ReachedBy (step : Catalog → Event → Catalog → Prop) (catalog : Catalog) : Prop :=
  ∃ nonce store db events, Opens nonce store db ∧ Run step ⟨db, store⟩ events catalog

def Catalog.Reachable (env : Env) (catalog : Catalog) : Prop := catalog.ReachedBy (Catalog.Step env)

theorem Catalog.Reachable.step (reachable : catalog.Reachable env)
    (stepped : Catalog.Step env catalog event catalog') :
    catalog'.Reachable env := by
  obtain ⟨nonce, store, db, events, opened, ran⟩ := reachable
  exact ⟨nonce, store, db, _, opened, ran.append (.single stepped)⟩

theorem Catalog.Reachable.opened (nonce : String) (opened : Opens nonce handle base) :
    Catalog.Reachable env ⟨base, handle⟩ :=
  ⟨nonce, _, _, [], opened, .done⟩

theorem Catalog.Reachable.session (reachable : catalog.Reachable env) (session : Session)
    (committed : session.commit env catalog = .ok (result, catalog')) : catalog'.Reachable env :=
  reachable.step (.session committed)

/-- The store handle and the database belong together. -/
structure Catalog.Valid (catalog : Catalog) : Prop where
  consistent : catalog.db.Consistent catalog.store.counters
  loaded : loadCounters catalog.db = .ok catalog.store.counters
  epoch : catalog.db.get .writerEpoch keySystem = some catalog.store.writerEpoch
  nonce : catalog.db.get .writerNonce keySystem = some catalog.store.writerNonce
  format : catalog.db.get .catalogFormatVersion keySystem = some catalogFormatVersion
  retained : catalog.db.get .retainFrom keySystem = some 0
  cached : catalog.store.retainFromCache = 0
  positive : 0 < catalog.store.counters.nextSnapshotId
  started : ∀ f k row, f.versioned = true → catalog.db.get f k = some row → 0 < f.beginOf row

theorem Session.commit_ok {session : Session}
    (committed : session.commit env catalog = .ok (result, catalog')) :
    ∃ db w, runCalls env (catalog.db, catalog.store.beginWrite) session.calls = (db, w) ∧
      result = w.commitResult ∧ catalog'.db = db.putAll (w.commitWrites session.request) ∧
      catalog'.store = catalog.store.commitWriter w.commitResult := by
  obtain ⟨⟨db, w⟩, ran⟩ :
      ∃ state, runCalls env (catalog.db, catalog.store.beginWrite) session.calls = state := ⟨_, rfl⟩
  refine ⟨db, w, ran, ?_⟩
  simp only [commit, ran] at committed
  split at committed
  · rename_i result' db' created
    obtain ⟨_, _, rfl, rfl⟩ := (w.createSnapshot_ok db).mp created
    cases committed
    exact ⟨rfl, rfl, rfl⟩
  · contradiction

theorem Admissible.family (admissible : Admissible db careful c d x) :
    x.family.versioned = true ∨ x.family.unversioned = true := by
  cases admissible with
  | retire retires => exact .inl (Family.versioned_of_retirable retires)
  | create versioned => exact .inl versioned
  | plain unversioned => exact .inr unversioned

theorem Admissible.begin_pos (positive : 0 < c.nextSnapshotId) (versioned : f.versioned = true)
    (started : ∀ old, db.get f k = some old → 0 < f.beginOf old)
    (admissible : Admissible db careful c d ⟨f, k, row⟩) : 0 < f.beginOf row := by
  generalize same : (⟨f, k, row⟩ : Write) = x at admissible
  cases admissible with
  | retire retires stored current =>
    cases same
    rw [Family.beginOf_setEnd]
    exact started _ stored
  | create _ begun live keyed unused chosen =>
    cases same
    exact begun ▸ positive
  | plain unversioned keyed unused =>
    cases same
    cases f <;> contradiction

/-- The families aside that validity reads nothing of. The counters of the catalog are read alone. -/
def Family.unread (f : Family) : Bool :=
  f.aside && !(f = .writerEpoch || f = .writerNonce || f = .catalogFormatVersion || f = .retainFrom)

namespace Catalog

variable {env : Env} {catalog catalog' : Catalog}

theorem Valid.inSession (careful : Prop) (valid : catalog.Valid) (calls : List WriterCall)
    (isCareful : careful → ∀ call ∈ calls, call.careful catalog.db = true) {db : Db}
    (ran : runCalls env (catalog.db, catalog.store.beginWrite) calls = (db, w)) :
    InSession catalog.db careful catalog.store.counters db w := by
  have all := (InSession.begin careful catalog.store valid.consistent).runCalls env
    valid.consistent calls isCareful
  rwa [ran] at all

theorem Valid.ofInSession {db : Db} (valid : catalog.Valid)
    (inSession : InSession catalog.db careful catalog.store.counters db w)
    (request : SnapshotRequest) :
    Valid ⟨db.putAll (w.commitWrites request), catalog.store.commitWriter w.commitResult⟩ := by
  have untouched : ∀ f, f = .writerEpoch ∨ f = .writerNonce ∨ f = .catalogFormatVersion ∨
      f = .retainFrom → ∀ k, (db.putAll (w.commitWrites request)).get f k = catalog.db.get f k := by
    intro f read k
    rw [get_of_family (inSession.commit_family request ?_ ?_ ?_)]
    · refine get_of_family (putAll_family _ fun x member same => ?_) k
      have family := (inSession.admissible x member).family
      rw [same] at family
      rcases read with rfl | rfl | rfl | rfl <;> contradiction
    all_goals rcases read with rfl | rfl | rfl | rfl <;> decide
  refine ⟨inSession.commit valid.consistent request, loadCounters_commit db w request, ?_, ?_, ?_, ?_,
    valid.cached, Nat.succ_pos _, ?_⟩
  · exact (untouched _ (by simp) _).trans valid.epoch
  · exact (untouched _ (by simp) _).trans valid.nonce
  · exact (untouched _ (by simp) _).trans valid.format
  · exact (untouched _ (by simp) _).trans valid.retained
  · intro f k row versioned found
    rw [inSession.get_commit request versioned] at found
    rcases catalog.db.get_putAll (f := f) w.staged k with ⟨row', member, stored⟩ | ⟨_, kept⟩
    · rw [found] at stored
      cases stored
      exact (inSession.admissible _ member).begin_pos valid.positive versioned
        fun old stored => valid.started f k old versioned stored
    · exact valid.started f k row versioned (kept ▸ found)

/-- Whatever calls a session makes, nothing but a conflict keeps it from committing. -/
theorem Valid.commits (valid : catalog.Valid) (env : Env) (calls : List WriterCall)
    {request : SnapshotRequest} (calm : request.conflict = none) :
    ∃ result after, Session.commit env catalog ⟨calls, request⟩ = .ok (result, after) := by
  obtain ⟨⟨db, w⟩, ran⟩ :
      ∃ state, runCalls env (catalog.db, catalog.store.beginWrite) calls = state := ⟨_, rfl⟩
  have core := (valid.inSession False calls False.elim ran).core
  have frame := CatalogWriter.runCalls_frame env catalog.db catalog.store.beginWrite calls
  rw [ran] at frame
  have epoch : db.get .writerEpoch keySystem = some w.writerEpoch := by
    rw [get_of_family (core .writerEpoch rfl), frame.epoch]
    exact valid.epoch
  have nonce : db.get .writerNonce keySystem = some w.writerNonce := by
    rw [get_of_family (core .writerNonce rfl), frame.nonce]
    exact valid.nonce
  have created := (w.createSnapshot_ok db).mpr ⟨⟨epoch, nonce⟩, calm, rfl, rfl⟩
  simp only [Session.commit, ran, created]
  exact ⟨_, _, rfl⟩

theorem Valid.ofCommit (valid : catalog.Valid) {session : Session}
    (committed : session.commit env catalog = .ok (result, catalog')) : catalog'.Valid := by
  obtain ⟨db, w, ran, rfl, stored, handle⟩ := session.commit_ok committed
  obtain ⟨db', store'⟩ := catalog'
  simp only at stored handle
  subst stored handle
  exact valid.ofInSession (valid.inSession False session.calls False.elim ran) session.request

theorem Valid.ofAside {db : Db} (valid : catalog.Valid)
    (same : ∀ f, f.unread = false → db f = catalog.db f)
    (counters : loadCounters db = loadCounters catalog.db) : Valid ⟨db, catalog.store⟩ := by
  refine ⟨valid.consistent.ofAside fun f apart => same f (by simp [Family.unread, apart]),
    counters.trans valid.loaded, ?_, ?_, ?_, ?_, valid.cached, valid.positive, ?_⟩
  · exact (get_of_family (same _ rfl) _).trans valid.epoch
  · exact (get_of_family (same _ rfl) _).trans valid.nonce
  · exact (get_of_family (same _ rfl) _).trans valid.format
  · exact (get_of_family (same _ rfl) _).trans valid.retained
  · intro f k row versioned found
    have read : f.unread = false := by cases f <;> first | rfl | contradiction
    exact valid.started f k row versioned (get_of_family (same f read) k ▸ found)

theorem Valid.ofDropped {db : Db} (valid : catalog.Valid)
    (inSession : InSession catalog.db careful catalog.store.counters db w) :
    Valid ⟨db, catalog.store⟩ :=
  valid.ofAside (fun f read => inSession.core f (by cases f <;> first | rfl | contradiction))
    (loadCounters_congr inSession.counter)

theorem Valid.ofEpoch {db db' : Db} {nonce : String} {epoch : Nat} (consistent : db.Consistent c)
    (loaded : loadCounters db = .ok c)
    (format : db.get .catalogFormatVersion keySystem = some catalogFormatVersion)
    (retained : db.get .retainFrom keySystem = some 0) (positive : 0 < c.nextSnapshotId)
    (started : ∀ f k row, f.versioned = true → db.get f k = some row → 0 < f.beginOf row)
    (acquired : acquireEpoch db nonce = .ok (epoch, db')) :
    Valid ⟨db', finishOpen db' c epoch nonce⟩ := by
  obtain ⟨_, newEpoch, newNonce, other⟩ := acquireEpoch_ok acquired
  have same : ∀ f, f ≠ .writerEpoch → f ≠ .writerNonce → ∀ k, db'.get f k = db.get f k :=
    fun f notEpoch notNonce k => get_of_family (other f notEpoch notNonce) k
  refine ⟨?_, ?_, newEpoch, newNonce, ?_, ?_, ?_, positive, ?_⟩
  · exact consistent.ofAside fun f apart =>
      other f (by rintro rfl; contradiction) (by rintro rfl; contradiction)
  · exact (loadCounters_congr fun id => same _ (by decide) (by decide) _).trans loaded
  · exact (same _ (by decide) (by decide) _).trans format
  · exact (same _ (by decide) (by decide) _).trans retained
  · simp [finishOpen, same .retainFrom (by decide) (by decide), retained]
  · intro f k row versioned found
    refine started f k row versioned (same f ?_ ?_ k ▸ found) <;> rintro rfl <;> contradiction

theorem Valid.open_ok (valid : catalog.Valid) {nonce store db}
    (opened : CatalogStore.openCatalog catalog.db nonce = .ok (store, db)) :
    ∃ epoch, acquireEpoch catalog.db nonce = .ok (epoch, db) ∧
      store = finishOpen db catalog.store.counters epoch nonce := by
  obtain ⟨c, epoch, loaded, acquired, rfl⟩ := openCatalog_ok valid.format opened
  cases valid.loaded.symm.trans loaded
  exact ⟨epoch, acquired, rfl⟩

theorem initial_absent (family : f.versioned = true ∨ f = .tableById) (k : Key) :
    (Db.empty.putAll initialWrites).get f k = none := by
  cases f <;> first | rfl | simp [Family.versioned, Family.retirable] at family

theorem opened_absent (opened : Opens nonce handle base) (versioned : f.versioned = true) (k : Key) :
    base.get f k = none := by
  rw [get_of_family (openCatalog_initial opened (by rintro rfl; contradiction)
    (by rintro rfl; contradiction)), initial_absent (.inl versioned)]

theorem initial_consistent : (Db.empty.putAll initialWrites).Consistent initialCounters := by
  refine ⟨?_, ⟨⟨?_, ?_⟩, ?_, ?_⟩⟩
  · intro f k row found
    by_cases family : f.versioned = true ∨ f = .tableById
    · rw [initial_absent family] at found
      contradiction
    · rw [not_or] at family
      refine ⟨?_, fun versioned => absurd versioned family.1, ?_⟩
      · cases f <;> trivial
      · intro ended retired
        cases f <;> first | cases retired | simp [Family.versioned, Family.retirable] at family
  case refine_5 =>
    intro k row k' row' found
    rw [initial_absent (by decide)] at found
    contradiction
  all_goals
    intro k row found
    rw [initial_absent (by decide)] at found
    contradiction

theorem initial_valid (opened : Opens nonce handle base) : Valid ⟨base, handle⟩ := by
  obtain ⟨epoch, acquired, rfl⟩ := openCatalog_empty opened
  refine .ofEpoch initial_consistent rfl rfl rfl (by decide) ?_ acquired
  intro f k row versioned found
  rw [initial_absent (.inl versioned)] at found
  contradiction

theorem Valid.step (valid : catalog.Valid) {event : CatalogEvent}
    (stepped : Step env catalog event catalog') : catalog'.Valid := by
  cases stepped with
  | session committed => exact valid.ofCommit committed
  | abandon => exact valid.ofDropped (valid.inSession False _ False.elim rfl)
  | reopen opened =>
    obtain ⟨epoch, acquired, rfl⟩ := valid.open_ok opened
    exact .ofEpoch valid.consistent valid.loaded valid.format valid.retained valid.positive
      valid.started acquired

theorem Valid.run (valid : catalog.Valid) (ran : Run (Step env) catalog events catalog') : catalog'.Valid :=
  ran.invariant Valid (fun _ _ _ before stepped => before.step stepped) valid

theorem Reachable.valid (reachable : catalog.Reachable env) : catalog.Valid := by
  obtain ⟨_, _, _, _, opened, ran⟩ := reachable
  exact (initial_valid opened).run ran

end Catalog

/-- Readers of a snapshot see the same of every row of the family in two databases. -/
def Db.SameSeen (snapshot : Nat) (f : Family) (db db' : Db) : Prop :=
  ∀ k, (db'.get f k).bind (f.seen snapshot) = (db.get f k).bind (f.seen snapshot)

theorem Db.SameSeen.ofFamily {db db' : Db} (same : db' f = db f) :
    db.SameSeen snapshot f db' := fun k => by rw [get_of_family same]

/-- A pair staged by a careful session does not change what an earlier snapshot shows under its
key: it retires a live row, or it is the first row under the key. -/
theorem Admissible.seen (sound : base.Sound c) (isCareful : careful) (inHistory : f.history = true)
    (earlier : snapshot < c.nextSnapshotId) (admissible : Admissible base careful c d ⟨f, k, row⟩) :
    f.seen snapshot row = (base.get f k).bind (f.seen snapshot) := by
  generalize same : (⟨f, k, row⟩ : Write) = x at admissible
  cases admissible with
  | retire retires stored current =>
    cases same
    rw [stored, bind_some]
    exact Family.seen_retired retires (current isCareful inHistory) earlier
  | create versioned begun live keyed unused chosen =>
    cases same
    have absent : base.get f k = none := by
      cases allocated : f.callerKeyed with
      | true => exact chosen allocated isCareful
      | false =>
        exact eq_none_iff_forall_ne_some.mpr fun old stored =>
          unused allocated old (sound _ _ _ stored)
    rw [absent, bind_none]
    exact Family.seen_of_later (begun ▸ earlier)
  | plain unversioned keyed unused =>
    cases same
    cases f <;> contradiction

theorem InSession.seen {snapshot : Nat} (sound : base.Sound c)
    (session : InSession base careful c db w) (isCareful : careful) (inHistory : f.history = true)
    (earlier : snapshot < c.nextSnapshotId) (request : SnapshotRequest) :
    base.SameSeen snapshot f (db.putAll (w.commitWrites request)) := by
  intro k
  rw [session.get_commit request (by cases f <;> first | rfl | contradiction)]
  rcases base.get_putAll (f := f) w.staged k with ⟨row, member, stored⟩ | ⟨_, kept⟩
  · rw [stored, bind_some]
    exact (session.admissible _ member).seen sound isCareful inHistory earlier
  · rw [kept]

/-- The calls of an event are careful towards the database it starts from. Only committed sessions
reach the families of the history, so only their calls matter. -/
def CatalogEvent.careful (db : Db) : CatalogEvent → Bool
  | .session ⟨calls, _⟩ => calls.all fun call => call.careful db
  | _ => true

namespace Catalog

variable {env : Env} {catalog catalog' : Catalog}

def CarefulStep (env : Env) (catalog : Catalog) (event : CatalogEvent) (catalog' : Catalog) : Prop :=
  Step env catalog event catalog' ∧ event.careful catalog.db = true

theorem Step.snapshot_le {event : CatalogEvent} (valid : catalog.Valid)
    (stepped : Step env catalog event catalog') :
    catalog.store.counters.nextSnapshotId ≤ catalog'.store.counters.nextSnapshotId := by
  cases stepped with
  | @session _ session result committed =>
    obtain ⟨db, w, ran, rfl, _, handle⟩ := session.commit_ok committed
    have snapshot := (valid.inSession False session.calls False.elim ran).snapshot
    rw [handle]
    exact snapshot ▸ Nat.le_succ _
  | abandon => exact le_rfl
  | reopen opened =>
    obtain ⟨epoch, _, rfl⟩ := valid.open_ok opened
    exact le_rfl

/-- Without a commit the versioned rows and the counters of the handle stay as they are. -/
theorem Step.uncommitted (valid : catalog.Valid) (stepped : Step env catalog event catalog')
    (other : ∀ session, event ≠ .session session) :
    (∀ f, f.versioned = true → catalog'.db f = catalog.db f) ∧
      catalog'.store.counters = catalog.store.counters := by
  cases stepped with
  | @session _ session result committed => exact absurd rfl (other session)
  | abandon =>
    exact ⟨fun f versioned =>
      CatalogWriter.runCalls_core _ _ _ _ (Family.core_of_versioned versioned), rfl⟩
  | reopen opened =>
    obtain ⟨epoch, _, rfl⟩ := valid.open_ok opened
    exact ⟨fun f versioned => openCatalog_other valid.format opened
      (by rintro rfl; contradiction) (by rintro rfl; contradiction), rfl⟩

theorem CarefulStep.seen {event : CatalogEvent} (valid : catalog.Valid)
    (inHistory : f.history = true) (earlier : snapshot < catalog.store.counters.nextSnapshotId)
    (stepped : CarefulStep env catalog event catalog') :
    catalog.db.SameSeen snapshot f catalog'.db := by
  obtain ⟨stepped, isCareful⟩ := stepped
  cases event with
  | session session =>
    obtain ⟨committed⟩ := stepped
    obtain ⟨db, w, ran, rfl, stored, _⟩ := session.commit_ok committed
    have inSession := valid.inSession True session.calls
      (fun _ call member => List.all_eq_true.mp isCareful call member) ran
    rw [stored]
    exact inSession.seen valid.consistent.sound trivial inHistory earlier session.request
  | abandon | reopen =>
    obtain ⟨rows, _⟩ := stepped.uncommitted valid fun _ => nofun
    exact .ofFamily (rows f (by cases f <;> first | rfl | contradiction))

/-- Along a careful history, readers of a snapshot committed before it see the same of every row. -/
theorem Valid.seen_run (valid : catalog.Valid) (inHistory : f.history = true)
    (earlier : snapshot < catalog.store.counters.nextSnapshotId)
    (ran : Run (CarefulStep env) catalog events catalog') :
    catalog.db.SameSeen snapshot f catalog'.db := by
  refine ran.relates (fun c => c.Valid ∧ snapshot < c.store.counters.nextSnapshotId)
    (fun c c' => c.db.SameSeen snapshot f c'.db) ?_ ?_ ?_ ?_ ⟨valid, earlier⟩
  · intro _ _
    rfl
  · intro _ _ _ first second k
    rw [second k, first k]
  · rintro _ _ _ ⟨before, bound⟩ stepped
    exact ⟨before.step stepped.1, bound.trans_le (stepped.1.snapshot_le before)⟩
  · rintro _ _ _ ⟨before, bound⟩ stepped
    exact stepped.seen before inHistory bound

/-- What a reader of the latest snapshot sees. Retirements so far end at or before the latest
snapshot, so the rows it shows are the live rows. -/
def shows (catalog : Catalog) (f : Family) (k : Key) : Option f.Row :=
  (catalog.db.get f k).bind (f.seen catalog.store.latestSnapshot)

theorem Valid.latest (valid : catalog.Valid) :
    catalog.store.latestSnapshot + 1 = catalog.store.counters.nextSnapshotId := by
  rw [CatalogStore.latestSnapshot_eq]
  exact Nat.sub_add_cancel valid.positive

theorem Valid.seen_latest (valid : catalog.Valid) (stored : catalog.db.get f k = some row) :
    f.seen catalog.store.latestSnapshot row = if f.endOf row = none then some row else none := by
  rw [Family.seen, (valid.consistent.sound f k row stored).visible_latest valid.latest.ge]
  cases ended : f.endOf row with
  | none =>
    have cleared : f.setEnd none row = row := ended ▸ Family.setEnd_endOf row
    simp [cleared]
  | some snapshot => simp

theorem Valid.shows_eq_some (valid : catalog.Valid) :
    catalog.shows f k = some row ↔ catalog.db.get f k = some row ∧ f.endOf row = none := by
  constructor
  · intro shown
    obtain ⟨stored, found, seen⟩ := bind_eq_some_iff.mp shown
    rw [valid.seen_latest found] at seen
    split at seen
    · cases seen
      exact ⟨found, ‹_›⟩
    · contradiction
  · rintro ⟨found, live⟩
    rw [shows, found, bind_some, valid.seen_latest found, if_pos live]

end Catalog

end RockLake
