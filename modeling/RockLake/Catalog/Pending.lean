import RockLake.Catalog.Retirement

/-! What a call of a session makes of the pending rows: it leaves a row alone, ends a stored one, or
creates one. Properties of the pending rows are carried through a session call by call, and with the
sessions through a history. -/
namespace RockLake

open CatalogWriter List

/-- The rows that calls create in the families of columns, data files, delete files and tags. -/
inductive CatalogWriter.Creates (env : Env) (db : Db) (w : CatalogWriter) : StagingCall → Write → Prop
  | column (tableId : Nat) (spec : ColumnSpec) : Creates env db w (.addColumn tableId spec)
      ⟨.column, keyColumn tableId w.counters.nextCatalogId w.snapshotId, w.newColumnRow tableId spec⟩
  | renamed (row : ColumnRow) (newName : String) : Creates env db w (.insertRenamedColumn row newName)
      ⟨.column, keyColumn row.tableId row.columnId w.snapshotId,
        { row with columnName := newName, beginSnapshot := w.snapshotId, endSnapshot := none }⟩
  | dataFile (tableId : Nat) (spec : DataFileSpec) : Creates env db w (.registerDataFile tableId spec)
      ⟨.dataFile, keyDataFile tableId w.counters.nextFileId, w.newDataFileRow db tableId spec⟩
  | deleteFile (dataFileId : Nat) (spec : DeleteFileSpec) (row : DeleteFileRow)
      (named : row.dataFileId = dataFileId) (unowned : row.tableId = none) :
      Creates env db w (.registerDeleteFile dataFileId spec)
        ⟨.deleteFile, keyDeleteFile dataFileId w.counters.nextFileId, row⟩
  | tag (objectId : Nat) (key value : String) : Creates env db w (.setTag objectId key value)
      ⟨.tag, keyTag objectId (env.hashTagKey key) w.snapshotId,
        { objectId, tagKey := key, tagValue := value, beginSnapshot := w.snapshotId,
          endSnapshot := none }⟩
  | columnTag (tableId columnId : Nat) (key value : String) :
      Creates env db w (.setColumnTag tableId columnId key value)
        ⟨.columnTag, keyColumnTag tableId columnId (env.hashTagKey key) w.snapshotId,
          { tableId, columnId, tagKey := key, tagValue := value, beginSnapshot := w.snapshotId,
            endSnapshot := none }⟩

def Family.followed : Family → Bool
  | .column | .dataFile | .deleteFile | .tag | .columnTag => true
  | _ => false

namespace CatalogWriter

variable {env : Env} {db : Db} {w w' : CatalogWriter}

theorem staging_created {call : StagingCall} (followed : f.followed = true)
    (called : w.staging env db call = .ok (reply, w')) (staged : w'.staged = w.staged ++ new)
    (member : (⟨f, k, row⟩ : Write) ∈ new) (live : f.endOf row = none) :
    Creates env db w call ⟨f, k, row⟩ := by
  have only : ∀ {x : Write}, w'.staged = w.staged ++ [x] → (⟨f, k, row⟩ : Write) = x := by
    intro x single
    rw [staged] at single
    rw [append_cancel_left single] at member
    exact mem_singleton.mp member
  have retired : ∀ {g : Family} {k' : Key} {old : g.Row}, g.retirable = true →
      (⟨f, k, row⟩ : Write) = ⟨g, k', g.setEnd (some w.snapshotId) old⟩ → False := by
    intro g k' old retirable same
    cases same
    rw [Family.endOf_setEnd retirable] at live
    contradiction
  cases call with
  | addColumn tableId spec =>
    cases called
    cases only rfl
    exact .column tableId spec
  | insertRenamedColumn old newName =>
    cases called
    cases only rfl
    exact .renamed old newName
  | registerDataFile tableId spec =>
    cases called
    cases append_cancel_left staged
    rcases mem_pair.mp member with same | same
    · cases same
      exact .dataFile tableId spec
    · cases same
      contradiction
  | registerDeleteFile dataFileId spec =>
    cases called
    cases only rfl
    exact .deleteFile dataFileId spec _ rfl rfl
  | setTag objectId key value =>
    cases called
    cases only rfl
    exact .tag objectId key value
  | setColumnTag tableId columnId key value =>
    cases called
    cases only rfl
    exact .columnTag tableId columnId key value
  | dropColumn =>
    obtain ⟨_, _, rfl⟩ := dropped_ok.mp (checked_ok.mp called).2
    exact (retired rfl (only rfl)).elim
  | removeTag | removeColumnTag =>
    obtain ⟨_, _, rfl⟩ := retireRow_ok.mp (checked_ok.mp called).2
    exact (retired rfl (only rfl)).elim
  | dropTable =>
    obtain ⟨_, _, rfl⟩ := dropTable_ok.mp (checked_ok.mp called).2
    cases append_cancel_left staged
    rcases mem_cons.mp member with same | cascade
    · cases same
      contradiction
    · have outside : f ≠ .dataFileBySnapshot := by
        rintro rfl
        contradiction
      obtain ⟨old, _, _, _, rfl⟩ := (mem_cascade outside).mp cascade
      exact (retired (by cases f <;> first | rfl | contradiction) rfl).elim
  | renameColumn tableId columnId =>
    obtain ⟨_, _, _, _, rfl⟩ := staging_renameColumn called
    exact (retired (g := .column) rfl (only rfl)).elim
  | _ =>
    obtain ⟨new', staged', inside⟩ := staging_families called
    cases append_cancel_left (staged.symm.trans staged')
    have family := inside _ member
    cases f <;> contradiction

end CatalogWriter

namespace Family

variable {f : Family}

theorem retirable_of_followed (followed : f.followed = true) : f.retirable = true := by
  cases f <;> first | rfl | contradiction

theorem versioned_of_followed (followed : f.followed = true) : f.versioned = true :=
  versioned_of_retirable (retirable_of_followed followed)

theorem allocated_of_followed (followed : f.followed = true) : f.callerKeyed = false := by
  cases f <;> first | rfl | contradiction

end Family

namespace InSession

variable {env : Env} {base db : Db} {c : CounterCache} {w w' : CatalogWriter} {call : StagingCall}
  {reply : Reply} {f : Family}

section

variable (consistent : base.Consistent c) (session : InSession base False c db w)
  (called : w.staging env db call = .ok (reply, w')) (followed : f.followed = true)
include consistent session called followed

theorem staged_get (k : Key) :
    (base.putAll w'.staged).get f k = (base.putAll w.staged).get f k ∨
      (∃ old, base.get f k = some old ∧
        (base.putAll w'.staged).get f k = some (f.setEnd (some c.nextSnapshotId) old)) ∨
      ∃ row, (base.putAll w'.staged).get f k = some row ∧ f.endOf row = none ∧
        CatalogWriter.Creates env db w call ⟨f, k, row⟩ := by
  obtain ⟨new, staged, _⟩ := staging_families called
  have after := session.staging consistent False.elim called
  rcases (base.putAll w.staged).get_putAll (f := f) new k with ⟨row, member, found⟩ | ⟨_, kept⟩
  · rw [← Db.putAll_append, ← staged] at found
    cases live : f.endOf row with
    | none =>
      exact .inr (.inr ⟨row, found, live, staging_created followed called staged member live⟩)
    | some ended =>
      have admissible := after.admissible _ (staged ▸ mem_append_right _ member)
      obtain ⟨old, stored, rfl⟩ := admissible.ended (by simp [live])
      exact .inr (.inl ⟨old, stored, found⟩)
  · rw [← Db.putAll_append, ← staged] at kept
    exact .inl kept

/-- A pending row after a call was pending before, or is a stored one ended now, or the one that the
call creates. -/
theorem staged_row
    (found : (base.putAll w'.staged).get f k = some row) :
    (base.putAll w.staged).get f k = some row ∨
      (∃ old, base.get f k = some old ∧ row = f.setEnd (some c.nextSnapshotId) old) ∨
      CatalogWriter.Creates env db w call ⟨f, k, row⟩ := by
  rcases session.staged_get consistent called followed k with
    same | ⟨old, present, ended⟩ | ⟨row', present, _, created⟩
  · exact .inl (same ▸ found)
  · cases found.symm.trans ended
    exact .inr (.inl ⟨old, present, rfl⟩)
  · cases found.symm.trans present
    exact .inr (.inr created)

end

/-- A property of the writer that every successful staging call keeps, given the condition it meets,
holds at the end of the calls. -/
theorem calls_keep (session : InSession base False c db w) (env : Env)
    (consistent : base.Consistent c) (good : CatalogWriter → Prop)
    (condition : Db → CatalogWriter → WriterCall → Prop)
    (each : ∀ {db w call reply w'}, InSession base False c db w → condition db w (.staging call) →
      w.staging env db call = .ok (reply, w') → good w → good w')
    (calls : List WriterCall) (start : good w) (meet : CallsMeet env condition (db, w) calls) :
    good (RockLake.runCalls env (db, w) calls).2 := by
  induction calls generalizing db w with
  | nil => exact start
  | cons call rest ih =>
    refine ih (session.call consistent call False.elim) ?_ meet.2
    rcases call_writer env db w call with unchanged | ⟨staged, _, rfl, called⟩
    · rw [unchanged]
      exact start
    · exact each session meet.1 called start

/-- What a call of the session stages, wherever in the session it is made, is staged at the end. -/
theorem calls_stage (session : InSession base False c db w) (env : Env)
    (consistent : base.Consistent c)
    (stages : ∀ {db w}, InSession base False c db w → ∃ reply w' row, w.staging env db call = .ok (reply, w') ∧ (⟨f, k, row⟩ : Write) ∈ w'.staged)
    (member : .staging call ∈ calls) :
    ∃ row, (⟨f, k, row⟩ : Write) ∈ (RockLake.runCalls env (db, w) calls).2.staged := by
  induction calls generalizing db w with
  | nil => contradiction
  | cons first rest ih =>
    have next : InSession base False c (w.call env db first).db (w.call env db first).writer :=
      session.call consistent first False.elim
    rcases mem_cons.mp member with same | later
    · subst same
      obtain ⟨reply, w', row, called, staged⟩ := stages session
      refine ⟨row, next.calls_keep env consistent (fun w => (⟨f, k, row⟩ : Write) ∈ w.staged)
        (fun _ _ _ => True) ?_ rest ?_ (callsMeet_iff.mpr fun _ _ => trivial)⟩
      · intro db w call reply w' _ _ called staged
        obtain ⟨new, appended, _⟩ := staging_families called
        exact appended ▸ mem_append_left new staged
      · simpa only [CatalogWriter.call, called] using staged
    · exact ih next later

theorem meets_of_mem (session : InSession base False c db w) (consistent : base.Consistent c)
    (meet : CallsMeet env condition (db, w) calls) {call : WriterCall} (member : call ∈ calls) :
    ∃ db w, InSession base False c db w ∧ condition db w call := by
  induction calls generalizing db w with
  | nil => contradiction
  | cons first rest ih =>
    rcases mem_cons.mp member with rfl | later
    · exact ⟨db, w, session, meet.1⟩
    · exact ih (session.call consistent first False.elim) meet.2 later

end InSession

/-- A property of the rows and the counters that sessions carry along, if their calls meet a condition:
it does not look at the families without versions, stays as the counters grow, and every call keeps it
for the pending rows. -/
structure SessionInvariant (env : Env) (condition : Db → CatalogWriter → WriterCall → Prop)
    (good : Db → CounterCache → Prop) : Prop where
  congr : ∀ {db db' : Db} {c : CounterCache},
    (∀ f, f.versioned = true → ∀ k, db'.get f k = db.get f k) → good db c → good db' c
  grow : ∀ {db : Db} {c d : CounterCache}, c.Le d → good db c → good db d
  staging : ∀ {base db : Db} {c : CounterCache} {w w' : CatalogWriter} {call : StagingCall}
    {reply : Reply}, base.Consistent c → InSession base False c db w → good base c →
    condition db w (.staging call) → w.staging env db call = .ok (reply, w') →
    good (base.putAll w.staged) w.counters → good (base.putAll w'.staged) w'.counters

namespace SessionInvariant

variable {env : Env} {condition : Db → CatalogWriter → WriterCall → Prop}
  {catalog catalog' : Catalog}

theorem calls (inv : SessionInvariant env condition good) (valid : catalog.Valid)
    (stored : good catalog.db catalog.store.counters) {calls : List WriterCall}
    (meet : CallsMeet env condition (catalog.db, catalog.store.beginWrite) calls)
    (ran : runCalls env (catalog.db, catalog.store.beginWrite) calls = (db, w)) :
    good (catalog.db.putAll w.staged) w.counters := by
  have kept := (InSession.begin False catalog.store valid.consistent).calls_keep env valid.consistent
    (fun w => good (catalog.db.putAll w.staged) w.counters) condition
    (fun session meets called => inv.staging valid.consistent session stored meets called) calls
    stored meet
  rwa [ran] at kept

def Meets (env : Env) (condition : Db → CatalogWriter → WriterCall → Prop) (catalog : Catalog) :
    CatalogEvent → Prop
  | .session session => CallsMeet env condition (catalog.db, catalog.store.beginWrite) session.calls
  | _ => True

theorem step (inv : SessionInvariant env condition good) (valid : catalog.Valid)
    (stored : good catalog.db catalog.store.counters) (meets : Meets env condition catalog event)
    (stepped : Catalog.Step env catalog event catalog') :
    good catalog'.db catalog'.store.counters := by
  cases event with
  | session session =>
    obtain ⟨committed⟩ := stepped
    obtain ⟨db, w, ran, rfl, written, handle⟩ := session.commit_ok committed
    have begun := valid.inSession False session.calls False.elim ran
    rw [handle, written]
    refine inv.congr (fun f versioned => begun.get_commit session.request versioned)
      (inv.grow ?_ (inv.calls valid stored meets ran))
    exact ⟨Nat.le_succ _, le_rfl, le_rfl⟩
  | abandon | reopen =>
    obtain ⟨rows, counters⟩ := stepped.uncommitted valid fun _ => nofun
    rw [counters]
    exact inv.congr (fun f versioned => Db.get_of_family (rows f versioned)) stored

theorem run (inv : SessionInvariant env condition good)
    (opened : Catalog.Opens nonce store db)
    (start : ∀ {db : Db} {c : CounterCache}, (∀ f, f.versioned = true → ∀ k, db.get f k = none) → good db c)
    (ran : Run (fun before event after => Catalog.Step env before event after ∧ Meets env condition before event) ⟨db, store⟩ events catalog) :
    good catalog.db catalog.store.counters := by
  have kept := ran.invariant
    (fun catalog => catalog.Valid ∧ good catalog.db catalog.store.counters) ?_
    ⟨Catalog.initial_valid opened, start fun f versioned => Catalog.opened_absent opened versioned⟩
  · exact kept.2
  · rintro before event after ⟨valid, stored⟩ ⟨stepped, meets⟩
    exact ⟨valid.step stepped, inv.step valid stored meets stepped⟩

theorem reachable (inv : SessionInvariant env (fun _ _ _ => True) good)
    (start : ∀ {db : Db} {c : CounterCache},
      (∀ f, f.versioned = true → ∀ k, db.get f k = none) → good db c)
    (reachable : catalog.Reachable env) : good catalog.db catalog.store.counters := by
  obtain ⟨nonce, store, db, events, opened, ran⟩ := reachable
  refine inv.run opened start (ran.mono fun before event after stepped => ⟨stepped, ?_⟩)
  cases event with
  | session session =>
    have all : ∀ (state : Db × CatalogWriter) (calls : List WriterCall),
        CallsMeet env (fun _ _ _ => True) state calls := fun state calls =>
      callsMeet_iff.mpr fun _ _ => trivial
    exact all _ _
  | abandon | reopen => trivial

end SessionInvariant

end RockLake
