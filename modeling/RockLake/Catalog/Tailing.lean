import RockLake.Catalog.Cdc
import RockLake.Catalog.Retirement

/-! A tailer beside the sessions that write its store. A poll exports what changed since the last
exported snapshot, so over a run each change is exported once. The one thing that breaks this is a
session that retires a row again after its retirement has been exported: the end of the row moves on,
and the next poll exports it a second time. -/
namespace RockLake

open Option Lifetimes List OrderedMap Db CatalogStore

section Commit

variable {base db db' : Db} {kind : DiffKind} {change : CdcChangeKind} {low high : Nat}

theorem DiffKind.retirable (kind : DiffKind) : kind.family.retirable = true := by
  cases kind <;> rfl

theorem DiffKind.allocated (kind : DiffKind) : kind.family.callerKeyed = false := by
  cases kind <;> rfl

theorem DiffKind.change_setEnd (kind : DiffKind) (ended : Option Nat) (row : kind.family.Row) :
    kind.change .add (kind.family.setEnd ended row) = kind.change .add row := by
  cases kind <;> rfl

theorem DiffKind.stamp_setEnd (kind : DiffKind) (ended : Option Nat) (row : kind.family.Row) :
    kind.stamp .add (kind.family.setEnd ended row) = kind.stamp .add row := by
  cases kind <;> rfl

theorem DiffKind.retired_later (kind : DiffKind) (row : kind.family.Row) (bound : high < snapshot) :
    Lifetimes.stampedIn (kind.stamp .retire) low high
      (kind.family.setEnd (some snapshot) row) = false := by
  have now : kind.stamp .retire (kind.family.setEnd (some snapshot) row) = some snapshot :=
    Family.endOf_setEnd kind.retirable _ _
  rw [← Bool.not_eq_true, stampedIn_eq_true, now]
  rintro ⟨time, at', _, early⟩
  cases at'
  omega

def Db.stampedAt (db : Db) (kind : DiffKind) (change : CdcChangeKind) (low high : Nat) (k : Key) :
    Bool :=
  (db.get kind.family k).any (Lifetimes.stampedIn (kind.stamp change) low high)

section

variable (consistent : base.Consistent c) (session : InSession base careful c db w)
  (stored : ∀ k, db'.get kind.family k = (base.putAll w.staged).get kind.family k)
  (bound : high < c.nextSnapshotId)
include consistent session stored bound

/-- A session whose snapshot is after the range: an added row stays added, and a retired one stays
retired if it is left as it is. -/
theorem InSession.stampedAt (found : base.get kind.family k = some row)
    (stamped : Lifetimes.stampedIn (kind.stamp change) low high row = true) :
    db'.stampedAt kind change low high k = true ↔
      change = .add ∨ db'.get kind.family k = some row := by
  have versioned := Family.versioned_of_retirable kind.retirable
  rcases session.pending_cases consistent versioned kind.allocated k with
    same | ⟨old, present, retired⟩ | ⟨_, absent, _⟩
  · rw [← stored, found] at same
    simp [Db.stampedAt, same, stamped]
  · cases found.symm.trans present
    rw [← stored] at retired
    cases change with
    | add =>
      simp only [stampedIn, Db.stampedAt, retired, any_some, kind.stamp_setEnd,
        true_or, iff_true] at stamped ⊢
      exact stamped
    | retire =>
      have later : stampedIn (kind.stamp .retire) low high
          (kind.family.setEnd (some c.nextSnapshotId) row) = false := kind.retired_later row bound
      rw [Db.stampedAt, retired, any_some, later]
      simp only [Bool.false_eq_true, reduceCtorEq, false_or, false_iff, Option.some.injEq]
      intro same
      rw [same, stamped] at later
      contradiction
  · rw [found] at absent
    contradiction

/-- The changes of a range that ends before the session's snapshot, after the session: those whose row
is still stamped in the range. -/
theorem InSession.changesOf_commit :
    db'.changesOf kind change low high = (base kind.family).collect fun k row =>
      if db'.stampedAt kind change low high k then
        if Lifetimes.stampedIn (kind.stamp change) low high row then some (kind.change change row)
        else none
      else none := by
  have versioned := Family.versioned_of_retirable kind.retirable
  refine collect_congr fun k => ?_
  change (db'.get kind.family k).bind _ = (base.get kind.family k).bind _
  rcases session.pending_cases consistent versioned kind.allocated k with
    same | ⟨old, present, retired⟩ | ⟨row, absent, added, begun, live⟩
  · rw [← stored] at same
    rw [Db.stampedAt, same]
    cases base.get kind.family k with
    | none => rfl
    | some row => cases stamped : stampedIn (kind.stamp change) low high row <;>
        simp [stamped]
  · rw [← stored] at retired
    rw [Db.stampedAt, retired, present, any_some, bind_some, bind_some]
    cases change with
    | add =>
      have same : stampedIn (kind.stamp .add) low high
          (kind.family.setEnd (some c.nextSnapshotId) old) =
            stampedIn (kind.stamp .add) low high old := by
        rw [stampedIn, kind.stamp_setEnd, stampedIn]
      rw [same, kind.change_setEnd]
      split <;> rfl
    | retire =>
      rw [kind.retired_later old bound]
      rfl
  · rw [← stored] at added
    have outside : stampedIn (kind.stamp change) low high row = false := by
      rw [← Bool.not_eq_true, stampedIn_eq_true]
      rintro ⟨time, at', _, early⟩
      cases change with
      | add =>
        cases at'
        omega
      | retire =>
        have ended : kind.family.endOf row = some time := at'
        rw [live] at ended
        contradiction
    rw [added, absent, bind_some, outside]
    rfl

end

/-- A session keeps the changes of an earlier range, except for the retirements of rows that it
retires again. -/
theorem InSession.changes_commit (consistent : base.Consistent c)
    (session : InSession base careful c db w)
    (stored : ∀ (kind : DiffKind) k,
      db'.get kind.family k = (base.putAll w.staged).get kind.family k)
    (low : Nat) (bound : high < c.nextSnapshotId) :
    ∃ stale, (base.changes low high).Perm (db'.changes low high ++ stale) ∧
      (stale = [] ↔ ∀ (kind : DiffKind) k row, base.get kind.family k = some row →
        Lifetimes.stampedIn (kind.stamp .retire) low high row = true →
        db'.get kind.family k = some row) := by
  refine ⟨Db.cdcStreams.flatMap fun stream => (base stream.1.family).collect fun k row =>
    if db'.stampedAt stream.1 stream.2 low high k then none
    else if stampedIn (stream.1.stamp stream.2) low high row then
      some (stream.1.change stream.2 row) else none, ?_, ?_⟩
  · refine (List.Perm.flatMap_left _ fun stream _ => ?_).trans (flatMap_append_perm _ _ _).symm
    rw [session.changesOf_commit consistent (stored stream.1) bound]
    exact collect_perm_append _ _ fun k _ => db'.stampedAt stream.1 stream.2 low high k
  · rw [flatMap_eq_nil_iff]
    constructor
    · intro none kind k row found stamped
      have empty := none (kind, .retire) (mem_cdcStreams _ _)
      by_contra rewritten
      have gone : db'.stampedAt kind .retire low high k ≠ true := fun kept =>
        rewritten (((session.stampedAt consistent (stored kind) bound found stamped).mp kept).resolve_left
          CdcChangeKind.noConfusion)
      refine eq_nil_iff_forall_not_mem.mp empty (kind.change .retire row)
        (mem_collect.mpr ⟨k, row, found, ?_⟩)
      rw [if_neg gone, if_pos stamped]
    · intro kept stream _
      obtain ⟨kind, change⟩ := stream
      refine eq_nil_iff_forall_not_mem.mpr fun x member => ?_
      obtain ⟨k, row, found, made⟩ := mem_collect.mp member
      split at made
      · contradiction
      rename_i gone
      split at made
      · rename_i stamped
        refine gone ((session.stampedAt consistent (stored kind) bound found stamped).mpr ?_)
        cases change with
        | add => exact .inl rfl
        | retire => exact .inr (kept kind k row found stamped)
      · contradiction

end Commit

/-- A store with one tailer. The handle is what a poll reads the latest snapshot from; it falls behind
the store between the commit of a session and `commit_writer`. -/
structure Tailing where
  catalog : Catalog
  handle : CatalogStore
  start : Nat
  tailer : CdcTailer
  emitted : List CdcEvent

inductive TailEvent where
  | commit (session : Session)
  | commitWriter
  | abandon (calls : List WriterCall)
  | reopen (nonce : String)
  | poll (failure : Option CatalogError)

namespace Tailing

def begin (catalog : Catalog) (start : Nat) : Tailing :=
  { catalog, handle := catalog.store, start, tailer := ⟨start⟩, emitted := [] }

/-- Sessions run one after another, each from the handle of the last. Before its commit a session
changes none of the rows that a poll reads, so a poll during a session is one before it. -/
inductive Step (env : Env) (s : Tailing) : TailEvent → Tailing → Prop
  | commit {session catalog} (current : s.handle = s.catalog.store)
      (stepped : Catalog.Step env s.catalog (.session session) catalog) :
      Step env s (.commit session) { s with catalog }
  | commitWriter : Step env s .commitWriter { s with handle := s.catalog.store }
  | abandon {calls catalog} (current : s.handle = s.catalog.store)
      (stepped : Catalog.Step env s.catalog (.abandon calls) catalog) :
      Step env s (.abandon calls) { s with catalog }
  | reopen {nonce catalog} (current : s.handle = s.catalog.store)
      (stepped : Catalog.Step env s.catalog (.reopen nonce) catalog) :
      Step env s (.reopen nonce) { s with catalog, handle := catalog.store }
  | poll {failure reply tailer}
      (polled : s.tailer.pollOnce s.handle s.catalog.db failure = (reply, tailer)) :
      Step env s (.poll failure)
        { s with tailer, emitted := s.emitted ++ CdcTailer.emits reply }

variable (env : Env) (s : Tailing)

/-- The events so far are the changes between the start and the last exported snapshot, one event for
each. -/
def Exact : Prop :=
  (s.emitted.map CdcEvent.change).Perm (s.catalog.db.changes s.start s.tailer.lastExported)

/-- No session names a row to be retired whose retirement has been exported. -/
def Spares : TailEvent → Prop
  | .commit session => ∀ call ∈ session.calls, ∀ (kind : DiffKind) k row,
      call.retires env = some (kind.family, k) → s.catalog.db.get kind.family k = some row →
      Lifetimes.stampedIn (kind.stamp .retire) s.start s.tailer.lastExported row = false
  | _ => True

/-- A tailer that has moved on has not passed the latest snapshot. -/
structure Tracks : Prop where
  valid : s.catalog.Valid
  behind : s.handle.latestSnapshot ≤ s.catalog.store.latestSnapshot
  started : s.start ≤ s.tailer.lastExported
  exported : s.tailer.lastExported = s.start ∨ s.tailer.lastExported ≤ s.handle.latestSnapshot

variable {env s} {t : Tailing} {event : TailEvent} {events : List TailEvent}

theorem begin_tracks {catalog : Catalog} (valid : catalog.Valid) (start : Nat) :
    (begin catalog start).Tracks :=
  ⟨valid, le_rfl, le_rfl, .inl rfl⟩

theorem Tracks.step (tracks : s.Tracks) (stepped : Step env s event t) : t.Tracks := by
  obtain ⟨valid, behind, started, exported⟩ := tracks
  cases stepped with
  | commit current stepped | abandon current stepped =>
    have grows := stepped.snapshot_le valid
    refine ⟨valid.step stepped, ?_, started, exported⟩
    simp only [latestSnapshot_eq] at behind ⊢
    omega
  | commitWriter => exact ⟨valid, le_rfl, started, exported.imp_right (·.trans behind)⟩
  | reopen current stepped =>
    have grows := stepped.snapshot_le valid
    refine ⟨valid.step stepped, le_rfl, started, exported.imp_right fun bound => bound.trans ?_⟩
    simp only [latestSnapshot_eq] at behind ⊢
    omega
  | poll polled =>
    rcases (CdcTailer.pollOnce_changes polled).2 with rfl | ⟨moved, latest⟩
    · exact ⟨valid, behind, started, exported⟩
    · exact ⟨valid, behind, latest ▸ started.trans moved.le, .inr latest.le⟩

theorem exact_commit {catalog : Catalog} (tracks : s.Tracks) (exact : s.Exact)
    (current : s.handle = s.catalog.store)
    (stepped : Catalog.Step env s.catalog (.session session) catalog) :
    Exact { s with catalog } ↔ s.Spares env (.commit session) := by
  rcases tracks.exported with unmoved | bound
  · -- nothing is exported yet, so nothing can become stale
    rw [Exact, unmoved, changes_self] at exact
    simp [Exact, Spares, unmoved, changes_self, stampedIn_self, exact]
  · cases stepped with
    | session committed =>
    obtain ⟨db, w, ran, _, store, _⟩ := session.commit_ok committed
    have valid := tracks.valid
    have inSession := valid.inSession False session.calls False.elim ran
    have stored : ∀ (kind : DiffKind) k,
        catalog.db.get kind.family k = (s.catalog.db.putAll w.staged).get kind.family k := by
      intro kind k
      rw [store]
      exact inSession.get_commit session.request (Family.versioned_of_retirable kind.retirable) k
    have earlier : s.tailer.lastExported < s.catalog.store.counters.nextSnapshotId := by
      have latest := valid.latest
      rw [current] at bound
      omega
    obtain ⟨stale, perm, fresh⟩ :=
      inSession.changes_commit valid.consistent stored s.start earlier
    have emptied : Exact { s with catalog } ↔ stale = [] := by
      have all := exact.trans perm
      constructor
      · intro kept
        have same := (kept.symm.trans all).length_eq
        simp only [length_append] at same
        exact length_eq_zero_iff.mp (by omega)
      · rintro rfl
        rwa [append_nil] at all
    rw [emptied, fresh]
    have kept := fun (kind : DiffKind) k row (found : s.catalog.db.get kind.family k = some row)
        (ended : kind.family.endOf row ≠ none) =>
      valid.consistent.ended_kept_iff env session.calls kind.retirable kind.allocated found ended
    simp only [ran, ← stored] at kept
    have ends : ∀ {kind : DiffKind} {row : kind.family.Row}, stampedIn (kind.stamp .retire)
        s.start s.tailer.lastExported row = true → kind.family.endOf row ≠ none := by
      intro kind row stamped
      obtain ⟨time, ended, _⟩ := stampedIn_eq_true.mp stamped
      exact ne_none_iff_exists'.mpr ⟨time, ended⟩
    constructor
    · intro all call member kind k row named found
      rw [← Bool.not_eq_true]
      intro stamped
      exact (kept kind k row found (ends stamped)).mp (all kind k row found stamped) call member named
    · intro spares kind k row found stamped
      refine (kept kind k row found (ends stamped)).mpr fun call member named => ?_
      rw [spares call member kind k row named found] at stamped
      contradiction

theorem Step.exact_iff (tracks : s.Tracks) (exact : s.Exact) (stepped : Step env s event t) :
    t.Exact ↔ s.Spares env event := by
  have unchanged : ∀ {catalog : Catalog},
      (∀ kind : DiffKind, catalog.db kind.family = s.catalog.db kind.family) →
      Exact { s with catalog } := by
    intro catalog same
    simpa [Exact, Db.changes, Db.changesOf, same] using exact
  cases stepped with
  | commit current stepped => exact exact_commit tracks exact current stepped
  | commitWriter =>
    simp only [Spares, iff_true]
    exact exact
  | abandon current stepped | reopen current stepped =>
    obtain ⟨rows, _⟩ := stepped.uncommitted tracks.valid (by rintro _ ⟨⟩)
    simp only [Spares, iff_true]
    exact unchanged fun kind => rows kind.family (by cases kind <;> rfl)
  | @poll _ _ tailer polled =>
    obtain ⟨emitted, moved⟩ := CdcTailer.pollOnce_changes polled
    have later : s.tailer.lastExported ≤ tailer.lastExported := by
      rcases moved with rfl | ⟨behind, latest⟩
      · exact le_rfl
      · exact latest ▸ behind.le
    simp only [Spares, iff_true, Exact, map_append, emitted]
    exact (exact.append_right _).trans (changes_split tracks.started later).symm

/-- In a run of sessions, reopenings and polls, some of which fail, the tailer has exported each change
up to the last exported snapshot once, after every step, exactly if no session retires a row again
whose retirement has been exported. -/
theorem tailing_exact_iff {catalog : Catalog} (reachable : catalog.Reachable env) (start : Nat)
    (events : List TailEvent) :
    Run (fun s event t => Step env s event t ∧ t.Exact) (begin catalog start) events t ↔
      Run (fun s event t => Step env s event t ∧ s.Spares env event) (begin catalog start) events t := by
  have exact : (begin catalog start).Exact := by simp [Exact, begin, changes_self]
  exact Run.keeps_iff Tracks Exact (Spares env) (fun _ _ _ tracks stepped => tracks.step stepped)
    (fun _ _ _ tracks exact stepped => stepped.exact_iff tracks exact)
    (begin_tracks reachable.valid start) exact

/-- The schema `main` is created and dropped before a poll, and dropped again before the next one. -/
def droppedTwice : List TailEvent :=
  [.commit Catalog.createMain, .commitWriter, .commit Catalog.dropMain, .commitWriter, .poll none,
   .commit Catalog.dropMain, .commitWriter, .poll none]

/-- Its retirement is exported twice. -/
theorem second_drop_exported_again : ∃ (catalog : Catalog) (t : Tailing),
    catalog.Reachable Env.trivial ∧ Run (Step Env.trivial) (begin catalog 0) droppedTwice t ∧
    t.tailer.lastExported = 3 ∧ t.handle.latestSnapshot = 3 ∧
    t.emitted.map (fun event =>
        (event.kind, event.row.u64 "schema_id", event.row.u64 "end_snapshot")) =
      [(.add, some 1, none), (.retire, some 1, some 2), (.retire, some 1, some 3)] ∧
    ¬ t.Exact := by
  refine ⟨_, _, .opened "a" rfl, .next (.commit rfl (.session rfl)) (.next .commitWriter
    (.next (.commit rfl (.session rfl)) (.next .commitWriter (.next (.poll rfl) (.next
      (.commit rfl (.session rfl)) (.next .commitWriter (.single (.poll rfl)))))))), rfl, rfl, rfl,
    fun exact => ?_⟩
  exact absurd exact.length_eq (by decide)

theorem tailing_exact_created : ∃ (catalog : Catalog) (t : Tailing),
    catalog.Reachable Env.trivial ∧
    Run (fun s event t => Step Env.trivial s event t ∧ t.Exact) (begin catalog 0)
      [.commit Catalog.createMain, .poll none, .commitWriter, .poll (some .notInitialized), .poll none]
      t ∧
    t.emitted.length = 1 := by
  refine ⟨_, _, .opened "a" rfl, (tailing_exact_iff ⟨"a", _, _, [], rfl, .done⟩ 0 _).mpr
    (.next ⟨.commit rfl (.session rfl), ?_⟩ (.next ⟨.poll rfl, trivial⟩ (.next
      ⟨.commitWriter, trivial⟩ (.next ⟨.poll rfl, trivial⟩ (.single ⟨.poll rfl, trivial⟩))))), rfl⟩
  intro call member kind k row named
  cases mem_singleton.mp member
  cases named

end Tailing

end RockLake
