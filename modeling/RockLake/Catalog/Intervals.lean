import RockLake.Catalog.Verification

/-! The lifetimes of versioned rows over whole histories. A row ends after it begins, and neither lies
beyond the last snapshot identifier given out, as long as each committed session was begun by a
handle that holds the stored counters. -/
namespace RockLake

open Family List OrderedMap UpkeepCall

def Db.Proper (db : Db) : Prop :=
  ∀ (f : Family) (k : Key) (row : f.Row), db.get f k = some row →
    EndsLater (f.beginOf row) (f.endOf row)

theorem Family.endsLater_of_not_retirable {f : Family} (unretired : f.retirable = false)
    (row : f.Row) : EndsLater (f.beginOf row) (f.endOf row) := by
  rw [EndsLater, f.endOf_of_not_retirable unretired]
  simp

theorem Family.endsLater_setEnd {f : Family} {row : f.Row} (retires : f.retirable = true)
    (later : f.beginOf row < ended) :
    EndsLater (f.beginOf (f.setEnd (some ended) row)) (f.endOf (f.setEnd (some ended) row)) := by
  rw [beginOf_setEnd, endOf_setEnd retires]
  simpa [EndsLater] using later

theorem Admissible.endsLater {base : Db} {careful : Prop} (sound : base.Sound c)
    (admissible : Admissible base careful c d ⟨f, k, row⟩) :
    EndsLater (f.beginOf row) (f.endOf row) := by
  generalize same : (⟨f, k, row⟩ : Write) = x at admissible
  cases admissible with
  | retire retires stored current =>
    cases same
    exact endsLater_setEnd retires
      ((sound _ _ _ stored).begun (versioned_of_retirable retires))
  | create versioned begun live keyed unused chosen =>
    cases same
    simp [EndsLater, live]
  | plain unversioned keyed unused =>
    cases same
    exact endsLater_of_not_retirable (by cases f <;> first | rfl | contradiction) _

namespace Db.Proper

variable {db db' base : Db} {c : CounterCache}

theorem ofRetirable (proper : db.Proper) (same : ∀ f, f.retirable = true → db' f = db f) :
    db'.Proper := by
  intro f k row found
  cases retires : f.retirable with
  | false => exact endsLater_of_not_retirable retires row
  | true => exact proper f k row (Db.get_of_family (same f retires) k ▸ found)

theorem commit {careful : Prop} {w : CatalogWriter} (proper : base.Proper)
    (consistent : base.Consistent c) (session : InSession base careful c db w)
    (request : SnapshotRequest) : (db.putAll (w.commitWrites request)).Proper := by
  intro f k row found
  rcases db.get_putAll (f := f) (w.commitWrites request) k with ⟨row', member, stored⟩ | ⟨_, kept⟩
  · rw [found] at stored
    cases stored
    rcases mem_append.mp member with staged | tail
    · exact (session.admissible _ staged).endsLater consistent.sound
    · refine endsLater_of_not_retirable ?_ row
      rcases w.commitTail_family tail with rfl | rfl | rfl <;> rfl
  · refine (proper.ofRetirable fun g retires => ?_) f k row (kept ▸ found)
    exact session.core g (core_of_versioned (versioned_of_retirable retires))

theorem restored (proper : db.Proper) (sound : db.Sound c) {p : Nat}
    (rows : ∀ f, f.booked = false → ∀ k,
      db'.get f k = (db.get f k).map (restoreRow p c.nextSnapshotId f)) : db'.Proper := by
  intro f k row found
  cases booked : f.booked with
  | true => exact endsLater_of_not_retirable (by cases f <;> first | rfl | contradiction) row
  | false =>
    rw [rows f booked, Option.map_eq_some_iff] at found
    obtain ⟨old, stored, rfl⟩ := found
    simp only [restoreRow, hide]
    split
    · rename_i restorable
      have retires := retirable_of_restorable restorable
      split
      · exact endsLater_setEnd retires
          ((sound f k old stored).begun (versioned_of_retirable retires))
      · exact proper f k old stored
    · exact proper f k old stored

theorem upkeep {call : UpkeepCall} (proper : db.Proper) (loaded : loadCounters db = .ok c)
    (sound : db.Sound c) (applied : call.apply db = .ok db') : db'.Proper := by
  cases call with
  | restoreCheckpoint checkpointId =>
    obtain ⟨info, restored⟩ := apply_snd applied
    rcases (restoreCheckpoint_ok restored).2 with ⟨_, rfl⟩ | ⟨_, rfl⟩
    · exact proper
    · rw [hideSnapshot_eq loaded]
      exact proper.restored sound fun f unbooked k => hidden_get (by rintro rfl; contradiction) k
  | exciseApply beforeSnapshot operator timestampMillis fails =>
    obtain ⟨result, excised⟩ := apply_snd applied
    intro f k row found
    cases retires : f.retirable with
    | false => exact endsLater_of_not_retirable retires row
    | true =>
      rw [(exciseApply_ok excised).2.2.1 f k (by rintro rfl; contradiction)
        (by rintro rfl; contradiction)] at found
      exact proper f k row (Option.filter_eq_some_iff.mp found).1
  | _ =>
    refine proper.ofRetirable fun f retires => apply_family applied ?_
    simp only [UpkeepCall.touched]
    cases f <;> first | contradiction | simp

end Db.Proper

namespace Catalog

variable {env : Env} {catalog catalog' : Catalog}

/-- Consistent with the stored counters, and every row ends after it begins. -/
structure WellFormed (catalog : Catalog) : Prop where
  upheld : catalog.Upheld
  proper : catalog.db.Proper

theorem WellFormed.step (formed : catalog.WellFormed)
    (stepped : MaintainInStep env catalog event catalog') : catalog'.WellFormed := by
  refine ⟨formed.upheld.step stepped, ?_⟩
  obtain ⟨inStep, stepped⟩ := stepped
  obtain ⟨c, loaded, consistent, _⟩ := formed.upheld.stored
  cases stepped with
  | writer stepped =>
    cases stepped with
    | @session _ session result committed =>
      obtain ⟨db, w, ran, rfl, stored, _⟩ := session.commit_ok committed
      have same : c = catalog.store.counters :=
        Except.ok.inj (loaded.symm.trans (inStep session rfl))
      subst same
      have begun := (InSession.begin False catalog.store consistent).runCalls env consistent
        session.calls False.elim
      rw [ran] at begun
      rw [stored]
      exact formed.proper.commit consistent begun session.request
    | @abandon calls =>
      refine formed.proper.ofRetirable fun f retires => ?_
      exact CatalogWriter.runCalls_core env catalog.db catalog.store.beginWrite calls
        (core_of_versioned (versioned_of_retirable retires))
    | reopen opened =>
      refine formed.proper.ofRetirable fun f retires => ?_
      exact CatalogStore.openCatalog_other formed.upheld.tended.format opened
        (by rintro rfl; contradiction) (by rintro rfl; contradiction)
  | upkeep applied => exact formed.proper.upkeep loaded consistent.sound applied
  | updateRetainFromCache => exact formed.proper

theorem initial_proper (opened : Opens nonce handle base) : base.Proper := by
  intro f k row found
  cases retires : f.retirable with
  | false => exact endsLater_of_not_retirable retires row
  | true =>
    rw [opened_absent opened (versioned_of_retirable retires)] at found
    cases found

theorem MaintainedInStep.wellFormed (reached : catalog.MaintainedInStep env) :
    catalog.WellFormed := by
  obtain ⟨nonce, store, db, events, opened, ran⟩ := reached
  have valid := initial_valid opened
  have upheld : Upheld ⟨db, store⟩ :=
    ⟨(initial_tended opened).1, _, valid.loaded, valid.consistent, valid.positive⟩
  exact ran.invariant WellFormed (fun _ _ _ formed stepped => formed.step stepped)
    ⟨upheld, initial_proper opened⟩

theorem entries_content (db : Db) (f : Family) :
    (db.content f).entries.map Prod.snd = ((db f).entries.map Prod.snd).map .ok := by
  simp [Db.content, OrderedMap.mapValues]

theorem pairwise_numbered {db : Db} (number : f.Row → Nat)
    (keyed : ∀ k row, db.get f k = some row → k = [number row]) :
    (((db f).entries.map Prod.snd).map number).Pairwise (· < ·) := by
  rw [map_map, pairwise_map]
  refine (db f).sorted.imp_of_mem fun {a b} first second before => ?_
  rw [keyed a.1 a.2 (get_eq_some.mpr first), keyed b.1 b.2 (get_eq_some.mpr second)] at before
  simpa [cons_lt_cons_iff] using before

theorem WellFormed.verified (formed : catalog.WellFormed) : catalog.db.content.Verified := by
  obtain ⟨c, loaded, consistent, _⟩ := formed.upheld.stored
  obtain ⟨snapshot, catalogId, file⟩ := loadCounters_ok.mp loaded
  have ends : ∀ f, ∀ row ∈ (catalog.db f).entries.map Prod.snd,
      EndsLater (f.beginOf row) (f.endOf row) := by
    intro f row member
    obtain ⟨⟨k, _⟩, stored, rfl⟩ := mem_map.mp member
    exact formed.proper f k _ (get_eq_some.mpr stored)
  have present : ∀ f k row, catalog.db.get f k = some row →
      (catalog.db.content f).get k = some (.ok row) := by
    intro f k row found
    rw [Db.content, get_mapValues, show (catalog.db f).get k = some row from found]
    rfl
  have schemas := pairwise_numbered (f := .schema) SchemaRow.schemaId fun k row found =>
    (consistent.sound .schema k row found).keyed.1
  refine ⟨present _ _ _ formed.upheld.tended.format, ?_, ⟨_, entries_content _ .schema, ?_, ends .schema⟩,
    ⟨_, entries_content _ .table, ends .table⟩, ⟨_, entries_content _ .column, ends .column⟩,
    ⟨_, entries_content _ .snapshot, pairwise_numbered _ formed.upheld.tended.snapshots⟩⟩
  · intro counter member
    simp only [verifiedCounters, mem_cons, not_mem_nil, or_false] at member
    rcases member with rfl | rfl | rfl
    · exact ⟨_, present _ _ _ snapshot⟩
    · exact ⟨_, present _ _ _ catalogId⟩
    · exact ⟨_, present _ _ _ file⟩
  · exact schemas.imp Nat.ne_of_lt

/-- In every history in which each committed session was begun by a handle with the stored counters:
a versioned row begins at a snapshot identifier that was given out, ends, if at all, at a later one
that was given out as well, and the verifier reports no errors. -/
theorem intervals_wellFormed (reached : catalog.MaintainedInStep env) :
    (∃ c, loadCounters catalog.db = .ok c ∧ ∀ (f : Family) (k : Key) (row : f.Row),
      f.versioned = true → catalog.db.get f k = some row →
        f.beginOf row ≤ c.nextSnapshotId - 1 ∧
        ∀ ended ∈ f.endOf row, f.beginOf row < ended ∧ ended ≤ c.nextSnapshotId - 1) ∧
    ReportsNoErrors catalog.db.content := by
  have formed := reached.wellFormed
  refine ⟨?_, (reportsNoErrors_iff _).mpr formed.verified⟩
  obtain ⟨c, loaded, consistent, _⟩ := formed.upheld.stored
  refine ⟨c, loaded, fun f k row versioned found => ?_⟩
  have fits := consistent.sound f k row found
  have begun := fits.begun versioned
  refine ⟨by omega, fun ended retired => ?_⟩
  have last := fits.ended ended retired
  exact ⟨formed.proper f k row found ended retired, by omega⟩

def createLines : Session := ⟨[.staging (.createTable 1 "lines" none "6d3f")], {}⟩

/-- A table that a restore has ended, seen after the store is opened again and written to. -/
theorem intervals_wellFormed_restore : ∃ (catalog : Catalog) (c : CounterCache) (row : TableRow),
    catalog.MaintainedInStep Env.trivial ∧ loadCounters catalog.db = .ok c ∧
    catalog.db.get .table (keyTable 1 2 2) = some row ∧ row.endSnapshot = some 3 ∧
    row.beginSnapshot < 3 ∧ 3 ≤ c.nextSnapshotId - 1 ∧ ReportsNoErrors catalog.db.content := by
  have reached : Catalog.MaintainedInStep Env.trivial _ :=
    ⟨"a", _, _, [.writer (.session createMain), .upkeep (.createCheckpoint 5 "" none), .writer
      (.session createLines), .upkeep (.restoreCheckpoint 5), .writer (.reopen "b"), .writer
      (.session dropMain)], rfl, .next ⟨fun _ _ => rfl, .writer (.session rfl)⟩ (.next ⟨nofun,
      .upkeep rfl⟩ (.next ⟨fun _ _ => rfl, .writer (.session rfl)⟩ (.next ⟨nofun, .upkeep rfl⟩
      (.next ⟨nofun, .writer (.reopen rfl)⟩ (.single ⟨fun _ _ => rfl, .writer (.session rfl)⟩)))))⟩
  obtain ⟨⟨c, loaded, intervals⟩, clean⟩ := intervals_wellFormed reached
  obtain ⟨before, last⟩ := (intervals .table (keyTable 1 2 2) _ rfl rfl).2 3 rfl
  exact ⟨_, c, _, reached, loaded, rfl, rfl, before, last, clean⟩

/-- A handle that stays open during two restores gives the identifiers out again: the last one is
then 3, and a row has the end 4. -/
theorem intervals_stale_handle : ∃ (catalog : Catalog) (c : CounterCache) (row : TableRow),
    catalog.Maintained Env.trivial ∧ loadCounters catalog.db = .ok c ∧ c.nextSnapshotId - 1 = 3 ∧
    catalog.db.get .table (keyTable 1 2 2) = some row ∧ row.endSnapshot = some 4 :=
  ⟨_, _, _, .session (.upkeep (.upkeep (.session (.upkeep (.session (.opened "a" rfl) createMain
    rfl) (.createCheckpoint 5 "" none) rfl) createLines rfl) (.restoreCheckpoint 5) rfl)
    (.restoreCheckpoint 5) rfl) dropMain rfl, rfl, rfl, rfl, rfl⟩

end Catalog

end RockLake
