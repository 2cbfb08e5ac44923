import RockLake.Catalog.Retirement

/-! Where the rows without versions are stored. Statistics, macro implementations and their parameters,
schema versions and snapshots sit under the keys built from their own fields, in every catalog that
writers can reach. -/
namespace RockLake

open List CatalogWriter

/-- The key of a row without versions repeats the row's own fields. -/
def Family.Placed : (f : Family) → Key → f.Row → Prop
  | .snapshot, k, row => k = keySnapshot row.snapshotId
  | .macroImpl, k, row => k = keyMacroImpl row.macroId row.implId
  | .macroParameters, k, row => k = keyMacroParameters row.macroId row.implId row.columnId
  | .schemaVersions, k, row => k = keySchemaVersions row.tableId row.beginSnapshot
  | .tableStats, k, row => k = keyTableStats row.tableId
  | .tableColumnStats, k, row => k = keyTableColumnStats row.tableId row.columnId
  | .fileColumnStats, k, row => k = keyFileColumnStats row.tableId row.columnId row.dataFileId
  | .fileVariantStats, k, row =>
    ∃ hash, k = keyFileVariantStats row.tableId row.columnId hash row.dataFileId
  | _, _, _ => True

def Family.places : Family → Bool
  | .snapshot | .macroImpl | .macroParameters | .schemaVersions | .tableStats | .tableColumnStats
  | .fileColumnStats | .fileVariantStats => true
  | _ => false

theorem Family.placed_of_not_places {f : Family} (free : f.places = false) (k : Key) (row : f.Row) :
    f.Placed k row := by
  cases f <;> trivial

def Write.Placed (x : Write) : Prop := x.family.Placed x.key x.row

def Db.Placed (db : Db) : Prop :=
  ∀ (f : Family) (k : Key) (row : f.Row), db.get f k = some row → f.Placed k row

namespace Db.Placed

variable {db : Db}

section

variable (placed : db.Placed)
include placed

theorem putAll (puts : ∀ x ∈ writes, x.Placed) :
    (db.putAll writes).Placed := by
  intro f k row found
  rcases db.get_putAll (f := f) writes k with ⟨row', member, stored⟩ | ⟨_, kept⟩
  · rw [found] at stored
    cases stored
    exact puts _ member
  · exact placed f k row (kept ▸ found)

theorem put (puts : x.Placed) : (db.put x).Placed := by
  have only : ∀ y ∈ [x], y.Placed := by simpa using puts
  exact placed.putAll only

theorem delete (f : Family) (k : Key) : (db.delete f k).Placed :=
  fun g k' row found => placed g k' row (db.get_of_delete found)

theorem tableStats (tableId : Nat) :
    (readTableStatsOrDefault db tableId).tableId = tableId := by
  rw [readTableStatsOrDefault]
  cases found : db.get .tableStats (keyTableStats tableId) with
  | none => rfl
  | some row =>
    have place : keyTableStats tableId = keyTableStats row.tableId := placed .tableStats _ row found
    exact (List.cons.inj place).1.symm

theorem direct (env : Env) (call : DirectCall) : (call.apply env db).Placed := by
  cases call with
  | adjustTableRecordCount tableId delta =>
    exact placed.put (congrArg keyTableStats (placed.tableStats tableId).symm)
  | upsertFileVariantStats input => exact placed.put ⟨_, rfl⟩
  | scheduleFileDeletion => exact placed.put trivial
  | removeScheduledDeletion => exact placed.delete _ _
  | updateTableStats | setTableStats | applyTableStatsDelta | upsertTableColumnStats
  | upsertFileColumnStats | addMacroParameter => exact placed.put rfl

end

end Db.Placed

namespace CatalogWriter

variable {env : Env} {db : Db} {w w' : CatalogWriter}

theorem staging_placed {call : StagingCall} (placed : ∀ x ∈ w.staged, x.Placed)
    (called : w.staging env db call = .ok (reply, w')) : ∀ x ∈ w'.staged, x.Placed := by
  have one : ∀ {y : Write}, w'.staged = w.staged ++ [y] → y.Placed → ∀ x ∈ w'.staged, x.Placed := by
    intro y same added x member
    rw [same] at member
    rcases mem_append.mp member with early | late
    · exact placed x early
    · rw [mem_singleton.mp late]
      exact added
  have elsewhere : (∀ f ∈ call.families, f.places = false) → ∀ x ∈ w'.staged, x.Placed := by
    intro free x member
    obtain ⟨new, same, inside⟩ := staging_families called
    rw [same] at member
    rcases mem_append.mp member with early | late
    · exact placed x early
    · exact Family.placed_of_not_places (free _ (inside x late)) _ _
  cases call with
  | registerSchemaVersion | addMacroImpl =>
    cases called
    exact one rfl (Eq.refl _)
  | _ => exact elsewhere (by simp [StagingCall.families, cascadeFamilies, Family.places])

theorem commitTail_placed (request : SnapshotRequest) : ∀ x ∈ w.commitTail request, x.Placed := by
  intro x member
  rcases mem_cons.mp member with rfl | later
  · rfl
  rcases mem_append.mp later with changes | counters
  · obtain ⟨row, _, rfl⟩ := Option.map_eq_some_iff.mp (Option.mem_toList.mp changes)
    trivial
  · simp only [counterWrites, mem_cons, not_mem_nil, or_false] at counters
    rcases counters with rfl | rfl | rfl <;> trivial

end CatalogWriter

def PlacedSession (state : Db × CatalogWriter) : Prop :=
  state.1.Placed ∧ ∀ x ∈ state.2.staged, x.Placed

theorem PlacedSession.call {env : Env} {db : Db} {w : CatalogWriter} (placed : PlacedSession (db, w))
    (call : WriterCall) : PlacedSession ((w.call env db call).db, (w.call env db call).writer) := by
  obtain ⟨stored, staged⟩ := placed
  cases call with
  | staging call =>
    simp only [CatalogWriter.call]
    split
    · rename_i called
      exact ⟨stored, staging_placed staged called⟩
    · exact ⟨stored, staged⟩
  | direct call => exact ⟨stored.direct env call, staged⟩
  | nextRowidRange tableId count =>
    simp only [CatalogWriter.call]
    split
    · rename_i ranged
      simp only [nextRowidRange] at ranged
      split at ranged
      · contradiction
      split at ranged
      · contradiction
      cases ranged
      exact ⟨stored.put trivial, staged⟩
    · exact ⟨stored, staged⟩

theorem PlacedSession.runCalls (placed : PlacedSession (db, w)) (calls : List WriterCall) :
    PlacedSession (runCalls env (db, w) calls) := by
  induction calls generalizing db w with
  | nil => exact placed
  | cons call rest ih => exact ih (placed.call call)

namespace Catalog

variable {catalog catalog' : Catalog}

theorem openCatalog_placed {db db' : Db} {store : CatalogStore} (placed : db.Placed)
    (opened : CatalogStore.openCatalog db nonce = .ok (store, db')) : db'.Placed := by
  simp only [CatalogStore.openCatalog, bind_ok] at opened
  obtain ⟨⟨c, db₀⟩, initialized, ⟨epoch, db₁⟩, acquired, finished⟩ := opened
  cases finished
  have started : db₀.Placed := by
    rcases initializeCatalog_ok initialized with ⟨_, _, rfl⟩ | ⟨_, _, rfl⟩
    · exact placed
    · refine placed.putAll fun x member => Family.placed_of_not_places ?_ _ _
      simp only [initialWrites, counterWrites, cons_append, nil_append,
        mem_cons, not_mem_nil, or_false] at member
      rcases member with rfl | rfl | rfl | rfl | rfl <;> rfl
  intro f k row found
  cases places : f.places with
  | false => exact Family.placed_of_not_places places k row
  | true =>
    have kept := (acquireEpoch_ok acquired).2.2.2 f (by rintro rfl; contradiction)
      (by rintro rfl; contradiction)
    exact started f k row (Db.get_of_family kept k ▸ found)

theorem Step.placed (placed : catalog.db.Placed) (step : Catalog.Step env catalog event catalog') :
    catalog'.db.Placed := by
  have session : ∀ calls,
      PlacedSession (runCalls env (catalog.db, catalog.store.beginWrite) calls) := by
    intro calls
    have begun : PlacedSession (catalog.db, catalog.store.beginWrite) := ⟨placed, by simp [CatalogStore.beginWrite]⟩
    exact begun.runCalls calls
  cases step with
  | session committed =>
    obtain ⟨db, w, ran, _, same, _⟩ := Session.commit_ok committed
    have before : PlacedSession (db, w) := ran ▸ session _
    rw [same]
    refine before.1.putAll fun x member => ?_
    rcases mem_append.mp member with staged | tail
    · exact before.2 x staged
    · exact commitTail_placed _ x tail
  | abandon => exact (session _).1
  | reopen opened => exact openCatalog_placed placed opened

theorem Reachable.placed (reachable : catalog.Reachable env) : catalog.db.Placed := by
  obtain ⟨nonce, store, db, events, opened, ran⟩ := reachable
  refine Run.invariant (fun catalog => catalog.db.Placed) (fun _ _ _ placed step => Step.placed placed step)
    ?_ ran
  refine openCatalog_placed (fun f k row found => ?_) opened
  have absent : Db.empty.get f k = none := rfl
  rw [absent] at found
  contradiction

end Catalog

end RockLake
