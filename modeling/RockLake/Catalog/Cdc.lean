import Mathlib.Data.List.Perm.Basic
import RockLake.Lib.Json
import RockLake.Catalog.Diffs
import RockLake.Catalog.Immutability

/-! Change data capture. A tailer remembers the last snapshot it exported; a poll turns the diff from
there to the latest snapshot into events, one for each row that began or ended in the range. The
events all carry the last snapshot of the range. -/
namespace RockLake

open List Db Lifetimes

inductive CdcChangeKind where
  | add
  | retire
  deriving DecidableEq

structure CdcEvent where
  snapshotId : Nat
  table : String
  kind : CdcChangeKind
  row : Json

structure CdcSnapshot where
  fromSnapshot : Nat
  toSnapshot : Nat
  events : List CdcEvent

namespace DiffKind

def tableName : DiffKind → String
  | .schema => "ducklake_schema"
  | .table => "ducklake_table"
  | .column => "ducklake_column"
  | .dataFile => "ducklake_data_file"

def json : (kind : DiffKind) → CdcChangeKind → kind.family.Row → Json
  | .schema, .add, row => .obj [("schema_id", .ofNat row.schemaId),
      ("schema_name", .str row.schemaName), ("begin_snapshot", .ofNat row.beginSnapshot)]
  | .schema, .retire, row => .obj [("schema_id", .ofNat row.schemaId),
      ("schema_name", .str row.schemaName), ("end_snapshot", .ofOption .ofNat row.endSnapshot)]
  | .table, .add, row => .obj [("table_id", .ofNat row.tableId), ("schema_id", .ofNat row.schemaId),
      ("table_name", .str row.tableName), ("begin_snapshot", .ofNat row.beginSnapshot)]
  | .table, .retire, row => .obj [("table_id", .ofNat row.tableId),
      ("schema_id", .ofNat row.schemaId), ("table_name", .str row.tableName),
      ("end_snapshot", .ofOption .ofNat row.endSnapshot)]
  | .column, .add, row => .obj [("column_id", .ofNat row.columnId), ("table_id", .ofNat row.tableId),
      ("column_name", .str row.columnName), ("column_type", .str row.dataType),
      ("begin_snapshot", .ofNat row.beginSnapshot)]
  | .column, .retire, row => .obj [("column_id", .ofNat row.columnId),
      ("table_id", .ofNat row.tableId), ("column_name", .str row.columnName),
      ("column_type", .str row.dataType), ("end_snapshot", .ofOption .ofNat row.endSnapshot)]
  | .dataFile, .add, row => .obj [("data_file_id", .ofNat row.dataFileId),
      ("table_id", .ofNat row.tableId), ("path", .str row.path),
      ("file_format", .str row.fileFormat), ("record_count", .ofNat row.recordCount),
      ("file_size_bytes", .ofNat row.fileSizeBytes),
      ("begin_snapshot", .ofOption .ofNat row.beginSnapshot)]
  | .dataFile, .retire, row => .obj [("data_file_id", .ofNat row.dataFileId),
      ("table_id", .ofNat row.tableId), ("path", .str row.path),
      ("end_snapshot", .ofOption .ofNat row.endSnapshot)]

end DiffKind

def cdcEvents (toSnapshot : Nat) (kind : DiffKind) (change : CdcChangeKind)
    (rows : List kind.family.Row) : List CdcEvent :=
  rows.map fun row => ⟨toSnapshot, kind.tableName, change, kind.json change row⟩

def CdcSnapshot.fromDiff (diff : SnapshotDiff) : CdcSnapshot :=
  let toSnapshot := diff.toSnapshot
  { fromSnapshot := diff.fromSnapshot
    toSnapshot
    events :=
      cdcEvents toSnapshot .schema .add diff.addedSchemas ++
      cdcEvents toSnapshot .schema .retire diff.retiredSchemas ++
      cdcEvents toSnapshot .table .add diff.addedTables ++
      cdcEvents toSnapshot .table .retire diff.retiredTables ++
      cdcEvents toSnapshot .column .add diff.addedColumns ++
      cdcEvents toSnapshot .column .retire diff.retiredColumns ++
      cdcEvents toSnapshot .dataFile .add diff.addedDataFiles ++
      cdcEvents toSnapshot .dataFile .retire diff.retiredDataFiles }

structure CdcTailer where
  lastExported : Nat

/-- The scans of a diff may fail; the tailer then stays where it was. -/
def CdcTailer.pollOnce (tailer : CdcTailer) (store : CatalogStore) (db : Db)
    (failure : Option CatalogError) : Except CatalogError (Option CdcSnapshot) × CdcTailer :=
  let reader := store.readLatest db
  let current := reader.snapshot
  if current ≤ tailer.lastExported then (.ok none, tailer)
  else
    match failure with
    | some e => (.error e, tailer)
    | none =>
      let diff := reader.snapshotDiff tailer.lastExported current
      if diff.isEmpty then (.ok none, ⟨current⟩)
      else (.ok (some (.fromDiff diff)), ⟨current⟩)

/-- What an event tells, apart from the snapshot it carries. -/
structure CdcChange where
  table : String
  kind : CdcChangeKind
  row : Json

def CdcEvent.change (event : CdcEvent) : CdcChange := ⟨event.table, event.kind, event.row⟩

def DiffKind.stamp (kind : DiffKind) : CdcChangeKind → kind.family.Row → Option Nat
  | .add, row => some (kind.family.beginOf row)
  | .retire, row => kind.family.endOf row

def DiffKind.change (kind : DiffKind) (change : CdcChangeKind) (row : kind.family.Row) : CdcChange :=
  ⟨kind.tableName, change, kind.json change row⟩

namespace Db

/-- One change for each stored row of a kind that was added, or retired, in a range of snapshots. -/
def changesOf (db : Db) (kind : DiffKind) (change : CdcChangeKind) (low high : Nat) :
    List CdcChange :=
  (db kind.family).collect fun _ row =>
    if stampedIn (kind.stamp change) low high row then some (kind.change change row)
    else none

def cdcStreams : List (DiffKind × CdcChangeKind) :=
  [(.schema, .add), (.schema, .retire), (.table, .add), (.table, .retire), (.column, .add),
   (.column, .retire), (.dataFile, .add), (.dataFile, .retire)]

theorem mem_cdcStreams (kind : DiffKind) (change : CdcChangeKind) : (kind, change) ∈ cdcStreams := by
  cases kind <;> cases change <;> decide

def changes (db : Db) (low high : Nat) : List CdcChange :=
  cdcStreams.flatMap fun stream => db.changesOf stream.1 stream.2 low high

variable {db : Db} {kind : DiffKind} {change : CdcChangeKind} {low middle high : Nat}

theorem changesOf_eq (r : CatalogReader) :
    r.db.changesOf kind change low high = ((r.listStored kind.family []).filter
      (stampedIn (kind.stamp change) low high)).map (kind.change change) := by
  rw [CatalogReader.listStored, scanPrefix_eq, changesOf, OrderedMap.collect, filter_map, map_map,
    ← filterMap_eq_map, filterMap_filter, filter_eq_self.mpr fun e _ => decide_eq_true nil_prefix]
  rfl

theorem changes_split (first : low ≤ middle) (second : middle ≤ high) :
    (db.changes low high).Perm (db.changes low middle ++ db.changes middle high) := by
  refine (List.Perm.flatMap_left _ fun _ _ => ?_).trans (flatMap_append_perm _ _ _).symm
  rw [changesOf_eq ⟨db, 0⟩, changesOf_eq ⟨db, 0⟩, changesOf_eq ⟨db, 0⟩, ← map_append]
  exact (stampedIn_split first second).map _

theorem changes_self : db.changes low low = [] := by
  refine flatMap_eq_nil_iff.mpr fun stream _ => ?_
  rw [changesOf_eq ⟨db, 0⟩, map_eq_nil_iff, filter_eq_nil_iff]
  simp [stampedIn_self]

end Db

namespace CdcSnapshot

variable {r : CatalogReader} {low high : Nat}

theorem fromDiff_events : (fromDiff (r.snapshotDiff low high)).events =
    Db.cdcStreams.flatMap fun stream => cdcEvents high stream.1 stream.2
      ((r.listStored stream.1.family []).filter
        (stampedIn (stream.1.stamp stream.2) low high)) := by
  simp only [Db.cdcStreams, flatMap_cons, flatMap_nil, append_nil, fromDiff, append_assoc]
  rfl

theorem fromDiff_changes :
    (fromDiff (r.snapshotDiff low high)).events.map CdcEvent.change = r.db.changes low high := by
  rw [fromDiff_events, map_flatMap, Db.changes]
  simp only [changesOf_eq, cdcEvents, map_map]
  rfl

theorem mem_fromDiff : event ∈ (fromDiff (r.snapshotDiff low high)).events ↔
    ∃ (kind : DiffKind) (change : CdcChangeKind) (k : Key) (row : kind.family.Row),
      r.db.get kind.family k = some row ∧
      stampedIn (kind.stamp change) low high row = true ∧
      event = ⟨high, kind.tableName, change, kind.json change row⟩ := by
  rw [fromDiff_events]
  simp only [mem_flatMap, cdcEvents, mem_map, mem_filter, CatalogReader.listStored,
    Prod.exists, mem_scanPrefix]
  constructor
  · rintro ⟨kind, change, _, row, ⟨⟨k, _, ⟨stored, _⟩, rfl⟩, stamped⟩, rfl⟩
    exact ⟨kind, change, k, _, stored, stamped, rfl⟩
  · rintro ⟨kind, change, k, row, stored, stamped, rfl⟩
    exact ⟨kind, change, mem_cdcStreams kind change, row,
      ⟨⟨k, row, ⟨stored, nil_prefix⟩, rfl⟩, stamped⟩, rfl⟩

end CdcSnapshot

/-- The field of an event's row that holds the snapshot of the change. -/
def CdcChangeKind.field : CdcChangeKind → String
  | .add => "begin_snapshot"
  | .retire => "end_snapshot"

/-- The event carries the snapshot at which its row began or ended. -/
def CdcEvent.Stamped (event : CdcEvent) : Prop :=
  event.row.u64 event.kind.field = some event.snapshotId

theorem DiffKind.json_stamp {kind : DiffKind} {change : CdcChangeKind} {row : kind.family.Row}
    (stamped : stampedIn (kind.stamp change) low high row = true) :
    (kind.json change row).u64 change.field = kind.stamp change row := by
  obtain ⟨time, at', after, _⟩ := stampedIn_eq_true.mp stamped
  cases kind <;> cases change
  case dataFile.add =>
    have begun : (row.beginSnapshot : Option Nat) = some time := by
      cases found : row.beginSnapshot with
      | none => simp [stamp, family, Family.beginOf, found] at at'; omega
      | some begun => simpa [stamp, family, Family.beginOf, found] using at'
    simp [json, CdcChangeKind.field, Json.u64, stamp, family, Family.beginOf, begun]
  all_goals simp [json, CdcChangeKind.field, Json.u64, stamp, family, Family.beginOf, Family.endOf]

theorem CdcSnapshot.stamped_iff (r : CatalogReader) (low high : Nat) :
    (∀ event ∈ (fromDiff (r.snapshotDiff low high)).events, event.Stamped) ↔
      ∀ (kind : DiffKind) (change : CdcChangeKind) k row, r.db.get kind.family k = some row →
        stampedIn (kind.stamp change) low high row = true →
        kind.stamp change row = some high := by
  constructor
  · intro all kind change k row stored stamped
    have carried := all _ (mem_fromDiff.mpr ⟨kind, change, k, row, stored, stamped, rfl⟩)
    exact (DiffKind.json_stamp stamped).symm.trans carried
  · intro last event member
    obtain ⟨kind, change, k, row, stored, stamped, rfl⟩ := mem_fromDiff.mp member
    exact (DiffKind.json_stamp stamped).trans (last kind change k row stored stamped)

namespace CdcTailer

def emits : Except CatalogError (Option CdcSnapshot) → List CdcEvent
  | .ok (some cdc) => cdc.events
  | _ => []

variable {tailer tailer' : CdcTailer} {store : CatalogStore} {db : Db}
  {failure : Option CatalogError}

theorem isEmpty_changes {r : CatalogReader} (empty : (r.snapshotDiff low high).isEmpty = true) :
    r.db.changes low high = [] := by
  simp only [SnapshotDiff.isEmpty, Bool.and_eq_true, List.isEmpty_iff] at empty
  obtain ⟨⟨⟨⟨⟨⟨⟨schemas, oldSchemas⟩, tables⟩, oldTables⟩, columns⟩, oldColumns⟩, files⟩, oldFiles⟩ :=
    empty
  have added : ∀ kind, (r.snapshotDiff low high).added kind = [] := fun kind => by
    cases kind
    exacts [schemas, tables, columns, files]
  have retired : ∀ kind, (r.snapshotDiff low high).retired kind = [] := fun kind => by
    cases kind
    exacts [oldSchemas, oldTables, oldColumns, oldFiles]
  refine flatMap_eq_nil_iff.mpr fun stream _ => ?_
  obtain ⟨kind, change⟩ := stream
  rw [changesOf_eq, map_eq_nil_iff]
  cases change with
  | add => exact (r.snapshotDiff_added low high kind).symm.trans (added kind)
  | retire => exact (r.snapshotDiff_retired low high kind).symm.trans (retired kind)

/-- A poll exports the changes after the last exported snapshot, up to the one it moves on to: the
latest, or where it was. -/
theorem pollOnce_changes (polled : tailer.pollOnce store db failure = (reply, tailer')) :
    (emits reply).map CdcEvent.change = db.changes tailer.lastExported tailer'.lastExported ∧
      (tailer' = tailer ∨
        tailer.lastExported < store.latestSnapshot ∧ tailer'.lastExported = store.latestSnapshot) := by
  simp only [pollOnce] at polled
  split at polled
  · cases polled
    exact ⟨changes_self.symm, .inl rfl⟩
  · rename_i behind
    rw [Nat.not_le] at behind
    split at polled
    · cases polled
      exact ⟨changes_self.symm, .inl rfl⟩
    · split at polled
      · rename_i empty
        cases polled
        exact ⟨(isEmpty_changes empty).symm, .inr ⟨behind, rfl⟩⟩
      · cases polled
        exact ⟨CdcSnapshot.fromDiff_changes, .inr ⟨behind, rfl⟩⟩

theorem pollOnce_some (polled : tailer.pollOnce store db failure = (.ok (some cdc), tailer')) :
    cdc = .fromDiff ((store.readLatest db).snapshotDiff tailer.lastExported store.latestSnapshot) ∧
      tailer'.lastExported = store.latestSnapshot := by
  simp only [pollOnce] at polled
  split at polled
  · cases polled
  split at polled
  · cases polled
  · split at polled
    · cases polled
    · cases polled
      exact ⟨rfl, rfl⟩

/-- The events of a diff, and those of a poll, carry the snapshots of their changes exactly if the
range has changes of its last snapshot only. -/
theorem cdc_events_stamped_iff (db : Db) :
    (∀ snapshot low high : Nat,
      (∀ event ∈ (CdcSnapshot.fromDiff ((CatalogReader.mk db snapshot).snapshotDiff low high)).events,
        event.Stamped) ↔
      ∀ (kind : DiffKind) (change : CdcChangeKind) k row, db.get kind.family k = some row →
        stampedIn (kind.stamp change) low high row = true →
        kind.stamp change row = some high) ∧
    ∀ (tailer tailer' : CdcTailer) (store : CatalogStore) (failure : Option CatalogError)
        (cdc : CdcSnapshot), tailer.pollOnce store db failure = (.ok (some cdc), tailer') →
      ((∀ event ∈ cdc.events, event.Stamped) ↔
        ∀ (kind : DiffKind) (change : CdcChangeKind) k row, db.get kind.family k = some row →
          stampedIn (kind.stamp change) tailer.lastExported tailer'.lastExported row = true →
          kind.stamp change row = some tailer'.lastExported) := by
  refine ⟨fun snapshot low high => CdcSnapshot.stamped_iff ⟨db, snapshot⟩ low high, ?_⟩
  intro tailer tailer' store failure cdc polled
  obtain ⟨rfl, latest⟩ := pollOnce_some polled
  rw [latest]
  exact CdcSnapshot.stamped_iff _ _ _

/-- Two sessions create a schema each. The events of a poll over both carry the second snapshot, also
the one about the schema that began at the first, and so do those of the diff. -/
theorem wide_poll_misstamps : ∃ (catalog : Catalog) (cdc : CdcSnapshot) (tailer : CdcTailer),
    catalog.Reachable Env.trivial ∧
    (CdcTailer.mk 0).pollOnce catalog.store catalog.db none = (.ok (some cdc), tailer) ∧
    cdc = .fromDiff ((CatalogReader.mk catalog.db 2).snapshotDiff 0 2) ∧
    cdc.events.map (fun event => (event.snapshotId, event.kind, event.row.u64 "begin_snapshot")) =
      [(2, .add, some 1), (2, .add, some 2)] ∧
    ¬ ∀ event ∈ cdc.events, event.Stamped := by
  refine ⟨_, _, _, .session (.session (.opened "a" rfl) Catalog.createMain rfl) Catalog.createMain
    rfl, rfl, rfl, (fun listed => ⟨listed, fun all => ?_⟩) rfl⟩
  obtain ⟨event, member, fields⟩ := mem_map.mp ((congrArg (_ ∈ ·) listed).mpr mem_cons_self)
  simp only [Prod.mk.injEq] at fields
  have carried := all event member
  rw [CdcEvent.Stamped, fields.1, fields.2.1, CdcChangeKind.field, fields.2.2] at carried
  contradiction

/-- A poll after a session that created a schema and a table. -/
theorem cdc_events_stamped_single : ∃ (catalog : Catalog) (cdc : CdcSnapshot) (tailer : CdcTailer),
    catalog.Reachable Env.trivial ∧
    (CdcTailer.mk 0).pollOnce catalog.store catalog.db none = (.ok (some cdc), tailer) ∧
    cdc.events.length = 2 ∧ ∀ event ∈ cdc.events, event.Stamped := by
  refine ⟨_, _, _, .session (.opened "a" rfl) ⟨Catalog.createMain.calls ++
      [.staging (.createTable 1 "orders" none "5c2e")], {}⟩ rfl,
    (fun polled => ⟨polled, ?_, ((cdc_events_stamped_iff _).2 _ _ _ none _ polled).mpr ?_⟩) rfl⟩
  · rfl
  · intro kind change k row found stamped
    obtain ⟨time, at', after, bound⟩ := stampedIn_eq_true.mp stamped
    replace after : 0 < time := after
    replace bound : time ≤ 1 := bound
    rw [at']
    exact congrArg some (show time = 1 by omega)

end CdcTailer

end RockLake
