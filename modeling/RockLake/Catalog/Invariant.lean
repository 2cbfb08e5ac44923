import RockLake.Catalog.Frame

/-! What the committed store always looks like, and what a staging call may add to it. Keys repeat
the identifiers of their rows, identifiers and snapshots stay below the allocation counters, and
every staged pair retires a stored row, creates a row under an unused key, or belongs to a family
without versions. -/
namespace RockLake

open List Option

namespace Family

/-- The key of a row is built from the row's own fields, and allocated identifiers are below the
counters. Columns keep caller-chosen identifiers, since a renamed row is given by the caller. -/
def Keyed (c : CounterCache) : (f : Family) → Key → f.Row → Prop
  | .schema, k, row => k = keySchema row.schemaId ∧ row.schemaId < c.nextCatalogId
  | .table, k, row =>
    k = keyTable row.schemaId row.tableId row.beginSnapshot ∧ row.tableId < c.nextCatalogId
  | .column, k, row => k = keyColumn row.tableId row.columnId row.beginSnapshot
  | .view, k, row => k = keyView row.schemaId row.viewId row.beginSnapshot
  | .macros, k, row => k = keyMacro row.schemaId row.macroId row.beginSnapshot
  | .dataFile, k, row => k = keyDataFile row.tableId row.dataFileId ∧ row.dataFileId < c.nextFileId
  | .dataFileBySnapshot, k, row =>
    k = keyDataFileBySnapshot row.tableId (row.beginSnapshot.getD 0) row.dataFileId ∧
      row.dataFileId < c.nextFileId
  | .deleteFile, k, row =>
    k = keyDeleteFile row.dataFileId row.deleteFileId ∧ row.deleteFileId < c.nextFileId
  | .partitionInfo, k, row => k = keyPartitionInfo row.tableId row.partitionId row.beginSnapshot
  | .sortInfo, k, row => k = keySortInfo row.tableId row.sortId row.beginSnapshot
  | .tag, k, row => ∃ hash, k = keyTag row.objectId hash row.beginSnapshot
  | .columnTag, k, row =>
    ∃ hash, k = keyColumnTag row.tableId row.columnId hash row.beginSnapshot
  | .inlinedInsert, k, row => k = keyInlinedInsert row.tableId row.schemaVersion row.rowId
  | .inlinedDelete, k, row => k = keyInlinedDelete row.tableId row.dataFileId row.rowId
  | .tableById, k, _ => ∃ tableId, k = keyTableById tableId ∧ tableId < c.nextCatalogId
  | .snapshotChanges, k, row =>
    k = keySnapshotChanges row.snapshotId ∧ row.snapshotId < c.nextSnapshotId
  | _, _, _ => True

/-- A stored row: keyed, begun before the next snapshot and, once retired, ended before it. -/
structure Fits (c : CounterCache) (f : Family) (k : Key) (row : f.Row) : Prop where
  keyed : f.Keyed c k row
  begun : f.versioned = true → f.beginOf row < c.nextSnapshotId
  ended : ∀ ended, f.endOf row = some ended → ended < c.nextSnapshotId

variable {f : Family} {c d : CounterCache} {k : Key} {row : f.Row}

theorem Keyed.mono (le : c.Le d) (keyed : f.Keyed c k row) : f.Keyed d k row := by
  have snapshot := le.snapshot
  have catalog := le.catalog
  have file := le.file
  cases f <;> simp only [Keyed] at keyed ⊢ <;> grind

theorem Keyed.setEnd (keyed : f.Keyed c k row) (ended : Option Nat) :
    f.Keyed c k (f.setEnd ended row) := by
  cases f <;> exact keyed

theorem Fits.mono (le : c.Le d) (fits : f.Fits c k row) : f.Fits d k row where
  keyed := fits.keyed.mono le
  begun versioned := (fits.begun versioned).trans_le le.snapshot
  ended e found := (fits.ended e found).trans_le le.snapshot

/-- Families whose keys end in, or contain, the begin snapshot of the row. -/
def beginKeyed : Family → Bool
  | .table | .column | .view | .macros | .dataFileBySnapshot | .partitionInfo | .sortInfo | .tag
  | .columnTag => true
  | _ => false

/-- In a begin-keyed family a row under a key of the coming snapshot has no predecessor. -/
theorem Keyed.unused (beginKeyed : f.beginKeyed = true) (keyed : f.Keyed d k row)
    (begun : f.beginOf row = c.nextSnapshotId) (old : f.Row) : ¬ f.Fits c k old := by
  intro fits
  have earlier : f.beginOf old < c.nextSnapshotId := by
    refine fits.begun ?_
    cases f <;> first | rfl | contradiction
  have stored := fits.keyed
  have same : f.beginOf row = f.beginOf old := by
    cases f <;> try contradiction
    all_goals
      simp only [Keyed, keyTable, keyColumn, keyView, keyMacro, keyDataFileBySnapshot,
        keyPartitionInfo, keySortInfo, keyTag, keyColumnTag, beginOf] at keyed stored ⊢
      grind
  omega

/-- Families tied to one another: table rows to the table index, data files to the snapshot
index. -/
def linked : Family → Bool
  | .table | .tableById | .dataFile | .dataFileBySnapshot => true
  | _ => false

def callerKeyed : Family → Bool
  | .inlinedInsert | .inlinedDelete => true
  | _ => false

/-- Families behind the listings of schemas, tables, columns, files and inlined rows. -/
def history : Family → Bool
  | .schema | .table | .column | .dataFile | .dataFileBySnapshot | .deleteFile | .inlinedInsert
  | .inlinedDelete => true
  | _ => false

end Family

def Db.unretired (db : Db) (f : Family) (k : Key) : Bool :=
  (db.get f k).all fun row => (f.endOf row).isNone

/-- A careful call does not retire a row of the store again and does not register an inlined row
under a key in use. The writer itself checks neither. -/
def StagingCall.careful (db : Db) : StagingCall → Bool
  | .dropSchema schemaId => db.unretired .schema (keySchema schemaId)
  | .dropTable schemaId tableId begun => db.unretired .table (keyTable schemaId tableId begun)
  | .dropColumn tableId columnId begun => db.unretired .column (keyColumn tableId columnId begun)
  | .markInlinedInsertDeleted tableId version rowId =>
    db.unretired .inlinedInsert (keyInlinedInsert tableId version rowId)
  | .registerInlinedInsert tableId version rowId _ =>
    (db.get .inlinedInsert (keyInlinedInsert tableId version rowId)).isNone
  | .registerInlinedDelete tableId dataFileId rowId =>
    (db.get .inlinedDelete (keyInlinedDelete tableId dataFileId rowId)).isNone
  | _ => true

def Db.Sound (db : Db) (c : CounterCache) : Prop :=
  ∀ (f : Family) (k : Key) (row : f.Row), db.get f k = some row → f.Fits c k row

def DataFileRow.indexKey (row : DataFileRow) : Key :=
  keyDataFileBySnapshot row.tableId (row.beginSnapshot.getD 0) row.dataFileId

def DataFileRow.fileKey (row : DataFileRow) : Key := keyDataFile row.tableId row.dataFileId

/-- The snapshot index holds exactly the rows stored under the data-file keys. -/
structure Db.Mirrored (db : Db) : Prop where
  indexed : ∀ k row, db.get .dataFile k = some row →
    db.get .dataFileBySnapshot row.indexKey = some row
  stored : ∀ k row, db.get .dataFileBySnapshot k = some row →
    db.get .dataFile row.fileKey = some row

def Db.Indexed (db : Db) : Prop :=
  ∀ k row, db.get .table k = some row → db.get .tableById (keyTableById row.tableId) =
    some row.schemaId

/-- What one staged pair may be, for a session with counters `c` before the call and `d` after
it. The proposition `careful` says that the calls of the session are careful. -/
inductive Admissible (db : Db) (careful : Prop) (c d : CounterCache) : Write → Prop
  | retire {f : Family} {k : Key} {row : f.Row} (retires : f.retirable = true)
      (stored : db.get f k = some row)
      (current : careful → f.history = true → f.endOf row = none) :
      Admissible db careful c d ⟨f, k, f.setEnd (some c.nextSnapshotId) row⟩
  | create {f : Family} {k : Key} {row : f.Row} (versioned : f.versioned = true)
      (begun : f.beginOf row = c.nextSnapshotId) (live : f.endOf row = none)
      (keyed : f.Keyed d k row) (unused : f.callerKeyed = false → ∀ old, ¬ f.Fits c k old)
      (chosen : f.callerKeyed = true → careful → db.get f k = none) :
      Admissible db careful c d ⟨f, k, row⟩
  | plain {f : Family} {k : Key} {row : f.Row} (unversioned : f.unversioned = true)
      (keyed : f.Keyed d k row) (unused : f = .tableById → ∀ old, ¬ f.Fits c k old) :
      Admissible db careful c d ⟨f, k, row⟩

theorem Admissible.ofBeginKeyed (beginKeyed : f.beginKeyed = true)
    (begun : f.beginOf row = c.nextSnapshotId) (live : f.endOf row = none) (keyed : f.Keyed d k row) :
    Admissible db careful c d ⟨f, k, row⟩ := by
  have versioned : f.versioned = true := by
    cases f <;> first | rfl | contradiction
  refine .create versioned begun live keyed (fun _ => keyed.unused beginKeyed begun) ?_
  intro chosen
  cases f <;> contradiction

def filePair (row : DataFileRow) : List Write :=
  [⟨.dataFile, row.fileKey, row⟩, ⟨.dataFileBySnapshot, row.indexKey, row⟩]

def tablePair (row : TableRow) : List Write :=
  [⟨.table, keyTable row.schemaId row.tableId row.beginSnapshot, row⟩,
   ⟨.tableById, keyTableById row.tableId, row.schemaId⟩]

/-- Staged pairs that keep the two indexes in step with the rows they index: data files come with
their index entry, and table rows are retired in place. -/
inductive Shape (db : Db) (snapshot : Nat) : List Write → Prop
  | nil : Shape db snapshot []
  | unlinked {x : Write} {rest : List Write} (free : x.family.linked = false)
      (tail : Shape db snapshot rest) : Shape db snapshot (x :: rest)
  | file (row : DataFileRow) {rest : List Write} (tail : Shape db snapshot rest) :
      Shape db snapshot (filePair row ++ rest)
  | retiredTable {k : Key} {row : TableRow} {rest : List Write}
      (stored : db.get .table k = some row) (tail : Shape db snapshot rest) :
      Shape db snapshot
        (⟨.table, k, { row with endSnapshot := some snapshot }⟩ :: rest)

theorem Shape.append (left : Shape db snapshot first) (right : Shape db snapshot second) :
    Shape db snapshot (first ++ second) := by
  induction left with
  | nil => exact right
  | unlinked free _ ih => exact .unlinked free ih
  | file row _ ih => exact .file row ih
  | retiredTable stored _ ih => exact .retiredTable stored ih

theorem Shape.ofUnlinked (free : ∀ x ∈ writes, x.family.linked = false) : Shape db snapshot writes := by
  induction writes with
  | nil => exact .nil
  | cons x rest ih =>
    exact .unlinked (free x mem_cons_self)
      (ih fun y member => free y (mem_cons_of_mem _ member))

/-- What a successful staging call stages. -/
structure StagingStep (db : Db) (careful : Prop) (w w' : CatalogWriter) (new : List Write) :
    Prop where
  staged : w'.staged = w.staged ++ new
  admissible : ∀ x ∈ new, Admissible db careful w.counters w'.counters x
  shape : Shape db w.snapshotId new ∨ ∃ row, row.tableId = w.counters.nextCatalogId ∧
    new = tablePair row

namespace CatalogWriter

variable {db : Db} {w w' : CatalogWriter}

theorem unretired_end (unretired : db.unretired f key = true) (stored : db.get f key = some row) :
    f.endOf row = none := by
  simpa [Db.unretired, stored] using unretired

theorem retireLive_admissible (retires : f.retirable = true) :
    ∀ x ∈ w.retireLive f select (db.scanPrefix f start), Admissible db careful w.counters d x := by
  intro x member
  simp only [retireLive, List.mem_map, mem_filter, Bool.and_eq_true, isNone_iff_eq_none] at member
  obtain ⟨e, ⟨scanned, _, live⟩, rfl⟩ := member
  exact .retire retires ((db.mem_scanPrefix).mp scanned).1 fun _ _ => live

theorem retireDataFiles_admissible (mirrored : db.Mirrored) :
    ∀ x ∈ w.retireDataFiles tableId (liveDataFiles db tableId),
      Admissible db careful w.counters d x := by
  intro x member
  simp only [retireDataFiles, liveDataFiles, mem_flatMap, mem_filter] at member
  obtain ⟨⟨k, row⟩, ⟨scanned, owned⟩, staged⟩ := member
  have stored := ((db.mem_scanPrefix).mp scanned).1
  simp only [Bool.and_eq_true, decide_eq_true_eq, isNone_iff_eq_none] at owned
  rcases mem_pair.mp staged with rfl | rfl
  · exact .retire (f := .dataFile) rfl stored fun _ _ => owned.2
  · have index := mirrored.indexed k row stored
    rw [DataFileRow.indexKey, owned.1] at index
    exact .retire (f := .dataFileBySnapshot) rfl index fun _ _ => owned.2

theorem retireLive_shape (free : f.linked = false) :
    Shape db w.snapshotId (w.retireLive f select entries) := by
  apply Shape.ofUnlinked
  intro x member
  rw [retireLive_family member]
  exact free

theorem retireDataFiles_shape (sound : db.Sound c) :
    Shape db w.snapshotId (w.retireDataFiles tableId (liveDataFiles db tableId)) := by
  have files : ∀ e ∈ liveDataFiles db tableId, e.1 = e.2.fileKey ∧ e.2.tableId = tableId := by
    intro e member
    simp only [liveDataFiles, mem_filter, Bool.and_eq_true, decide_eq_true_eq] at member
    exact ⟨(sound .dataFile _ _ ((db.mem_scanPrefix).mp member.1).1).keyed.1, member.2.1⟩
  generalize liveDataFiles db tableId = entries at files
  induction entries with
  | nil => exact .nil
  | cons e rest ih =>
    obtain ⟨key, owner⟩ := files e mem_cons_self
    obtain ⟨k, row⟩ := e
    simp only at key owner
    subst key owner
    exact .file { row with endSnapshot := some w.snapshotId }
      (ih fun e member => files e (mem_cons_of_mem _ member))

theorem dropTableCascade_shape (sound : db.Sound c) :
    Shape db w.snapshotId (w.dropTableCascade db tableId) := by
  refine .append (.append (.append (.append (.append (.append (.append ?_ ?_) ?_) ?_) ?_) ?_) ?_) ?_
  case refine_2 => exact retireDataFiles_shape sound
  all_goals exact retireLive_shape rfl

theorem dropTableCascade_admissible (mirrored : db.Mirrored) :
    ∀ x ∈ w.dropTableCascade db tableId, Admissible db careful w.counters d x := by
  intro x member
  simp only [dropTableCascade, mem_append] at member
  rcases member with ((((((column | file) | partitioned) | tag) | columnTag) | sorted) | deleted) |
    inlined
  case inl.inl.inl.inl.inl.inl.inr => exact retireDataFiles_admissible mirrored x file
  all_goals exact retireLive_admissible rfl x ‹_›

theorem created_step (staged : w'.staged = w.staged ++ [x]) (free : x.family.linked = false)
    (admissible : Admissible db careful w.counters w'.counters x) :
    ∃ new, StagingStep db careful w w' new := by
  refine ⟨[x], staged, ?_, .inl (.unlinked free .nil)⟩
  intro y member
  rw [mem_singleton] at member
  subst member
  exact admissible

theorem createSchema_step (name uuid : String) :
    ∃ new, StagingStep db careful w (w.createSchema name uuid).2 new := by
  refine created_step rfl rfl (.create rfl rfl rfl ⟨rfl, Nat.lt_succ_self _⟩ (fun _ old fits => ?_)
    (by simp [Family.callerKeyed]))
  obtain ⟨key, bound⟩ := fits.keyed
  simp only [keySchema, cons.injEq, and_true] at key
  exact absurd bound (key ▸ lt_irrefl _)

theorem createTable_step (schemaId : Nat) (name : String) (path : Option String) (uuid : String) :
    ∃ new, StagingStep db careful w (w.createTable schemaId name path uuid).2 new := by
  refine ⟨_, rfl, ?_, .inr ⟨w.newTableRow schemaId name path uuid, rfl, rfl⟩⟩
  intro x member
  rcases mem_pair.mp member with rfl | rfl
  · exact .ofBeginKeyed rfl rfl rfl ⟨rfl, Nat.lt_succ_self _⟩
  refine .plain rfl ⟨_, rfl, Nat.lt_succ_self _⟩ ?_
  rintro _ old fits
  obtain ⟨tableId, key, bound⟩ := fits.keyed
  simp only [keyTableById, cons.injEq, and_true] at key
  exact absurd bound (key ▸ lt_irrefl _)

theorem dropTable_step (sound : db.Sound c) (mirrored : db.Mirrored)
    (current : careful → db.unretired .table (keyTable schemaId tableId begun) = true)
    (dropped : w.dropTable db schemaId tableId begun = .ok w') :
    ∃ new, StagingStep db careful w w' new := by
  obtain ⟨row, stored, rfl⟩ := dropTable_ok.mp dropped
  refine ⟨_, rfl, ?_, .inl (.retiredTable stored (dropTableCascade_shape sound))⟩
  intro x member
  rcases mem_cons.mp member with rfl | cascade
  · exact .retire (f := .table) rfl stored fun isCareful _ => unretired_end (current isCareful) stored
  · exact dropTableCascade_admissible mirrored x cascade

theorem registerDataFile_step (tableId : Nat) (spec : DataFileSpec) :
    ∃ new, StagingStep db careful w (w.registerDataFileWithMetadata db tableId spec).2 new := by
  refine ⟨_, rfl, ?_, .inl (.file (w.newDataFileRow db tableId spec) .nil)⟩
  intro x member
  rcases mem_pair.mp member with rfl | rfl
  · refine .create rfl rfl rfl ⟨rfl, Nat.lt_succ_self _⟩ ?_ (by simp [Family.callerKeyed])
    intro _ old fits
    obtain ⟨key, bound⟩ := fits.keyed
    simp only [keyDataFile, cons.injEq, and_true] at key
    exact absurd bound (key.2 ▸ lt_irrefl _)
  · exact .ofBeginKeyed rfl rfl rfl ⟨rfl, Nat.lt_succ_self _⟩

theorem registerDeleteFile_step (dataFileId : Nat) (spec : DeleteFileSpec) :
    ∃ new, StagingStep db careful w (w.registerDeleteFileWithMetadata dataFileId spec).2 new := by
  refine created_step rfl rfl (.create rfl rfl rfl ⟨rfl, Nat.lt_succ_self _⟩ (fun _ old fits => ?_)
    (by simp [Family.callerKeyed]))
  obtain ⟨key, bound⟩ := fits.keyed
  simp only [keyDeleteFile, cons.injEq, and_true] at key
  exact absurd bound (key.2 ▸ lt_irrefl _)

section

variable (retires : f.retirable = true) (free : f.linked = false) (current : careful → f.history = true → db.unretired f key = true)
include retires free current

theorem retired_step
    (called : checked (w.retireRow db f key what) = .ok (reply, w')) :
    ∃ new, StagingStep db careful w w' new := by
  obtain ⟨row, stored, rfl⟩ := retireRow_ok.mp (checked_ok.mp called).2
  exact created_step rfl free (.retire retires stored fun isCareful inHistory =>
    unretired_end (current isCareful inHistory) stored)

theorem dropped_step
    (called : checked ((w.retireRow db f key what).map markSchemaChanged) = .ok (reply, w')) :
    ∃ new, StagingStep db careful w w' new := by
  obtain ⟨row, stored, rfl⟩ := dropped_ok.mp (checked_ok.mp called).2
  exact created_step rfl free (.retire retires stored fun isCareful inHistory =>
    unretired_end (current isCareful inHistory) stored)

end

theorem liveColumn_some (found : liveColumn db tableId columnId = some (k, row)) :
    db.get .column k = some row ∧ [tableId] <+: k ∧ row.columnId = columnId ∧
      row.endSnapshot = none := by
  unfold liveColumn at found
  have scanned := (db.mem_scanPrefix (f := .column)).mp (mem_of_find?_eq_some found)
  have selected := find?_some found
  simp only [Bool.and_eq_true, decide_eq_true_eq, isNone_iff_eq_none] at selected
  exact ⟨scanned.1, scanned.2, selected.1, selected.2⟩

theorem staging_step (sound : db.Sound c) (mirrored : db.Mirrored) {call : StagingCall}
    (isCareful : careful → call.careful db = true)
    (called : w.staging env db call = .ok (reply, w')) : ∃ new, StagingStep db careful w w' new := by
  cases call with
  | markSchemaChanged | addSnapshotChanges =>
    cases called
    exact ⟨[], (append_nil _).symm, by simp, .inl .nil⟩
  | createSchema name uuid => cases called; exact createSchema_step name uuid
  | dropSchema | dropColumn => exact dropped_step rfl rfl (fun h _ => isCareful h) called
  | createTable schemaId name path uuid => cases called; exact createTable_step ..
  | dropTable schemaId tableId begun =>
    exact dropTable_step sound mirrored isCareful (checked_ok.mp called).2
  | addColumn | insertRenamedColumn | createView | createMacro | addSortInfo =>
    cases called
    exact created_step rfl rfl (.ofBeginKeyed rfl rfl rfl rfl)
  | renameColumn tableId columnId =>
    obtain ⟨_, _, live, _, rfl⟩ := staging_renameColumn called
    obtain ⟨stored, _, _, current⟩ := liveColumn_some live
    exact created_step rfl rfl (.retire (f := .column) rfl stored fun _ _ => current)
  | registerDataFile tableId spec => cases called; exact registerDataFile_step tableId spec
  | registerDeleteFile dataFileId spec => cases called; exact registerDeleteFile_step dataFileId spec
  | registerInlinedInsert tableId version rowId payload =>
    obtain ⟨_, rfl⟩ := registerInlinedInsert_ok.mp (checked_ok.mp called).2
    exact created_step rfl rfl (.create rfl rfl rfl rfl (by simp [Family.callerKeyed])
      fun _ h => isNone_iff_eq_none.mp (isCareful h))
  | registerInlinedDataTable | registerSchemaVersion | addMacroImpl =>
    cases called
    exact created_step rfl rfl (.plain rfl trivial (by simp))
  | markInlinedInsertDeleted tableId version rowId =>
    exact retired_step rfl rfl (fun h _ => isCareful h) called
  | registerInlinedDelete tableId dataFileId rowId =>
    cases called
    exact created_step rfl rfl
        (.create rfl rfl rfl rfl (by simp [Family.callerKeyed])
          fun _ h => isNone_iff_eq_none.mp (isCareful h))
  | dropView | dropMacro => exact dropped_step rfl rfl (fun _ h => absurd h (by decide)) called
  | setTag | setColumnTag =>
    cases called
    exact created_step rfl rfl (.ofBeginKeyed rfl rfl rfl ⟨_, rfl⟩)
  | removeTag | removeColumnTag =>
    exact retired_step rfl rfl (fun _ h => absurd h (by decide)) called
  | setMetadata scope scopeId key value =>
    obtain ⟨_, _, rfl⟩ := map_ok.mp (checked_ok.mp called).2
    exact created_step rfl rfl (.plain rfl trivial (by simp))

end CatalogWriter

end RockLake
