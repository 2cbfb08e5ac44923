import RockLake.Catalog.Store

/-! What a staging call leaves alone, whatever the store holds: the identity of the writer, the
snapshot it will commit under and everything staged before. Counters only grow, and new pairs are
staged in a fixed set of families. -/
namespace RockLake

open List Db Family

def Family.unversioned : Family → Bool
  | .metadata | .inlinedDataTables | .schemaVersions | .macroImpl | .tableById => true
  | _ => false

def Family.stageable (f : Family) : Bool := f.versioned || f.unversioned

/-- Families that only a commit writes: neither ancillary nor counters. -/
def Family.core (f : Family) : Bool := !f.ancillary && f ≠ .counter

theorem DirectCall.apply_core (env : Env) (db : Db) (call : DirectCall) (core : f.core = true) :
    call.apply env db f = db f := by
  refine call.apply_family env db ?_
  rintro rfl
  simp [Family.core, call.family_ancillary] at core

theorem DirectCall.apply_counter (env : Env) (db : Db) (call : DirectCall) :
    call.apply env db .counter = db .counter := by
  refine call.apply_family env db fun same => ?_
  have ancillary := call.family_ancillary
  rw [← same] at ancillary
  contradiction

/-- The families a drop of a table stages into: its own and those of the cascade. -/
def cascadeFamilies : List Family :=
  [.table, .column, .dataFile, .dataFileBySnapshot, .partitionInfo, .tag, .columnTag, .sortInfo,
   .deleteFile, .inlinedInsert]

def StagingCall.families : StagingCall → List Family
  | .markSchemaChanged | .addSnapshotChanges .. => []
  | .createSchema .. | .dropSchema .. => [.schema]
  | .createTable .. => [.table, .tableById]
  | .dropTable .. => cascadeFamilies
  | .addColumn .. | .dropColumn .. | .renameColumn .. | .insertRenamedColumn .. => [.column]
  | .registerDataFile .. => [.dataFile, .dataFileBySnapshot]
  | .registerDeleteFile .. => [.deleteFile]
  | .registerInlinedInsert .. | .markInlinedInsertDeleted .. => [.inlinedInsert]
  | .registerInlinedDataTable .. => [.inlinedDataTables]
  | .registerSchemaVersion .. => [.schemaVersions]
  | .registerInlinedDelete .. => [.inlinedDelete]
  | .createView .. | .dropView .. => [.view]
  | .createMacro .. | .dropMacro .. => [.macros]
  | .addMacroImpl .. => [.macroImpl]
  | .setTag .. | .removeTag .. => [.tag]
  | .setColumnTag .. | .removeColumnTag .. => [.columnTag]
  | .addSortInfo .. => [.sortInfo]
  | .setMetadata .. => [.metadata]

def StagingCall.catalogIds : StagingCall → Nat
  | .createSchema .. | .createTable .. | .addColumn .. | .createView .. | .createMacro ..
  | .addMacroImpl .. => 1
  | _ => 0

def StagingCall.fileIds : StagingCall → Nat
  | .registerDataFile .. | .registerDeleteFile .. => 1
  | _ => 0

/-- The counters after further identifiers have been allocated. -/
def CounterCache.advance (c : CounterCache) (catalogIds fileIds : Nat) : CounterCache :=
  { c with nextCatalogId := c.nextCatalogId + catalogIds, nextFileId := c.nextFileId + fileIds }

def StagingCall.changes (w : CatalogWriter) : StagingCall → Option SnapshotChangesRow
  | .addSnapshotChanges kind info schemaId tableId =>
    (w.addSnapshotChanges kind info schemaId tableId).pendingSnapshotChanges
  | _ => w.pendingSnapshotChanges

/-- The effect of a successful staging call on the writer, apart from the staged rows. -/
structure StagingFrame (w w' : CatalogWriter) : Prop where
  staged : ∃ new, w'.staged = w.staged ++ new ∧ ∀ x ∈ new, x.family.stageable = true
  snapshot : w'.counters.nextSnapshotId = w.counters.nextSnapshotId
  catalog : w.counters.nextCatalogId ≤ w'.counters.nextCatalogId
  file : w.counters.nextFileId ≤ w'.counters.nextFileId
  epoch : w'.writerEpoch = w.writerEpoch
  nonce : w'.writerNonce = w.writerNonce

theorem StagingFrame.le (frame : StagingFrame w w') :
    w.counters.Le w'.counters :=
  ⟨frame.snapshot.ge, frame.catalog, frame.file⟩

theorem StagingFrame.refl (w : CatalogWriter) : StagingFrame w w :=
  ⟨⟨[], (append_nil _).symm, by simp⟩, rfl, le_rfl, le_rfl, rfl, rfl⟩

theorem StagingFrame.trans (first : StagingFrame w w') (second : StagingFrame w' w'') :
    StagingFrame w w'' := by
  obtain ⟨earlier, staged, stageable⟩ := first.staged
  obtain ⟨later, staged', stageable'⟩ := second.staged
  refine ⟨⟨earlier ++ later, ?_, ?_⟩, second.snapshot.trans first.snapshot,
    first.catalog.trans second.catalog, first.file.trans second.file,
    second.epoch.trans first.epoch, second.nonce.trans first.nonce⟩
  · rw [staged', staged, append_assoc]
  · intro x member
    rcases mem_append.mp member with old | new
    · exact stageable x old
    · exact stageable' x new

theorem bind_ok {g : α → Except ε β} :
    (x >>= g) = .ok b ↔ ∃ a, x = .ok a ∧ g a = .ok b := by
  cases x <;> simp [bind, Except.bind]

namespace CatalogWriter

variable {env : Env} {db : Db} {w w' : CatalogWriter}

theorem map_ok {x : Except CatalogError α} :
    x.map g = .ok b ↔ ∃ a, x = .ok a ∧ g a = b := by
  cases x <;> simp [Except.map]

theorem checked_ok :
    checked x = .ok (reply, w') ↔ reply = .unit ∧ x = .ok w' := by
  cases x <;> simp [checked, unit, Except.bind, eq_comm]

theorem retireRow_ok :
    w.retireRow db f key what = .ok w' ↔ ∃ row, db.get f key = some row ∧
      w' = w.stage [⟨f, key, f.setEnd (some w.snapshotId) row⟩] := by
  simp only [retireRow]
  cases db.get f key <;> simp [eq_comm]

theorem staging_renameColumn
    (called : w.staging env db (.renameColumn tableId columnId) = .ok (reply, w')) :
    ∃ key row, liveColumn db tableId columnId = some (key, row) ∧ reply = .column row ∧
      w' = w.stage [⟨.column, key, { row with endSnapshot := some w.snapshotId }⟩] := by
  obtain ⟨_, renamed, answer⟩ := map_ok.mp called
  cases answer
  simp only [renameColumn] at renamed
  split at renamed
  · contradiction
  · rename_i key row live
    cases renamed
    exact ⟨key, row, live, rfl, rfl⟩

theorem registerInlinedInsert_ok :
    w.registerInlinedInsert tableId version rowId payload = .ok w' ↔
      payload.length + 100 ≤ maxInlinedValueSize ∧
        w' = w.stage [⟨.inlinedInsert, keyInlinedInsert tableId version rowId,
          ⟨tableId, version, rowId, payload, w.snapshotId, none⟩⟩] := by
  simp only [registerInlinedInsert]
  split
  · rename_i large
    simp only [reduceCtorEq, false_iff]
    rintro ⟨small, _⟩
    omega
  · rename_i small
    simp only [Except.ok.injEq, eq_comm (b := w'), iff_and_self]
    exact fun _ => not_lt.mp small

/-- The later writer has staged more, all of it in the given families. -/
def StagedIn (families : List Family) (w w' : CatalogWriter) : Prop :=
  ∃ new, w'.staged = w.staged ++ new ∧ ∀ x ∈ new, x.family ∈ families

theorem StagedIn.one (staged : w'.staged = w.staged ++ [x]) (family : x.family = f) :
    StagedIn [f] w w' := by
  refine ⟨[x], staged, fun y member => ?_⟩
  rw [mem_singleton.mp member, family]
  exact mem_singleton_self f

theorem StagedIn.refl : StagedIn families w w :=
  ⟨[], (append_nil _).symm, by simp⟩

theorem retireLive_family (member : x ∈ w.retireLive f select entries) : x.family = f := by
  simp only [retireLive, mem_map] at member
  obtain ⟨_, _, rfl⟩ := member
  rfl

theorem cascade_families (member : x ∈ w.dropTableCascade db tableId) :
    x.family ∈ cascadeFamilies.tail := by
  simp only [dropTableCascade, mem_append] at member
  rcases member with ((((((column | file) | partitioned) | tag) | columnTag) | sorted) | deleted) |
    inlined
  case inl.inl.inl.inl.inl.inl.inr =>
    simp only [retireDataFiles, mem_flatMap] at file
    obtain ⟨e, _, staged⟩ := file
    rcases mem_pair.mp staged with rfl | rfl <;> simp [cascadeFamilies]
  all_goals
    rw [retireLive_family ‹_›]
    decide

theorem dropTable_ok :
    w.dropTable db schemaId tableId begun = .ok w' ↔
      ∃ row, db.get .table (keyTable schemaId tableId begun) = some row ∧
        w' = (w.stage (⟨.table, keyTable schemaId tableId begun,
          { row with endSnapshot := some w.snapshotId }⟩ ::
            w.dropTableCascade db tableId)).markSchemaChanged := by
  rw [dropTable, map_ok]
  constructor
  · rintro ⟨marked, retired, rfl⟩
    obtain ⟨row, stored, rfl⟩ := retireRow_ok.mp retired
    refine ⟨row, stored, ?_⟩
    simp [stage, markSchemaChanged, setEnd]
  · rintro ⟨row, stored, rfl⟩
    refine ⟨_, retireRow_ok.mpr ⟨row, stored, rfl⟩, ?_⟩
    simp [stage, markSchemaChanged, setEnd]

theorem dropped_ok :
    (w.retireRow db f key what).map markSchemaChanged = .ok w' ↔ ∃ row, db.get f key = some row ∧
      w' = (w.stage [⟨f, key, f.setEnd (some w.snapshotId) row⟩]).markSchemaChanged := by
  rw [map_ok]
  constructor
  · rintro ⟨marked, retired, rfl⟩
    obtain ⟨row, stored, rfl⟩ := retireRow_ok.mp retired
    exact ⟨row, stored, rfl⟩
  · rintro ⟨row, stored, rfl⟩
    exact ⟨_, retireRow_ok.mpr ⟨row, stored, rfl⟩, rfl⟩

/-- A call stages into its families. Besides, it allocates its identifiers, may add to the change log
and may mark the schema as changed. -/
theorem staging_spec {call : StagingCall} (called : w.staging env db call = .ok (reply, w')) :
    StagedIn call.families w w' ∧ w' = { w with
      counters := w.counters.advance call.catalogIds call.fileIds
      pendingSnapshotChanges := call.changes w
      staged := w'.staged
      schemaChanged := w'.schemaChanged } := by
  cases call with
  | markSchemaChanged | addSnapshotChanges =>
    cases called
    exact ⟨.refl, rfl⟩
  | createSchema | addColumn | createView | createMacro | addMacroImpl | registerDeleteFile
  | insertRenamedColumn | registerInlinedDataTable | registerSchemaVersion | registerInlinedDelete
  | setTag | setColumnTag | addSortInfo =>
    cases called
    exact ⟨.one rfl rfl, rfl⟩
  | createTable | registerDataFile =>
    cases called
    refine ⟨⟨_, rfl, fun x member => ?_⟩, rfl⟩
    rcases mem_pair.mp member with rfl | rfl <;> simp [StagingCall.families]
  | dropSchema | dropColumn | dropView | dropMacro =>
    obtain ⟨row, _, rfl⟩ := dropped_ok.mp (checked_ok.mp called).2
    exact ⟨.one rfl rfl, rfl⟩
  | dropTable =>
    obtain ⟨row, _, rfl⟩ := dropTable_ok.mp (checked_ok.mp called).2
    refine ⟨⟨_, rfl, fun x member => ?_⟩, rfl⟩
    rcases mem_cons.mp member with rfl | cascade
    · exact mem_cons_self
    · exact mem_of_mem_tail (cascade_families cascade)
  | markInlinedInsertDeleted | removeTag | removeColumnTag =>
    obtain ⟨row, _, rfl⟩ := retireRow_ok.mp (checked_ok.mp called).2
    exact ⟨.one rfl rfl, rfl⟩
  | renameColumn tableId columnId =>
    obtain ⟨_, _, _, _, rfl⟩ := staging_renameColumn called
    exact ⟨.one rfl rfl, rfl⟩
  | registerInlinedInsert tableId version rowId payload =>
    obtain ⟨_, rfl⟩ := registerInlinedInsert_ok.mp (checked_ok.mp called).2
    exact ⟨.one rfl rfl, rfl⟩
  | setMetadata scope scopeId key value =>
    obtain ⟨_, _, rfl⟩ := map_ok.mp (checked_ok.mp called).2
    exact ⟨.one rfl rfl, rfl⟩

theorem staging_families {call : StagingCall} (called : w.staging env db call = .ok (reply, w')) :
    StagedIn call.families w w' :=
  (staging_spec called).1

theorem families_stageable (call : StagingCall) : ∀ f ∈ call.families, f.stageable = true := by
  cases call <;> simp [StagingCall.families, cascadeFamilies, stageable, versioned,
    retirable, unversioned]

theorem staging_frame {call : StagingCall} (called : w.staging env db call = .ok (reply, w')) :
    StagingFrame w w' := by
  obtain ⟨⟨new, staged, inside⟩, writer⟩ := staging_spec called
  have allocated : w.counters.Le w'.counters := by
    rw [writer]
    exact ⟨le_rfl, Nat.le_add_right _ _, Nat.le_add_right _ _⟩
  exact ⟨⟨new, staged, fun x member => families_stageable call _ (inside x member)⟩,
    congrArg (·.counters.nextSnapshotId) writer, allocated.catalog, allocated.file,
    by rw [writer], by rw [writer]⟩

/-- The one key that a call on a writer may change in the store. -/
def target (env : Env) : WriterCall → Option (Family × Key)
  | .staging _ => none
  | .direct call => some (call.family, call.key env)
  | .nextRowidRange tableId _ => some (.counter, keyCounterRowid tableId)

theorem call_get (call : WriterCall) (other : target env call ≠ some (f, k)) :
    (w.call env db call).db.get f k = db.get f k := by
  cases call with
  | staging call =>
    simp only [CatalogWriter.call]
    split <;> rfl
  | direct call => exact call.apply_get env db fun same => other (congrArg some same)
  | nextRowidRange tableId count =>
    simp only [CatalogWriter.call, nextRowidRange]
    split
    · rename_i ranged
      split at ranged
      · contradiction
      split at ranged
      · contradiction
      · cases ranged
        rcases db.get_put (f := f) ⟨.counter, keyCounterRowid tableId, _⟩ k with
          ⟨row, same, _⟩ | ⟨_, kept⟩
        · cases same
          exact absurd rfl other
        · exact kept
    · rfl

theorem call_core (call : WriterCall) (core : f.core = true) :
    (w.call env db call).db f = db f := by
  refine OrderedMap.ext_get fun k => call_get call fun target => ?_
  cases call with
  | staging call => contradiction
  | direct call =>
    cases target
    simp [Family.core, call.family_ancillary] at core
  | nextRowidRange tableId count =>
    cases target
    simp [Family.core] at core

theorem call_counter (call : WriterCall) (id : Nat) :
    (w.call env db call).db.get .counter (keyCounter id) = db.get .counter (keyCounter id) := by
  refine call_get call fun target => ?_
  cases call with
  | staging call => contradiction
  | direct call =>
    have ancillary := call.family_ancillary
    simp only [CatalogWriter.target, Option.some.injEq, Prod.mk.injEq] at target
    rw [target.1] at ancillary
    contradiction
  | nextRowidRange tableId count =>
    simp [CatalogWriter.target, keyCounter, keyCounterRowid] at target

theorem nextRowidRange_writer (tableId count : Nat) :
    (w.call env db (.nextRowidRange tableId count)).writer = w := by
  simp only [CatalogWriter.call]
  split <;> rfl

theorem call_writer (env : Env) (db : Db) (w : CatalogWriter) (call : WriterCall) :
    (w.call env db call).writer = w ∨ ∃ staged reply, call = .staging staged ∧
      w.staging env db staged = .ok (reply, (w.call env db call).writer) := by
  cases call with
  | staging staged =>
    simp only [CatalogWriter.call]
    split
    · rename_i called
      exact .inr ⟨staged, _, rfl, called⟩
    · exact .inl rfl
  | direct call => exact .inl rfl
  | nextRowidRange tableId count => exact .inl (nextRowidRange_writer tableId count)

/-- Any call on a writer keeps its identity, grows its counters and stages in stageable families. -/
theorem call_frame (env : Env) (db : Db) (w : CatalogWriter) (call : WriterCall) :
    StagingFrame w (w.call env db call).writer := by
  rcases call_writer env db w call with unchanged | ⟨_, _, _, called⟩
  · rw [unchanged]
    exact .refl w
  · exact staging_frame called

/-! A session's calls together, whatever the store holds. -/

theorem runCalls_frame (env : Env) (db : Db) (w : CatalogWriter) (calls : List WriterCall) :
    StagingFrame w (runCalls env (db, w) calls).2 := by
  induction calls generalizing db w with
  | nil => exact .refl w
  | cons first rest ih => exact (call_frame env db w first).trans (ih _ _)

theorem runCalls_core (env : Env) (db : Db) (w : CatalogWriter) (calls : List WriterCall)
    (core : f.core = true) : (runCalls env (db, w) calls).1 f = db f := by
  induction calls generalizing db w with
  | nil => rfl
  | cons first rest ih => exact (ih _ _).trans (call_core first core)

theorem runCalls_counter (env : Env) (db : Db) (w : CatalogWriter) (calls : List WriterCall)
    (id : Nat) : (runCalls env (db, w) calls).1.get .counter (keyCounter id) =
      db.get .counter (keyCounter id) := by
  induction calls generalizing db w with
  | nil => rfl
  | cons first rest ih => exact (ih _ _).trans (call_counter first id)

theorem runCalls_staged (env : Env) (db : Db) (store : CatalogStore) (calls : List WriterCall) :
    ∀ x ∈ (runCalls env (db, store.beginWrite) calls).2.staged, x.family.stageable = true := by
  obtain ⟨new, staged, stageable⟩ := (runCalls_frame env db store.beginWrite calls).staged
  intro x member
  rw [staged] at member
  exact stageable x member

theorem runCalls_ran {base : Db} {store : CatalogStore}
    (ran : runCalls env (base, store.beginWrite) calls = (db, w)) :
    StagingFrame store.beginWrite w ∧ (∀ f, f.core = true → db f = base f) ∧
      ∀ x ∈ w.staged, x.family.stageable = true := by
  have frame := runCalls_frame env base store.beginWrite calls
  have core f := runCalls_core env base store.beginWrite calls (f := f)
  have staged := runCalls_staged env base store calls
  simp only [ran] at frame core staged
  exact ⟨frame, core, staged⟩

theorem commitWrites_snapshot (staged : ∀ x ∈ w.staged, x.family.stageable = true) (k : Key) :
    (db.putAll (w.commitWrites request)).get .snapshot k =
      if k = keySnapshot w.snapshotId then some (w.snapshotRow request.now)
      else db.get .snapshot k := by
  have before : (db.putAll w.staged) .snapshot = db .snapshot := by
    refine db.putAll_family fun x member same => ?_
    have stageable := staged x member
    rw [same] at stageable
    contradiction
  have record : ∀ db : Db, (db.putAll (w.commitTail request)).get .snapshot k =
      (db.put ⟨.snapshot, keySnapshot w.snapshotId, w.snapshotRow request.now⟩).get .snapshot k := by
    intro db
    rw [commitTail, cons_append, putAll_cons]
    refine get_of_family (putAll_family _ fun x member same => ?_) k
    simp only [counterWrites, mem_append, Option.mem_toList, Option.map_eq_some_iff,
      mem_cons, not_mem_nil, or_false] at member
    rcases member with ⟨row, _, rfl⟩ | rfl | rfl | rfl <;> contradiction
  rw [commitWrites, putAll_append, record]
  split
  · rename_i same
    rw [same, get_put_same]
  · rename_i other
    rw [get_put_key _ _ other, get_of_family before]

theorem commitWrites_family (staged : ∀ x ∈ w.staged, x.family.stageable = true)
    (free : f.stageable = false) (row : f ≠ .snapshot) (changes : f ≠ .snapshotChanges)
    (counter : f ≠ .counter) :
    (db.putAll (w.commitWrites request)) f = db f := by
  refine db.putAll_family fun x member same => ?_
  rcases mem_append.mp member with pair | tail
  · have stageable := staged x pair
    rw [same, free] at stageable
    contradiction
  · rcases w.commitTail_family tail with family | family | family
    · exact row (same.symm.trans family)
    · exact changes (same.symm.trans family)
    · exact counter (same.symm.trans family)

end CatalogWriter

end RockLake
