import RockLake.Catalog.History

/-! Retirements, as a reader of the latest snapshot notices them. A call stages into the families of
its own method only; a session that only retires rows of a family hides exactly the rows it staged. -/
namespace RockLake

open List CatalogWriter Db

/-- The rows, beside the snapshot index, that the cascade of a dropped table takes if they are live:
by the first part of their key, or by a field. -/
def Family.cascades (db : Db) (tableId : Nat) : (f : Family) → Key → f.Row → Prop
  | .column, k, _ => [tableId] <+: k
  | .inlinedInsert, k, _ => [tableId] <+: k
  | .dataFile, _, row => row.tableId = tableId
  | .partitionInfo, _, row => row.tableId = tableId
  | .tag, _, row => row.objectId = tableId
  | .columnTag, _, row => row.tableId = tableId
  | .sortInfo, _, row => row.tableId = tableId
  | .deleteFile, _, row => CatalogWriter.deleteFileBelongs tableId
      ((CatalogWriter.liveDataFiles db tableId).map (·.2.dataFileId)) row = true
  | _, _, _ => False

/-- The stored row that a call names to be retired, whatever its end is. -/
def StagingCall.retires (env : Env) : StagingCall → Option (Family × Key)
  | .dropSchema schemaId => some (.schema, keySchema schemaId)
  | .dropTable schemaId tableId begun => some (.table, keyTable schemaId tableId begun)
  | .dropColumn tableId columnId begun => some (.column, keyColumn tableId columnId begun)
  | .markInlinedInsertDeleted tableId version rowId =>
    some (.inlinedInsert, keyInlinedInsert tableId version rowId)
  | .dropView schemaId viewId begun => some (.view, keyView schemaId viewId begun)
  | .dropMacro schemaId macroId begun => some (.macros, keyMacro schemaId macroId begun)
  | .removeTag objectId key begun => some (.tag, keyTag objectId (env.hashTagKey key) begun)
  | .removeColumnTag tableId columnId key begun =>
    some (.columnTag, keyColumnTag tableId columnId (env.hashTagKey key) begun)
  | _ => none

namespace CatalogWriter

variable {env : Env} {db : Db} {w w' : CatalogWriter}

theorem StagedIn.trans (first : StagedIn families w₁ w₂) (second : StagedIn families w₂ w₃) :
    StagedIn families w₁ w₃ := by
  obtain ⟨new, staged, inside⟩ := first
  obtain ⟨new', staged', inside'⟩ := second
  refine ⟨new ++ new', by rw [staged', staged, append_assoc], fun x member => ?_⟩
  rcases mem_append.mp member with early | late
  · exact inside x early
  · exact inside' x late

theorem StagedIn.mono (staged : StagedIn families w w') (larger : families ⊆ families') :
    StagedIn families' w w' := by
  obtain ⟨new, same, inside⟩ := staged
  exact ⟨new, same, fun x member => larger (inside x member)⟩

theorem mem_retireLive :
    (⟨f, k, row⟩ : Write) ∈ w.retireLive f select (db.scanPrefix f start) ↔
      ∃ old, db.get f k = some old ∧ start <+: k ∧ select old = true ∧ f.endOf old = none ∧
        row = f.setEnd (some w.snapshotId) old := by
  simp only [retireLive, mem_map, mem_filter, Bool.and_eq_true, Option.isNone_iff_eq_none,
    Prod.exists, mem_scanPrefix]
  constructor
  · rintro ⟨k', old, ⟨⟨stored, starts⟩, chosen, live⟩, same⟩
    cases same
    exact ⟨old, stored, starts, chosen, live, rfl⟩
  · rintro ⟨old, stored, starts, chosen, live, rfl⟩
    exact ⟨k, old, ⟨⟨stored, starts⟩, chosen, live⟩, rfl⟩

theorem mem_retireDataFiles {x : Write} :
    x ∈ w.retireDataFiles tableId (liveDataFiles db tableId) ↔
      ∃ k old, db.get .dataFile k = some old ∧ old.tableId = tableId ∧ old.endSnapshot = none ∧
        (x = ⟨.dataFile, k, { old with endSnapshot := some w.snapshotId }⟩ ∨
          x = ⟨.dataFileBySnapshot, old.indexKey, { old with endSnapshot := some w.snapshotId }⟩) := by
  simp only [retireDataFiles, liveDataFiles, mem_flatMap, mem_filter, Prod.exists,
    Bool.and_eq_true, decide_eq_true_eq, Option.isNone_iff_eq_none, mem_pair, db.mem_scanPrefix,
    nil_prefix, and_true, and_assoc]
  refine exists₂_congr fun k old => and_congr_right fun _ => and_congr_right fun owned => ?_
  rw [DataFileRow.indexKey, owned]

theorem mem_cascade (notIndex : f ≠ .dataFileBySnapshot) :
    (⟨f, k, row⟩ : Write) ∈ w.dropTableCascade db tableId ↔
      ∃ old, db.get f k = some old ∧ f.cascades db tableId k old ∧ f.endOf old = none ∧
        row = f.setEnd (some w.snapshotId) old := by
  have other : ∀ {g : Family} {select : g.Row → Bool} {entries : List (Key × g.Row)}, f ≠ g →
      ¬ (⟨f, k, row⟩ : Write) ∈ w.retireLive g select entries :=
    fun different member => different (retireLive_family member)
  by_cases reached : f ∈ cascadeFamilies.tail
  · cases f <;> simp only [cascadeFamilies, tail_cons, mem_cons, reduceCtorEq, or_self,
      not_mem_nil] at reached notIndex
    case dataFileBySnapshot => exact absurd rfl notIndex
    all_goals
      simp only [dropTableCascade, mem_append, mem_retireLive, mem_retireDataFiles]
      simp [other, Family.cascades, Family.endOf, Family.setEnd]
  · constructor
    · exact fun member => absurd (cascade_families member) reached
    · rintro ⟨old, _, taken, _⟩
      cases f <;> first | exact absurd (by decide) reached | cases taken

theorem mem_cascade_index :
    (⟨.dataFileBySnapshot, k, row⟩ : Write) ∈ w.dropTableCascade db tableId ↔
      ∃ key old, db.get .dataFile key = some old ∧ old.tableId = tableId ∧ old.endSnapshot = none ∧
        k = old.indexKey ∧ row = { old with endSnapshot := some w.snapshotId } := by
  have other : ∀ {f : Family} {select : f.Row → Bool} {entries : List (Key × f.Row)},
      f ≠ .dataFileBySnapshot →
        ¬ (⟨.dataFileBySnapshot, k, row⟩ : Write) ∈ w.retireLive f select entries :=
    fun different member => different (retireLive_family member).symm
  simp only [dropTableCascade, mem_append, mem_retireDataFiles]
  simp [other]

/-- A call leaves the pending rows of the families alone that it does not stage into. -/
theorem staging_untouched {call : StagingCall} (called : w.staging env db call = .ok (reply, w'))
    (other : f ∉ call.families) :
    (db.putAll w'.staged) f = (db.putAll w.staged) f := by
  obtain ⟨new, staged, inside⟩ := staging_families called
  rw [staged, putAll_append]
  exact putAll_family _ fun x member same => other (same ▸ inside x member)

theorem staging_named {call : StagingCall} (named : call.retires env = some (f, k))
    (stored : db.get f k = some old) :
    ∃ reply w' new, w.staging env db call = .ok (reply, w') ∧ w'.staged = w.staged ++ new ∧
      (⟨f, k, f.setEnd (some w.snapshotId) old⟩ : Write) ∈ new := by
  have retired : ∀ {f : Family} {k : Key} {old : f.Row} {what : String}, db.get f k = some old →
      w.retireRow db f k what = .ok (w.stage [⟨f, k, f.setEnd (some w.snapshotId) old⟩]) :=
    fun stored => retireRow_ok.mpr ⟨_, stored, rfl⟩
  cases call with
  | dropSchema | dropColumn | dropView | dropMacro =>
    cases named
    exact ⟨_, _, _, checked_ok.mpr ⟨rfl, map_ok.mpr ⟨_, retired stored, rfl⟩⟩, rfl,
      mem_singleton_self _⟩
  | markInlinedInsertDeleted | removeTag | removeColumnTag =>
    cases named
    exact ⟨_, _, _, checked_ok.mpr ⟨rfl, retired stored⟩, rfl, mem_singleton_self _⟩
  | dropTable =>
    cases named
    exact ⟨_, _, _, checked_ok.mpr ⟨rfl, dropTable_ok.mpr ⟨_, stored, rfl⟩⟩, rfl, mem_cons_self⟩
  | _ => cases named

theorem cascade_live (mirrored : db.Mirrored)
    (member : (⟨f, k, row⟩ : Write) ∈ w.dropTableCascade db tableId) :
    ∃ old, db.get f k = some old ∧ f.endOf old = none := by
  by_cases index : f = .dataFileBySnapshot
  · subst index
    obtain ⟨key, old, stored, _, live, rfl, _⟩ := mem_cascade_index.mp member
    exact ⟨old, mirrored.indexed key old stored, live⟩
  · obtain ⟨old, stored, _, live, _⟩ := (mem_cascade index).mp member
    exact ⟨old, stored, live⟩

theorem staging_ended {call : StagingCall} (mirrored : db.Mirrored) (stored : db.get f k = some old)
    (ended : f.endOf old ≠ none) (called : w.staging env db call = .ok (reply, w'))
    (staged : w'.staged = w.staged ++ new) (member : (⟨f, k, row⟩ : Write) ∈ new)
    (retired : f.endOf row ≠ none) : call.retires env = some (f, k) := by
  have only : ∀ {x : Write}, w'.staged = w.staged ++ [x] → (⟨f, k, row⟩ : Write) = x := by
    intro x single
    rw [staged] at single
    rw [append_cancel_left single] at member
    exact mem_singleton.mp member
  cases call with
  | markSchemaChanged | addSnapshotChanges =>
    cases called
    cases append_cancel_left ((append_nil _).trans staged)
    cases member
  | createSchema | addColumn | createView | createMacro | addMacroImpl | registerDeleteFile
  | insertRenamedColumn | registerInlinedDataTable | registerSchemaVersion | registerInlinedDelete
  | setTag | setColumnTag | addSortInfo =>
    cases called
    cases only rfl
    exact absurd rfl retired
  | createTable | registerDataFile =>
    cases called
    cases append_cancel_left staged
    rcases mem_pair.mp member with same | same <;> cases same <;> exact absurd rfl retired
  | dropSchema | dropColumn | dropView | dropMacro =>
    obtain ⟨_, _, rfl⟩ := dropped_ok.mp (checked_ok.mp called).2
    cases only rfl
    rfl
  | dropTable =>
    obtain ⟨_, _, rfl⟩ := dropTable_ok.mp (checked_ok.mp called).2
    cases append_cancel_left staged
    rcases mem_cons.mp member with same | cascade
    · cases same
      rfl
    · obtain ⟨old', stored', live⟩ := cascade_live mirrored cascade
      cases stored.symm.trans stored'
      exact absurd live ended
  | markInlinedInsertDeleted | removeTag | removeColumnTag =>
    obtain ⟨_, _, rfl⟩ := retireRow_ok.mp (checked_ok.mp called).2
    cases only rfl
    rfl
  | renameColumn tableId columnId =>
    obtain ⟨_, _, live, _, rfl⟩ := staging_renameColumn called
    cases only rfl
    obtain ⟨stored', _, _, open_⟩ := liveColumn_some live
    cases stored.symm.trans stored'
    exact absurd open_ ended
  | registerInlinedInsert tableId version rowId payload =>
    obtain ⟨_, rfl⟩ := registerInlinedInsert_ok.mp (checked_ok.mp called).2
    cases only rfl
    exact absurd rfl retired
  | setMetadata scope scopeId key value =>
    obtain ⟨_, _, rfl⟩ := map_ok.mp (checked_ok.mp called).2
    cases only rfl
    exact absurd rfl retired

end CatalogWriter

def WriterCall.retires (env : Env) : WriterCall → Option (Family × Key)
  | .staging call => call.retires env
  | _ => none

/-- A row that has ended stays as it is in a session exactly if no call of the session names it. -/
theorem Db.Consistent.ended_kept_iff {base : Db} {store : CatalogStore}
    (consistent : base.Consistent store.counters) (env : Env) (calls : List WriterCall)
    (retirable : f.retirable = true) (allocated : f.callerKeyed = false)
    (stored : base.get f k = some old) (ended : f.endOf old ≠ none) :
    (base.putAll (runCalls env (base, store.beginWrite) calls).2.staged).get f k = some old ↔
      ∀ call ∈ calls, call.retires env ≠ some (f, k) := by
  have versioned := Family.versioned_of_retirable retirable
  have changed : some (f.setEnd (some store.counters.nextSnapshotId) old) ≠ some old := by
    intro same
    have now := congrArg f.endOf (Option.some.inj same)
    rw [Family.endOf_setEnd retirable] at now
    have past := (consistent.sound f k old stored).ended _ now.symm
    omega
  have all := (InSession.begin False store consistent).calls_iff env
    (fun _ w => (base.putAll w.staged).get f k = some old)
    (fun _ _ call => call.retires env ≠ some (f, k)) consistent ?_ calls
  · rw [callsMeet_iff] at all
    refine all.trans ?_
    simp [CatalogStore.beginWrite, stored]
  · intro db w call session
    have current : db.get f k = some old :=
      (get_of_family (session.core f (Family.core_of_versioned versioned)) k).trans stored
    cases call with
    | direct call => simp [CatalogWriter.call, WriterCall.retires]
    | nextRowidRange tableId count =>
      simp only [CatalogWriter.call, WriterCall.retires]
      split <;> simp
    | staging call =>
      simp only [CatalogWriter.call, WriterCall.retires]
      cases called : w.staging env db call with
      | error e =>
        have other : call.retires env ≠ some (f, k) := by
          intro named
          obtain ⟨reply, w', new, ok, _⟩ := staging_named (w := w) named current
          rw [called] at ok
          contradiction
        simp [other]
      | ok answer =>
        obtain ⟨reply, w'⟩ := answer
        obtain ⟨new, staged, _⟩ := staging_families called
        have after := session.staging consistent False.elim called
        simp only [staged, putAll_append]
        rcases (base.putAll w.staged).get_putAll (f := f) new k with
          ⟨row, member, found⟩ | ⟨absent, kept⟩
        · have staged' : (⟨f, k, row⟩ : Write) ∈ w'.staged := by
            rw [staged]
            exact mem_append_right _ member
          cases (after.admissible _ staged').retired consistent.sound versioned allocated stored
          have named := staging_ended (session.mirrored consistent) current ended
            called staged member (by simp [Family.endOf_setEnd retirable])
          simp [found, named, changed]
        · have other : call.retires env ≠ some (f, k) := by
            intro named
            obtain ⟨reply', w'', new', ok, staged', member⟩ :=
              staging_named (w := w) named current
            cases called.symm.trans ok
            cases append_cancel_left (staged.symm.trans staged')
            exact absent _ member
          simp [kept, other]

namespace Catalog

variable {before : Catalog} {db : Db} {w : CatalogWriter}

def committed (store : CatalogStore) (db : Db) (w : CatalogWriter) (request : SnapshotRequest) :
    Catalog :=
  ⟨db.putAll (w.commitWrites request), store.commitWriter w.commitResult⟩

section

variable {f : Family} (valid : before.Valid) (session : InSession before.db careful before.store.counters db w)
  (request : SnapshotRequest) (versioned : f.versioned = true)
include valid session request versioned

theorem Valid.shows_unstaged (unstaged : ∀ x ∈ w.staged, x.family ≠ f) (k : Key) :
    (committed before.store db w request).shows f k = before.shows f k := by
  have valid' := valid.ofInSession session request
  apply Option.ext
  intro row
  rw [committed, valid'.shows_eq_some, valid.shows_eq_some,
    session.get_commit request versioned, get_of_family (putAll_family _ unstaged)]

end

/-- A session that creates the schema `main` and the table `orders` with identifiers 1 and 2. -/
def createOrders : Session :=
  ⟨[.staging (.createSchema "main" "4b1d"), .staging (.createTable 1 "orders" none "5c2e")], {}⟩

def createWideOrders : Session :=
  ⟨createOrders.calls ++
    [.staging (.addColumn 2 ⟨"id", "int64", 0, false, none, none, none, none, none⟩)], {}⟩

end Catalog

end RockLake
