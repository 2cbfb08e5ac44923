import RockLake.Lib.Slots
import RockLake.Catalog.Listings
import RockLake.Catalog.Pending

/-! Tags of objects and columns as a map. A tag is set without ending the version before, and removed by
the begin snapshot of a version; its row stands under a hash of the tag key. So the visible tags are a
map as long as each key is removed before it is set again, versions are removed once, and no two keys of
an owner that are set in one session have the same hash. -/
namespace RockLake

open CatalogWriter Option Db List Function CatalogStore

inductive TagOwner where
  | object (objectId : Nat)
  | column (tableId columnId : Nat)
  deriving DecidableEq

def TagOwner.tableId : TagOwner → Nat
  | .object objectId => objectId
  | .column tableId _ => tableId

def TagOwner.family : TagOwner → Family
  | .object _ => .tag
  | .column _ _ => .columnTag

abbrev TagMap := TagOwner × String → Option String

namespace CatalogReader

/-- The values that a snapshot shows for a tag key of an owner. -/
def tagValues (r : CatalogReader) : TagOwner × String → List String
  | (.object objectId, tagKey) => (r.listTags objectId).filterMap fun row =>
    if row.tagKey = tagKey then some row.tagValue else none
  | (.column tableId columnId, tagKey) => (r.listColumnTags tableId columnId).filterMap fun row =>
    if row.tagKey = tagKey then some row.tagValue else none

end CatalogReader

namespace Family

variable {f : Family}

def tagged : Family → Bool
  | .tag | .columnTag => true
  | _ => false

def tagOf : (f : Family) → f.Row → Option ((TagOwner × String) × String)
  | .tag, row => some ((.object row.objectId, row.tagKey), row.tagValue)
  | .columnTag, row => some ((.column row.tableId row.columnId, row.tagKey), row.tagValue)
  | _, _ => none

@[simp] theorem tagOf_setEnd (ended : Option Nat) (row : f.Row) :
    f.tagOf (f.setEnd ended row) = f.tagOf row := by
  cases f <;> rfl

theorem tagged_of_tagOf {tag : (TagOwner × String) × String} (holds : f.tagOf row = some tag) :
    f.tagged = true := by
  cases f <;> first | rfl | contradiction

section

variable (tagged : f.tagged = true)
include tagged

theorem tagOf_of_tagged (row : f.Row) : ∃ tag, f.tagOf row = some tag := by
  cases f <;> first | exact ⟨_, rfl⟩ | contradiction

theorem followed_of_tagged : f.followed = true := by
  cases f <;> first | rfl | contradiction

theorem retirable_of_tagged : f.retirable = true :=
  retirable_of_followed (followed_of_tagged tagged)

theorem versioned_of_tagged : f.versioned = true :=
  versioned_of_followed (followed_of_tagged tagged)

theorem core_of_tagged : f.core = true :=
  core_of_versioned (versioned_of_tagged tagged)

end

end Family

namespace Db

variable {db : Db} {snapshot : Nat} {slot : Family × Key}

/-- The tags that a snapshot shows, by the places of their rows. -/
def tagsAt (db : Db) (snapshot : Nat) (slot : Family × Key) : Option ((TagOwner × String) × String) :=
  ((db.get slot.1 slot.2).bind (slot.1.seen snapshot)).bind slot.1.tagOf

theorem tagsAt_eq_some :
    db.tagsAt snapshot slot = some tag ↔ ∃ row, db.get slot.1 slot.2 = some row ∧
      isVisible (slot.1.beginOf row) (slot.1.endOf row) snapshot = true ∧
      slot.1.tagOf row = some tag := by
  simp only [tagsAt, bind_eq_some_iff, Family.seen]
  constructor
  · rintro ⟨cleared, ⟨row, stored, seen⟩, holds⟩
    split at seen
    · rename_i visible
      cases seen
      exact ⟨row, stored, visible, by simpa using holds⟩
    · contradiction
  · rintro ⟨row, stored, visible, holds⟩
    exact ⟨_, ⟨row, stored, if_pos visible⟩, by simpa using holds⟩

theorem tagsAt_family (shown : db.tagsAt snapshot slot = some tag) : slot.1 = tag.1.1.family := by
  obtain ⟨f, k⟩ := slot
  obtain ⟨row, _, _, holds⟩ := tagsAt_eq_some.mp shown
  cases f <;> first | (cases holds; rfl) | contradiction

theorem tagsAt_untagged (untagged : slot.1.tagged = false) : db.tagsAt snapshot slot = none := by
  refine eq_none_iff_forall_ne_some.mpr fun tag shown => ?_
  obtain ⟨row, _, _, holds⟩ := tagsAt_eq_some.mp shown
  rw [Family.tagged_of_tagOf holds] at untagged
  contradiction

theorem tagsAt_congr {db' : Db}
    (same : ∀ f, f.tagged = true → ∀ k, db'.get f k = db.get f k) :
    db'.tagsAt snapshot = db.tagsAt snapshot := by
  funext slot
  cases isTagged : slot.1.tagged with
  | true => rw [tagsAt, tagsAt, same slot.1 isTagged]
  | false => rw [tagsAt_untagged isTagged, tagsAt_untagged isTagged]

theorem tagsAt_of_later
    (later : ∀ row, db.get slot.1 slot.2 = some row → snapshot < slot.1.beginOf row) :
    db.tagsAt snapshot slot = none := by
  cases found : db.get slot.1 slot.2 with
  | none => rw [tagsAt, found, bind_none, bind_none]
  | some row =>
    rw [tagsAt, found, bind_some, Family.seen_of_later (later row found), bind_none]

theorem tagsAt_of_live (tagged : slot.1.tagged = true)
    (found : db.get slot.1 slot.2 = some old ∨ db.get slot.1 slot.2 = some (slot.1.setEnd (some now) old))
    (live : slot.1.endOf old = none) (early : snapshot < now) :
    db.tagsAt snapshot slot = (slot.1.seen snapshot old).bind slot.1.tagOf := by
  have retirable := Family.retirable_of_tagged tagged
  rcases found with same | retired
  · rw [tagsAt, same, bind_some]
  · rw [tagsAt, retired, bind_some, Family.seen_retired retirable live early]

theorem tagsAt_put (db : Db) (snapshot : Nat) (x : Write) : (db.put x).tagsAt snapshot =
    update (db.tagsAt snapshot) (x.family, x.key)
      ((x.family.seen snapshot x.row).bind x.family.tagOf) := by
  funext ⟨f, k⟩
  rcases db.get_put (f := f) x k with ⟨row, rfl, found⟩ | ⟨other, kept⟩
  · rw [update_self, tagsAt, found]
    rfl
  · have apart : (f, k) ≠ (x.family, x.key) := by
      rintro same
      cases same
      exact other x.row rfl
    rw [update_of_ne apart, tagsAt, kept]
    rfl

end Db

namespace CatalogReader

variable {r : CatalogReader} {name : TagOwner × String}

/-- One slot has a tag of the name if there is a value, and it has that value. -/
abbrev Tells (r : CatalogReader) (name : TagOwner × String) (one : Option String) : Prop :=
  (∀ slot value, r.db.tagsAt r.snapshot slot = some (name, value) → one = some value) ∧
  (∀ value, one = some value → ∃ slot, r.db.tagsAt r.snapshot slot = some (name, value)) ∧
  ∀ slot slot' value value', r.db.tagsAt r.snapshot slot = some (name, value) →
    r.db.tagsAt r.snapshot slot' = some (name, value') → slot = slot'

theorem collect_tag
    (reads : ∀ k value, ((r.db f).get k).bind (g k) = some value ↔ r.db.tagsAt r.snapshot (f, k) = some (name, value))
    (only : ∀ slot value, r.db.tagsAt r.snapshot slot = some (name, value) → slot.1 = f) :
    (r.db f).collect g = one.toList ↔ r.Tells name one := by
  simp only [OrderedMap.collect_eq_toList, reads]
  constructor
  · rintro ⟨sound, present, single⟩
    refine ⟨?_, fun value is => ?_, ?_⟩
    · rintro ⟨f', k⟩ value shown
      cases only _ _ shown
      exact sound k value shown
    · obtain ⟨k, shown⟩ := present value is
      exact ⟨(f, k), shown⟩
    · rintro ⟨f', k⟩ ⟨f'', k'⟩ value value' shown shown'
      cases only _ _ shown
      cases only _ _ shown'
      rw [single k k' value value' shown shown']
  · rintro ⟨sound, present, single⟩
    refine ⟨fun k => sound (f, k), fun value is => ?_, fun k k' value value' shown shown' => ?_⟩
    · obtain ⟨⟨f', k⟩, shown⟩ := present value is
      cases only _ _ shown
      exact ⟨k, shown⟩
    · cases single (f, k) (f, k') value value' shown shown'
      rfl

theorem tagValues_eq_toList (sound : r.db.Sound c) :
    r.tagValues name = one.toList ↔ r.Tells name one := by
  obtain ⟨owner, tagKey⟩ := name
  cases owner with
  | object objectId =>
    rw [show r.tagValues (.object objectId, tagKey) = _ from
      r.listVisible_filterMap .tag [objectId] _]
    refine collect_tag (fun k value => ?_) fun slot value => tagsAt_family
    rw [tagsAt_eq_some, bind_eq_some_iff]
    refine exists_congr fun row => and_congr_right fun stored => ?_
    obtain ⟨hash, keyed⟩ := (sound .tag k row stored).keyed
    have starts : [objectId] <+: k ↔ row.objectId = objectId := by
      simp [keyed, keyTag, eq_comm]
    simp only [starts, ite_none_right_eq_some, Family.tagOf, some.injEq,
      Prod.mk.injEq, TagOwner.object.injEq, and_assoc]
    exact and_left_comm
  | column tableId columnId =>
    rw [show r.tagValues (.column tableId columnId, tagKey) = _ from
      r.listVisible_filterMap .columnTag [tableId, columnId] _]
    refine collect_tag (fun k value => ?_) fun slot value => tagsAt_family
    rw [tagsAt_eq_some, bind_eq_some_iff]
    refine exists_congr fun row => and_congr_right fun stored => ?_
    obtain ⟨hash, keyed⟩ := (sound .columnTag k row stored).keyed
    have starts : [tableId, columnId] <+: k ↔ row.tableId = tableId ∧ row.columnId = columnId := by
      simp [keyed, keyColumnTag, eq_comm]
    simp only [starts, ite_none_right_eq_some, Family.tagOf, some.injEq,
      Prod.mk.injEq, TagOwner.column.injEq, and_assoc]
    constructor
    · rintro ⟨table, column, visible, tag⟩
      exact ⟨visible, table, column, tag⟩
    · rintro ⟨visible, table, column, tag⟩
      exact ⟨table, column, visible, tag⟩

theorem tagValues_iff (sound : r.db.Sound c) :
    (∀ name, r.tagValues name = (tags name).toList) ↔
      Slots.Keeps (r.db.tagsAt r.snapshot) tags := by
  simp only [tagValues_eq_toList sound]
  constructor
  · intro all
    exact ⟨fun {_ name _} => (all name).1 _ _, fun {name _} => (all name).2.1 _,
      fun {_ _ name _ _} => (all name).2.2 _ _ _ _⟩
  · intro keeps name
    exact ⟨fun _ _ => keeps.sound, fun _ => keeps.present, fun _ _ _ _ => keeps.single⟩

end CatalogReader

/-- What a call means for the tags. A dropped table takes its own tags and those of its columns along. -/
def StagingCall.retag (tags : TagMap) : StagingCall → TagMap
  | .setTag objectId tagKey tagValue =>
    update tags (.object objectId, tagKey) (some tagValue)
  | .removeTag objectId tagKey _ => update tags (.object objectId, tagKey) none
  | .setColumnTag tableId columnId tagKey tagValue =>
    update tags (.column tableId columnId, tagKey) (some tagValue)
  | .removeColumnTag tableId columnId tagKey _ =>
    update tags (.column tableId columnId, tagKey) none
  | .dropTable _ tableId _ => fun name => if name.1.tableId = tableId then none else tags name
  | _ => tags

def CatalogWriter.retag (env : Env) (db : Db) (w : CatalogWriter) (tags : TagMap) :
    WriterCall → TagMap
  | .staging call =>
    match w.staging env db call with
    | .ok _ => call.retag tags
    | .error _ => tags
  | _ => tags

/-- What the calls of a session mean for the tags, one after the other. -/
def runTags (env : Env) : Db × CatalogWriter → TagMap → List WriterCall → TagMap
  | _, tags, [] => tags
  | (db, w), tags, call :: rest =>
    let outcome := w.call env db call
    runTags env (outcome.db, outcome.writer) (w.retag env db tags call) rest

/-- A tag is set where its row and its key have only each other in the session's snapshot, and the same
holds where it is removed, by a version that has not ended. The tags of a dropped table are stored. -/
def WriterCall.TagSafe (env : Env) (db : Db) (w : CatalogWriter) : WriterCall → Prop
  | .staging (.setTag objectId tagKey _) =>
    Slots.Alone ((db.putAll w.staged).tagsAt w.snapshotId)
      (.tag, keyTag objectId (env.hashTagKey tagKey) w.snapshotId) (.object objectId, tagKey)
  | .staging (.setColumnTag tableId columnId tagKey _) =>
    Slots.Alone ((db.putAll w.staged).tagsAt w.snapshotId)
      (.columnTag, keyColumnTag tableId columnId (env.hashTagKey tagKey) w.snapshotId)
      (.column tableId columnId, tagKey)
  | .staging (.removeTag objectId tagKey begun) =>
    ∀ row, db.get .tag (keyTag objectId (env.hashTagKey tagKey) begun) = some row →
      row.endSnapshot = none ∧ Slots.Alone ((db.putAll w.staged).tagsAt w.snapshotId)
        (.tag, keyTag objectId (env.hashTagKey tagKey) begun) (.object objectId, tagKey)
  | .staging (.removeColumnTag tableId columnId tagKey begun) =>
    ∀ row, db.get .columnTag (keyColumnTag tableId columnId (env.hashTagKey tagKey) begun) =
        some row →
      row.endSnapshot = none ∧ Slots.Alone ((db.putAll w.staged).tagsAt w.snapshotId)
        (.columnTag, keyColumnTag tableId columnId (env.hashTagKey tagKey) begun)
        (.column tableId columnId, tagKey)
  | .staging (.dropTable schemaId tableId begun) =>
    (db.get .table (keyTable schemaId tableId begun)).isSome = true →
      ∀ slot tag, (db.putAll w.staged).tagsAt w.snapshotId slot = some tag →
        tag.1.1.tableId = tableId →
        ∃ row, db.get slot.1 slot.2 = some row ∧ slot.1.endOf row = none
  | _ => True

def Db.Takes (db : Db) (tableId : Nat) (slot : Family × Key) : Prop :=
  ∃ old, db.get slot.1 slot.2 = some old ∧ slot.1.cascades db tableId slot.2 old ∧
    slot.1.endOf old = none

/-- The rows keep the tags of the past snapshots and those of the one to come. -/
structure Db.Recalls (db : Db) (now : Nat) (log : Nat → TagMap) (tags : TagMap) : Prop where
  past : ∀ snapshot < now, Slots.Keeps (db.tagsAt snapshot) (log snapshot)
  current : Slots.Keeps (db.tagsAt now) tags

namespace Db.Recalls

variable {db : Db} {log : Nat → TagMap} {tags : TagMap} {name : TagOwner × String}

theorem set_iff (recalls : db.Recalls now log tags) (begun : f.beginOf row = now)
    (live : f.endOf row = none) (holds : f.tagOf row = some (name, value))
    (unseen : ∀ snapshot < now, db.tagsAt snapshot (f, k) = none) :
    (db.put ⟨f, k, row⟩).Recalls now log (update tags name (some value)) ↔
      Slots.Alone (db.tagsAt now) (f, k) name := by
  have past : ∀ snapshot < now, (db.put ⟨f, k, row⟩).tagsAt snapshot = db.tagsAt snapshot := by
    intro snapshot early
    rw [tagsAt_put, Family.seen_of_later (begun ▸ early), bind_none, ← unseen snapshot early,
      update_eq_self]
  have current : (db.put ⟨f, k, row⟩).tagsAt now =
      update (db.tagsAt now) (f, k) ((some value).map (name, ·)) := by
    have visible : isVisible (f.beginOf row) (f.endOf row) now = true := by
      simp [isVisible, begun, live]
    simp [tagsAt_put, Family.seen, visible, holds]
  constructor
  · intro kept
    exact recalls.current.replace_iff.mp (current ▸ kept.current)
  · intro alone
    refine ⟨fun snapshot early => past snapshot early ▸ recalls.past snapshot early, ?_⟩
    rw [current]
    exact recalls.current.replace alone

theorem retire_iff (recalls : db.Recalls now log tags) (tagged : f.tagged = true)
    (pending : db.get f k = some old ∨ db.get f k = some (f.setEnd (some now) old))
    (settled : (db.put ⟨f, k, f.setEnd (some now) old⟩).Recalls now log (update tags name none) → f.endOf old = none) :
    (db.put ⟨f, k, f.setEnd (some now) old⟩).Recalls now log (update tags name none) ↔
      f.endOf old = none ∧ Slots.Alone (db.tagsAt now) (f, k) name := by
  have retirable := Family.retirable_of_tagged tagged
  have current : (db.put ⟨f, k, f.setEnd (some now) old⟩).tagsAt now =
      update (db.tagsAt now) (f, k) ((none : Option String).map (name, ·)) := by
    have hidden : isVisible (f.beginOf old) (some now) now = false := by
      simp [isVisible]
    simp [tagsAt_put, Family.seen, Family.endOf_setEnd retirable, hidden]
  have past : f.endOf old = none → ∀ snapshot < now,
      (db.put ⟨f, k, f.setEnd (some now) old⟩).tagsAt snapshot = db.tagsAt snapshot := by
    intro live snapshot early
    have same : db.tagsAt snapshot (f, k) = (f.seen snapshot old).bind f.tagOf :=
      tagsAt_of_live tagged pending live early
    rw [tagsAt_put, Family.seen_retired retirable live early, ← same, update_eq_self]
  constructor
  · intro kept
    exact ⟨settled kept, recalls.current.replace_iff.mp (current ▸ kept.current)⟩
  · rintro ⟨live, alone⟩
    refine ⟨fun snapshot early => past live snapshot early ▸ recalls.past snapshot early, ?_⟩
    rw [current]
    exact recalls.current.replace alone

end Db.Recalls

namespace InSession

variable {env : Env} {db : Db} {c : CounterCache} {w w' : CatalogWriter} {log : Nat → TagMap}
  {tags : TagMap}

section

variable (consistent : db.Consistent c) (session : InSession db False c db w)
include consistent session

theorem pending_tag
    (tagged : f.tagged = true) (stored : db.get f k = some old) :
    (db.putAll w.staged).get f k = some old ∨
      (db.putAll w.staged).get f k = some (f.setEnd (some c.nextSnapshotId) old) :=
  session.pending_stored consistent (Family.versioned_of_tagged tagged)
    (Family.allocated_of_followed (Family.followed_of_tagged tagged)) stored

theorem tagsAt_le
    {snapshot : Nat} (early : snapshot < c.nextSnapshotId) (slot : Family × Key)
    (tag : (TagOwner × String) × String) (shown : db.tagsAt snapshot slot = some tag) :
    (db.putAll w.staged).tagsAt snapshot slot = some tag := by
  obtain ⟨row, stored, visible, holds⟩ := tagsAt_eq_some.mp shown
  have tagged := Family.tagged_of_tagOf holds
  rcases session.pending_tag consistent tagged stored with same | retired
  · exact tagsAt_eq_some.mpr ⟨row, same, visible, holds⟩
  refine tagsAt_eq_some.mpr ⟨_, retired, ?_, (Family.tagOf_setEnd _ _).trans holds⟩
  rw [Family.beginOf_setEnd, Family.endOf_setEnd (Family.retirable_of_tagged tagged)]
  have begun : ¬ slot.1.beginOf row > snapshot := by
    intro late
    simp [isVisible, late] at visible
  simp [isVisible, begun, early]

/-- Where the past is kept, the session has ended no version that had ended before: the past would show
it again. -/
theorem retired_live
    (tagged : f.tagged = true)
    (stored : ∀ snapshot < c.nextSnapshotId, Slots.Keeps (db.tagsAt snapshot) (log snapshot))
    (past : ∀ snapshot < c.nextSnapshotId, Slots.Keeps ((db.putAll w.staged).tagsAt snapshot) (log snapshot))
    (found : db.get f k = some old)
    (retired : (db.putAll w.staged).get f k = some (f.setEnd (some c.nextSnapshotId) old)) :
    f.endOf old = none := by
  have fits := consistent.sound f k old found
  by_contra ended
  obtain ⟨last, ended⟩ := ne_none_iff_exists'.mp ended
  have early : max (f.beginOf old) last < c.nextSnapshotId :=
    max_lt (fits.begun (Family.versioned_of_tagged tagged)) (fits.ended last ended)
  have same := (stored _ early).eq_of_le (past _ early) (session.tagsAt_le consistent early)
  obtain ⟨tag, holds⟩ := Family.tagOf_of_tagged tagged old
  have shown : (db.putAll w.staged).tagsAt (max (f.beginOf old) last) (f, k) = some tag := by
    refine tagsAt_eq_some.mpr ⟨_, retired, ?_, (Family.tagOf_setEnd _ _).trans holds⟩
    rw [Family.beginOf_setEnd, Family.endOf_setEnd (Family.retirable_of_tagged tagged)]
    simpa [isVisible] using early
  rw [same] at shown
  obtain ⟨row, stored', visible, _⟩ := tagsAt_eq_some.mp shown
  cases found.symm.trans stored'
  simp [isVisible, ended] at visible

theorem retireTag_iff
    (stored : ∀ snapshot < c.nextSnapshotId, Slots.Keeps (db.tagsAt snapshot) (log snapshot))
    (recalls : (db.putAll w.staged).Recalls c.nextSnapshotId log tags) {call : StagingCall}
    (called : w.staging env db call = .ok (reply, w')) (tagged : f.tagged = true)
    (found : db.get f k = some old)
    (staged : w'.staged = w.staged ++ [⟨f, k, f.setEnd (some w.snapshotId) old⟩])
    (name : TagOwner × String) :
    (db.putAll w'.staged).Recalls c.nextSnapshotId log (update tags name none) ↔
      f.endOf old = none ∧ Slots.Alone ((db.putAll w.staged).tagsAt c.nextSnapshotId) (f, k) name := by
  have after := session.staging consistent False.elim called
  have now : w.snapshotId = c.nextSnapshotId := session.snapshot
  have put : db.putAll w'.staged =
      (db.putAll w.staged).put ⟨f, k, f.setEnd (some c.nextSnapshotId) old⟩ := by
    rw [staged, putAll_append, now]
    rfl
  have settled : (db.putAll w'.staged).Recalls c.nextSnapshotId log (update tags name none) →
      f.endOf old = none := by
    intro kept
    refine after.retired_live consistent tagged stored kept.past found ?_
    rw [put, get_put_same]
  rw [put] at settled ⊢
  exact recalls.retire_iff tagged (session.pending_tag consistent tagged found) settled

end

theorem dropTable_get (session : InSession db False c db w) (table : x.family = .table)
    (tagged : f.tagged = true) (k : Key) :
    (∃ old, db.get f k = some old ∧ f.cascades db tableId k old ∧ f.endOf old = none ∧
        (db.putAll (w.staged ++ x :: w.dropTableCascade db tableId)).get f k =
          some (f.setEnd (some c.nextSnapshotId) old)) ∨
      ¬ db.Takes tableId (f, k) ∧
        (db.putAll (w.staged ++ x :: w.dropTableCascade db tableId)).get f k =
          (db.putAll w.staged).get f k := by
  have outside : f ≠ .dataFileBySnapshot := by
    rintro rfl
    contradiction
  have now : w.snapshotId = c.nextSnapshotId := session.snapshot
  rw [putAll_append]
  rcases (db.putAll w.staged).get_putAll (f := f) (x :: w.dropTableCascade db tableId) k with
    ⟨row, member, found⟩ | ⟨absent, kept⟩
  · rcases mem_cons.mp member with rfl | cascade
    · cases table
      contradiction
    · obtain ⟨old, stored, taken, live, rfl⟩ := (mem_cascade outside).mp cascade
      exact .inl ⟨old, stored, taken, live, now ▸ found⟩
  · refine .inr ⟨?_, kept⟩
    rintro ⟨old, stored, taken, live⟩
    exact absent _ (mem_cons_of_mem _ ((mem_cascade outside).mpr ⟨old, stored, taken, live, rfl⟩))

theorem dropTable_past (consistent : db.Consistent c) (session : InSession db False c db w)
    {tableId snapshot : Nat} (table : x.family = .table) (early : snapshot < c.nextSnapshotId) :
    (db.putAll (w.staged ++ x :: w.dropTableCascade db tableId)).tagsAt snapshot =
      (db.putAll w.staged).tagsAt snapshot := by
  funext slot
  cases tagged : slot.1.tagged with
  | false => rw [tagsAt_untagged tagged, tagsAt_untagged tagged]
  | true =>
    rcases session.dropTable_get table tagged slot.2 with ⟨old, stored, _, live, ended⟩ | ⟨_, same⟩
    · rw [tagsAt_of_live tagged (.inr ended) live early,
        tagsAt_of_live tagged (session.pending_tag consistent tagged stored) live early]
    · rw [tagsAt, tagsAt, same]

theorem dropTable_current (session : InSession db False c db w) [DecidablePred (db.Takes tableId)]
    (table : x.family = .table) :
    (db.putAll (w.staged ++ x :: w.dropTableCascade db tableId)).tagsAt c.nextSnapshotId =
      fun slot => if db.Takes tableId slot then none
        else (db.putAll w.staged).tagsAt c.nextSnapshotId slot := by
  funext slot
  cases tagged : slot.1.tagged with
  | false => rw [tagsAt_untagged tagged, tagsAt_untagged tagged, ite_self]
  | true =>
    rcases session.dropTable_get table tagged slot.2 with
      ⟨old, stored, cascades, live, ended⟩ | ⟨untaken, same⟩
    · rw [if_pos ⟨old, stored, cascades, live⟩]
      refine eq_none_iff_forall_ne_some.mpr fun tag shown => ?_
      obtain ⟨row, found, visible, _⟩ := tagsAt_eq_some.mp shown
      cases ended.symm.trans found
      rw [Family.endOf_setEnd (Family.retirable_of_tagged tagged)] at visible
      simp [isVisible] at visible
    · rw [if_neg untaken, tagsAt, tagsAt, same]

theorem cascades_tag (consistent : db.Consistent c) (session : InSession db False c db w)
    {tag : (TagOwner × String) × String}
    (shown : (db.putAll w.staged).tagsAt c.nextSnapshotId (f, k) = some tag)
    (stored : db.get f k = some old) :
    f.cascades db tableId k old ↔ tag.1.1.tableId = tableId := by
  obtain ⟨row, found, _, holds⟩ := tagsAt_eq_some.mp shown
  have same : f.tagOf old = some tag := by
    rcases session.pending_tag consistent (Family.tagged_of_tagOf holds) stored with kept | retired
    · cases kept.symm.trans found
      exact holds
    · cases retired.symm.trans found
      simpa using holds
  cases f <;> first | contradiction | (cases same; rfl)

/-- The drop of a table takes the tags that are stored live, and only those of the table. -/
theorem dropTags_iff (consistent : db.Consistent c) (session : InSession db False c db w)
    (recalls : (db.putAll w.staged).Recalls c.nextSnapshotId log tags) (table : x.family = .table) :
    (db.putAll (w.staged ++ x :: w.dropTableCascade db tableId)).Recalls c.nextSnapshotId log
        (fun name => if name.1.tableId = tableId then none else tags name) ↔
      ∀ slot tag, (db.putAll w.staged).tagsAt c.nextSnapshotId slot = some tag →
        tag.1.1.tableId = tableId →
        ∃ row, db.get slot.1 slot.2 = some row ∧ slot.1.endOf row = none := by
  classical
  constructor
  · intro kept slot tag shown ours
    have cleared := kept.current
    rw [session.dropTable_current table, recalls.current.clear_iff] at cleared
    obtain ⟨old, stored, _, live⟩ := (cleared slot tag.1 tag.2 shown).mpr ours
    exact ⟨old, stored, live⟩
  · intro all
    refine ⟨fun snapshot early => ?_, ?_⟩
    · rw [session.dropTable_past consistent table early]
      exact recalls.past snapshot early
    · rw [session.dropTable_current table, recalls.current.clear_iff]
      intro slot name value shown
      constructor
      · rintro ⟨old, stored, cascades, _⟩
        exact (session.cascades_tag consistent shown stored).mp cascades
      · intro ours
        obtain ⟨old, stored, live⟩ := all slot _ shown ours
        exact ⟨old, stored, (session.cascades_tag consistent shown stored).mpr ours, live⟩

theorem untagged_iff (recalls : (db.putAll w.staged).Recalls c.nextSnapshotId log tags)
    {call : StagingCall} (called : w.staging env db call = .ok (reply, w'))
    (other : ∀ f, f.tagged = true → f ∉ call.families) :
    (db.putAll w'.staged).Recalls c.nextSnapshotId log tags := by
  have same : ∀ snapshot, (db.putAll w'.staged).tagsAt snapshot = (db.putAll w.staged).tagsAt snapshot :=
    fun snapshot => tagsAt_congr fun f tagged =>
      get_of_family (staging_untouched called (other f tagged))
  exact ⟨fun snapshot early => same snapshot ▸ recalls.past snapshot early,
    same _ ▸ recalls.current⟩

theorem tagSafe_of_failed {call : StagingCall} (failed : w.staging env db call = .error e) :
    WriterCall.TagSafe env db w (.staging call) := by
  have missing : ∀ {f : Family} {k : Key} {old : f.Row}, call.retires env = some (f, k) →
      db.get f k ≠ some old := by
    intro f k old named found
    obtain ⟨_, _, _, called, _⟩ := staging_named (w := w) named found
    cases failed.symm.trans called
  cases call with
  | setTag | setColumnTag => cases failed
  | removeTag | removeColumnTag =>
    intro row found
    exact absurd found (missing rfl)
  | dropTable =>
    intro isStored
    obtain ⟨row, found⟩ := isSome_iff_exists.mp isStored
    exact absurd found (missing rfl)
  | _ => trivial

section

variable (consistent : db.Consistent c) (session : InSession db False c db w)
  (stored : ∀ snapshot < c.nextSnapshotId, Slots.Keeps (db.tagsAt snapshot) (log snapshot))
  (recalls : (db.putAll w.staged).Recalls c.nextSnapshotId log tags)
include consistent session stored recalls

/-- A staging call that succeeds keeps the tags as it means to exactly if it is safe. -/
theorem staging_retag_iff {call : StagingCall}
    (called : w.staging env db call = .ok (reply, w')) :
    (db.putAll w'.staged).Recalls c.nextSnapshotId log (call.retag tags) ↔
      WriterCall.TagSafe env db w (.staging call) := by
  have now : w.snapshotId = c.nextSnapshotId := session.snapshot
  have keyed : ∀ {f : Family} {k : Key} {row : f.Row}, (db.putAll w.staged).get f k = some row →
      f.Keyed w.counters k row := session.derived.keyed consistent.sound session.le
  cases call with
  | setTag | setColumnTag =>
    cases called
    simp only [WriterCall.TagSafe, StagingCall.retag, setTag, setColumnTag, stage, putAll_append, now]
    refine recalls.set_iff rfl rfl rfl fun snapshot early => tagsAt_of_later fun row found => ?_
    obtain ⟨hash, same⟩ := keyed found
    -- the last word of the key is the snapshot that the row begins at
    exact early.trans_eq (Option.some.inj (congrArg getLast? same))
  | removeTag | removeColumnTag =>
    obtain ⟨old, found, rfl⟩ := retireRow_ok.mp (checked_ok.mp called).2
    refine (session.retireTag_iff consistent stored recalls called rfl found rfl _).trans ?_
    simp only [WriterCall.TagSafe, now]
    exact ⟨fun safe row stored => some.inj (found.symm.trans stored) ▸ safe,
      fun safe => safe old found⟩
  | dropTable schemaId tableId begun =>
    obtain ⟨row, found, rfl⟩ := dropTable_ok.mp (checked_ok.mp called).2
    simp only [WriterCall.TagSafe, StagingCall.retag, now, found, isSome_some, forall_const]
    exact session.dropTags_iff consistent recalls rfl
  | _ =>
    refine iff_of_true (untagged_iff recalls called fun f tagged => ?_) trivial
    cases f <;> first | contradiction | simp [StagingCall.families]

theorem call_retag_iff (env : Env) (call : WriterCall) :
    ((w.call env db call).db.putAll (w.call env db call).writer.staged).Recalls c.nextSnapshotId log
        (w.retag env db tags call) ↔ call.TagSafe env db w := by
  have beside : (w.call env db call).writer = w →
      ((w.call env db call).db.putAll (w.call env db call).writer.staged).Recalls
        c.nextSnapshotId log tags := by
    intro unchanged
    have same : ∀ snapshot, ((w.call env db call).db.putAll w.staged).tagsAt snapshot =
        (db.putAll w.staged).tagsAt snapshot := by
      refine fun snapshot => tagsAt_congr fun f tagged => get_of_family (putAll_congr ?_ _)
      exact call_core call (Family.core_of_tagged tagged)
    rw [unchanged]
    exact ⟨fun snapshot early => same snapshot ▸ recalls.past snapshot early,
      same _ ▸ recalls.current⟩
  cases call with
  | staging call =>
    cases called : w.staging env db call with
    | error e =>
      simp only [CatalogWriter.call, CatalogWriter.retag, called]
      exact iff_of_true recalls (tagSafe_of_failed called)
    | ok outcome =>
      simp only [CatalogWriter.call, CatalogWriter.retag, called]
      exact session.staging_retag_iff consistent stored recalls called
  | direct call => exact iff_of_true (beside rfl) trivial
  | nextRowidRange tableId count =>
    exact iff_of_true (beside (nextRowidRange_writer tableId count)) trivial

theorem runTags_iff (calls : List WriterCall) :
    (∀ earlier, earlier <+: calls →
        ((RockLake.runCalls env (db, w) earlier).1.putAll
          (RockLake.runCalls env (db, w) earlier).2.staged).Recalls c.nextSnapshotId log
          (runTags env (db, w) tags earlier)) ↔
      CallsMeet env (WriterCall.TagSafe env) (db, w) calls := by
  induction calls generalizing db w tags with
  | nil =>
    refine iff_of_true (fun earlier starts => ?_) trivial
    cases prefix_nil.mp starts
    exact recalls
  | cons call rest ih =>
    -- the state after the call, seen from the store as it is then
    have next : InSession db False c (w.call env db call).db (w.call env db call).writer :=
      session.call consistent call False.elim
    have stored' : ∀ snapshot < c.nextSnapshotId,
        Slots.Keeps ((w.call env db call).db.tagsAt snapshot) (log snapshot) := by
      intro snapshot early
      rw [tagsAt_congr fun f tagged =>
        get_of_family (next.core f (Family.core_of_tagged tagged))]
      exact stored snapshot early
    have each := session.call_retag_iff consistent stored recalls env call
    have later := fun safe => ih (consistent.ofCore next.core) next.rebase stored' (each.mpr safe)
    constructor
    · intro all
      have safe := each.mp (all [call] (prefix_append [call] rest))
      refine ⟨safe, (later safe).mp fun earlier starts => ?_⟩
      exact all (call :: earlier) (cons_prefix_cons.mpr ⟨rfl, starts⟩)
    · rintro ⟨safe, meets⟩ earlier starts
      cases earlier with
      | nil => exact recalls
      | cons first others =>
        obtain ⟨rfl, inside⟩ := cons_prefix_cons.mp starts
        exact (later safe).mpr meets others inside

end

end InSession

/-- Readers of the snapshots so far find the values of the log, and no others. -/
def Catalog.ShowsTags (catalog : Catalog) (log : Nat → TagMap) : Prop :=
  ∀ snapshot < catalog.store.counters.nextSnapshotId, ∃ r,
    catalog.store.readAt catalog.db snapshot = .ok r ∧
    ∀ name, r.tagValues name = (log snapshot name).toList

theorem Catalog.Valid.showsTags_iff {catalog : Catalog} (valid : catalog.Valid) :
    catalog.ShowsTags log ↔ ∀ snapshot < catalog.store.counters.nextSnapshotId,
      Slots.Keeps (catalog.db.tagsAt snapshot) (log snapshot) := by
  refine forall_congr' fun snapshot => imp_congr_right fun _ => ?_
  have read : catalog.store.readAt catalog.db snapshot = .ok ⟨catalog.db, snapshot⟩ := by
    simp [readAt, valid.cached]
  have sound : (CatalogReader.mk catalog.db snapshot).db.Sound catalog.store.counters :=
    valid.consistent.sound
  rw [read, ← CatalogReader.tagValues_iff sound]
  constructor
  · rintro ⟨r, same, shown⟩
    cases same
    exact shown
  · intro shown
    exact ⟨_, rfl, shown⟩

theorem Db.recalls_iff {db : Db} :
    db.Recalls now log tags ↔ ∀ snapshot < now + 1,
      Slots.Keeps (db.tagsAt snapshot) (update log now tags snapshot) := by
  constructor
  · intro recalls snapshot bound
    rcases Nat.lt_succ_iff_lt_or_eq.mp bound with early | rfl
    · rw [update_of_ne early.ne]
      exact recalls.past snapshot early
    · rw [update_self]
      exact recalls.current
  · intro all
    constructor
    · intro snapshot early
      have kept := all snapshot (early.trans (Nat.lt_succ_self now))
      rwa [update_of_ne early.ne] at kept
    · have kept := all now (Nat.lt_succ_self now)
      rwa [update_self] at kept

/-- A catalog, what its tags are meant to be, and what they were meant to be at each snapshot. -/
structure TagHistory where
  catalog : Catalog
  tags : TagMap
  log : Nat → TagMap

namespace TagHistory

variable {env : Env} {history history' : TagHistory} {event : CatalogEvent}

def tagsAfter (env : Env) (history : TagHistory) (calls : List WriterCall) : TagMap :=
  runTags env (history.catalog.db, history.catalog.store.beginWrite) history.tags calls

/-- The log with the snapshot of a session that ends after the calls. -/
def logAfter (env : Env) (history : TagHistory) (calls : List WriterCall) (result : CommitResult) :
    Nat → TagMap :=
  update history.log result.snapshotId (history.tagsAfter env calls)

/-- Only committed sessions change the tags. -/
inductive Step (env : Env) (history : TagHistory) : CatalogEvent → TagHistory → Prop
  | commit {session result catalog}
      (ended : Session.commit env history.catalog session = .ok (result, catalog)) :
      Step env history (.session session) ⟨catalog, history.tagsAfter env session.calls,
        history.logAfter env session.calls result⟩
  | other {event catalog} (uncommitted : ∀ session, event ≠ .session session)
      (stepped : Catalog.Step env history.catalog event catalog) :
      Step env history event ⟨catalog, history.tags, history.log⟩

def SafeStep (env : Env) (history : TagHistory) (event : CatalogEvent) (history' : TagHistory) : Prop :=
  Step env history event history' ∧
    SessionInvariant.Meets env (WriterCall.TagSafe env) history.catalog event

/-- The stored rows keep the tags of every snapshot, and go on to keep them. -/
structure Kept (history : TagHistory) : Prop where
  valid : history.catalog.Valid
  recalls : history.catalog.db.Recalls history.catalog.store.counters.nextSnapshotId history.log
    history.tags

/-- A commit shows the tags that the session means, and those of the past, exactly if the pending rows
keep them. -/
theorem Kept.shows_iff (kept : history.Kept) {calls : List WriterCall} {catalog : Catalog}
    (ended : Session.commit env history.catalog ⟨calls, request⟩ = .ok (result, catalog)) :
    catalog.ShowsTags (history.logAfter env calls result) ↔
      ((runCalls env (history.catalog.db, history.catalog.store.beginWrite) calls).1.putAll
        (runCalls env (history.catalog.db, history.catalog.store.beginWrite) calls).2.staged).Recalls
        history.catalog.store.counters.nextSnapshotId history.log (history.tagsAfter env calls) := by
  have valid := kept.valid.ofCommit ended
  obtain ⟨db, w, ran, rfl, written, handle⟩ := Session.commit_ok ended
  have begun := kept.valid.inSession False calls False.elim ran
  have now : w.commitResult.snapshotId = history.catalog.store.counters.nextSnapshotId :=
    begun.snapshot
  have next : catalog.store.counters.nextSnapshotId =
      history.catalog.store.counters.nextSnapshotId + 1 := by
    rw [handle, ← begun.snapshot]
    rfl
  have same : ∀ snapshot, catalog.db.tagsAt snapshot = (db.putAll w.staged).tagsAt snapshot := by
    refine fun snapshot => tagsAt_congr fun f tagged => ?_
    rw [written]
    exact begun.rebase.get_commit request (Family.versioned_of_tagged tagged)
  rw [valid.showsTags_iff, ran, recalls_iff, next, logAfter, now]
  simp [same]

theorem Kept.ofShows {catalog : Catalog} {log : Nat → TagMap} {tags : TagMap}
    (valid : catalog.Valid) (next : catalog.store.counters.nextSnapshotId = now + 1)
    (shows : catalog.ShowsTags (update log now tags)) :
    Kept ⟨catalog, tags, update log now tags⟩ := by
  have all := valid.showsTags_iff.mp shows
  refine ⟨valid, all, ?_⟩
  have latest := all now (next ▸ Nat.lt_succ_self now)
  rw [update_self] at latest
  have same : catalog.db.tagsAt catalog.store.counters.nextSnapshotId = catalog.db.tagsAt now := by
    funext slot
    apply ext
    intro tag
    simp only [tagsAt_eq_some]
    refine exists_congr fun row => and_congr_right fun stored => ?_
    have fits := valid.consistent.sound slot.1 slot.2 row stored
    rw [fits.visible_latest (Nat.le_succ _), fits.visible_latest next.le]
  rw [same]
  exact latest

theorem Kept.step (kept : history.Kept) (stepped : SafeStep env history event history') :
    history'.Kept := by
  obtain ⟨stepped, meets⟩ := stepped
  cases stepped with
  | @commit session result catalog ended =>
    have valid := kept.valid.ofCommit ended
    have begun := InSession.begin False history.catalog.store kept.valid.consistent
    have pending := (begun.runTags_iff kept.valid.consistent kept.recalls.past kept.recalls
      session.calls).mpr meets session.calls (prefix_refl _)
    refine .ofShows valid ?_ ((kept.shows_iff ended).mpr pending)
    obtain ⟨db, w, ran, rfl, _, handle⟩ := Session.commit_ok ended
    rw [handle]
    rfl
  | @other event catalog uncommitted stepped =>
    obtain ⟨rows, counters⟩ := stepped.uncommitted kept.valid uncommitted
    have same : ∀ f, f.tagged = true → ∀ k, catalog.db.get f k = history.catalog.db.get f k :=
      fun f tagged => get_of_family (rows f (Family.versioned_of_tagged tagged))
    refine ⟨kept.valid.step stepped, fun snapshot early => ?_, ?_⟩
    · rw [tagsAt_congr same]
      exact kept.recalls.past snapshot (counters ▸ early)
    · rw [tagsAt_congr same, counters]
      exact kept.recalls.current

theorem Kept.initial (opened : Catalog.Opens nonce store db) :
    Kept ⟨⟨db, store⟩, fun _ => none, fun _ _ => none⟩ := by
  have none : ∀ snapshot, db.tagsAt snapshot = fun _ => none := by
    intro snapshot
    funext slot
    cases tagged : slot.1.tagged with
    | false => exact tagsAt_untagged tagged
    | true =>
      rw [tagsAt, Catalog.opened_absent opened (Family.versioned_of_tagged tagged)]
      rfl
  refine ⟨Catalog.initial_valid opened, fun snapshot _ => ?_, ?_⟩
  · rw [none]
    exact Slots.keeps_empty
  · rw [none]
    exact Slots.keeps_empty

theorem Kept.set_safe (kept : history.Kept)
    (absent : history.tags (.object objectId, tagKey) = none) :
    WriterCall.TagSafe env history.catalog.db history.catalog.store.beginWrite
      (.staging (.setTag objectId tagKey tagValue)) := by
  refine kept.recalls.current.alone_of_absent absent ?_
  refine eq_none_iff_forall_ne_some.mpr fun tag shown => ?_
  obtain ⟨row, stored, _⟩ := tagsAt_eq_some.mp shown
  have fits := kept.valid.consistent.sound .tag _ row stored
  obtain ⟨hash, same⟩ := fits.keyed
  simp only [keyTag, cons.injEq, and_true] at same
  exact (fits.begun rfl).ne same.2.2.symm

theorem Kept.remove_safe (kept : history.Kept)
    (found : history.catalog.db.get .tag (keyTag objectId (env.hashTagKey tagKey) begun) = some row)
    (live : row.endSnapshot = none) (named : row.tagKey = tagKey) :
    WriterCall.TagSafe env history.catalog.db history.catalog.store.beginWrite
      (.staging (.removeTag objectId tagKey begun)) := by
  intro row' found'
  cases found.symm.trans found'
  have fits := kept.valid.consistent.sound .tag _ row found
  obtain ⟨hash, same⟩ := fits.keyed
  simp only [keyTag, cons.injEq, and_true] at same
  have holds : history.catalog.db.tagsAt history.catalog.store.counters.nextSnapshotId
      (.tag, keyTag objectId (env.hashTagKey tagKey) begun) =
        some ((.object objectId, tagKey), row.tagValue) := by
    refine tagsAt_eq_some.mpr ⟨row, found, ?_, ?_⟩
    · rw [fits.visible_latest (Nat.le_succ _)]
      exact isNone_iff_eq_none.mpr live
    · rw [same.1, ← named]
      rfl
  exact ⟨live, kept.recalls.current.alone_of_holds holds⟩

/-- In a history of safe calls every snapshot shows the tags as they were set and removed. Its next
session, and the sessions that end after some of its calls, go on to exactly if its calls are safe. -/
theorem tags_map_iff {nonce store db} {events : List CatalogEvent}
    {history : TagHistory} (opened : Catalog.Opens nonce store db)
    (ran : Run (SafeStep env) ⟨⟨db, store⟩, fun _ => none, fun _ _ => none⟩ events history) :
    history.catalog.ShowsTags history.log ∧ ∀ calls,
      ((∀ earlier, earlier <+: calls → ∀ request result catalog,
          Session.commit env history.catalog ⟨earlier, request⟩ = .ok (result, catalog) →
          catalog.ShowsTags (history.logAfter env earlier result)) ↔
        CallsMeet env (WriterCall.TagSafe env) (history.catalog.db, history.catalog.store.beginWrite)
          calls) := by
  have kept := ran.invariant Kept (fun _ _ _ good stepped => good.step stepped) (.initial opened)
  refine ⟨kept.valid.showsTags_iff.mpr kept.recalls.past, fun calls => ?_⟩
  have begun := InSession.begin False history.catalog.store kept.valid.consistent
  rw [← begun.runTags_iff kept.valid.consistent kept.recalls.past kept.recalls calls]
  constructor
  · intro all earlier starts
    obtain ⟨result, catalog, ended⟩ :=
      kept.valid.commits env earlier (rfl : ({} : SnapshotRequest).conflict = none)
    exact (kept.shows_iff ended).mp (all earlier starts _ _ _ ended)
  · intro all earlier starts request result catalog ended
    exact (kept.shows_iff ended).mpr (all earlier starts)

/-- A session that sets the tag `tier` of the object with identifier 1. -/
def setTier (tier : String) : Session := ⟨[.staging (.setTag 1 "tier" tier)], {}⟩

/-- A tag that is removed before it is set again. -/
theorem tags_map_reset : ∃ store db, ∃ history : TagHistory,
    Catalog.Opens "a" store db ∧
    Run (SafeStep Env.trivial) ⟨⟨db, store⟩, fun _ => none, fun _ _ => none⟩
      [.session (setTier "hot"), .session ⟨[.staging (.removeTag 1 "tier" 1)], {}⟩,
        .session (setTier "cold")] history ∧
    history.log 1 (.object 1, "tier") = some "hot" ∧ history.log 2 (.object 1, "tier") = none ∧
    history.log 3 (.object 1, "tier") = some "cold" ∧
    history.catalog.ShowsTags history.log := by
  have first := Kept.initial (rfl : openCatalog empty "a" = .ok (_, _))
  have set : SafeStep Env.trivial _ (.session (setTier "hot")) _ :=
    ⟨.commit rfl, first.set_safe rfl, trivial⟩
  have second := first.step set
  have remove : SafeStep Env.trivial _ (.session ⟨[.staging (.removeTag 1 "tier" 1)], {}⟩) _ :=
    ⟨.commit rfl, second.remove_safe rfl rfl rfl, trivial⟩
  have third := second.step remove
  have reset : SafeStep Env.trivial _ (.session (setTier "cold")) _ :=
    ⟨.commit rfl, third.set_safe rfl, trivial⟩
  have ran := Run.next set (.next remove (.single reset))
  exact ⟨_, _, _, rfl, ran, rfl, rfl, rfl, (tags_map_iff rfl ran).1⟩

/-- A tag that is set again without being removed shows both values. -/
theorem tag_set_again : ∃ store db, ∃ history : TagHistory,
    Catalog.Opens "a" store db ∧
    Run (Step Env.trivial) ⟨⟨db, store⟩, fun _ => none, fun _ _ => none⟩
      [.session (setTier "hot"), .session (setTier "cold")] history ∧
    history.log 2 (.object 1, "tier") = some "cold" ∧
    (∃ r, history.catalog.store.readAt history.catalog.db 2 = .ok r ∧
      r.tagValues (.object 1, "tier") = ["hot", "cold"]) ∧
    ¬ history.catalog.ShowsTags history.log := by
  refine ⟨_, _, _, rfl, .next (.commit rfl) (.single (.commit rfl)), rfl, ⟨_, rfl, rfl⟩, fun shows => ?_⟩
  obtain ⟨r, read, values⟩ := shows 2 (by decide)
  cases read
  have both := values (.object 1, "tier")
  contradiction

end TagHistory

end RockLake
