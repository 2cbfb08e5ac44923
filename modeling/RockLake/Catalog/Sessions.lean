import RockLake.Catalog.Invariant

/-! Invariants along a write session and across committed sessions. Inside a session the store
changes only in the families written directly; the staged pairs stay admissible, and applying them
keeps the table index and the snapshot index in step with the rows they index. -/
namespace RockLake

open List CatalogWriter Option Db

/-- Both indexes are in step, and a table identifier occurs in one table row only. -/
structure Db.Linked (db : Db) : Prop where
  mirrored : db.Mirrored
  indexed : db.Indexed
  single : ∀ k row k' row', db.get .table k = some row → db.get .table k' = some row' →
    row.tableId = row'.tableId → k = k'

/-- The committed store, relative to the counters the store handle holds. -/
structure Db.Consistent (db : Db) (c : CounterCache) : Prop where
  sound : db.Sound c
  linked : db.Linked

theorem Family.core_of_versioned {f : Family} (versioned : f.versioned = true) : f.core = true := by
  cases f <;> first | rfl | contradiction

theorem Family.versioned_of_retirable {f : Family} (retires : f.retirable = true) :
    f.versioned = true := by
  cases f <;> first | rfl | contradiction

def Family.booked : Family → Bool
  | .counter | .writerEpoch | .writerNonce | .retainFrom | .catalogFormatVersion | .snapshotLease
  | .pinnedSnapshot | .checkpoint | .checkpointPin | .exciseAudit => true
  | _ => false

/-- Families without versions of catalog rows: any row fits them. -/
def Family.aside (f : Family) : Bool := f.ancillary || f.booked || f = .extensionSchema

theorem Family.fits_of_aside {f : Family} (aside : f.aside = true) (c : CounterCache) (k : Key)
    (row : f.Row) : f.Fits c k row where
  keyed := by cases f <;> trivial
  begun versioned := by cases f <;> contradiction
  ended e found := by
    have unretired : f.retirable = false := by cases f <;> first | rfl | contradiction
    rw [endOf_of_not_retirable unretired] at found
    contradiction

theorem Family.Fits.visible_latest {f : Family} {row : f.Row} (fits : f.Fits c k row)
    {snapshot : Nat} (latest : c.nextSnapshotId ≤ snapshot + 1) :
    isVisible (f.beginOf row) (f.endOf row) snapshot = (f.endOf row).isNone := by
  have begun : ¬ f.beginOf row > snapshot := by
    cases versioned : f.versioned with
    | true =>
      have before := fits.begun versioned
      omega
    | false =>
      have start : f.beginOf row = 0 := by cases f <;> first | rfl | contradiction
      omega
  cases ended : f.endOf row with
  | none => simp [isVisible, begun]
  | some e =>
    have past := fits.ended e ended
    have gone : ¬ snapshot < e := by omega
    simp [isVisible, begun, gone]

theorem Db.Sound.ofCore {db base : Db} (sound : base.Sound c)
    (core : ∀ f, f.core = true → db f = base f) : db.Sound c := by
  intro f k row found
  cases same : f.core with
  | true => exact sound f k row (by rwa [Db.get, ← core f same])
  | false => exact Family.fits_of_aside (by cases f <;> first | rfl | contradiction) c k row

theorem Admissible.ofCore (core : ∀ f, f.core = true → db f = base f)
    (admissible : Admissible db careful c d x) :
    Admissible base careful c d x := by
  cases admissible with
  | retire retires stored current =>
    refine .retire retires ?_ current
    rwa [Db.get, ← core _ (Family.core_of_versioned (Family.versioned_of_retirable retires))]
  | create versioned begun live keyed unused chosen =>
    refine .create versioned begun live keyed unused ?_
    rwa [Db.get, ← core _ (Family.core_of_versioned versioned)]
  | plain unversioned keyed unused => exact .plain unversioned keyed unused

/-- Admissibility from later counters of a session holds from its first counters too. -/
theorem Admissible.weaken (first : c.Le c') (snapshot : c'.nextSnapshotId = c.nextSnapshotId)
    (last : d.Le d') (admissible : Admissible db careful c' d x) : Admissible db careful c d' x := by
  cases admissible with
  | retire retires stored current =>
    rw [snapshot]
    exact .retire retires stored current
  | create versioned begun live keyed unused chosen =>
    exact .create versioned (begun.trans snapshot) live (keyed.mono last)
      (fun allocated old fits => unused allocated old (fits.mono first)) chosen
  | plain unversioned keyed unused =>
    exact .plain unversioned (keyed.mono last)
      fun index old fits => unused index old (fits.mono first)

/-- The calls of a session are careful towards the store it began with. -/
def WriterCall.careful (db : Db) : WriterCall → Bool
  | .staging call => call.careful db
  | _ => true

theorem StagingCall.careful_ofCore (core : ∀ f, f.core = true → db f = base f) (call : StagingCall) :
    call.careful db = call.careful base := by
  have same : ∀ f, f.core = true → ∀ k, db.get f k = base.get f k := fun f isCore k =>
    get_of_family (core f isCore) k
  cases call <;> try rfl
  all_goals simp only [careful, Db.unretired, same .schema rfl, same .table rfl, same .column rfl,
    same .inlinedInsert rfl, same .inlinedDelete rfl]

theorem Shape.ofCore (core : ∀ f, f.core = true → db f = base f) (shape : Shape db snapshot writes) :
    Shape base snapshot writes := by
  induction shape with
  | nil => exact .nil
  | unlinked free _ ih => exact .unlinked free ih
  | file row _ ih => exact .file row ih
  | retiredTable stored _ ih =>
    refine .retiredTable ?_ ih
    rwa [Db.get, ← core .table rfl]

/-- Every row of `pending` is committed or the row of an admissible pair, and no committed key is
lost. -/
structure Derived (base : Db) (careful : Prop) (c d : CounterCache) (pending : Db) : Prop where
  origin : ∀ (f : Family) (k : Key) (row : f.Row), pending.get f k = some row →
    base.get f k = some row ∨ Admissible base careful c d ⟨f, k, row⟩
  kept : ∀ (f : Family) (k : Key) (row : f.Row), base.get f k = some row →
    ∃ current, pending.get f k = some current

section Derived

variable {base pending : Db} {careful : Prop} {c d : CounterCache}

theorem Derived.refl : Derived base careful c d base :=
  ⟨fun _ _ _ found => .inl found, fun _ _ row found => ⟨row, found⟩⟩

theorem Derived.putAll (derived : Derived base careful c d pending)
    (admissible : ∀ x ∈ writes, Admissible base careful c d x) :
    Derived base careful c d (pending.putAll writes) := by
  constructor
  · intro f k row found
    rcases pending.get_putAll (f := f) writes k with ⟨row', member, stored⟩ | ⟨_, kept⟩
    · rw [found] at stored
      cases stored
      exact .inr (admissible _ member)
    · exact derived.origin f k row (kept ▸ found)
  · intro f k row found
    rcases pending.get_putAll (f := f) writes k with ⟨row', _, stored⟩ | ⟨_, kept⟩
    · exact ⟨row', stored⟩
    · obtain ⟨current, present⟩ := derived.kept f k row found
      exact ⟨current, kept.trans present⟩

theorem Derived.put (derived : Derived base careful c d pending)
    (admissible : Admissible base careful c d x) : Derived base careful c d (pending.put x) := by
  change Derived base careful c d (pending.putAll [x])
  refine derived.putAll fun y member => ?_
  rw [mem_singleton] at member
  subst member
  exact admissible

theorem Derived.weaken (last : d.Le d') (derived : Derived base careful c d pending) :
    Derived base careful c d' pending :=
  ⟨fun f k row found => (derived.origin f k row found).imp id (Admissible.weaken (.refl c) rfl last),
    derived.kept⟩

theorem Admissible.keyed (sound : base.Sound c) (le : c.Le d)
    (admissible : Admissible base careful c d ⟨f, k, row⟩) : f.Keyed d k row := by
  generalize same : (⟨f, k, row⟩ : Write) = x at admissible
  cases admissible with
  | retire retires stored current =>
    cases same
    exact ((sound _ _ _ stored).keyed.mono le).setEnd _
  | create versioned begun live keyed unused chosen => cases same; exact keyed
  | plain unversioned keyed unused => cases same; exact keyed

theorem Derived.keyed (sound : base.Sound c) (le : c.Le d)
    (derived : Derived base careful c d pending) (found : pending.get f k = some row) :
    f.Keyed d k row := by
  rcases derived.origin f k row found with stored | admissible
  · exact (sound f k row stored).keyed.mono le
  · exact admissible.keyed sound le

theorem Admissible.ended (ended : f.endOf row ≠ none)
    (admissible : Admissible base careful c d ⟨f, k, row⟩) :
    ∃ old, base.get f k = some old ∧ row = f.setEnd (some c.nextSnapshotId) old := by
  generalize written : (⟨f, k, row⟩ : Write) = x at admissible
  cases admissible with
  | retire retires stored current =>
    cases written
    exact ⟨_, stored, rfl⟩
  | create versioned begun live keyed unused chosen =>
    cases written
    exact absurd live ended
  | plain unversioned keyed unused =>
    cases written
    exact absurd (Family.endOf_of_not_retirable (by cases f <;> first | rfl | contradiction) row) ended

/-- Outside the inlined families, what is staged under the key of a stored row is that row, ended. -/
theorem Admissible.retired (sound : base.Sound c) (versioned : f.versioned = true)
    (allocated : f.callerKeyed = false) (stored : base.get f k = some old)
    (admissible : Admissible base careful c d ⟨f, k, row⟩) :
    row = f.setEnd (some c.nextSnapshotId) old := by
  generalize written : (⟨f, k, row⟩ : Write) = x at admissible
  cases admissible with
  | retire retires stored' current =>
    cases written
    cases stored.symm.trans stored'
    rfl
  | create versioned begun live keyed unused chosen =>
    cases written
    exact absurd (sound f k old stored) (unused allocated old)
  | plain unversioned keyed unused =>
    cases written
    cases f <;> contradiction

/-- Under one key outside the inlined families, rows of a session begin at one snapshot. -/
theorem Admissible.begin_eq (sound : base.Sound c) (versioned : f.versioned = true)
    (allocated : f.callerKeyed = false) (admissible : Admissible base careful c d ⟨f, k, row⟩) :
    (∃ old, base.get f k = some old ∧ f.beginOf row = f.beginOf old) ∨
      (base.get f k = none ∧ f.beginOf row = c.nextSnapshotId) := by
  generalize same : (⟨f, k, row⟩ : Write) = x at admissible
  cases admissible with
  | retire retires stored current =>
    cases same
    exact .inl ⟨_, stored, Family.beginOf_setEnd _ _⟩
  | create versioned begun live keyed unused chosen =>
    cases same
    refine .inr ⟨?_, begun⟩
    exact eq_none_iff_forall_ne_some.mpr fun old stored =>
      unused allocated old (sound _ _ _ stored)
  | plain unversioned keyed unused =>
    cases same
    cases f <;> contradiction

/-- A staged row without an end is a new one, outside the inlined families under a key not stored. -/
theorem Admissible.created (sound : base.Sound c) (retirable : f.retirable = true)
    (allocated : f.callerKeyed = false) (live : f.endOf row = none)
    (admissible : Admissible base careful c d ⟨f, k, row⟩) :
    base.get f k = none ∧ f.beginOf row = c.nextSnapshotId := by
  have versioned := Family.versioned_of_retirable retirable
  rcases admissible.begin_eq sound versioned allocated with ⟨old, stored, _⟩ | fresh
  · cases admissible.retired sound versioned allocated stored
    rw [Family.endOf_setEnd retirable] at live
    cases live
  · exact fresh

theorem Derived.begin_eq (sound : base.Sound c) (derived : Derived base careful c d pending)
    (versioned : f.versioned = true) (allocated : f.callerKeyed = false)
    (found : pending.get f k = some row) (admissible : Admissible base careful c d ⟨f, k, new⟩) :
    f.beginOf row = f.beginOf new := by
  have fresh := admissible.begin_eq sound versioned allocated
  rcases derived.origin f k row found with stored | earlier
  · rcases fresh with ⟨old, present, begun⟩ | ⟨absent, _⟩
    · rw [stored] at present
      cases present
      exact begun.symm
    · rw [stored] at absent
      contradiction
  · rcases earlier.begin_eq sound versioned allocated with ⟨old, present, begun⟩ | ⟨absent, begun⟩
    · rcases fresh with ⟨old', present', begun'⟩ | ⟨absent', _⟩
      · rw [present] at present'
        cases present'
        exact begun.trans begun'.symm
      · rw [present] at absent'
        contradiction
    · rcases fresh with ⟨old', present', _⟩ | ⟨_, begun'⟩
      · rw [absent] at present'
        contradiction
      · exact begun.trans begun'.symm

end Derived

namespace Db.Linked

variable {db db' : Db}

theorem congr (same : ∀ f, f.linked = true → db' f = db f) (linked : db.Linked) : db'.Linked := by
  have table := get_of_family (same .table rfl)
  have byId := get_of_family (same .tableById rfl)
  have file := get_of_family (same .dataFile rfl)
  have index := get_of_family (same .dataFileBySnapshot rfl)
  refine ⟨⟨?_, ?_⟩, ?_, ?_⟩
  · simpa only [file, index] using linked.mirrored.indexed
  · simpa only [file, index] using linked.mirrored.stored
  · simpa only [Indexed, table, byId] using linked.indexed
  · simpa only [table] using linked.single

/-- A data file is put under both of its keys. The row it replaces, if any, must have the same
index key, or its index entry would be left behind. -/
theorem putFile (linked : db.Linked) (keyed : ∀ f k row, db.get f k = some row → f.Keyed d k row)
    (replaces : ∀ old, db.get .dataFile row.fileKey = some old → old.indexKey = row.indexKey) :
    (db.putAll (filePair row)).Linked := by
  have file : ∀ k, (db.putAll (filePair row)).get .dataFile k =
      if k = row.fileKey then some row else db.get .dataFile k := by
    intro k
    have frame : (db.putAll (filePair row)).get .dataFile k =
        (db.put ⟨.dataFile, row.fileKey, row⟩).get .dataFile k := rfl
    rw [frame]
    split
    · rename_i same
      rw [same, get_put_same]
    · rename_i different
      exact db.get_put_key _ different
  have index : ∀ k, (db.putAll (filePair row)).get .dataFileBySnapshot k =
      if k = row.indexKey then some row else db.get .dataFileBySnapshot k := by
    intro k
    have frame : (db.put ⟨.dataFile, row.fileKey, row⟩).get .dataFileBySnapshot k =
        db.get .dataFileBySnapshot k := rfl
    split
    · rename_i same
      rw [same]
      exact get_put_same _ _ _
    · rename_i different
      exact (get_put_key _ _ different).trans frame
  have unchanged : ∀ f, f = .table ∨ f = .tableById → (db.putAll (filePair row)) f = db f := by
    rintro f (rfl | rfl) <;> rfl
  refine ⟨⟨?_, ?_⟩, ?_, ?_⟩
  · intro k found stored
    rw [file] at stored
    rw [index]
    split at stored
    · cases stored
      rw [if_pos rfl]
    · rename_i other
      rw [if_neg]
      · exact linked.mirrored.indexed k found stored
      · intro same
        simp only [DataFileRow.indexKey, keyDataFileBySnapshot, cons.injEq, and_true] at same
        apply other
        rw [(keyed .dataFile k found stored).1, DataFileRow.fileKey, same.1, same.2.2]
  · intro k found stored
    rw [index] at stored
    rw [file]
    split at stored
    · cases stored
      rw [if_pos rfl]
    · rename_i other
      have below := linked.mirrored.stored k found stored
      rw [if_neg]
      · exact below
      · intro same
        rw [same] at below
        exact other ((keyed .dataFileBySnapshot k found stored).1.trans (replaces found below))
  · simpa only [Indexed, get, unchanged .table (.inl rfl), unchanged .tableById (.inr rfl)]
      using linked.indexed
  · simpa only [get, unchanged .table (.inl rfl)] using linked.single

theorem putTable (linked : db.Linked) (stored : db.get .table k = some old)
    (tableId : new.tableId = old.tableId) (schemaId : new.schemaId = old.schemaId) :
    (db.put ⟨.table, k, new⟩).Linked := by
  have table : ∀ k' row, (db.put ⟨.table, k, new⟩).get .table k' = some row →
      ∃ before, db.get .table k' = some before ∧ row.tableId = before.tableId ∧
        row.schemaId = before.schemaId := by
    intro k' row found
    by_cases same : k' = k
    · subst same
      rw [get_put_same] at found
      cases found
      exact ⟨old, stored, tableId, schemaId⟩
    · rw [get_put_key _ _ same] at found
      exact ⟨row, found, rfl, rfl⟩
  refine ⟨⟨?_, ?_⟩, ?_, ?_⟩
  · exact linked.mirrored.indexed
  · exact linked.mirrored.stored
  · intro k' row found
    obtain ⟨before, present, ident, owner⟩ := table k' row found
    rw [ident, owner]
    exact linked.indexed k' before present
  · intro k₁ row₁ k₂ row₂ found₁ found₂ same
    obtain ⟨before₁, present₁, ident₁, _⟩ := table k₁ row₁ found₁
    obtain ⟨before₂, present₂, ident₂, _⟩ := table k₂ row₂ found₂
    exact linked.single k₁ before₁ k₂ before₂ present₁ present₂ (by rw [← ident₁, ← ident₂, same])

theorem addTable (linked : db.Linked)
    (fresh : ∀ k old, db.get .table k = some old → old.tableId ≠ row.tableId) :
    (db.putAll (tablePair row)).Linked := by
  have table : ∀ k' found, (db.putAll (tablePair row)).get .table k' = some found →
      k' = keyTable row.schemaId row.tableId row.beginSnapshot ∧ found = row ∨
        db.get .table k' = some found := by
    intro k' found stored
    have frame : (db.putAll (tablePair row)).get .table k' =
        (db.put ⟨.table, keyTable row.schemaId row.tableId row.beginSnapshot, row⟩).get .table k' := rfl
    rw [frame] at stored
    by_cases same : k' = keyTable row.schemaId row.tableId row.beginSnapshot
    · subst same
      rw [get_put_same] at stored
      cases stored
      exact .inl ⟨rfl, rfl⟩
    · rw [get_put_key _ _ same] at stored
      exact .inr stored
  refine ⟨⟨?_, ?_⟩, ?_, ?_⟩
  · exact linked.mirrored.indexed
  · exact linked.mirrored.stored
  · intro k' found stored
    rcases table k' found stored with ⟨_, rfl⟩ | before
    · exact get_put_same _ _ _
    · have apart : keyTableById found.tableId ≠ keyTableById row.tableId := by
        simpa [keyTableById] using fresh k' found before
      exact (get_put_key _ _ apart).trans (linked.indexed k' found before)
  · intro k₁ row₁ k₂ row₂ found₁ found₂ same
    rcases table k₁ row₁ found₁ with ⟨rfl, rfl⟩ | before₁
    · rcases table k₂ row₂ found₂ with ⟨rfl, rfl⟩ | before₂
      · rfl
      · exact absurd same.symm (fresh k₂ row₂ before₂)
    · rcases table k₂ row₂ found₂ with ⟨rfl, rfl⟩ | before₂
      · exact absurd same (fresh k₁ row₁ before₁)
      · exact linked.single k₁ row₁ k₂ row₂ before₁ before₂ same

theorem putShape (sound : base.Sound c) (le : c.Le d) (derived : Derived base careful c d pending)
    (linked : pending.Linked) (shape : Shape base c.nextSnapshotId writes)
    (admissible : ∀ x ∈ writes, Admissible base careful c d x) : (pending.putAll writes).Linked := by
  induction shape generalizing pending with
  | nil => exact linked
  | @unlinked x rest free _ ih =>
    have first := admissible x mem_cons_self
    refine ih (derived.put first) ?_
      fun y member => admissible y (mem_cons_of_mem _ member)
    refine linked.congr fun f tied => put_family _ _ ?_
    rintro rfl
    simp [free] at tied
  | @file row rest _ ih =>
    have pair : ∀ x ∈ filePair row, Admissible base careful c d x := fun x member =>
      admissible x (mem_append_left _ member)
    rw [putAll_append]
    refine ih (derived.putAll pair) ?_ fun y member => admissible y (mem_append_right _ member)
    refine linked.putFile (fun f k row found => derived.keyed sound le found) ?_
    intro old found
    have begun : Family.dataFile.beginOf old = Family.dataFile.beginOf row :=
      derived.begin_eq sound rfl rfl found (pair _ mem_cons_self)
    have key := (derived.keyed sound le found).1
    simp only [DataFileRow.fileKey, keyDataFile, cons.injEq, and_true] at key
    simp only [Family.beginOf] at begun
    simp [DataFileRow.indexKey, begun, key.1, key.2]
  | @retiredTable k row rest stored _ ih =>
    have first := admissible _ mem_cons_self
    obtain ⟨current, present⟩ := derived.kept .table k row stored
    have key := (derived.keyed sound le present).1
    rw [(sound .table k row stored).keyed.1] at key
    simp only [keyTable, cons.injEq, and_true] at key
    refine ih (derived.put first) ?_
      fun y member => admissible y (mem_cons_of_mem _ member)
    exact linked.putTable present key.2.1 key.1

end Db.Linked

theorem Db.Consistent.ofAside {db db' : Db} (consistent : db.Consistent c)
    (same : ∀ f, f.aside = false → db' f = db f) : db'.Consistent c := by
  constructor
  · intro f k row found
    cases aside : f.aside with
    | true => exact Family.fits_of_aside aside c k row
    | false => exact consistent.sound f k row (get_of_family (same f aside) k ▸ found)
  · exact consistent.linked.congr fun f tied =>
      same f (by cases f <;> first | rfl | contradiction)

theorem Db.Consistent.ofCore {db base : Db} (consistent : base.Consistent c)
    (core : ∀ f, f.core = true → db f = base f) : db.Consistent c :=
  consistent.ofAside fun f apart => core f (by cases f <;> first | rfl | contradiction)

/-- A session in progress: `base` and `c` are the store and the counters it began with, and
`careful` says that its calls are careful. -/
structure InSession (base : Db) (careful : Prop) (c : CounterCache) (db : Db)
    (w : CatalogWriter) : Prop where
  core : ∀ f, f.core = true → db f = base f
  counter : ∀ id, db.get .counter (keyCounter id) = base.get .counter (keyCounter id)
  snapshot : w.counters.nextSnapshotId = c.nextSnapshotId
  catalog : c.nextCatalogId ≤ w.counters.nextCatalogId
  file : c.nextFileId ≤ w.counters.nextFileId
  admissible : ∀ x ∈ w.staged, Admissible base careful c w.counters x
  linked : (base.putAll w.staged).Linked

namespace InSession

variable {env : Env} {base db : Db} {careful : Prop} {c : CounterCache} {w w' : CatalogWriter}

theorem le (session : InSession base careful c db w) : c.Le w.counters :=
  ⟨session.snapshot.ge, session.catalog, session.file⟩

theorem derived (session : InSession base careful c db w) :
    Derived base careful c w.counters (base.putAll w.staged) :=
  Derived.refl.putAll session.admissible

theorem begin (careful : Prop) (store : CatalogStore) (consistent : base.Consistent store.counters) :
    InSession base careful store.counters base store.beginWrite :=
  ⟨fun _ _ => rfl, fun _ => rfl, rfl, le_rfl, le_rfl, by simp [CatalogStore.beginWrite],
    consistent.linked⟩

/-- Changes outside the core families and the persisted counters do not concern the session. -/
theorem ofCore (session : InSession base careful c db w) (core : ∀ f, f.core = true → db' f = db f)
    (counter : ∀ id, db'.get .counter (keyCounter id) = db.get .counter (keyCounter id)) :
    InSession base careful c db' w :=
  ⟨fun f isCore => (core f isCore).trans (session.core f isCore),
    fun id => (counter id).trans (session.counter id), session.snapshot, session.catalog,
    session.file, session.admissible, session.linked⟩

theorem mirrored (consistent : base.Consistent c) (session : InSession base careful c db w) :
    db.Mirrored :=
  (consistent.ofCore session.core).linked.mirrored

theorem rebase (session : InSession base careful c db w) : InSession db careful c db w := by
  have core : ∀ f, f.core = true → base f = db f := fun f isCore => (session.core f isCore).symm
  refine ⟨fun _ _ => rfl, fun _ => rfl, session.snapshot, session.catalog, session.file,
    fun x member => (session.admissible x member).ofCore core, ?_⟩
  exact session.linked.congr fun f tied => putAll_congr
    (session.core f (by cases f <;> first | rfl | contradiction)) w.staged

section

variable (consistent : base.Consistent c) (session : InSession base careful c db w)
include consistent session

theorem pending_stored
    (versioned : f.versioned = true) (allocated : f.callerKeyed = false)
    (stored : base.get f k = some old) :
    (base.putAll w.staged).get f k = some old ∨
      (base.putAll w.staged).get f k = some (f.setEnd (some c.nextSnapshotId) old) := by
  obtain ⟨row, found⟩ := session.derived.kept f k old stored
  rcases session.derived.origin f k row found with same | admissible
  · cases stored.symm.trans same
    exact .inl found
  · cases admissible.retired consistent.sound versioned allocated stored
    exact .inr found

/-- Outside the inlined families a session leaves a stored row as it is or ends it now, and what it
adds is live and begins now. -/
theorem pending_cases
    (versioned : f.versioned = true) (allocated : f.callerKeyed = false) (k : Key) :
    (base.putAll w.staged).get f k = base.get f k ∨
      (∃ old, base.get f k = some old ∧
        (base.putAll w.staged).get f k = some (f.setEnd (some c.nextSnapshotId) old)) ∨
      ∃ row, base.get f k = none ∧ (base.putAll w.staged).get f k = some row ∧
        f.beginOf row = c.nextSnapshotId ∧ f.endOf row = none := by
  cases stored : base.get f k with
  | some old =>
    rcases session.pending_stored consistent versioned allocated stored with same | retired
    · exact .inl same
    · exact .inr (.inl ⟨old, rfl, retired⟩)
  | none =>
    cases found : (base.putAll w.staged).get f k with
    | none => exact .inl rfl
    | some row =>
      refine .inr (.inr ⟨row, rfl, rfl, ?_⟩)
      rcases session.derived.origin f k row found with same | admissible
      · rw [stored] at same
        contradiction
      · rcases admissible.begin_eq consistent.sound versioned allocated with ⟨_, old, _⟩ | ⟨_, begun⟩
        · cases stored.symm.trans old
        · refine ⟨begun, by_contra fun ended => ?_⟩
          obtain ⟨_, old, _⟩ := admissible.ended ended
          cases stored.symm.trans old

theorem unused
    (beyond : ∀ row, ¬ f.Keyed w.counters k row) :
    (base.putAll w.staged).get f k = none :=
  eq_none_iff_forall_ne_some.mpr fun row found =>
    beyond row (session.derived.keyed consistent.sound session.le found)

theorem unused_schema :
    (base.putAll w.staged).get .schema (keySchema w.counters.nextCatalogId) = none := by
  refine session.unused consistent fun row ⟨key, bound⟩ => ?_
  simp only [keySchema, cons.injEq, and_true] at key
  omega

theorem unused_table
    (schemaId begun : Nat) :
    (base.putAll w.staged).get .table (keyTable schemaId w.counters.nextCatalogId begun) = none := by
  refine session.unused consistent fun row ⟨key, bound⟩ => ?_
  simp only [keyTable, cons.injEq, and_true] at key
  omega

theorem unused_dataFile
    (tableId : Nat) :
    (base.putAll w.staged).get .dataFile (keyDataFile tableId w.counters.nextFileId) = none := by
  refine session.unused consistent fun row ⟨key, bound⟩ => ?_
  simp only [keyDataFile, cons.injEq, and_true] at key
  omega

theorem staging
    {call : StagingCall} (isCareful : careful → call.careful base = true)
    (called : w.staging env db call = .ok (reply, w')) : InSession base careful c db w' := by
  have sound := consistent.sound.ofCore session.core
  obtain ⟨new, step⟩ := staging_step sound (session.mirrored consistent)
    (fun h => (call.careful_ofCore session.core).trans (isCareful h)) called
  have frame := staging_frame called
  have added : ∀ x ∈ new, Admissible base careful c w'.counters x := fun x member =>
    ((step.admissible x member).ofCore session.core).weaken session.le session.snapshot (.refl _)
  have derived := session.derived.weaken frame.le
  refine ⟨session.core, session.counter, frame.snapshot.trans session.snapshot,
    session.catalog.trans frame.catalog, session.file.trans frame.file, ?_, ?_⟩
  · intro x member
    rw [step.staged] at member
    rcases mem_append.mp member with earlier | later
    · exact (session.admissible x earlier).weaken (.refl c) rfl frame.le
    · exact added x later
  · rw [step.staged, putAll_append]
    rcases step.shape with shape | ⟨row, fresh, rfl⟩
    · rw [snapshotId, session.snapshot] at shape
      exact session.linked.putShape consistent.sound (session.le.trans frame.le) derived
        (shape.ofCore session.core) added
    · refine session.linked.addTable fun k old found same => ?_
      have bound := (session.derived.keyed consistent.sound session.le found).2
      omega

theorem call
    (call : WriterCall) (isCareful : careful → call.careful base = true) :
    InSession base careful c (w.call env db call).db (w.call env db call).writer := by
  cases call with
  | staging staged =>
    simp only [CatalogWriter.call]
    split
    · rename_i called
      exact session.staging consistent isCareful called
    · exact session
  | direct direct =>
    exact session.ofCore (fun f core => call_core (.direct direct) core)
      (call_counter (.direct direct))
  | nextRowidRange tableId count =>
    rw [nextRowidRange_writer]
    exact session.ofCore (fun f core => call_core (.nextRowidRange tableId count) core)
      (call_counter (.nextRowidRange tableId count))

end

theorem runCalls (env : Env) (consistent : base.Consistent c) (session : InSession base careful c db w)
    (calls : List WriterCall) (isCareful : careful → ∀ call ∈ calls, call.careful base = true) :
    InSession base careful c (runCalls env (db, w) calls).1 (runCalls env (db, w) calls).2 := by
  induction calls generalizing db w with
  | nil => exact session
  | cons first rest ih =>
    refine ih (session.call consistent first fun h => isCareful h first mem_cons_self) ?_
    exact fun h call member => isCareful h call (mem_cons_of_mem _ member)

theorem admissible_fits (sound : base.Sound c) (le : c.Le d)
    (snapshot : d.nextSnapshotId = c.nextSnapshotId)
    (admissible : Admissible base careful c d ⟨f, k, row⟩) : f.Fits d.allocSnapshotId.2 k row := by
  have next : d.Le d.allocSnapshotId.2 := ⟨Nat.le_succ _, le_rfl, le_rfl⟩
  have current : d.allocSnapshotId.2.nextSnapshotId = c.nextSnapshotId + 1 := by
    simp [CounterCache.allocSnapshotId, snapshot]
  refine ⟨(admissible.keyed sound le).mono next, ?_, ?_⟩
  all_goals
    generalize same : (⟨f, k, row⟩ : Write) = x at admissible
    rw [current]
    cases admissible
  case refine_1.retire retires stored current =>
    cases same
    intro versioned
    have begun := (sound _ _ _ stored).begun versioned
    rw [Family.beginOf_setEnd]
    omega
  case refine_1.create begun live keyed unused chosen =>
    cases same
    intro versioned
    omega
  case refine_1.plain unversioned keyed unused =>
    cases same
    intro versioned
    cases f <;> contradiction
  case refine_2.retire retires stored current =>
    cases same
    intro ended found
    rw [Family.endOf_setEnd retires, Option.some.injEq] at found
    omega
  case refine_2.create versioned begun live keyed unused chosen =>
    cases same
    intro ended found
    rw [live] at found
    contradiction
  case refine_2.plain unversioned keyed unused =>
    cases same
    intro ended found
    rw [Family.endOf_of_not_retirable (by cases f <;> first | rfl | contradiction)] at found
    contradiction

theorem pending_fits (consistent : base.Consistent c) (session : InSession base careful c db w)
    (found : (base.putAll w.staged).get f k = some row) :
    f.Fits w.counters.allocSnapshotId.2 k row := by
  rcases session.derived.origin f k row found with stored | admissible
  · exact (consistent.sound f k row stored).mono (session.le.trans ⟨Nat.le_succ _, le_rfl, le_rfl⟩)
  · exact admissible_fits consistent.sound session.le session.snapshot admissible

/-- Outside the families of the commit record, the committed store is the store the session began
with, with the staged pairs applied. -/
theorem commit_family (session : InSession base careful c db w) (request : SnapshotRequest)
    (core : f.core = true) (row : f ≠ .snapshot) (changes : f ≠ .snapshotChanges) :
    (db.putAll (w.commitWrites request)) f = (base.putAll w.staged) f := by
  rw [commitWrites, putAll_append, putAll_family]
  · exact putAll_congr (session.core f core) _
  intro x member same
  rcases w.commitTail_family member with family | family | family
  · exact row (same.symm.trans family)
  · exact changes (same.symm.trans family)
  · rw [← same, family] at core
    contradiction

theorem get_commit (session : InSession base careful c db w) (request : SnapshotRequest)
    (versioned : f.versioned = true) (k : Key) :
    (db.putAll (w.commitWrites request)).get f k = (base.putAll w.staged).get f k := by
  refine get_of_family (session.commit_family request (Family.core_of_versioned versioned) ?_ ?_) k
  all_goals
    rintro rfl
    contradiction

theorem commit (consistent : base.Consistent c) (session : InSession base careful c db w)
    (request : SnapshotRequest) :
    (db.putAll (w.commitWrites request)).Consistent w.drained.counters := by
  constructor
  · intro f k row found
    rcases db.get_putAll (f := f) (w.commitWrites request) k with ⟨row', member, stored⟩ | ⟨_, kept⟩
    · rw [found] at stored
      cases stored
      rcases mem_append.mp member with staged | tail
      · exact admissible_fits consistent.sound session.le session.snapshot
          (session.admissible _ staged)
      · rcases w.commitTail_family tail with rfl | rfl | rfl
        · exact ⟨trivial, nofun, nofun⟩
        · obtain ⟨rfl, finished⟩ := w.commitTail_changes.mp tail
          have own := w.finishChanges_snapshotId finished
          exact ⟨⟨by rw [own], own ▸ Nat.lt_succ_self _⟩, nofun, nofun⟩
        · exact ⟨trivial, nofun, nofun⟩
    · have sound := consistent.sound.ofCore session.core
      have next : c.Le w.drained.counters :=
        session.le.trans ⟨Nat.le_succ _, le_rfl, le_rfl⟩
      exact (sound f k row (kept ▸ found)).mono next
  · refine session.linked.congr fun f tied => ?_
    refine session.commit_family request ?_ ?_ ?_ <;> cases f <;> first | rfl | contradiction | simp

end InSession

/-- Every call of a session meets the condition at the point where it is made. -/
def CallsMeet (env : Env) (condition : Db → CatalogWriter → WriterCall → Prop) :
    Db × CatalogWriter → List WriterCall → Prop
  | _, [] => True
  | (db, w), call :: rest => condition db w call ∧
      CallsMeet env condition ((w.call env db call).db, (w.call env db call).writer) rest

theorem callsMeet_iff {condition : WriterCall → Prop} :
    CallsMeet env (fun _ _ call => condition call) state calls ↔ ∀ call ∈ calls, condition call := by
  induction calls generalizing state with
  | nil => simp [CallsMeet]
  | cons call rest ih => rw [CallsMeet, ih, forall_mem_cons]

/-- A property that each call of a session keeps exactly under the condition holds at its end exactly
if it held at its beginning and every call met the condition. -/
theorem InSession.calls_iff (session : InSession base False c db w) (env : Env)
    (good : Db → CatalogWriter → Prop) (condition : Db → CatalogWriter → WriterCall → Prop)
    (consistent : base.Consistent c)
    (each : ∀ db w call, InSession base False c db w → (good (w.call env db call).db (w.call env db call).writer ↔ good db w ∧ condition db w call))
    (calls : List WriterCall) :
    good (RockLake.runCalls env (db, w) calls).1 (RockLake.runCalls env (db, w) calls).2 ↔
      good db w ∧ CallsMeet env condition (db, w) calls := by
  induction calls generalizing db w with
  | nil => simp [RockLake.runCalls, CallsMeet]
  | cons call rest ih =>
    simp only [RockLake.runCalls, CallsMeet]
    rw [ih (session.call consistent call False.elim), each db w call session, and_assoc]

end RockLake
