import RockLake.Catalog.Reads
import RockLake.Lib.Probing
import RockLake.PgWire.Effects

/-! Transactions that insert and delete inlined rows. An insert takes the identifier it asks for, or
the next one not in use; the identifier of a row that the same transaction deletes is taken without a
look. The record count goes down by the number of identifiers that the deletions list. -/
namespace RockLake

open Probing List CatalogWriter Db BufferedOp

def BufferedOp.OnInlined (tableId : Nat) : BufferedOp → Prop
  | .insertInlinedRow tableName _ | .deleteInlinedRows tableName _ =>
    ∃ version, parseInlinedTableIds tableName = some (tableId, version)
  | _ => False

/-- The inserted rows, each with the schema version of its inlined table. -/
def BufferedOp.insertedRows : BufferedOp → List (Nat × List (Option String))
  | .insertInlinedRow tableName rows =>
    match parseInlinedTableIds tableName with
    | some (_, version) => rows.map fun values => (version, values)
    | none => []
  | _ => []

/-- The identifiers of deleted rows, each with the schema version of its inlined table. -/
def BufferedOp.deletedRows : BufferedOp → List (Nat × Nat)
  | .deleteInlinedRows tableName rowIds =>
    match parseInlinedTableIds tableName with
    | some (_, version) => rowIds.map fun id => (version, id)
    | none => []
  | _ => []

theorem collectDeletedInlinedRows_eq (inlined : ∀ op ∈ ops, op.OnInlined tableId) :
    collectDeletedInlinedRows ops = (ops.flatMap BufferedOp.deletedRows).map (Prod.mk tableId) := by
  rw [map_flatMap]
  refine flatMap_congr fun op member => ?_
  have named := inlined op member
  cases op <;> simp only [BufferedOp.OnInlined] at named
  case insertInlinedRow => rfl
  case deleteInlinedRows =>
    obtain ⟨version, parsed⟩ := named
    simp [BufferedOp.deletedRows, parsed]

theorem collectReplacedInlinedRows_eq (inlined : ∀ op ∈ ops, op.OnInlined tableId) :
    collectReplacedInlinedRows ops = (ops.flatMap BufferedOp.insertedRows).filterMap fun r =>
      (inlinedRowId r.2).map fun id => (tableId, r.1, id) := by
  rw [filterMap_flatMap]
  refine flatMap_congr fun op member => ?_
  have named := inlined op member
  cases op <;> simp only [BufferedOp.OnInlined] at named
  case deleteInlinedRows => rfl
  case insertInlinedRow =>
    obtain ⟨version, parsed⟩ := named
    simp [BufferedOp.insertedRows, parsed, map_filterMap, filterMap_map]

/-- What is stored of an inserted row that has an identifier: version, identifier and payload. -/
def numberedRow (ctx : CommitContext) (inserted : Nat × List (Option String)) :
    Option (Nat × Nat × List UInt8) :=
  (inlinedRowId inserted.2).map fun id => (inserted.1, id, ctx.encodeValues (inserted.2.drop 3))

def Db.storesInlined (db : Db) (tableId version id : Nat) : Bool :=
  (db.get .inlinedInsert (keyInlinedInsert tableId version id)).isSome

/-- The request of a placed insert: version, identifier and payload. -/
def requestOf (p : Placement Nat (List UInt8)) : Nat × Nat × List UInt8 := (p.bucket, p.wanted, p.item)

def inlinedKey (tableId : Nat) (p : Placement Nat (List UInt8)) : Key :=
  keyInlinedInsert tableId p.bucket p.slot

def inlinedRow (tableId snapshot : Nat) (p : Placement Nat (List UInt8)) : InlinedInsertRow :=
  { tableId, schemaVersion := p.bucket, rowId := p.slot, payload := p.item,
    beginSnapshot := snapshot, endSnapshot := none }

/-- The commit so far: the inserts have been placed, and the marked rows have been staged as ended. -/
structure CommitState.Places (base : Db) (tableId snapshot : Nat)
    (replaced deleted : List (Nat × Nat × Nat)) (s : CommitState)
    (placed : List (Placement Nat (List UInt8))) (marked : List (Nat × Nat)) : Prop where
  placing : Placing (base.storesInlined tableId)
    (fun version id => decide ((tableId, version, id) ∈ deleted)) placed
  requested : ∀ p ∈ placed, (tableId, p.bucket, p.wanted) ∈ replaced
  unreplaced : ∀ m ∈ marked, (tableId, m.1, m.2) ∈ deleted ∧ (tableId, m.1, m.2) ∉ replaced ∧
    base.storesInlined tableId m.1 m.2 = true
  reserved : ∀ version id, (tableId, version, id) ∈ s.reservedInlinedRows ↔ Occupied placed version id
  store : s.db .inlinedInsert = base .inlinedInsert
  snapshotId : s.writer.snapshotId = snapshot
  staged : ∀ k row, (⟨.inlinedInsert, k, row⟩ : Write) ∈ s.writer.staged ↔
    (∃ p ∈ placed, k = inlinedKey tableId p ∧ row = inlinedRow tableId snapshot p) ∨
      ∃ m ∈ marked, k = keyInlinedInsert tableId m.1 m.2 ∧ ∃ old, base.get .inlinedInsert k = some old ∧
        row = { old with endSnapshot := some snapshot }

theorem freeRowId_ok {fuel id slot : Nat} (found : freeRowId taken fuel id = some slot) :
    id ≤ slot ∧ taken slot = false ∧ ∀ i, id ≤ i → i < slot → taken i = true := by
  induction fuel generalizing id with
  | zero => cases found
  | succ fuel ih =>
    rw [freeRowId] at found
    split at found
    · rename_i full
      obtain ⟨forward, free, passed⟩ := ih found
      refine ⟨by omega, free, fun i low high => ?_⟩
      rcases Nat.eq_or_lt_of_le low with rfl | later
      · exact full
      · exact passed i later high
    · rename_i free
      cases found
      exact ⟨le_rfl, Bool.eq_false_iff.mpr free, fun i low high => absurd low (by omega)⟩

section Places

variable {ctx : CommitContext} {base : Db} {tableId snapshot version : Nat}
  {replaced deleted : List (Nat × Nat × Nat)} {s s' : CommitState}
  {placed : List (Placement Nat (List UInt8))} {marked : List (Nat × Nat)}

theorem keyInlinedInsert_inj :
    keyInlinedInsert tableId v i = keyInlinedInsert tableId v' i' ↔ v = v' ∧ i = i' := by
  simp [keyInlinedInsert]

namespace CommitState.Places

section

variable (places : s.Places base tableId snapshot replaced deleted placed marked)
include places

theorem taken_iff {id : Nat} :
    (decide ((tableId, version, id) ∈ s.reservedInlinedRows) ||
      s.writer.inlinedInsertKeyExists s.db tableId version id) = true ↔
      base.storesInlined tableId version id = true ∨ Occupied placed version id := by
  have stored : (s.db.get .inlinedInsert (keyInlinedInsert tableId version id)).isSome =
      base.storesInlined tableId version id := by
    rw [Db.storesInlined, get_of_family places.store]
  simp only [inlinedInsertKeyExists, Bool.or_eq_true, decide_eq_true_eq,
    any_eq_true, Bool.and_eq_true, stored, places.reserved]
  constructor
  · rintro (occupied | ⟨⟨f, k, row⟩, member, family, key⟩ | full)
    · exact .inr occupied
    · simp only at family key
      subst family
      rcases (places.staged k row).mp member with ⟨p, member, same, _⟩ | ⟨m, member, same, _⟩
      · obtain ⟨bucket, slot⟩ := keyInlinedInsert_inj.mp (key.symm.trans same)
        exact .inr ⟨p, member, bucket.symm, slot.symm⟩
      · obtain ⟨rfl, rfl⟩ := keyInlinedInsert_inj.mp (key.symm.trans same)
        exact .inl (places.unreplaced m member).2.2
    · exact .inl full
  · rintro (full | occupied)
    · exact .inr (.inr full)
    · exact .inl occupied

theorem insertValues
    (requested : ∀ id, inlinedRowId values = some id → (tableId, version, id) ∈ replaced)
    (inserted : s.insertInlinedValues ctx deleted tableId version values = .ok s') :
    ∃ placed', s'.Places base tableId snapshot replaced deleted placed' marked ∧
      placed'.map requestOf =
        (numberedRow ctx (version, values)).toList ++ placed.map requestOf := by
  simp only [CommitState.insertInlinedValues] at inserted
  split at inserted
  · rename_i unnumbered
    cases inserted
    exact ⟨placed, places, by simp [numberedRow, unnumbered]⟩
  · rename_i id numbered
    split at inserted
    · cases inserted
    rename_i slot chosen
    obtain ⟨reply, writer, called, rfl⟩ := CommitState.staging_ok.mp inserted
    obtain ⟨_, rfl⟩ := registerInlinedInsert_ok.mp (checked_ok.mp called).2
    refine ⟨⟨version, id, slot, ctx.encodeValues (values.drop 3)⟩ :: placed, ?_,
      by simp [numberedRow, numbered, requestOf]⟩
    refine ⟨?_, fun p member => ?_, places.unreplaced, fun version' id' => ?_, places.store,
      places.snapshotId, fun k row => ?_⟩
    · split at chosen
      · rename_i fixed
        cases chosen
        exact .pin (decide_eq_true fixed) rfl places.placing
      · rename_i movable
        obtain ⟨forward, free, passed⟩ := freeRowId_ok chosen
        rw [Bool.eq_false_iff, ne_eq, places.taken_iff, not_or] at free
        exact .probe (decide_eq_false movable) forward (Bool.eq_false_iff.mpr free.1) free.2
          (fun i low high => places.taken_iff.mp (passed i low high)) places.placing
    · rcases mem_cons.mp member with rfl | earlier
      · exact requested id numbered
      · exact places.requested p earlier
    · rw [mem_cons, places.reserved, occupied_cons]
      simp [eq_comm]
    · show (⟨.inlinedInsert, k, row⟩ : Write) ∈ s.writer.staged ++ [_] ↔ _
      rw [mem_append, places.staged, mem_singleton, exists_mem_cons_iff, or_right_comm,
        or_comm (b := _ = _)]
      refine or_congr_left (or_congr_left ?_)
      rw [Write.mk.injEq, heq_eq_eq, places.snapshotId.symm]
      exact ⟨fun same => same.2, fun same => ⟨rfl, same⟩⟩

theorem insertRows
    (requested : ∀ values ∈ rows, ∀ id, inlinedRowId values = some id → (tableId, version, id) ∈ replaced)
    (inserted : s.insertInlinedRows ctx deleted tableId version rows = .ok s') :
    ∃ placed', s'.Places base tableId snapshot replaced deleted placed' marked ∧
      placed'.map requestOf = ((rows.map (Prod.mk version)).filterMap (numberedRow ctx)).reverse ++
        placed.map requestOf := by
  induction rows generalizing s placed with
  | nil =>
    cases inserted
    exact ⟨placed, places, by simp⟩
  | cons values rest ih =>
    simp only [CommitState.insertInlinedRows] at inserted
    split at inserted
    · rename_i middle first
      obtain ⟨placed₁, places₁, placed_eq⟩ :=
        places.insertValues (requested values mem_cons_self) first
      obtain ⟨placed₂, places₂, later⟩ :=
        ih places₁ (fun values member => requested values (mem_cons_of_mem _ member)) inserted
      refine ⟨placed₂, places₂, ?_⟩
      rw [later, placed_eq, map_cons, filterMap_cons]
      cases numberedRow ctx (version, values) <;> simp
    · cases inserted

theorem mark {id : Nat}
    (listed : (tableId, version, id) ∈ deleted) (kept : (tableId, version, id) ∉ replaced)
    (called : s.staging ctx (.markInlinedInsertDeleted tableId version id) = .ok s') :
    s'.Places base tableId snapshot replaced deleted placed ((version, id) :: marked) := by
  obtain ⟨reply, writer, retired, rfl⟩ := CommitState.staging_ok.mp called
  obtain ⟨row, stored, rfl⟩ := retireRow_ok.mp (checked_ok.mp retired).2
  rw [get_of_family places.store] at stored
  refine ⟨places.placing, places.requested, fun m member => ?_, places.reserved, places.store,
    places.snapshotId, fun k row' => ?_⟩
  · rcases mem_cons.mp member with rfl | earlier
    · exact ⟨listed, kept, by simp [Db.storesInlined, stored]⟩
    · exact places.unreplaced m earlier
  · show (⟨.inlinedInsert, k, row'⟩ : Write) ∈ s.writer.staged ++ [_] ↔ _
    rw [mem_append, places.staged, mem_singleton, exists_mem_cons_iff, or_assoc]
    refine or_congr_right (or_comm.trans (or_congr_left ?_))
    rw [Write.mk.injEq, heq_eq_eq, places.snapshotId.symm]
    constructor
    · rintro ⟨_, rfl, rfl⟩
      exact ⟨rfl, row, stored, rfl⟩
    · rintro ⟨rfl, old, stored', rfl⟩
      cases stored.symm.trans stored'
      exact ⟨rfl, rfl, rfl⟩

/-- The rows of one deletion are staged as ended, those apart that the transaction also inserts. -/
theorem markRows
    (listed : ∀ id ∈ rowIds, (tableId, version, id) ∈ deleted)
    (called : s.markInlinedRows ctx replaced tableId version rowIds = .ok s') :
    ∃ marked', s'.Places base tableId snapshot replaced deleted placed marked' ∧ marked ⊆ marked' ∧
      ∀ id ∈ rowIds, (tableId, version, id) ∉ replaced → (version, id) ∈ marked' := by
  induction rowIds generalizing s marked with
  | nil =>
    cases called
    exact ⟨marked, places, Subset.refl _, by simp⟩
  | cons id rest ih =>
    have later := fun id' member => listed id' (mem_cons_of_mem _ member)
    simp only [CommitState.markInlinedRows] at called
    split at called
    · rename_i skipped
      obtain ⟨marked', places', kept, each⟩ := ih places later called
      refine ⟨marked', places', kept, fun id' member unreplaced => ?_⟩
      rcases mem_cons.mp member with rfl | among
      · exact absurd skipped unreplaced
      · exact each id' among unreplaced
    · rename_i unreplaced
      split at called
      · rename_i middle first
        have places₁ := places.mark (listed id mem_cons_self) unreplaced first
        obtain ⟨marked', places', kept, each⟩ := ih places₁ later called
        refine ⟨marked', places', fun m member => kept (mem_cons_of_mem _ member),
          fun id' member unreplaced => ?_⟩
        rcases mem_cons.mp member with rfl | among
        · exact kept mem_cons_self
        · exact each id' among unreplaced
      · cases called

theorem direct
    (call : DirectCall) (other : call.family ≠ .inlinedInsert) :
    (s.direct ctx call).Places base tableId snapshot replaced deleted placed marked :=
  ⟨places.placing, places.requested, places.unreplaced, places.reserved,
    (call.apply_family ctx.env s.db other.symm).trans places.store, places.snapshotId, places.staged⟩

end

theorem apply {op : BufferedOp}
    (places : s.Places base tableId snapshot replaced deleted placed marked)
    (inlined : op.OnInlined tableId)
    (requested : ∀ r ∈ op.insertedRows, ∀ id, inlinedRowId r.2 = some id → (tableId, r.1, id) ∈ replaced)
    (listed : ∀ m ∈ op.deletedRows, (tableId, m) ∈ deleted)
    (applied : op.apply ctx replaced deleted uuid s = .ok s') :
    ∃ placed' marked', s'.Places base tableId snapshot replaced deleted placed' marked' ∧
      placed'.map requestOf =
        (op.insertedRows.filterMap (numberedRow ctx)).reverse ++ placed.map requestOf ∧
      marked ⊆ marked' ∧ ∀ m ∈ op.deletedRows, (tableId, m) ∉ replaced → m ∈ marked' := by
  cases op <;> simp only [BufferedOp.OnInlined] at inlined
  case insertInlinedRow tableName rows =>
    obtain ⟨version, parsed⟩ := inlined
    simp only [BufferedOp.apply, BufferedOp.insertedRows, parsed] at applied requested ⊢
    obtain ⟨placed', places', placed_eq⟩ := places.insertRows
      (fun values member => requested _ (mem_map_of_mem member)) applied
    exact ⟨placed', marked, places', placed_eq, Subset.refl _, by simp [BufferedOp.deletedRows]⟩
  case deleteInlinedRows tableName rowIds =>
    obtain ⟨version, parsed⟩ := inlined
    simp only [BufferedOp.apply, BufferedOp.deletedRows, parsed] at applied listed ⊢
    cases called : s.markInlinedRows ctx replaced tableId version rowIds with
    | error e => simp [called, Except.map] at applied
    | ok middle =>
      simp only [called, Except.map, Except.ok.injEq] at applied
      subst applied
      obtain ⟨marked', places', kept, each⟩ := places.markRows
        (fun id member => listed _ (mem_map_of_mem member)) called
      refine ⟨placed, marked', places'.direct _ Family.noConfusion, rfl, kept, fun m member => ?_⟩
      obtain ⟨id, among, rfl⟩ := mem_map.mp member
      exact each id among

theorem runOps {ops : List BufferedOp}
    (places : s.Places base tableId snapshot replaced deleted placed marked)
    (inlined : ∀ op ∈ ops, op.OnInlined tableId)
    (requested : ∀ r ∈ ops.flatMap BufferedOp.insertedRows, ∀ id, inlinedRowId r.2 = some id → (tableId, r.1, id) ∈ replaced)
    (listed : ∀ m ∈ ops.flatMap BufferedOp.deletedRows, (tableId, m) ∈ deleted)
    (ran : RockLake.runOps ctx replaced deleted i s ops = .ok s') :
    ∃ placed' marked', s'.Places base tableId snapshot replaced deleted placed' marked' ∧
      placed'.map requestOf = ((ops.flatMap BufferedOp.insertedRows).filterMap
        (numberedRow ctx)).reverse ++ placed.map requestOf ∧
      marked ⊆ marked' ∧
      ∀ m ∈ ops.flatMap BufferedOp.deletedRows, (tableId, m) ∉ replaced → m ∈ marked' := by
  induction ops generalizing i s placed marked with
  | nil =>
    cases ran
    exact ⟨placed, marked, places, by simp, Subset.refl _, by simp⟩
  | cons op rest ih =>
    simp only [flatMap_cons, mem_append] at requested listed
    simp only [RockLake.runOps] at ran
    split at ran
    · rename_i middle applied
      have started : CommitState.Places base tableId snapshot replaced deleted
          { s with needsSnapshot := s.needsSnapshot || op.needsSnapshot } placed marked :=
        ⟨places.placing, places.requested, places.unreplaced, places.reserved, places.store,
          places.snapshotId, places.staged⟩
      obtain ⟨placed₁, marked₁, places₁, placed_eq, kept, each⟩ := started.apply
        (inlined op mem_cons_self) (fun r member => requested r (.inl member))
        (fun m member => listed m (.inl member)) applied
      obtain ⟨placed₂, marked₂, places₂, placed_eq', kept', each'⟩ := ih places₁
        (fun later member => inlined later (mem_cons_of_mem _ member))
        (fun r member => requested r (.inr member)) (fun m member => listed m (.inr member)) ran
      refine ⟨placed₂, marked₂, places₂, ?_, fun m member => kept' (kept member),
        fun m member unreplaced => ?_⟩
      · rw [placed_eq', placed_eq, flatMap_cons, filterMap_append, reverse_append, append_assoc]
      · rw [flatMap_cons, mem_append] at member
        rcases member with now | later
        · exact kept' (each m now unreplaced)
        · exact each' m later unreplaced
    · cases ran

section

variable (places : s.Places base tableId snapshot replaced deleted placed marked)
include places

theorem marked_apart
    (member : m ∈ marked) : ¬ Occupied placed m.1 m.2 := by
  rintro ⟨p, among, bucket, slot⟩
  obtain ⟨_, unreplaced, stored⟩ := places.unreplaced m member
  rcases places.placing.found among with ⟨_, here⟩ | ⟨_, _, free, _⟩
  · have requested := places.requested p among
    rw [← here, bucket, slot] at requested
    exact unreplaced requested
  · rw [bucket, slot, stored] at free
    cases free

/-- Under the key of a placed insert, the row of that insert or of another one with the same key. -/
theorem get_placed
    (member : p ∈ placed) :
    ∃ q ∈ placed, q.bucket = p.bucket ∧ q.slot = p.slot ∧
      (base.putAll s.writer.staged).get .inlinedInsert (inlinedKey tableId p) =
        some (inlinedRow tableId snapshot q) := by
  rcases base.get_putAll (f := .inlinedInsert) s.writer.staged (inlinedKey tableId p) with
    ⟨row, staged, found⟩ | ⟨absent, _⟩
  · rcases (places.staged _ row).mp staged with ⟨q, among, key, rfl⟩ | ⟨m, among, key, _⟩
    · obtain ⟨bucket, slot⟩ := keyInlinedInsert_inj.mp key
      exact ⟨q, among, bucket.symm, slot.symm, found⟩
    · obtain ⟨bucket, slot⟩ := keyInlinedInsert_inj.mp key
      exact absurd ⟨p, member, bucket, slot⟩ (places.marked_apart among)
  · exact absurd ((places.staged _ _).mpr (.inl ⟨p, member, rfl, rfl⟩)) (absent _)

theorem get_marked
    (member : m ∈ marked)
    (stored : base.get .inlinedInsert (keyInlinedInsert tableId m.1 m.2) = some old) :
    (base.putAll s.writer.staged).get .inlinedInsert (keyInlinedInsert tableId m.1 m.2) =
      some { old with endSnapshot := some snapshot } := by
  rcases base.get_putAll (f := .inlinedInsert) s.writer.staged (keyInlinedInsert tableId m.1 m.2) with
    ⟨row, staged, found⟩ | ⟨absent, _⟩
  · rcases (places.staged _ row).mp staged with ⟨p, among, key, _⟩ | ⟨_, _, _, old', stored', rfl⟩
    · obtain ⟨bucket, slot⟩ := keyInlinedInsert_inj.mp key
      exact absurd ⟨p, among, bucket.symm, slot.symm⟩ (places.marked_apart member)
    · cases stored.symm.trans stored'
      exact found
  · exact absurd ((places.staged _ _).mpr (.inr ⟨m, member, rfl, old, stored, rfl⟩)) (absent _)

theorem get_other
    (unplaced : ∀ p ∈ placed, k ≠ inlinedKey tableId p)
    (unmarked : ∀ m ∈ marked, k ≠ keyInlinedInsert tableId m.1 m.2) :
    (base.putAll s.writer.staged).get .inlinedInsert k = base.get .inlinedInsert k := by
  rcases base.get_putAll (f := .inlinedInsert) s.writer.staged k with ⟨row, staged, _⟩ | ⟨_, kept⟩
  · rcases (places.staged k row).mp staged with ⟨p, among, key, _⟩ | ⟨m, among, key, _⟩
    · exact absurd key (unplaced p among)
    · exact absurd key (unmarked m among)
  · exact kept

end

end CommitState.Places

theorem CommitState.Places.start (catalog : Catalog) (tableId : Nat)
    (replaced deleted : List (Nat × Nat × Nat)) :
    (CommitState.start catalog).Places catalog.db tableId catalog.store.counters.nextSnapshotId replaced
      deleted [] [] := by
  refine ⟨.nil, by simp, by simp, ?_, rfl, rfl, ?_⟩
  · simp [CommitState.start, Occupied]
  · simp [CommitState.start, CatalogStore.beginWrite]

end Places

/-- The inlined rows of a table that the latest snapshot shows and that began at the given one. -/
def Catalog.inlinedSince (catalog : Catalog) (snapshot tableId : Nat) : List InlinedInsertRow :=
  ((⟨catalog.db, catalog.store.latestSnapshot⟩ : CatalogReader).listInlinedInserts tableId).filter
    fun row => decide (row.beginSnapshot = snapshot)

/-- The identifiers that the inserts ask for, in order, each with its schema version. -/
def requestedRows (ops : List BufferedOp) : List (Nat × Nat) :=
  (ops.flatMap BufferedOp.insertedRows).filterMap fun r =>
    (inlinedRowId r.2).map fun id => (r.1, id)

def removedRows (before : Catalog) (ops : List BufferedOp) : Finset (Nat × Nat × Nat) :=
  (collectDeletedInlinedRows ops).toFinset.filter fun r =>
    (before.shows .inlinedInsert (keyInlinedInsert r.1 r.2.1 r.2.2)).isSome = true

def Db.recordCount (db : Db) (tableId : Nat) : Nat :=
  (CatalogWriter.readTableStatsOrDefault db tableId).recordCount

/-- What a transaction of inlined inserts and deletions should have done: the new rows are the
inserted ones, the deleted rows are gone and the others are as before, and the record count has gone
down by the rows removed. -/
structure InlinedEffect (ctx : CommitContext) (tableId : Nat) (ops : List BufferedOp)
    (before after : Catalog) : Prop where
  inserted : ((after.inlinedSince before.store.counters.nextSnapshotId tableId).map fun row =>
      (row.schemaVersion, row.payload)).Perm
    ((ops.flatMap BufferedOp.insertedRows).map fun r => (r.1, ctx.encodeValues (r.2.drop 3)))
  removed : ∀ version id row, (tableId, version, id) ∈ collectDeletedInlinedRows ops →
    before.shows .inlinedInsert (keyInlinedInsert tableId version id) = some row →
      after.shows .inlinedInsert (keyInlinedInsert tableId version id) ≠ some row
  kept : ∀ k row, before.shows .inlinedInsert k = some row →
    (∀ version id, (tableId, version, id) ∈ collectDeletedInlinedRows ops →
      k ≠ keyInlinedInsert tableId version id) → after.shows .inlinedInsert k = some row
  counted : after.db.recordCount tableId + (removedRows before ops).card =
    before.db.recordCount tableId

/-- When the transaction does so: every inserted row has an identifier; none asks for that of a deleted
row that an earlier insert is given; and the deletions list as many identifiers as there are live
rows under them, or at least as many as the record count says there are rows. -/
structure InlinedSound (before : Catalog) (tableId : Nat) (ops : List BufferedOp) : Prop where
  numbered : ∀ r ∈ ops.flatMap BufferedOp.insertedRows, (inlinedRowId r.2).isSome = true
  unreached : Unreached (before.db.storesInlined tableId)
    (fun version id => decide ((tableId, version, id) ∈ collectDeletedInlinedRows ops))
    (requestedRows ops).reverse
  counted : min (collectDeletedInlinedRows ops).length (before.db.recordCount tableId) =
    (removedRows before ops).card

theorem recordCount_adjust (count : Nat) (bounded : db.recordCount tableId ≤ u64Max) :
    (CatalogWriter.adjustTableRecordCount db tableId (-(count : Int))).recordCount tableId =
      db.recordCount tableId - count := by
  rw [Db.recordCount, readTableStatsOrDefault, adjustTableRecordCount,
    putTableStats, get_put_same, Option.getD_some]
  change applyI64Delta (db.recordCount tableId) _ = _
  rw [applyI64Delta]
  split
  · have none : count = 0 := by omega
    simp [none, saturatingAdd, bounded]
  · rw [Int.natAbs_neg, Int.natAbs_natCast]

theorem recordCount_direct (env : Env) {ops : List BufferedOp}
    (inlined : ∀ op ∈ ops, op.OnInlined tableId) (bounded : db.recordCount tableId ≤ u64Max) :
    (DirectCall.applyAll env (ops.flatMap direct) db).recordCount tableId =
      db.recordCount tableId - (ops.flatMap BufferedOp.deletedRows).length := by
  induction ops generalizing db with
  | nil => rfl
  | cons op rest ih =>
    have later := fun op member => inlined op (mem_cons_of_mem _ member)
    have named := inlined op mem_cons_self
    rw [flatMap_cons, flatMap_cons, length_append]
    cases op <;> simp only [BufferedOp.OnInlined] at named
    case insertInlinedRow => simpa [direct, BufferedOp.deletedRows] using ih later bounded
    case deleteInlinedRows tableName rowIds =>
      obtain ⟨version, parsed⟩ := named
      have adjusted := recordCount_adjust rowIds.length bounded
      simp only [direct, BufferedOp.deletedRows, parsed, length_map]
      rw [DirectCall.applyAll_append]
      refine (ih later (adjusted.trans_le ((Nat.sub_le _ _).trans bounded))).trans ?_
      rw [adjusted, Nat.sub_sub]

section Commit

variable {ctx : CommitContext} {tableId : Nat} {ops : List BufferedOp} {before after : Catalog}

/-- A commit of such a transaction, with the inserts it placed and the rows it marked. -/
structure InlinedCommit (ctx : CommitContext) (tableId : Nat) (ops : List BufferedOp)
    (before after : Catalog) (s : CommitState) (placed : List (Placement Nat (List UInt8)))
    (marked : List (Nat × Nat)) : Prop where
  places : s.Places before.db tableId before.store.counters.nextSnapshotId
    (collectReplacedInlinedRows ops) (collectDeletedInlinedRows ops) placed marked
  requests : placed.map requestOf =
    ((ops.flatMap BufferedOp.insertedRows).filterMap (numberedRow ctx)).reverse
  marks : ∀ m, (tableId, m) ∈ collectDeletedInlinedRows ops →
    (tableId, m) ∉ collectReplacedInlinedRows ops → m ∈ marked
  rows : ∀ k, after.db.get .inlinedInsert k =
    (before.db.putAll s.writer.staged).get .inlinedInsert k
  stats : after.db .tableStats = s.db .tableStats
  direct : s.db = DirectCall.applyAll ctx.env (ops.flatMap direct) before.db

theorem executeCommit_inlined (valid : before.Valid) (inlined : ∀ op ∈ ops, op.OnInlined tableId)
    (done : executeCommit ctx ops before = (after, .ok ())) :
    ∃ s placed marked, InlinedCommit ctx tableId ops before after s placed marked := by
  obtain ⟨s, ran, session, outcome⟩ := executeCommit_ok valid done
  have deleted := collectDeletedInlinedRows_eq inlined
  have replaced := collectReplacedInlinedRows_eq inlined
  obtain ⟨placed, marked, places, requests, _, marks⟩ := (CommitState.Places.start before tableId
    (collectReplacedInlinedRows ops) (collectDeletedInlinedRows ops)).runOps inlined
    (fun r member id numbered => by
      rw [replaced]
      exact mem_filterMap.mpr ⟨r, member, by rw [numbered]; rfl⟩)
    (fun m member => by
      rw [deleted]
      exact mem_map_of_mem member) ran
  refine ⟨s, placed, marked, places, by simpa using requests, fun m listed unreplaced => ?_,
    fun k => ?_, ?_, runOps_db ran⟩
  · rw [deleted] at listed
    obtain ⟨m', member, same⟩ := mem_map.mp listed
    exact marks m ((Prod.mk.inj same).2 ▸ member) unreplaced
  · rcases outcome with ⟨_, rfl⟩ | ⟨idle, rfl⟩
    · exact session.get_commit _ rfl k
    · -- Without a snapshot there were no operations.
      cases ops with
      | nil =>
        cases ran
        rfl
      | cons op rest =>
        have needs := runOps_needsSnapshot ran
        have named := inlined op mem_cons_self
        rw [idle] at needs
        cases op <;> simp [BufferedOp.OnInlined, needsSnapshot] at named needs
  · rcases outcome with ⟨_, rfl⟩ | ⟨idle, rfl⟩
    · refine putAll_family _ fun x member same => ?_
      rcases mem_append.mp member with staged | tail
      · rcases (session.admissible x staged).family with versioned | unversioned
        · rw [same] at versioned
          cases versioned
        · rw [same] at unversioned
          cases unversioned
      · rcases s.writer.commitTail_family tail with family | family | family <;>
          rw [same] at family <;> cases family
    · rfl

namespace InlinedCommit

variable {s : CommitState} {placed : List (Placement Nat (List UInt8))} {marked : List (Nat × Nat)}

section

variable (commit : InlinedCommit ctx tableId ops before after s placed marked)
include commit

theorem placed_of_replaced
    (inlined : ∀ op ∈ ops, op.OnInlined tableId) {version id : Nat}
    (replaced : (tableId, version, id) ∈ collectReplacedInlinedRows ops) :
    ∃ p ∈ placed, p.bucket = version ∧ p.wanted = id := by
  rw [collectReplacedInlinedRows_eq inlined] at replaced
  obtain ⟨r, member, numbered⟩ := mem_filterMap.mp replaced
  obtain ⟨id', parsed, same⟩ := Option.map_eq_some_iff.mp numbered
  cases same
  have requested : (r.1, id, ctx.encodeValues (r.2.drop 3)) ∈ placed.map requestOf := by
    rw [commit.requests, mem_reverse]
    exact mem_filterMap.mpr ⟨r, member, by simp [numberedRow, parsed]⟩
  obtain ⟨p, among, request⟩ := mem_map.mp requested
  exact ⟨p, among, congrArg Prod.fst request, congrArg (·.2.1) request⟩

theorem removed
    (valid : before.Valid) (valid' : after.Valid) (inlined : ∀ op ∈ ops, op.OnInlined tableId)
    {version id : Nat} (listed : (tableId, version, id) ∈ collectDeletedInlinedRows ops)
    (shown : before.shows .inlinedInsert (keyInlinedInsert tableId version id) = some row) :
    after.shows .inlinedInsert (keyInlinedInsert tableId version id) ≠ some row := by
  intro still
  obtain ⟨stored, live⟩ := valid.shows_eq_some.mp shown
  obtain ⟨stored', live'⟩ := valid'.shows_eq_some.mp still
  rw [commit.rows] at stored'
  by_cases replaced : (tableId, version, id) ∈ collectReplacedInlinedRows ops
  · obtain ⟨p, member, rfl, rfl⟩ := commit.placed_of_replaced inlined replaced
    have here : p.slot = p.wanted := by
      rcases commit.places.placing.found member with ⟨_, here⟩ | ⟨movable, _⟩
      · exact here
      · simp [listed] at movable
    obtain ⟨q, _, _, _, found⟩ := commit.places.get_placed member
    rw [inlinedKey, here, stored', Option.some.injEq] at found
    have begun := (valid.consistent.sound .inlinedInsert _ row stored).begun rfl
    rw [found] at begun
    exact lt_irrefl _ begun
  · have found := commit.places.get_marked (commit.marks (version, id) listed replaced) stored
    rw [stored', Option.some.injEq] at found
    rw [found] at live'
    cases live'

theorem kept
    (valid : before.Valid) (valid' : after.Valid) (shown : before.shows .inlinedInsert k = some row)
    (unlisted : ∀ version id, (tableId, version, id) ∈ collectDeletedInlinedRows ops → k ≠ keyInlinedInsert tableId version id) :
    after.shows .inlinedInsert k = some row := by
  obtain ⟨stored, live⟩ := valid.shows_eq_some.mp shown
  refine valid'.shows_eq_some.mpr ⟨?_, live⟩
  rw [commit.rows, commit.places.get_other (fun p member same => ?_) (fun m member => ?_), stored]
  · rcases commit.places.placing.found member with ⟨fixed, here⟩ | ⟨_, _, free, _⟩
    · exact unlisted p.bucket p.wanted (of_decide_eq_true fixed) (here ▸ same)
    · rw [inlinedKey] at same
      rw [Db.storesInlined, ← same, stored] at free
      cases free
  · exact unlisted m.1 m.2 (commit.places.unreplaced m member).1

end

def entries (after : Catalog) (snapshot tableId : Nat) : List (Key × InlinedInsertRow) :=
  ((after.db.scanPrefix .inlinedInsert [tableId]).filter fun e =>
    isVisible e.2.beginSnapshot e.2.endSnapshot after.store.latestSnapshot).filter
      fun e => decide (e.2.beginSnapshot = snapshot)

theorem inlinedSince_eq (snapshot : Nat) :
    after.inlinedSince snapshot tableId = (entries after snapshot tableId).map Prod.snd := by
  rw [Catalog.inlinedSince, CatalogReader.listInlinedInserts, CatalogReader.listVisible, filter_map]
  rfl

theorem entries_nodup (after : Catalog) (snapshot tableId : Nat) :
    ((entries after snapshot tableId).map Prod.fst).Nodup := by
  have sorted : (entries after snapshot tableId).Pairwise fun a b => a.1 < b.1 :=
    ((after.db.scanPrefix_sorted .inlinedInsert [tableId]).filter _).filter _
  exact pairwise_map.mpr (sorted.imp fun before => before.ne)

section

variable (commit : InlinedCommit ctx tableId ops before after s placed marked)
include commit

theorem mem_entries
    (valid : before.Valid) (member : e ∈ entries after before.store.counters.nextSnapshotId tableId) :
    ∃ p ∈ placed, e = (inlinedKey tableId p,
      inlinedRow tableId before.store.counters.nextSnapshotId p) := by
  obtain ⟨visible, begun⟩ := mem_filter.mp member
  replace begun : e.2.beginSnapshot = before.store.counters.nextSnapshotId := of_decide_eq_true begun
  have stored := (after.db.mem_scanPrefix.mp (mem_filter.mp visible).1).1
  rw [commit.rows] at stored
  -- Rows that were stored before began earlier.
  have earlier : ∀ {k : Key} {row : InlinedInsertRow}, before.db.get .inlinedInsert k = some row →
      row.beginSnapshot < before.store.counters.nextSnapshotId := fun found =>
    (valid.consistent.sound .inlinedInsert _ _ found).begun rfl
  rcases before.db.get_putAll (f := .inlinedInsert) s.writer.staged e.1 with
    ⟨row, staged, found⟩ | ⟨_, kept⟩
  · cases found.symm.trans stored
    rcases (commit.places.staged e.1 e.2).mp staged with ⟨p, among, key, row⟩ | ⟨_, _, _, old, was, row⟩
    · exact ⟨p, among, Prod.ext key row⟩
    · have before := earlier was
      rw [row] at begun
      exact absurd begun before.ne
  · rw [kept] at stored
    exact absurd begun (earlier stored).ne

/-- The new rows are those of the placed inserts exactly if these have different keys. -/
theorem entries_perm_iff
    (valid : before.Valid) (valid' : after.Valid) :
    (entries after before.store.counters.nextSnapshotId tableId).Perm (placed.map fun p =>
        (inlinedKey tableId p, inlinedRow tableId before.store.counters.nextSnapshotId p)) ↔
      (placed.map fun p => (p.bucket, p.slot)).Nodup := by
  have keys : (placed.map fun p => (inlinedKey tableId p,
      inlinedRow tableId before.store.counters.nextSnapshotId p)).map Prod.fst =
      (placed.map fun p => (p.bucket, p.slot)).map fun r => keyInlinedInsert tableId r.1 r.2 := by
    simp [inlinedKey]
  constructor
  · intro same
    have apart := (same.map Prod.fst).nodup_iff.mp (entries_nodup after _ tableId)
    rw [keys] at apart
    exact apart.of_map
  · intro apart
    have apart' : (placed.map fun p => (inlinedKey tableId p,
        inlinedRow tableId before.store.counters.nextSnapshotId p)).Nodup := by
      refine Nodup.of_map Prod.fst (keys ▸ apart.map fun r r' same => ?_)
      exact Prod.ext_iff.mpr (keyInlinedInsert_inj.mp same)
    refine (perm_ext_iff_of_nodup (entries_nodup after _ tableId).of_map apart').mpr fun e => ?_
    constructor
    · intro member
      obtain ⟨p, among, rfl⟩ := commit.mem_entries valid member
      exact mem_map_of_mem among
    · intro member
      obtain ⟨p, among, rfl⟩ := mem_map.mp member
      obtain ⟨q, among', bucket, slot, found⟩ := commit.places.get_placed among
      have same : q = p := inj_on_of_nodup_map apart among' among (Prod.ext bucket slot)
      rw [same, ← commit.rows] at found
      have fits := valid'.consistent.sound .inlinedInsert _ _ found
      refine mem_filter.mpr ⟨mem_filter.mpr ⟨after.db.mem_scanPrefix.mpr
        ⟨found, _, rfl⟩, ?_⟩, decide_eq_true rfl⟩
      exact fits.visible_latest valid'.latest.ge

theorem requested_eq :
    (placed.map fun p => (p.bucket, p.wanted)) = (requestedRows ops).reverse := by
  have requests := congrArg (map fun q : Nat × Nat × List UInt8 => (q.1, q.2.1)) commit.requests
  rw [map_map, map_reverse, map_filterMap] at requests
  simp only [numberedRow, Option.map_map] at requests
  exact requests

/-- The inserted rows are present once each exactly if each has an identifier, and none asks for that
of a deleted row that an earlier one has been given. -/
theorem inserted_iff
    (valid : before.Valid) (valid' : after.Valid) :
    ((after.inlinedSince before.store.counters.nextSnapshotId tableId).map fun row =>
        (row.schemaVersion, row.payload)).Perm
      ((ops.flatMap BufferedOp.insertedRows).map fun r => (r.1, ctx.encodeValues (r.2.drop 3))) ↔
      (∀ r ∈ ops.flatMap BufferedOp.insertedRows, (inlinedRowId r.2).isSome = true) ∧
        Unreached (before.db.storesInlined tableId)
          (fun version id => decide ((tableId, version, id) ∈ collectDeletedInlinedRows ops))
          (requestedRows ops).reverse := by
  rw [← commit.requested_eq, ← commit.places.placing.apart_iff,
    ← commit.entries_perm_iff valid valid', inlinedSince_eq]
  have numbered : ((ops.flatMap BufferedOp.insertedRows).filterMap (numberedRow ctx)).length =
      (ops.flatMap BufferedOp.insertedRows).length ↔
        ∀ r ∈ ops.flatMap BufferedOp.insertedRows, (inlinedRowId r.2).isSome = true := by
    rw [filterMap_length_eq_length]
    simp [numberedRow]
  have placed_length := congrArg length commit.requests
  rw [length_map, length_reverse] at placed_length
  constructor
  · intro same
    have lengths := same.length_eq
    simp only [length_map] at lengths
    have within := (Nodup.of_map _ (entries_nodup after before.store.counters.nextSnapshotId
      tableId)).subperm fun e member => by
        obtain ⟨p, among, rfl⟩ := commit.mem_entries valid member
        exact mem_map_of_mem (f := fun p => (inlinedKey tableId p,
          inlinedRow tableId before.store.counters.nextSnapshotId p)) among
    have fewer := within.length_le
    have most := length_filterMap_le (numberedRow ctx) (ops.flatMap BufferedOp.insertedRows)
    rw [length_map] at fewer
    refine ⟨numbered.mp (by omega), within.perm_of_length_le ?_⟩
    rw [length_map]
    omega
  · rintro ⟨all, same⟩
    have items : (placed.map fun p => (p.bucket, p.item)) = ((ops.flatMap BufferedOp.insertedRows).map
        fun r => (r.1, ctx.encodeValues (r.2.drop 3))).reverse := by
      have requests := congrArg (map fun q : Nat × Nat × List UInt8 => (q.1, q.2.2)) commit.requests
      rw [map_map, map_reverse, map_filterMap] at requests
      refine requests.trans (congrArg reverse ?_)
      refine filterMap_eq_map_iff_forall_eq_some.mpr fun r member => ?_
      obtain ⟨id, parsed⟩ := Option.isSome_iff_exists.mp (all r member)
      simp [numberedRow, parsed]
    refine ((same.map Prod.snd).map _).trans ?_
    rw [map_map, map_map]
    exact (Perm.of_eq items).trans (reverse_perm _)

theorem counted_iff
    (inlined : ∀ op ∈ ops, op.OnInlined tableId) (bounded : before.db.recordCount tableId ≤ u64Max) :
    after.db.recordCount tableId + (removedRows before ops).card = before.db.recordCount tableId ↔
      min (collectDeletedInlinedRows ops).length (before.db.recordCount tableId) =
        (removedRows before ops).card := by
  have same : after.db.recordCount tableId = s.db.recordCount tableId := by
    rw [Db.recordCount, Db.recordCount, readTableStatsOrDefault,
      readTableStatsOrDefault, get_of_family commit.stats]
  have lowered := recordCount_direct ctx.env inlined bounded
  rw [same, commit.direct, lowered, collectDeletedInlinedRows_eq inlined, length_map]
  omega

end

end InlinedCommit

/-- A committed transaction of inlined inserts and deletions has its effect exactly under these
conditions. Deleted rows are always gone and the others always kept. -/
theorem inlinedEffect_iff (valid : before.Valid) (inlined : ∀ op ∈ ops, op.OnInlined tableId)
    (bounded : before.db.recordCount tableId ≤ u64Max)
    (done : executeCommit ctx ops before = (after, .ok ())) :
    InlinedEffect ctx tableId ops before after ↔ InlinedSound before tableId ops := by
  have valid' := executeCommit_valid valid done
  obtain ⟨s, placed, marked, commit⟩ := executeCommit_inlined valid inlined done
  constructor
  · intro effect
    obtain ⟨numbered, unreached⟩ := (commit.inserted_iff valid valid').mp effect.inserted
    exact ⟨numbered, unreached, (commit.counted_iff inlined bounded).mp effect.counted⟩
  · intro sound
    exact ⟨(commit.inserted_iff valid valid').mpr ⟨sound.numbered, sound.unreached⟩,
      fun _ _ _ listed => commit.removed valid valid' inlined listed,
      fun _ _ shown => commit.kept valid valid' shown,
      (commit.counted_iff inlined bounded).mpr sound.counted⟩

end Commit

/-- A session that stores the inlined row 1 of `orders` and counts it. -/
def inlineOne : Session :=
  ⟨[.staging (.registerInlinedInsert 2 1 1 [0x61]), .direct (.updateTableStats 2 1 2 0)], {}⟩

def plainContext : CommitContext :=
  { CommitContext.trivial with
    encodeValues := fun values => values.flatMap fun value =>
      (value.getD "").toList.map fun c => UInt8.ofNat c.toNat }

/-- A transaction that deletes row 1, inserts it anew and inserts another row. -/
def replaceOne : List BufferedOp :=
  [.deleteInlinedRows "ducklake_inlined_data_2_1" [1],
   .insertInlinedRow "ducklake_inlined_data_2_1"
     [[some "1", none, none, some "b"], [some "7", none, none, some "c"]]]

/-- A transaction that deletes row 1 and inserts two rows under its identifier. -/
def replaceTwice : List BufferedOp :=
  [.deleteInlinedRows "ducklake_inlined_data_2_1" [1],
   .insertInlinedRow "ducklake_inlined_data_2_1"
     [[some "1", none, none, some "b"], [some "1", none, none, some "c"]]]

theorem inlinedTwoOne : parseInlinedTableIds "ducklake_inlined_data_2_1" = some (2, 1) := by
  decide +kernel

theorem inlinedEffect_replaceOne : ∃ before after, before.Reachable Env.trivial ∧
    executeCommit plainContext replaceOne before = (after, .ok ()) ∧
    InlinedEffect plainContext 2 replaceOne before after := by
  have reachable : Catalog.Reachable Env.trivial _ :=
    .session (.session (.opened "a" rfl) Catalog.createOrders rfl) inlineOne rfl
  have inlined : ∀ op ∈ replaceOne, op.OnInlined 2 := by
    intro op member
    rcases mem_pair.mp member with rfl | rfl <;> exact ⟨1, inlinedTwoOne⟩
  refine ⟨_, _, reachable, rfl, (inlinedEffect_iff reachable.valid inlined ?_
    (rfl : executeCommit plainContext _ _ = _)).mpr ⟨?_, ?_, ?_⟩⟩
  · decide +kernel
  · decide +kernel
  · have requests : (requestedRows replaceOne).reverse = [(1, 7), (1, 1)] := by decide +kernel
    rw [requests]
    refine ⟨fun fixed => absurd fixed (by decide +kernel), fun _ => ?_, trivial⟩
    simp [Reached]
  · decide +kernel

/-- The second row replaces the first one. -/
theorem replaceTwice_loses_row : ∃ before after, before.Reachable Env.trivial ∧
    executeCommit plainContext replaceTwice before = (after, .ok ()) ∧
    (after.inlinedSince before.store.counters.nextSnapshotId 2).map (fun row => (row.rowId, row.payload)) =
      [(1, [0x63])] ∧
    ¬ InlinedEffect plainContext 2 replaceTwice before after := by
  refine ⟨_, _, .session (.session (.opened "a" rfl) Catalog.createOrders rfl) inlineOne rfl, rfl,
    (fun shown => ⟨shown, fun effect => ?_⟩) (by decide +kernel)⟩
  have found := effect.inserted.length_eq
  have stored := congrArg length shown
  rw [length_map] at found stored
  rw [stored] at found
  exact absurd found (by decide +kernel)

end RockLake
