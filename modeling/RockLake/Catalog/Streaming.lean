import RockLake.Catalog.Reads
import RockLake.Catalog.Retirement

/-! Streaming ingest. A sink commits a batch of records as inlined rows together with the offset of
its consumer, in one session. The offset decides which batches are taken; the row identifiers are
computed from the offset and the size of the batch, so two batches may claim the same ones. -/
namespace RockLake

open List CatalogWriter

structure IngestRecord (V : Type) where
  key : String
  value : V

structure IngestResult where
  snapshotId : Nat
  recordsCommitted : Nat
  newOffset : Option String

/-- The arguments of one call of `commitBatch` that a retry repeats. -/
structure IngestBatch (V : Type) where
  records : List (IngestRecord V)
  expectedCurrentOffset : Option String
  nextOffset : String
  author : Option String

structure RockLakeSink where
  offsetKey : String

def CatalogReader.getMetadata (r : CatalogReader) (scope : MetadataScope) (scopeId : Nat)
    (key : String) : Option MetadataRow :=
  r.db.get .metadata (keyMetadata scope scopeId key)

/-- The first identifier of a batch. Offsets that are no number count as zero. -/
def offsetBase (nextOffset : String) (count : Nat) : Nat :=
  min ((Text.parseUnsigned (2 ^ 64) nextOffset.toList).getD 0 * count) u64Max

/-- The row identifiers and payloads of a batch. A value that does not serialise is stored empty. -/
def IngestBatch.rows {V : Type} (toVec : V → Option (List UInt8)) (batch : IngestBatch V) :
    List (Nat × List UInt8) :=
  batch.records.mapIdx fun idx record =>
    ((offsetBase batch.nextOffset batch.records.length + idx) % 2 ^ 64, (toVec record.value).getD [])

def CatalogWriter.registerRows (tableId schemaVersion : Nat) (w : CatalogWriter)
    (rows : List (Nat × List UInt8)) : Except CatalogError CatalogWriter :=
  rows.foldlM (fun w row => w.registerInlinedInsert tableId schemaVersion row.1 row.2) w

namespace RockLakeSink

def new (offsetKey : String) : Except CatalogError RockLakeSink :=
  (validateAppMetadataKey offsetKey).map fun _ => ⟨offsetKey⟩

def debugOffset : Option String → String
  | some offset => "Some(" ++ Text.quoted offset ++ ")"
  | none => "None"

variable {V ι : Type} (toVec : V → Option (List UInt8)) (sink : RockLakeSink) (tableId : Nat)

def storedOffset (catalog : Catalog) : Option String :=
  ((catalog.store.readLatest catalog.db).getMetadata .global 0 sink.offsetKey).map (·.value)

def checkExpected (current expected : Option String) : Except CatalogError Unit :=
  match expected with
  | some offset =>
    if current = some offset then .ok ()
    else .error (.invalidInput ("exactly-once fencing: expected offset " ++ Text.quoted offset ++
      ", found " ++ debugOffset current))
  | none => .ok ()

def ingestRequest (batch : IngestBatch V) (now : String) (conflict : Option String) :
    SnapshotRequest :=
  { author := batch.author
    message := some s!"streaming ingest batch: {batch.records.length} records"
    now, conflict }

/-- One call of the sink: the answer with the catalog it leaves. A failing call stages at most, so
the catalog is then the one before. -/
def commitBatch (catalog : Catalog) (batch : IngestBatch V) (now : String)
    (conflict : Option String) : Except CatalogError (IngestResult × Catalog) :=
  let current := sink.storedOffset catalog
  if current = some batch.nextOffset then
    .ok (⟨catalog.store.latestSnapshot, 0, some batch.nextOffset⟩, catalog)
  else do
    checkExpected current batch.expectedCurrentOffset
    let w := catalog.store.beginWrite
    let w ← w.registerRows tableId w.currentSchemaVersion (batch.rows toVec)
    let w ← w.setMetadata .global 0 sink.offsetKey batch.nextOffset
    let (commit, db) ← (w.createSnapshot catalog.db (ingestRequest batch now conflict)).1
    .ok (⟨commit.snapshotId, batch.records.length, some batch.nextOffset⟩,
      ⟨db, catalog.store.commitWriter commit⟩)

/-- A call that submits a batch of the feed, with the clock reading of its commit and the outcome of
the transaction. A retry submits the same batch again. -/
structure Submission (ι : Type) where
  batch : ι
  now : String := ""
  conflict : Option String := none

variable (feed : ι → IngestBatch V)

/-- A sequence of calls: the catalog at the end and the batches that were committed, in order. A
call has committed when it answers with a new snapshot. -/
def ingest : Catalog → List (Submission ι) → Catalog × List ι
  | catalog, [] => (catalog, [])
  | catalog, call :: rest =>
    match sink.commitBatch toVec tableId catalog (feed call.batch) call.now call.conflict with
    | .ok (result, catalog') =>
      let (last, committed) := ingest catalog' rest
      (last, if catalog.store.latestSnapshot < result.snapshotId then call.batch :: committed
        else committed)
    | .error _ => ingest catalog rest

def accepts (stored : Option String) (batch : IngestBatch V) (conflict : Option String) : Bool :=
  stored ≠ some batch.nextOffset &&
  batch.expectedCurrentOffset.all (fun offset => stored = some offset) &&
  (batch.rows toVec).all (fun row => row.2.length + 100 ≤ CatalogWriter.maxInlinedValueSize) &&
  (validateAppMetadataKey sink.offsetKey).isOk && conflict.isNone

/-- The batches that a sequence of calls gets taken, from a stored offset on. -/
def accepted : Option String → List (Submission ι) → List ι
  | _, [] => []
  | stored, call :: rest =>
    if sink.accepts toVec stored (feed call.batch) call.conflict then
      call.batch :: accepted (some (feed call.batch).nextOffset) rest
    else accepted stored rest

end RockLakeSink

/-! ### One call -/

namespace CatalogWriter

variable {tableId schemaVersion : Nat} {w w' : CatalogWriter} {rows : List (Nat × List UInt8)}

def ingestedRow (tableId schemaVersion : Nat) (w : CatalogWriter) (row : Nat × List UInt8) : Write :=
  ⟨.inlinedInsert, keyInlinedInsert tableId schemaVersion row.1,
    ({ tableId, schemaVersion, rowId := row.1, payload := row.2, beginSnapshot := w.snapshotId,
       endSnapshot := none } : InlinedInsertRow)⟩

theorem stage_stage (first second : List Write) :
    (w.stage first).stage second = w.stage (first ++ second) := by
  simp [stage]

theorem registerRows_ok :
    w.registerRows tableId schemaVersion rows = .ok w' ↔
      (∀ row ∈ rows, row.2.length + 100 ≤ maxInlinedValueSize) ∧
        w' = w.stage (rows.map (ingestedRow tableId schemaVersion w)) := by
  induction rows generalizing w with
  | nil => simp [registerRows, pure, Except.pure, stage, eq_comm]
  | cons row rows ih =>
    have step : w.registerRows tableId schemaVersion (row :: rows) =
        (w.registerInlinedInsert tableId schemaVersion row.1 row.2).bind
          fun w => w.registerRows tableId schemaVersion rows := rfl
    rw [step]
    cases first : w.registerInlinedInsert tableId schemaVersion row.1 row.2 with
    | error e =>
      have large : ¬ row.2.length + 100 ≤ maxInlinedValueSize := fun small => by
        rw [registerInlinedInsert_ok.mpr ⟨small, rfl⟩] at first
        contradiction
      simp [Except.bind, large]
    | ok w₁ =>
      obtain ⟨small, rfl⟩ := registerInlinedInsert_ok.mp first
      simp only [Except.bind, ih, stage_stage, forall_mem_cons, small, true_and, map_cons]
      rfl

theorem registerRows_inSession (uncareful : ¬ careful) (consistent : base.Consistent c)
    (session : InSession base careful c db w)
    (registered : w.registerRows tableId schemaVersion rows = .ok w') :
    InSession base careful c db w' := by
  induction rows generalizing w with
  | nil =>
    cases registered
    exact session
  | cons row rows ih =>
    have step : (w.registerInlinedInsert tableId schemaVersion row.1 row.2).bind
        (fun w => w.registerRows tableId schemaVersion rows) = .ok w' := registered
    cases first : w.registerInlinedInsert tableId schemaVersion row.1 row.2 with
    | error e => simp [first, Except.bind] at step
    | ok w₁ =>
      have called : w.staging Env.trivial db
          (.registerInlinedInsert tableId schemaVersion row.1 row.2) = .ok (.unit, w₁) :=
        congrArg checked first
      rw [first] at step
      exact ih (session.staging consistent (fun h => absurd h uncareful) called) step

end CatalogWriter

namespace RockLakeSink

variable {V ι : Type} {toVec : V → Option (List UInt8)} {sink : RockLakeSink} {tableId : Nat}
  {catalog catalog' : Catalog} {batch : IngestBatch V}

/-- What the latest snapshot shows of the inlined row under a key. -/
def payloadAt (catalog : Catalog) (k : Key) : Option (List UInt8) :=
  (catalog.shows .inlinedInsert k).map InlinedInsertRow.payload

/-- The catalog after a batch shows the rows of the batch, each under its key unless a later one of
the batch has the same, and otherwise what it showed before. -/
structure Committed (toVec : V → Option (List UInt8)) (sink : RockLakeSink) (tableId : Nat)
    (batch : IngestBatch V) (catalog catalog' : Catalog) : Prop where
  valid : catalog'.Valid
  offset : sink.storedOffset catalog' = some batch.nextOffset
  schemaVersion : catalog'.store.schemaVersion = catalog.store.schemaVersion
  rows : ∀ k,
    (∃ row ∈ batch.rows toVec, k = keyInlinedInsert tableId catalog.store.schemaVersion row.1 ∧
      payloadAt catalog' k = some row.2) ∨
    ((∀ row ∈ batch.rows toVec, k ≠ keyInlinedInsert tableId catalog.store.schemaVersion row.1) ∧
      payloadAt catalog' k = payloadAt catalog k)

theorem payloadAt_eq_some (valid : catalog.Valid) :
    payloadAt catalog k = some payload ↔ ∃ row : InlinedInsertRow,
      catalog.db.get .inlinedInsert k = some row ∧ row.endSnapshot = none ∧ row.payload = payload := by
  simp only [payloadAt, Option.map_eq_some_iff, valid.shows_eq_some, and_assoc]
  rfl

def offsetRow (sink : RockLakeSink) (nextOffset : String) : Write :=
  ⟨.metadata, keyMetadata .global 0 sink.offsetKey,
    ({ key := sink.offsetKey, value := nextOffset, scope := some MetadataScope.global.text,
       scopeId := some 0 } : MetadataRow)⟩

def stagedBatch (toVec : V → Option (List UInt8)) (sink : RockLakeSink) (tableId : Nat)
    (store : CatalogStore) (batch : IngestBatch V) : CatalogWriter :=
  store.beginWrite.stage ((batch.rows toVec).map
    (store.beginWrite.ingestedRow tableId store.schemaVersion) ++ [sink.offsetRow batch.nextOffset])

theorem stagedBatch_staged (store : CatalogStore) :
    (stagedBatch toVec sink tableId store batch).staged = (batch.rows toVec).map
      (store.beginWrite.ingestedRow tableId store.schemaVersion) ++ [sink.offsetRow batch.nextOffset] :=
  rfl

theorem setMetadata_ok {w w' : CatalogWriter} :
    w.setMetadata .global 0 sink.offsetKey nextOffset = .ok w' ↔
      (validateAppMetadataKey sink.offsetKey).isOk = true ∧
        w' = w.stage [sink.offsetRow nextOffset] := by
  cases checked : validateAppMetadataKey sink.offsetKey with
  | error e => simp [setMetadata, checked, Except.map, Except.isOk, Except.toBool]
  | ok u =>
    simp only [setMetadata, checked, Except.map, Except.isOk, Except.toBool, true_and,
      Except.ok.injEq]
    exact eq_comm

theorem checkExpected_ok :
    checkExpected current expected = .ok u ↔
      expected.all (fun offset => current = some offset) = true := by
  cases expected <;> simp [checkExpected]

theorem stagedBatch_inSession (valid : catalog.Valid)
    (small : ∀ row ∈ batch.rows toVec, row.2.length + 100 ≤ CatalogWriter.maxInlinedValueSize)
    (key : (validateAppMetadataKey sink.offsetKey).isOk = true) :
    InSession catalog.db False catalog.store.counters catalog.db
      (stagedBatch toVec sink tableId catalog.store batch) := by
  have rows : catalog.store.beginWrite.registerRows tableId catalog.store.schemaVersion
      (batch.rows toVec) = .ok _ := registerRows_ok.mpr ⟨small, rfl⟩
  have session := registerRows_inSession not_false valid.consistent
    (InSession.begin False catalog.store valid.consistent) rows
  have called : (catalog.store.beginWrite.stage ((batch.rows toVec).map
      (catalog.store.beginWrite.ingestedRow tableId catalog.store.schemaVersion))).staging Env.trivial
      catalog.db (.setMetadata .global 0 sink.offsetKey batch.nextOffset) =
        .ok (.unit, stagedBatch toVec sink tableId catalog.store batch) := by
    rw [staging, setMetadata_ok.mpr ⟨key, rfl⟩, stage_stage]
    rfl
  exact session.staging valid.consistent False.elim called

theorem committed_stagedBatch (batched : w = stagedBatch toVec sink tableId catalog.store batch)
    (valid : catalog.Valid) (request : SnapshotRequest)
    (session : InSession catalog.db False catalog.store.counters catalog.db w) :
    Committed toVec sink tableId batch catalog
      ⟨catalog.db.putAll (w.commitWrites request), catalog.store.commitWriter w.commitResult⟩ := by
  have valid' := valid.ofInSession session request
  refine ⟨valid', ?_, batched ▸ rfl, fun k => ?_⟩
  · have stored : (catalog.db.putAll (w.commitWrites request)).get .metadata
        (keyMetadata .global 0 sink.offsetKey) =
          (catalog.db.putAll w.staged).get .metadata (keyMetadata .global 0 sink.offsetKey) :=
      Db.get_of_family (session.commit_family request rfl (by decide) (by decide)) _
    have last : (catalog.db.putAll w.staged).get .metadata (keyMetadata .global 0 sink.offsetKey) =
        some (sink.offsetRow batch.nextOffset).row := by
      rw [batched, stagedBatch_staged, Db.putAll_append]
      exact Db.get_put_same _ _ _
    simp only [storedOffset, CatalogReader.getMetadata, CatalogStore.readLatest, stored, last]
    rfl
  · have stored := session.get_commit request (f := .inlinedInsert) rfl k
    rcases catalog.db.get_putAll (f := .inlinedInsert) w.staged k with
      ⟨row, member, found⟩ | ⟨absent, kept⟩
    · have origin : (⟨.inlinedInsert, k, row⟩ : Write) ∈ (batch.rows toVec).map
          (catalog.store.beginWrite.ingestedRow tableId catalog.store.schemaVersion) := by
        rw [batched, stagedBatch_staged] at member
        rcases mem_append.mp member with here | there
        · exact here
        · cases mem_singleton.mp there
      obtain ⟨source, present, same⟩ := mem_map.mp origin
      cases same
      exact .inl ⟨source, present, rfl,
        (payloadAt_eq_some valid').mpr ⟨_, stored.trans found, rfl, rfl⟩⟩
    · refine .inr ⟨fun row present same => ?_, Option.ext fun payload => by
        rw [payloadAt_eq_some valid, payloadAt_eq_some valid', stored.trans kept]⟩
      subst same
      rw [batched, stagedBatch_staged] at absent
      exact absent _ (mem_append_left _ (mem_map_of_mem present))

/-- A call succeeds when the offset of the batch is stored already, and then nothing happens, or
when the batch is accepted, and then everything it stages is committed. -/
theorem commitBatch_ok (valid : catalog.Valid) {result : IngestResult} :
    sink.commitBatch toVec tableId catalog batch now conflict = .ok (result, catalog') ↔
      (sink.storedOffset catalog = some batch.nextOffset ∧
        result = ⟨catalog.store.latestSnapshot, 0, some batch.nextOffset⟩ ∧ catalog' = catalog) ∨
      (sink.accepts toVec (sink.storedOffset catalog) batch conflict = true ∧
        result = ⟨catalog.store.counters.nextSnapshotId, batch.records.length, some batch.nextOffset⟩ ∧
        catalog' = ⟨catalog.db.putAll ((stagedBatch toVec sink tableId catalog.store batch).commitWrites
            (ingestRequest batch now conflict)), catalog.store.commitWriter
          (stagedBatch toVec sink tableId catalog.store batch).commitResult⟩) := by
  by_cases fresh : sink.storedOffset catalog = some batch.nextOffset
  · simp [commitBatch, accepts, fresh, eq_comm]
  simp only [commitBatch, fresh, if_false, accepts, false_and, false_or, Bool.and_eq_true,
    decide_eq_true_eq, all_eq_true, Option.isNone_iff_eq_none, bind_ok, checkExpected_ok,
    registerRows_ok, setMetadata_ok]
  constructor
  · rintro ⟨_, expected, w₁, ⟨small, rfl⟩, w₂, ⟨key, rfl⟩, ⟨commit, db⟩, created, answered⟩
    rw [stage_stage] at created
    obtain ⟨_, unopposed, rfl, rfl⟩ := (createSnapshot_ok _ _).mp created
    cases answered
    exact ⟨⟨⟨⟨⟨fresh, expected⟩, small⟩, key⟩, unopposed⟩, rfl, rfl⟩
  · rintro ⟨⟨⟨⟨⟨_, expected⟩, small⟩, key⟩, unopposed⟩, rfl, rfl⟩
    refine ⟨(), expected, _, ⟨small, rfl⟩, _, ⟨key, rfl⟩,
      ⟨(stagedBatch toVec sink tableId catalog.store batch).commitResult, _⟩, ?_, rfl⟩
    rw [stage_stage]
    exact (createSnapshot_ok _ _).mpr ⟨⟨valid.epoch, valid.nonce⟩, unopposed, rfl, rfl⟩

/-! ### Sequences of calls -/

variable {feed : ι → IngestBatch V}

/-- What a sequence of calls does: the stored offset is the one of the last batch taken, and every
key that a batch taken claims shows a payload that one of them has for it. -/
structure Ingested (toVec : V → Option (List UInt8)) (sink : RockLakeSink) (tableId : Nat)
    (feed : ι → IngestBatch V) (taken : List ι) (catalog last : Catalog) : Prop where
  valid : last.Valid
  offset : sink.storedOffset last =
    (taken.getLast?.map fun b => (feed b).nextOffset).or (sink.storedOffset catalog)
  schemaVersion : last.store.schemaVersion = catalog.store.schemaVersion
  rows : ∀ k,
    (∃ b ∈ taken, ∃ row ∈ (feed b).rows toVec,
      k = keyInlinedInsert tableId catalog.store.schemaVersion row.1 ∧
      payloadAt last k = some row.2) ∨
    ((∀ b ∈ taken, ∀ row ∈ (feed b).rows toVec,
      k ≠ keyInlinedInsert tableId catalog.store.schemaVersion row.1) ∧
      payloadAt last k = payloadAt catalog k)

theorem Ingested.none (valid : catalog.Valid) : Ingested toVec sink tableId feed [] catalog catalog :=
  ⟨valid, rfl, rfl, fun _ => .inr ⟨by simp, rfl⟩⟩

theorem Ingested.cons {last : Catalog} {b : ι} {taken : List ι}
    (first : Committed toVec sink tableId (feed b) catalog catalog')
    (rest : Ingested toVec sink tableId feed taken catalog' last) :
    Ingested toVec sink tableId feed (b :: taken) catalog last where
  valid := rest.valid
  offset := by
    rw [rest.offset, first.offset, getLast?_cons]
    cases taken.getLast? <;> rfl
  schemaVersion := rest.schemaVersion.trans first.schemaVersion
  rows k := by
    have later := rest.rows k
    rw [first.schemaVersion] at later
    rcases later with ⟨b', member, row, present, same, shown⟩ | ⟨absent, kept⟩
    · exact .inl ⟨b', mem_cons_of_mem _ member, row, present, same, shown⟩
    rcases first.rows k with ⟨row, present, same, shown⟩ | ⟨unclaimed, same⟩
    · exact .inl ⟨b, mem_cons_self, row, present, same, kept.trans shown⟩
    · refine .inr ⟨fun b' member => ?_, kept.trans same⟩
      rcases mem_cons.mp member with rfl | further
      · exact unclaimed
      · exact absent b' further

theorem ingest_spec (valid : catalog.Valid) (calls : List (Submission ι)) :
    (sink.ingest toVec tableId feed catalog calls).2 =
        sink.accepted toVec feed (sink.storedOffset catalog) calls ∧
      Ingested toVec sink tableId feed (sink.accepted toVec feed (sink.storedOffset catalog) calls)
        catalog (sink.ingest toVec tableId feed catalog calls).1 := by
  induction calls generalizing catalog with
  | nil => exact ⟨rfl, .none valid⟩
  | cons call rest ih =>
    rw [accepted, ingest]
    cases taken : sink.accepts toVec (sink.storedOffset catalog) (feed call.batch) call.conflict with
    | true =>
      obtain ⟨result, catalog', committed, newer, first⟩ :
          ∃ result catalog', sink.commitBatch toVec tableId catalog (feed call.batch) call.now
              call.conflict = .ok (result, catalog') ∧
            catalog.store.latestSnapshot < result.snapshotId ∧
            Committed toVec sink tableId (feed call.batch) catalog catalog' := by
        refine ⟨_, _, (commitBatch_ok valid).mpr (.inr ⟨taken, rfl, rfl⟩), ?_, ?_⟩
        · have latest := valid.latest
          simp only
          omega
        · simp only [accepts, Bool.and_eq_true, all_eq_true, decide_eq_true_eq] at taken
          exact committed_stagedBatch rfl valid _ (stagedBatch_inSession valid taken.1.1.2 taken.1.2)
      obtain ⟨batches, final⟩ := ih first.valid
      rw [first.offset] at batches final
      simp only [committed, newer, if_true, batches, true_and]
      exact final.cons first
    | false =>
      simp only [Bool.false_eq_true, if_false]
      split
      · rename_i result catalog' answered
        rcases (commitBatch_ok valid).mp answered with ⟨_, rfl, rfl⟩ | ⟨accepted, _⟩
        · simp only [lt_irrefl, if_false]
          exact ih valid
        · rw [taken] at accepted
          contradiction
      · exact ih valid

/-- Entries laid over others, each key once: the payloads are those of both lists exactly if no key
is claimed twice. -/
theorem overlay_perm_iff {before new after : List (K × P)} (keyed : (after.map Prod.fst).Nodup)
    (origin : ∀ e ∈ after, e ∈ before ∨ e ∈ new) (claimed : ∀ e ∈ new, ∃ p, (e.1, p) ∈ after)
    (kept : ∀ e ∈ before, e.1 ∉ new.map Prod.fst → e ∈ after) :
    (after.map Prod.snd).Perm ((before ++ new).map Prod.snd) ↔
      ((before ++ new).map Prod.fst).Nodup := by
  constructor
  · intro same
    have inside : after.map Prod.fst ⊆ (before ++ new).map Prod.fst := by
      intro k member
      obtain ⟨e, present, rfl⟩ := mem_map.mp member
      exact mem_map_of_mem (mem_append.mpr (origin e present))
    have size := same.length_eq
    simp only [length_map] at size
    have whole := (subperm_of_subset keyed inside).perm_of_length_le (by simp [size])
    exact whole.nodup_iff.mp keyed
  · intro distinct
    refine Perm.map _ ((perm_ext_iff_of_nodup keyed.of_map distinct.of_map).mpr fun e => ?_)
    rw [map_append, nodup_append] at distinct
    obtain ⟨_, distinctNew, apart⟩ := distinct
    rw [mem_append]
    refine ⟨origin e, ?_⟩
    rintro (old | fresh)
    · refine kept e old fun again => ?_
      exact apart e.1 (mem_map_of_mem old) e.1 again rfl
    · obtain ⟨p, present⟩ := claimed e fresh
      rcases origin _ present with old | same
      · have early : e.1 ∈ before.map Prod.fst := mem_map.mpr ⟨_, old, rfl⟩
        exact absurd rfl (apart e.1 early e.1 (mem_map_of_mem fresh))
      · have equal := inj_on_of_nodup_map distinctNew same fresh rfl
        rwa [← equal]

/-- The inlined rows of a table at the latest snapshot, as keys and payloads. -/
def shownRows (catalog : Catalog) (tableId : Nat) : List (Key × List UInt8) :=
  ((catalog.store.readLatest catalog.db).listInlinedInserts tableId).map fun row =>
    (keyInlinedInsert row.tableId row.schemaVersion row.rowId, row.payload)

theorem mem_shownRows (valid : catalog.Valid) :
    (k, payload) ∈ shownRows catalog tableId ↔
      [tableId] <+: k ∧ payloadAt catalog k = some payload := by
  rw [payloadAt_eq_some valid, shownRows, mem_map]
  constructor
  · rintro ⟨row, listed, same⟩
    obtain ⟨k', found, starts, visible⟩ := (CatalogReader.mem_listVisible _).mp listed
    have fits := valid.consistent.sound .inlinedInsert k' row found
    have keyed : k' = keyInlinedInsert row.tableId row.schemaVersion row.rowId := fits.keyed
    have live := (fits.visible_latest valid.latest.ge).symm.trans visible
    cases same
    exact ⟨keyed ▸ starts, row, keyed ▸ found, Option.isNone_iff_eq_none.mp live, rfl⟩
  · rintro ⟨starts, row, found, live, rfl⟩
    have fits := valid.consistent.sound .inlinedInsert k row found
    have keyed : k = keyInlinedInsert row.tableId row.schemaVersion row.rowId := fits.keyed
    have visible := (fits.visible_latest valid.latest.ge).trans (Option.isNone_iff_eq_none.mpr live)
    exact ⟨row, (CatalogReader.mem_listVisible _).mpr ⟨k, found, starts, visible⟩, by rw [keyed]⟩

theorem shownRows_nodup (valid : catalog.Valid) :
    ((shownRows catalog tableId).map Prod.fst).Nodup := by
  have keys : (shownRows catalog tableId).map Prod.fst =
      ((catalog.db.scanPrefix .inlinedInsert [tableId]).filter fun e =>
        isVisible (Family.beginOf .inlinedInsert e.2) (Family.endOf .inlinedInsert e.2)
          catalog.store.latestSnapshot).map Prod.fst := by
    simp only [shownRows, CatalogReader.listInlinedInserts, CatalogReader.listVisible, map_map]
    refine map_congr_left fun e member => ?_
    obtain ⟨found, _⟩ := catalog.db.mem_scanPrefix.mp (mem_of_mem_filter member)
    exact (valid.consistent.sound .inlinedInsert e.1 e.2 found).keyed.symm
  rw [keys]
  exact ((catalog.db.scanPrefix_sorted .inlinedInsert [tableId]).filter _).map _
    fun _ _ less => less.ne

/-- The rows that batches claim, each batch once, under their keys. -/
def claims [DecidableEq ι] (toVec : V → Option (List UInt8)) (tableId schemaVersion : Nat)
    (feed : ι → IngestBatch V) (taken : List ι) : List (Key × List UInt8) :=
  (taken.dedup.flatMap fun b => (feed b).rows toVec).map fun row =>
    (keyInlinedInsert tableId schemaVersion row.1, row.2)

theorem mem_claims [DecidableEq ι] :
    e ∈ claims toVec tableId schemaVersion feed taken ↔ ∃ b ∈ taken, ∃ row ∈ (feed b).rows toVec,
      e = (keyInlinedInsert tableId schemaVersion row.1, row.2) := by
  simp only [claims, mem_map, mem_flatMap, mem_dedup]
  constructor
  · rintro ⟨row, ⟨b, member, present⟩, rfl⟩
    exact ⟨b, member, row, present, rfl⟩
  · rintro ⟨b, member, row, present, rfl⟩
    exact ⟨row, ⟨b, member, present⟩, rfl⟩

theorem claims_keys [DecidableEq ι] (schemaVersion : Nat) (taken : List ι) :
    (claims toVec tableId schemaVersion feed taken).map Prod.fst =
      ((taken.dedup.flatMap fun b => (feed b).rows toVec).map fun row => (schemaVersion, row.1)).map
        fun id => keyInlinedInsert tableId id.1 id.2 := by
  rw [claims, map_map, map_map]
  rfl

theorem Ingested.perm_iff [DecidableEq ι] {last : Catalog} (valid : catalog.Valid)
    (ingested : Ingested toVec sink tableId feed taken catalog last) :
    ((shownRows last tableId).map Prod.snd).Perm ((shownRows catalog tableId ++
        claims toVec tableId catalog.store.schemaVersion feed taken).map Prod.snd) ↔
      ((shownRows catalog tableId ++
        claims toVec tableId catalog.store.schemaVersion feed taken).map Prod.fst).Nodup := by
  refine overlay_perm_iff (shownRows_nodup ingested.valid) ?_ ?_ ?_
  · rintro ⟨k, payload⟩ member
    obtain ⟨starts, shown⟩ := (mem_shownRows ingested.valid).mp member
    rcases ingested.rows k with ⟨b, taken, row, present, same, now⟩ | ⟨_, kept⟩
    · cases now.symm.trans shown
      exact .inr (mem_claims.mpr ⟨b, taken, row, present, by rw [same]⟩)
    · exact .inl ((mem_shownRows valid).mpr ⟨starts, kept.symm.trans shown⟩)
  · rintro e member
    obtain ⟨b, taken, row, present, rfl⟩ := mem_claims.mp member
    have start : [tableId] <+: keyInlinedInsert tableId catalog.store.schemaVersion row.1 := ⟨_, rfl⟩
    rcases ingested.rows (keyInlinedInsert tableId catalog.store.schemaVersion row.1) with
      ⟨_, _, row', _, _, now⟩ | ⟨absent, _⟩
    · exact ⟨row'.2, (mem_shownRows ingested.valid).mpr ⟨start, now⟩⟩
    · exact absurd rfl (absent b taken row present)
  · rintro ⟨k, payload⟩ member unclaimed
    obtain ⟨starts, shown⟩ := (mem_shownRows valid).mp member
    rcases ingested.rows k with ⟨b, taken, row, present, rfl, _⟩ | ⟨_, kept⟩
    · exact absurd (mem_map_of_mem (mem_claims.mpr ⟨b, taken, row, present, rfl⟩)) unclaimed
    · exact (mem_shownRows ingested.valid).mpr ⟨starts, kept.trans shown⟩

/-- The keys of the rows of one table are told apart by schema version and row identifier. -/
theorem shownRows_keys (valid : catalog.Valid) :
    (shownRows catalog tableId).map Prod.fst =
      (((catalog.store.readLatest catalog.db).listInlinedInserts tableId).map fun row =>
        (row.schemaVersion, row.rowId)).map fun id => keyInlinedInsert tableId id.1 id.2 := by
  rw [shownRows, map_map, map_map]
  refine map_congr_left fun row listed => ?_
  obtain ⟨k, found, starts, _⟩ := (CatalogReader.mem_listVisible _).mp listed
  have keyed : k = keyInlinedInsert row.tableId row.schemaVersion row.rowId :=
    (valid.consistent.sound .inlinedInsert k row found).keyed
  rw [keyed] at starts
  have owner : tableId = row.tableId := (cons_prefix_cons.mp starts).1
  simp [owner]

/-- The records of the batches taken, each batch once, are the rows that calls have added exactly
if no two of them, and none of them and an earlier row, have the same row identifier. -/
theorem ingest_exact_iff [DecidableEq ι] {env : Env} (reachable : catalog.Reachable env)
    (toVec : V → Option (List UInt8)) (sink : RockLakeSink) (tableId : Nat)
    (feed : ι → IngestBatch V) (calls : List (Submission ι)) :
    let taken := sink.accepted toVec feed (sink.storedOffset catalog) calls
    let records := taken.dedup.flatMap fun b => (feed b).rows toVec
    let rowsOf := fun c : Catalog => (c.store.readLatest c.db).listInlinedInserts tableId
    let last := (sink.ingest toVec tableId feed catalog calls).1
    (sink.ingest toVec tableId feed catalog calls).2 = taken ∧
    sink.storedOffset last =
      (taken.getLast?.map fun b => (feed b).nextOffset).or (sink.storedOffset catalog) ∧
    (((rowsOf last).map (·.payload)).Perm ((rowsOf catalog).map (·.payload) ++ records.map Prod.snd) ↔
      ((rowsOf catalog).map (fun row => (row.schemaVersion, row.rowId)) ++
        records.map fun row => (catalog.store.schemaVersion, row.1)).Nodup) := by
  intro taken records rowsOf last
  have valid := reachable.valid
  obtain ⟨batches, ingested⟩ : _ ∧ Ingested toVec sink tableId feed taken catalog last :=
    ingest_spec valid calls
  refine ⟨batches, ingested.offset, ?_⟩
  have sound := ingested.perm_iff valid
  have apart : Function.Injective fun id : Nat × Nat => keyInlinedInsert tableId id.1 id.2 := by
    rintro ⟨version, rowId⟩ ⟨version', rowId'⟩ same
    simpa [keyInlinedInsert] using same
  have keys : (shownRows catalog tableId ++
        claims toVec tableId catalog.store.schemaVersion feed taken).map Prod.fst =
      ((rowsOf catalog).map (fun row => (row.schemaVersion, row.rowId)) ++
        records.map fun row => (catalog.store.schemaVersion, row.1)).map
          fun id => keyInlinedInsert tableId id.1 id.2 := by
    rw [map_append, shownRows_keys valid, claims_keys, ← map_append]
  rw [keys, nodup_map_iff apart] at sound
  simp only [shownRows, claims, map_map, map_append] at sound
  exact sound

/-- Batches of one record with consecutive offsets, the first submitted twice. -/
theorem ingest_exact_retry : ∃ (catalog last : Catalog) (feed : Bool → IngestBatch UInt8),
    catalog.Reachable Env.trivial ∧
    RockLakeSink.ingest (fun value => some [value]) ⟨"app.feed.offset"⟩ 2 feed catalog
      [⟨false, "", none⟩, ⟨false, "", none⟩, ⟨true, "", none⟩] = (last, [false, true]) ∧
    (((last.store.readLatest last.db).listInlinedInserts 2).map (·.payload)).Perm [[1], [4]] := by
  have reachable : Catalog.Reachable Env.trivial _ :=
    .session (.opened "a" rfl) Catalog.createOrders rfl
  refine ⟨_, _, fun late => if late then ⟨[⟨"d", 4⟩], some "1", "2", none⟩ else ⟨[⟨"a", 1⟩], none, "1", none⟩,
    reachable, rfl, ?_⟩
  refine (ingest_exact_iff reachable (fun value => some [value]) ⟨"app.feed.offset"⟩ 2
    (fun late => if late then ⟨[⟨"d", 4⟩], some "1", "2", none⟩ else ⟨[⟨"a", 1⟩], none, "1", none⟩)
    [⟨false, "", none⟩, ⟨false, "", none⟩, ⟨true, "", none⟩]).2.2.mpr ?_
  decide +kernel

/-- A batch of two records after a batch of three: the second takes over two identifiers of the
first, `2 * 3` and `3 * 2`, and two of the five committed records are gone. -/
theorem ingest_overwrites : ∃ (catalog last : Catalog) (sink : RockLakeSink)
    (feed : Bool → IngestBatch UInt8) (calls : List (Submission Bool)),
    catalog.Reachable Env.trivial ∧ RockLakeSink.new "app.feed.offset" = .ok sink ∧
    (catalog.store.readLatest catalog.db).listInlinedInserts 2 = [] ∧
    sink.ingest (fun value => some [value]) 2 feed catalog calls = (last, [false, true]) ∧
    (feed false).records.map (·.value) = [1, 2, 3] ∧ (feed true).records.map (·.value) = [4, 5] ∧
    (feed true).expectedCurrentOffset = some (feed false).nextOffset ∧
    ((last.store.readLatest last.db).listInlinedInserts 2).map (·.payload) = [[4], [5], [3]] :=
  ⟨_, _, ⟨"app.feed.offset"⟩, fun
    | false => ⟨[⟨"a", 1⟩, ⟨"b", 2⟩, ⟨"c", 3⟩], none, "2", none⟩
    | true => ⟨[⟨"d", 4⟩, ⟨"e", 5⟩], some "2", "3", none⟩, [⟨false, "", none⟩, ⟨true, "", none⟩],
    .session (.opened "a" rfl) Catalog.createOrders rfl, rfl, rfl, rfl, rfl, rfl, rfl, rfl⟩

end RockLakeSink

end RockLake
