import RockLake.Catalog.Maintenance
import RockLake.PgWire.Executor
import RockLake.Sql.TableChanges

/-! The change feed as a connection asks for it, and what a lease is worth to its consumer. The floor
is looked at three times: as stored, as the store handle caches it, and once more when the changes
are computed. -/
namespace RockLake

open UpkeepCall

/-- Reading a data file: its path, the identifier of its first row and the expected number of rows.
It fails with the message of the object store or of the file reader. -/
abbrev ExtractRows := String → Nat → Option Nat → Except String (List ParquetRowData)

def RockLakeError.ofTableChanges (e : TableChangesError) : RockLakeError :=
  .sqlState e.sqlstate e.message

section Operations

variable (extract : ExtractRows)

def extractFiles (baseRowid : Nat) : List DataFileRow → Except TableChangesError (List ParquetRowData)
  | [] => .ok []
  | file :: rest => do
      let rows ← (extract file.path baseRowid (some file.recordCount)).mapError .storage
      let later ← extractFiles (baseRowid + rows.length) rest
      .ok (rows ++ later)

/-- The files of all tables are taken, whatever table was asked for. -/
def executeTableChanges (hashOrder : List Nat → List Nat) (catalog : Catalog) (tableRef : String)
    (startSnapshot endSnapshot : Nat) : Except RockLakeError TableChangesResult :=
  let retainFrom := readRetainFrom catalog.db
  if startSnapshot < retainFrom ∧ retainFrom > 0 then
    .error (.sqlState "55000"
      s!"snapshot {startSnapshot} has been garbage collected (retain_from={retainFrom})")
  else
    match catalog.store.readAt catalog.db startSnapshot with
    | .error e => .error (.catalog e)
    | .ok fromReader =>
      let diff := fromReader.snapshotDiff startSnapshot endSnapshot
      (do
        let addedRows ← extractFiles extract 0 diff.addedDataFiles
        let removedRows ← extractFiles extract 0 diff.retiredDataFiles
        computeTableChanges hashOrder tableRef startSnapshot endSnapshot retainFrom addedRows
          removedRows).mapError .ofTableChanges

end Operations

def RockLakeError.ofRetention : RockLakeError → Bool
  | .sqlState code _ => code = "55000"
  | .catalog (.snapshotOutOfRetention ..) => true
  | _ => false

section Floor

variable {extract : ExtractRows}

theorem extractFiles_storage (failed : extractFiles extract base files = .error e) :
    ∃ message, e = .storage message := by
  induction files generalizing base with
  | nil => contradiction
  | cons file rest ih =>
    simp only [extractFiles] at failed
    cases read : extract file.path base (some file.recordCount) with
    | error message =>
      rw [read] at failed
      cases failed
      exact ⟨message, rfl⟩
    | ok rows =>
      cases more : extractFiles extract (base + rows.length) rest with
      | error e' =>
        simp only [read, bind, Except.bind, Except.mapError, more] at failed
        cases failed
        exact ih more
      | ok later => simp [read, bind, Except.bind, Except.mapError, more] at failed

/-- The request is rejected for the floor exactly below the stored or the cached one. -/
theorem executeTableChanges_retention :
    (∃ e, executeTableChanges extract hashOrder catalog tableRef startSnapshot endSnapshot = .error e ∧
        e.ofRetention = true) ↔
      startSnapshot < readRetainFrom catalog.db ∨ startSnapshot < catalog.store.retainFromCache := by
  simp only [executeTableChanges]
  by_cases stored : startSnapshot < readRetainFrom catalog.db
  · have some : readRetainFrom catalog.db > 0 := by omega
    simp [stored, some, RockLakeError.ofRetention]
  · simp only [stored, false_and, if_false, false_or, CatalogStore.readAt]
    by_cases cached : startSnapshot < catalog.store.retainFromCache
    · have some : catalog.store.retainFromCache > 0 := by omega
      simp [cached, some, RockLakeError.ofRetention]
    · simp only [cached, decide_false, Bool.and_false, Bool.false_eq_true, if_false, iff_false]
      rintro ⟨e, failed, retention⟩
      generalize (CatalogReader.snapshotDiff _ _ _) = diff at failed
      cases added : extractFiles extract 0 diff.addedDataFiles with
      | error e' =>
        obtain ⟨message, rfl⟩ := extractFiles_storage added
        simp [added, bind, Except.bind, Except.mapError] at failed
        subst failed
        simp [RockLakeError.ofTableChanges, RockLakeError.ofRetention,
          TableChangesError.sqlstate] at retention
      | ok addedRows =>
        cases removed : extractFiles extract 0 diff.retiredDataFiles with
        | error e' =>
          obtain ⟨message, rfl⟩ := extractFiles_storage removed
          simp [added, removed, bind, Except.bind, Except.mapError] at failed
          subst failed
          simp [RockLakeError.ofTableChanges, RockLakeError.ofRetention,
            TableChangesError.sqlstate] at retention
        | ok removedRows =>
          simp [added, removed, bind, Except.bind, Except.mapError, computeTableChanges,
            stored] at failed

end Floor

/-- What may happen while a lease lasts: collections before it expires, and leases of others. -/
def UpkeepCall.Beside (lease : SnapshotLeaseRow) : UpkeepCall → Prop
  | .gcApply _ nowMs => nowMs < lease.expiresAtUnixMs
  | .holdSnapshot _ consumerId _ _ => consumerId ≠ lease.consumerId
  | .releaseSnapshot consumerId => consumerId ≠ lease.consumerId
  | _ => False

def UpkeepCall.StepBeside (lease : SnapshotLeaseRow) (db : Db) (call : UpkeepCall) (db' : Db) : Prop :=
  call.apply db = .ok db' ∧ call.Beside lease

/-- The lease is stored and the floor is not past it. -/
structure Db.Honours (lease : SnapshotLeaseRow) (db : Db) : Prop where
  stored : db.get .snapshotLease (leaseWords lease.consumerId) = some lease
  floor : readRetainFrom db ≤ lease.minSnapshotId

theorem Db.Honours.step (honours : db.Honours lease)
    (stepped : UpkeepCall.StepBeside lease db call db') :
    db'.Honours lease := by
  obtain ⟨applied, beside⟩ := stepped
  have floor := apply_floor applied
  cases call with
  | gcApply newRetainFrom nowMs =>
    have leases := apply_family applied (f := .snapshotLease)
      (by simp [UpkeepCall.touched])
    refine ⟨(Db.get_of_family leases _).trans honours.stored, ?_⟩
    obtain ⟨result, collected⟩ := apply_snd applied
    rw [floor]
    refine Nat.max_le.mpr ⟨honours.floor, ?_⟩
    by_contra past
    -- The collection read the lease, which is live at its clock.
    have free := (gcApply_ok collected).2.2 (honours.floor.trans_lt (Nat.lt_of_not_le past))
    exact past (free.leased _ lease honours.stored beside)
  | holdSnapshot nowMs consumerId minSnapshotId ttlSeconds =>
    obtain ⟨row, held⟩ := apply_snd applied
    refine ⟨?_, floor.le.trans honours.floor⟩
    rw [(holdSnapshot_ok held).2, Db.get_put_key db _ (leaseWords_injective.ne (Ne.symm beside))]
    exact honours.stored
  | releaseSnapshot consumerId =>
    obtain ⟨existed, released⟩ := apply_snd applied
    refine ⟨?_, floor.le.trans honours.floor⟩
    rw [releaseSnapshot_ok released,
      Db.get_delete_key db (leaseWords_injective.ne (Ne.symm beside))]
    exact honours.stored
  | _ => exact beside.elim

namespace Catalog

variable {env : Env} {catalog : Catalog}

/-- A granted lease is honoured until it expires exactly if the floor was not past it already, or
there is no snapshot at or after it, or it expires at once. -/
theorem hold_honoured_iff (maintained : catalog.Maintained env) {nowMs : Nat} {consumerId : String}
    {minSnapshotId ttlSeconds : Nat} {lease : SnapshotLeaseRow} {db : Db}
    (held : holdSnapshot catalog.db nowMs consumerId minSnapshotId ttlSeconds = .ok (lease, db)) :
    (∀ calls db', Run (UpkeepCall.StepBeside lease) db calls db' →
      ∀ queryMs, nowMs ≤ queryMs → queryMs < lease.expiresAtUnixMs →
      ∀ extract hashOrder tableRef startSnapshot endSnapshot, minSnapshotId ≤ startSnapshot →
        startSnapshot ≤ catalog.store.latestSnapshot →
        ¬ ∃ e, executeTableChanges extract hashOrder ⟨db', catalog.store⟩ tableRef startSnapshot
          endSnapshot = .error e ∧ e.ofRetention = true) ↔
      readRetainFrom catalog.db ≤ minSnapshotId ∨ catalog.store.latestSnapshot < minSnapshotId ∨
        ttlSeconds = 0 := by
  obtain ⟨rfl, rfl⟩ := holdSnapshot_ok held
  have unmoved : readRetainFrom (catalog.db.put ⟨.snapshotLease, leaseWords consumerId,
      ⟨consumerId, minSnapshotId, nowMs + ttlSeconds * 1000⟩⟩) = readRetainFrom catalog.db :=
    readRetainFrom_congr (Db.put_family _ _ (by simp))
  simp only [executeTableChanges_retention]
  constructor
  · intro honoured
    by_contra never
    simp only [not_or, not_le, not_lt] at never
    obtain ⟨past, reached, lasts⟩ := never
    have here : nowMs < nowMs + ttlSeconds * 1000 := by omega
    refine honoured [] _ .done nowMs le_rfl here (fun _ _ _ => .ok []) id "" minSnapshotId
      minSnapshotId le_rfl reached (.inl ?_)
    rwa [unmoved]
  · rintro (low | none | instant) calls db' ran queryMs since live extract hashOrder tableRef
      startSnapshot endSnapshot from_ upTo rejected
    · have honours := ran.invariant (Db.Honours ⟨consumerId, minSnapshotId, _⟩)
        (fun _ _ _ before stepped => before.step stepped)
        ⟨Db.get_put_same _ _ _, unmoved.le.trans low⟩
      have floor := honours.floor
      have grew : readRetainFrom catalog.db ≤ readRetainFrom db' := by
        rw [← unmoved]
        exact ran.invariant (fun db => _ ≤ readRetainFrom db)
          (fun _ _ _ le stepped => le.trans
            ((le_raises _ _).trans (apply_floor stepped.1).ge)) le_rfl
      have cached := maintained.tended.cached
      simp only at floor rejected
      omega
    · omega
    · simp only [instant] at live
      omega

/-- A lease on snapshot 1 while everything is retained: a collection up to 1 goes through, another
consumer takes and releases a lease, and the changes since snapshot 1 are not rejected. -/
theorem hold_honoured_collected : ∃ (catalog : Catalog) (lease : SnapshotLeaseRow) (db db' : Db),
    catalog.Maintained Env.trivial ∧ catalog.store.latestSnapshot = 2 ∧
    holdSnapshot catalog.db 0 "feed" 1 60 = .ok (lease, db) ∧
    Run (UpkeepCall.StepBeside lease) db
      [.gcApply 1 5, .holdSnapshot 6 "other" 2 60, .releaseSnapshot "other"] db' ∧
    readRetainFrom db' = 1 ∧
    ¬ ∃ e, executeTableChanges (fun _ _ _ => .ok []) id ⟨db', catalog.store⟩ "t" 1 2 = .error e ∧
      e.ofRetention = true := by
  have maintained : Catalog.Maintained Env.trivial _ :=
    .session (.session (.opened "a" rfl) createMain rfl) dropMain rfl
  refine ⟨_, _, _, _, maintained, rfl, rfl, (fun ran => ⟨ran, ?_, (hold_honoured_iff maintained (rfl
      : holdSnapshot _ 0 "feed" 1 60 = _)).mpr (.inl ?_) _ _ ran 7 ?_ ?_ (fun _ _ _ => .ok []) id
      "t" 1 2 le_rfl ?_⟩) (.next ⟨rfl, ?_⟩ (.next ⟨rfl, ?_⟩ (.next ⟨rfl, ?_⟩ .done)))⟩
  · rfl
  · decide
  · decide
  · decide
  · decide
  · show 5 < 60000
    decide
  · show "other" ≠ "feed"
    decide
  · show "other" ≠ "feed"
    decide

/-- The floor is at 2 when the lease on snapshot 1 is granted, so the consumer is turned away at
once. -/
theorem hold_granted_below_floor : ∃ (catalog : Catalog) (lease : SnapshotLeaseRow) (db : Db),
    catalog.Maintained Env.trivial ∧ catalog.store.latestSnapshot = 2 ∧
    holdSnapshot catalog.db 0 "feed" 1 60 = .ok (lease, db) ∧ lease.expiresAtUnixMs = 60000 ∧
    executeTableChanges (fun _ _ _ => .ok []) id ⟨db, catalog.store⟩ "t" 1 2 =
      .error (.sqlState "55000" "snapshot 1 has been garbage collected (retain_from=2)") :=
  ⟨_, _, _, .upkeep (.session (.session (.opened "a" rfl) createMain rfl) dropMain rfl) (.gcApply 2
    0) rfl, rfl, rfl, rfl, rfl⟩

end Catalog

end RockLake
