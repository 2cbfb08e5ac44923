import RockLake.Catalog.Extension
import RockLake.Catalog.Frame

/-! Retention. Snapshots below the floor `retain-from` may not be read any more. Garbage collection
moves the floor up, in one transaction that also reads what holds it back: pinned snapshots, until
they are unpinned, and leases, until they expire or are released. -/
namespace RockLake

open List Db

/-- A proposed collection. The snapshots affected are counted before pins lower the proposal. -/
structure GcPlan where
  currentRetainFrom : Nat
  proposedRetainFrom : Nat
  snapshotsAffected : Nat
  pinnedSnapshots : List Nat
  deriving DecidableEq

structure GcApplyResult where
  previousRetainFrom : Nat
  newRetainFrom : Nat
  snapshotsHidden : Nat
  deriving DecidableEq

/-- What the time library does with the times of the clock: their texts, and the time some days before,
unless that is out of its range. -/
structure Chrono (Time : Type) where
  toRfc3339 : Time → String
  minusDays : Time → Int → Option Time

/-- The texts of times are in the order of the times, as those of the years with four digits are. -/
def Chrono.Ordered [LT Time] (chrono : Chrono Time) : Prop :=
  ∀ time time', chrono.toRfc3339 time < chrono.toRfc3339 time' ↔ time < time'

/-- The days are cast to a signed number: from `2 ^ 63` on they lie ahead. -/
def Chrono.cutoffTime (chrono : Chrono Time) (now : Time) (retentionDays : Nat) : Option Time :=
  chrono.minusDays now (BitVec.ofNat 64 retentionDays).toInt

section Operations

variable (db : Db)

def readRetainFrom : Nat := (db.get .retainFrom keySystem).getD 0

def pinSnapshot (snapshotId : Nat) : Db :=
  db.put ⟨.pinnedSnapshot, keyPinnedSnapshot snapshotId, snapshotId⟩

def unpinSnapshot (snapshotId : Nat) : Db :=
  db.delete .pinnedSnapshot (keyPinnedSnapshot snapshotId)

def readPinnedSnapshots : List Nat := (db.scanPrefix .pinnedSnapshot []).map Prod.snd

def leaseWords (consumerId : String) : Key := utf8Length consumerId :: textWords consumerId

def keySnapshotLease (consumerId : String) : Except CatalogError Key :=
  (validateIdentifierLen consumerId).map fun _ => leaseWords consumerId

def leaseExpiry (nowMs ttlSeconds : Nat) : Except CatalogError Nat :=
  let ttlMs := ttlSeconds * 1000
  if ttlMs > u64Max then
    .error (.invalidInput s!"lease TTL overflow: {ttlSeconds} * 1000 exceeds u64::MAX")
  else if nowMs + ttlMs > u64Max then
    .error (.invalidInput s!"lease expiry overflow: {nowMs} + {ttlMs} exceeds u64::MAX")
  else .ok (nowMs + ttlMs)

/-- A lease replaces the one the consumer already holds. The floor is not looked at. -/
def holdSnapshot (nowMs : Nat) (consumerId : String) (minSnapshotId ttlSeconds : Nat) :
    Except CatalogError (SnapshotLeaseRow × Db) := do
  let expiresAtUnixMs ← leaseExpiry nowMs ttlSeconds
  let row : SnapshotLeaseRow := { consumerId, minSnapshotId, expiresAtUnixMs }
  let key ← keySnapshotLease consumerId
  .ok (row, db.put ⟨.snapshotLease, key, row⟩)

def releaseSnapshot (consumerId : String) : Except CatalogError (Bool × Db) :=
  (keySnapshotLease consumerId).map fun key =>
    ((db.get .snapshotLease key).isSome, db.delete .snapshotLease key)

/-- One step of the scan for the smallest leased snapshot; expired leases are passed over. -/
def takeLease (nowMs : Nat) (minSnapshot : Option Nat) (lease : SnapshotLeaseRow) : Option Nat :=
  if lease.expiresAtUnixMs > nowMs then
    some (match minSnapshot with
      | none => lease.minSnapshotId
      | some current => min current lease.minSnapshotId)
  else minSnapshot

def minimumLeasedSnapshot (nowMs : Nat) : Option Nat :=
  ((db.scanPrefix .snapshotLease []).map Prod.snd).foldl (takeLease nowMs) none

def checkPins (newRetainFrom : Nat) : Except CatalogError Unit :=
  match (readPinnedSnapshots db).min? with
  | some minPin =>
    if newRetainFrom ≥ minPin then .error (.pinnedSnapshotBlocks minPin newRetainFrom) else .ok ()
  | none => .ok ()

def checkLeases (newRetainFrom nowMs : Nat) : Except CatalogError Unit :=
  match minimumLeasedSnapshot db nowMs with
  | some minLeased =>
    if newRetainFrom > minLeased then .error (.pinnedSnapshotBlocks minLeased newRetainFrom)
    else .ok ()
  | none => .ok ()

/-- The reads of one collection transaction, with the answer and the writes it goes on to commit.
A target at or below the floor is answered at once. -/
def gcAttempt (newRetainFrom nowMs : Nat) : Except CatalogError (GcApplyResult × List Write) :=
  let current := readRetainFrom db
  if newRetainFrom ≤ current then .ok (⟨current, current, 0⟩, [])
  else do
    checkPins db newRetainFrom
    checkLeases db newRetainFrom nowMs
    .ok (⟨current, newRetainFrom, newRetainFrom - current⟩,
      [⟨.retainFrom, keySystem, newRetainFrom⟩])

/-- A collection whose transaction commits without a conflict. -/
def gcApply (newRetainFrom nowMs : Nat) : Except CatalogError (GcApplyResult × Db) :=
  (gcAttempt db newRetainFrom nowMs).map fun (result, writes) => (result, db.putAll writes)

def readLatestSnapshotId : Nat :=
  match db.get .counter (keyCounter counterNextSnapshotId) with
  | none => 0
  | some next => if next > 0 then next - 1 else 0

/-- The largest of the snapshots that were taken before a time. Times are compared as texts. -/
def findSnapshotBeforeTime (cutoffTime : String) (maxSnapshot : Nat) : Nat :=
  ((db.scanPrefix .snapshot []).map Prod.snd).foldl (fun lastBeforeCutoff row =>
    if row.snapshotId ≤ maxSnapshot ∧ row.snapshotTime < cutoffTime ∧
        row.snapshotId > lastBeforeCutoff then
      row.snapshotId
    else lastBeforeCutoff) 0

/-- Zero days retain everything. Leases are not looked at. A cutoff out of range is a panic. -/
def gcPlan (chrono : Chrono Time) (now : Time) (retentionDays : Nat) : Option GcPlan :=
  let currentRetainFrom := readRetainFrom db
  let latestSnapshotId := readLatestSnapshotId db
  let planned :=
    if retentionDays = 0 then some currentRetainFrom
    else (chrono.cutoffTime now retentionDays).map fun cutoffTime =>
      findSnapshotBeforeTime db (chrono.toRfc3339 cutoffTime) latestSnapshotId
  planned.map fun proposedRetainFrom =>
    let pinnedSnapshots := readPinnedSnapshots db
    let effectiveProposed :=
      match pinnedSnapshots.min? with
      | some minPin => if proposedRetainFrom ≥ minPin then minPin - 1 else proposedRetainFrom
      | none => proposedRetainFrom
    { currentRetainFrom, proposedRetainFrom := effectiveProposed
      snapshotsAffected := proposedRetainFrom - currentRetainFrom, pinnedSnapshots }

end Operations

/-- No pin and no lease that is live at the given time holds back a floor. -/
structure Db.Unheld (db : Db) (newRetainFrom nowMs : Nat) : Prop where
  pinned : ∀ k snapshotId, db.get .pinnedSnapshot k = some snapshotId → newRetainFrom < snapshotId
  leased : ∀ k lease, db.get .snapshotLease k = some lease → nowMs < lease.expiresAtUnixMs →
    newRetainFrom ≤ lease.minSnapshotId

variable {db db' : Db} {newRetainFrom nowMs : Nat}

theorem leaseWords_injective : Function.Injective leaseWords := by
  intro left right same
  have words : left.toList.map Char.toNat = right.toList.map Char.toNat :=
    (List.cons.inj same).2
  have toNat_injective : Function.Injective Char.toNat := fun a b equal => Char.toNat_inj.mp equal
  exact String.toList_inj.mp (map_injective_iff.mpr toNat_injective words)

theorem Db.Unheld.mono (le : lower ≤ newRetainFrom) (free : db.Unheld newRetainFrom nowMs) :
    db.Unheld lower nowMs :=
  ⟨fun k id found => le.trans_lt (free.pinned k id found),
    fun k lease found live => le.trans (free.leased k lease found live)⟩

theorem Db.Unheld.congr (pins : db' .pinnedSnapshot = db .pinnedSnapshot)
    (leases : db' .snapshotLease = db .snapshotLease) (free : db'.Unheld newRetainFrom nowMs) :
    db.Unheld newRetainFrom nowMs :=
  ⟨fun k id found => free.pinned k id ((get_of_family pins k).trans found),
    fun k lease found => free.leased k lease ((get_of_family leases k).trans found)⟩

theorem Db.mem_scan :
    e ∈ db.scanPrefix f [] ↔ db.get f e.1 = some e.2 := by
  simp [mem_scanPrefix]

theorem mem_readPinnedSnapshots :
    snapshotId ∈ readPinnedSnapshots db ↔ ∃ k, db.get .pinnedSnapshot k = some snapshotId := by
  simp only [readPinnedSnapshots, mem_map]
  constructor
  · rintro ⟨⟨k, id⟩, scanned, rfl⟩
    exact ⟨k, mem_scan.mp scanned⟩
  · rintro ⟨k, found⟩
    exact ⟨(k, snapshotId), mem_scan.mpr found, rfl⟩

theorem checkPins_ok : checkPins db newRetainFrom = .ok () ↔
    ∀ k snapshotId, db.get .pinnedSnapshot k = some snapshotId → newRetainFrom < snapshotId := by
  have pins : (∀ k snapshotId, db.get .pinnedSnapshot k = some snapshotId →
      newRetainFrom < snapshotId) ↔ ∀ id ∈ readPinnedSnapshots db, newRetainFrom < id := by
    simp only [mem_readPinnedSnapshots, forall_exists_index]
    exact forall_comm
  rw [pins, checkPins]
  split
  · rename_i minPin smallest
    rw [min?_eq_some_iff] at smallest
    split
    · rename_i blocked
      simp only [reduceCtorEq, false_iff, not_forall]
      exact ⟨minPin, smallest.1, by omega⟩
    · rename_i free
      simp only [true_iff]
      intro id member
      have above := smallest.2 id member
      omega
  · rename_i none
    rw [min?_eq_none_iff] at none
    simp [none]

/-- A floor is at most the smallest leased snapshot, if there is one. -/
def AtMost (newRetainFrom : Nat) (minSnapshot : Option Nat) : Prop :=
  ∀ leased, minSnapshot = some leased → newRetainFrom ≤ leased

theorem atMost_takeLease :
    AtMost newRetainFrom (takeLease nowMs minSnapshot lease) ↔ AtMost newRetainFrom minSnapshot ∧
      (nowMs < lease.expiresAtUnixMs → newRetainFrom ≤ lease.minSnapshotId) := by
  simp only [AtMost, takeLease]
  by_cases live : lease.expiresAtUnixMs > nowMs
  · cases minSnapshot with
    | none | some => simp [live]
  · simp [live]

theorem atMost_scan {leases : List SnapshotLeaseRow} :
    AtMost newRetainFrom (leases.foldl (takeLease nowMs) minSnapshot) ↔
      AtMost newRetainFrom minSnapshot ∧ ∀ lease ∈ leases, nowMs < lease.expiresAtUnixMs →
        newRetainFrom ≤ lease.minSnapshotId := by
  induction leases generalizing minSnapshot with
  | nil => simp
  | cons lease rest ih =>
    rw [foldl_cons, ih, atMost_takeLease, forall_mem_cons, and_assoc]

theorem checkLeases_ok : checkLeases db newRetainFrom nowMs = .ok () ↔
    ∀ k lease, db.get .snapshotLease k = some lease → nowMs < lease.expiresAtUnixMs →
      newRetainFrom ≤ lease.minSnapshotId := by
  have passed : checkLeases db newRetainFrom nowMs = .ok () ↔
      AtMost newRetainFrom (minimumLeasedSnapshot db nowMs) := by
    simp only [checkLeases, AtMost]
    split
    · rename_i minLeased smallest
      split
      · simp [smallest]
        omega
      · simp [smallest]
        omega
    · rename_i none
      simp [none]
  rw [passed, minimumLeasedSnapshot, atMost_scan]
  constructor
  · rintro ⟨_, all⟩ k lease found live
    exact all lease (mem_map.mpr ⟨(k, lease), mem_scan.mpr found, rfl⟩) live
  · intro all
    refine ⟨nofun, fun lease member live => ?_⟩
    obtain ⟨⟨k, row⟩, scanned, rfl⟩ := mem_map.mp member
    exact all k row (mem_scan.mp scanned) live

/-- A collection transaction either finds the floor high enough already, or nothing holding back
the new one. -/
theorem gcAttempt_ok :
    gcAttempt db newRetainFrom nowMs = .ok (result, writes) ↔
      (newRetainFrom ≤ readRetainFrom db ∧
        result = ⟨readRetainFrom db, readRetainFrom db, 0⟩ ∧ writes = []) ∨
      (readRetainFrom db < newRetainFrom ∧ db.Unheld newRetainFrom nowMs ∧
        result = ⟨readRetainFrom db, newRetainFrom, newRetainFrom - readRetainFrom db⟩ ∧
        writes = [⟨.retainFrom, keySystem, newRetainFrom⟩]) := by
  have unheld : db.Unheld newRetainFrom nowMs ↔ checkPins db newRetainFrom = .ok () ∧
      checkLeases db newRetainFrom nowMs = .ok () := by
    rw [checkPins_ok, checkLeases_ok]
    exact ⟨fun free => ⟨free.pinned, free.leased⟩, fun free => ⟨free.1, free.2⟩⟩
  rw [unheld]
  simp only [gcAttempt]
  by_cases low : newRetainFrom ≤ readRetainFrom db
  · simp [low, Nat.not_lt.mpr low, eq_comm]
  cases pins : checkPins db newRetainFrom with
  | error e => simp [low, bind, Except.bind]
  | ok u =>
    cases leases : checkLeases db newRetainFrom nowMs with
    | error e => simp [low, bind, Except.bind]
    | ok v => simp [low, Nat.lt_of_not_le low, bind, Except.bind, eq_comm]

theorem readRetainFrom_congr (same : db' .retainFrom = db .retainFrom) :
    readRetainFrom db' = readRetainFrom db := by
  rw [readRetainFrom, readRetainFrom, get_of_family same]

/-- A collection that goes through leaves the larger of the floor and the target, and it advances
the floor only past what is not held. -/
theorem gcApply_ok (applied : gcApply db newRetainFrom nowMs = .ok (result, db')) :
    readRetainFrom db' = max (readRetainFrom db) newRetainFrom ∧
      (∀ f, f ≠ .retainFrom → db' f = db f) ∧
      (readRetainFrom db < newRetainFrom → db.Unheld newRetainFrom nowMs) := by
  obtain ⟨⟨result', writes⟩, attempted, same⟩ := CatalogWriter.map_ok.mp applied
  obtain ⟨rfl, rfl⟩ := Prod.mk.inj same
  rcases gcAttempt_ok.mp attempted with ⟨low, _, rfl⟩ | ⟨high, free, _, rfl⟩
  · exact ⟨(max_eq_left low).symm, fun _ _ => rfl, fun high => absurd high (not_lt.mpr low)⟩
  · refine ⟨?_, fun f other => db.put_family _ other, fun _ => free⟩
    rw [max_eq_right high.le, readRetainFrom]
    exact congrArg (Option.getD · 0) (get_put_same (f := .retainFrom) db keySystem newRetainFrom)

/-- A collection is refused exactly when it would advance the floor past what is held. -/
theorem gcApply_refused : (∃ e, gcApply db newRetainFrom nowMs = .error e) ↔
    readRetainFrom db < newRetainFrom ∧ ¬ db.Unheld newRetainFrom nowMs := by
  cases attempted : gcAttempt db newRetainFrom nowMs with
  | error e =>
    simp only [gcApply, attempted, Except.map, Except.error.injEq, exists_eq', true_iff]
    by_contra passes
    rw [not_and_or, not_lt, not_not] at passes
    by_cases low : newRetainFrom ≤ readRetainFrom db
    · rw [gcAttempt_ok.mpr (.inl ⟨low, rfl, rfl⟩)] at attempted
      contradiction
    · rw [gcAttempt_ok.mpr (.inr ⟨Nat.lt_of_not_le low, passes.resolve_left low, rfl, rfl⟩)]
        at attempted
      contradiction
  | ok outcome =>
    simp only [gcApply, attempted, Except.map, reduceCtorEq, exists_false, false_iff, not_and,
      not_not]
    intro high
    rcases gcAttempt_ok.mp attempted with ⟨low, _⟩ | ⟨_, free, _⟩
    · exact absurd high (not_lt.mpr low)
    · exact free

theorem findSnapshotBeforeTime_le_iff (db : Db) (cutoffTime : String) (maxSnapshot id : Nat) :
    findSnapshotBeforeTime db cutoffTime maxSnapshot ≤ id ↔
      ∀ k row, db.get .snapshot k = some row → row.snapshotId ≤ maxSnapshot →
        row.snapshotTime < cutoffTime → row.snapshotId ≤ id := by
  -- the accumulator only grows, up to the largest snapshot before the cutoff
  have scan : ∀ (rows : List SnapshotRow) (last : Nat),
      rows.foldl (fun lastBeforeCutoff row =>
        if row.snapshotId ≤ maxSnapshot ∧ row.snapshotTime < cutoffTime ∧ row.snapshotId >
            lastBeforeCutoff then row.snapshotId else lastBeforeCutoff) last ≤ id ↔
      last ≤ id ∧ ∀ row ∈ rows, row.snapshotId ≤ maxSnapshot → row.snapshotTime < cutoffTime →
        row.snapshotId ≤ id := by
    intro rows
    induction rows with
    | nil => simp
    | cons row rows ih =>
      intro last
      rw [foldl_cons, ih, forall_mem_cons]
      refine Iff.trans (and_congr_left' ?_) and_assoc
      split
      · rename_i before
        constructor
        · intro low
          exact ⟨by omega, fun _ _ => low⟩
        · rintro ⟨_, low⟩
          exact low before.1 before.2.1
      · rename_i after
        refine ⟨fun low => ⟨low, fun below earlier => ?_⟩, And.left⟩
        by_contra high
        exact after ⟨below, earlier, by omega⟩
  rw [findSnapshotBeforeTime, scan, forall_mem_map]
  simp only [Nat.zero_le, true_and, Prod.forall]
  exact forall₂_congr fun k row => imp_congr_left mem_scan

/-- No snapshot that counts as old comes after the given one. Zero days keep the floor. -/
def Db.OlderBelow (db : Db) (retentionDays : Nat) (old : SnapshotRow → Prop) (id : Nat) : Prop :=
  if retentionDays = 0 then readRetainFrom db ≤ id
  else ∀ k row, db.get .snapshot k = some row → row.snapshotId ≤ readLatestSnapshotId db →
    old row → row.snapshotId ≤ id

section Plans

variable {Time : Type} {chrono : Chrono Time} {now cutoff : Time} {retentionDays : Nat} {plan : GcPlan}

/-- A plan does not pass a snapshot exactly if no old one comes after it, or a pin holds it back. -/
theorem gcPlan_le_iff (cut : chrono.cutoffTime now retentionDays = some cutoff)
    (planned : gcPlan db chrono now retentionDays = some plan) (id : Nat) :
    plan.proposedRetainFrom ≤ id ↔
      db.OlderBelow retentionDays (·.snapshotTime < chrono.toRfc3339 cutoff) id ∨
        ∃ k pin, db.get .pinnedSnapshot k = some pin ∧ pin ≤ id + 1 := by
  have pins : (∃ k pin, db.get .pinnedSnapshot k = some pin ∧ pin ≤ id + 1) ↔
      ∃ pin ∈ readPinnedSnapshots db, pin ≤ id + 1 := by
    simp only [mem_readPinnedSnapshots, ← exists_and_right]
    exact exists_comm
  simp only [gcPlan, cut, Option.map_some, ← apply_ite some, Option.some.injEq] at planned
  have older : db.OlderBelow retentionDays (·.snapshotTime < chrono.toRfc3339 cutoff) id ↔
      (if retentionDays = 0 then readRetainFrom db
        else findSnapshotBeforeTime db (chrono.toRfc3339 cutoff) (readLatestSnapshotId db)) ≤ id := by
    rw [Db.OlderBelow]
    split
    · rfl
    · rw [findSnapshotBeforeTime_le_iff]
  rw [pins, older, ← planned]
  generalize (if retentionDays = 0 then _ else _) = proposed
  cases smallest : (readPinnedSnapshots db).min? with
  | none =>
    rw [min?_eq_none_iff] at smallest
    simp [smallest]
  | some minPin =>
    obtain ⟨member, least⟩ := min?_eq_some_iff.mp smallest
    have lowest : (∃ pin ∈ readPinnedSnapshots db, pin ≤ id + 1) ↔ minPin ≤ id + 1 :=
      ⟨fun ⟨pin, pinned, low⟩ => (least pin pinned).trans low, fun low => ⟨minPin, member, low⟩⟩
    rw [lowest]
    dsimp only
    split <;> omega

/-- Plans keep the snapshots from the cutoff on exactly if each of them comes after all older ones, or a
pin holds the proposal back. -/
theorem gcPlan_keeps_recent_iff [LT Time] (ordered : chrono.Ordered)
    (cut : chrono.cutoffTime now retentionDays = some cutoff)
    (planned : gcPlan db chrono now retentionDays = some plan) {time : SnapshotRow → Time}
    (recorded : ∀ k row, db.get .snapshot k = some row →
      row.snapshotTime = chrono.toRfc3339 (time row)) :
    (∀ k row, db.get .snapshot k = some row → ¬ time row < cutoff →
      plan.proposedRetainFrom ≤ row.snapshotId) ↔
    ∀ k row, db.get .snapshot k = some row → ¬ time row < cutoff →
      db.OlderBelow retentionDays (time · < cutoff) row.snapshotId ∨
        ∃ k pin, db.get .pinnedSnapshot k = some pin ∧ pin ≤ row.snapshotId + 1 := by
  have times : ∀ id, db.OlderBelow retentionDays (time · < cutoff) id ↔
      db.OlderBelow retentionDays (·.snapshotTime < chrono.toRfc3339 cutoff) id := by
    intro id
    simp only [Db.OlderBelow]
    split
    · rfl
    · refine forall₃_congr fun k row found => ?_
      rw [recorded k row found, ordered]
  refine forall₄_congr fun k row _ _ => ?_
  rw [times, gcPlan_le_iff cut planned]

end Plans

theorem holdSnapshot_ok
    (held : holdSnapshot db nowMs consumerId minSnapshotId ttlSeconds = .ok (row, db')) :
    row = ⟨consumerId, minSnapshotId, nowMs + ttlSeconds * 1000⟩ ∧
      db' = db.put ⟨.snapshotLease, leaseWords consumerId, row⟩ := by
  obtain ⟨expiry, accepted, rest⟩ := bind_ok.mp held
  obtain ⟨key, named, done⟩ := bind_ok.mp rest
  obtain ⟨_, _, rfl⟩ := CatalogWriter.map_ok.mp named
  cases done
  simp only [leaseExpiry] at accepted
  split at accepted
  · contradiction
  · split at accepted
    · contradiction
    · cases accepted
      exact ⟨rfl, rfl⟩

theorem releaseSnapshot_ok (released : releaseSnapshot db consumerId = .ok (existed, db')) :
    db' = db.delete .snapshotLease (leaseWords consumerId) := by
  obtain ⟨key, named, same⟩ := CatalogWriter.map_ok.mp released
  obtain ⟨_, rfl⟩ := Prod.mk.inj same
  obtain ⟨_, _, rfl⟩ := CatalogWriter.map_ok.mp named
  rfl

end RockLake
