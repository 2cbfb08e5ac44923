import RockLake.Catalog.Checkpoint
import RockLake.Catalog.Excision
import RockLake.Lib.Numbering

/-! Checkpoints and audit entries get their numbers from stored counters, without a transaction around the
accesses of a call. -/
namespace RockLake

open Numbering

/-- The counter with the given number, and the records of a family. -/
def protocolOf {Call : Type} (f : Family) (counterId : Nat) (noCounter : f ≠ .counter)
    (starts : Db → Call → Prop) (draw : Call → Nat → Nat) (next : Nat → Nat) (key : Call → Nat → Key)
    (row : Call → Nat → f.Row) (key_apart : ∀ c c' n n', key c n = key c' n' → n = n') :
    Protocol Db Call Key f.Row where
  count db := (db.get .counter (keyCounter counterId)).getD 0
  setCount n db := db.put ⟨.counter, keyCounter counterId, n⟩
  find db := db.get f
  file k row db := db.put ⟨f, k, row⟩
  starts := starts
  draw := draw
  next := next
  key := key
  row := row
  count_setCount _ db := by rw [db.get_put_same, Option.getD_some]
  find_setCount n db := funext (Db.get_of_family (db.put_family _ noCounter))
  count_file k row db := by rw [Db.get_of_family (db.put_family ⟨f, k, row⟩ noCounter.symm)]
  find_file k row db := db.get_put_same k row
  find_file_other k row db _ other := db.get_put_key row other
  key_apart := key_apart

/-- What a call goes by: the clock, the snapshot that it read first, and its label. -/
structure CheckpointCall where
  millis : Nat
  createdAt : String
  snapshotId : Nat
  label : Option String

def checkpoints : Protocol Db CheckpointCall Key CheckpointMetadata :=
  protocolOf .checkpoint counterNextCheckpointId (by decide)
    (fun db call => call.snapshotId = checkpointSnapshot db) (fun call n => max call.millis n) (· + 1)
    (fun _ id => checkpointKey id)
    (fun call id => { id, createdAt := call.createdAt, snapshotId := call.snapshotId, label := call.label })
    fun _ _ _ _ same => List.head_eq_of_cons_eq same

/-- The accesses of `recordAuditEntry`. The number has 32 bits. -/
def auditEntries : Protocol Db ExciseAuditEntry Key ExciseAuditEntry :=
  protocolOf .exciseAudit counterNextExcisionSeq (by decide)
    (fun db entry => readRetainFrom db ≠ 0 ∧ entry.beforeSnapshot ≤ readRetainFrom db)
    (fun _ n => n % 2 ^ 32) (fun seq => (seq + 1) % 2 ^ 32)
    (fun entry seq => exciseAuditKeyWithSeq entry.timestampMillis seq) (fun entry _ => entry)
    fun _ _ _ _ same => List.head_eq_of_cons_eq (List.tail_eq_of_cons_eq same)

/-- The counter is not read while another call is about to write it. -/
def ReadsAlone (s : State Db Call) (e : Event) : Prop := ∀ number, e = .draw number → s.drawn = []

def SequencesAlone (s : State Db ExciseAuditEntry) : Event → Prop
  | .draw _ => s.drawn = [] ∧ auditEntries.count s.store < 2 ^ 32
  | .count seq => seq + 1 < 2 ^ 32
  | _ => True

theorem createCheckpoint_accesses (db : Db) (returned : List (Numbered CheckpointCall)) (millis : Nat)
    (createdAt : String) (label : Option String) :
    let done := createCheckpoint db millis createdAt label
    Run (fun s e t => Step checkpoints s e t ∧ ReadsAlone s e) { store := db, returned }
      [.start, .draw done.1.id, .count done.1.id, .file]
      { store := done.2
        returned := ⟨⟨millis, createdAt, checkpointSnapshot db, label⟩, returned.map Numbered.number,
          done.1.id⟩ :: returned } :=
  @run_call _ _ _ _ checkpoints db ⟨millis, createdAt, checkpointSnapshot db, label⟩ _ ReadsAlone returned
    (Eq.refl (checkpointSnapshot db)) rfl fun _ _ draws _ m same => (draws m same).1

theorem recordAuditEntry_accesses (returned : List (Numbered ExciseAuditEntry))
    (safe : auditEntries.starts db entry)
    (seq : (db.get .counter (keyCounter counterNextExcisionSeq)).getD 0 = n) (low : n + 1 < 2 ^ 32) :
    Run (fun s e t => Step auditEntries s e t ∧ SequencesAlone s e) { store := db, returned }
      [.start, .draw n, .count n, .file]
      { store := recordAuditEntry db entry
        returned := ⟨entry, returned.map Numbered.number, n⟩ :: returned } := by
  have below : n < 2 ^ 32 := Nat.lt_of_succ_lt low
  have number : (db.get .counter (keyCounter counterNextExcisionSeq)).getD 0 % 2 ^ 32 = n := by
    rw [seq, Nat.mod_eq_of_lt below]
  rw [recordAuditEntry, number]
  refine run_call SequencesAlone returned safe number fun s e draws counts => ?_
  cases e with
  | draw m =>
    obtain ⟨free, same⟩ := draws m rfl
    exact ⟨free, same ▸ seq.trans_lt below⟩
  | count m => exact counts m rfl ▸ low
  | _ => trivial

/-- Checkpoints get their own identifiers, and increasing ones if the calls do not overlap, in every
interleaving in which no call reads the counter while another is about to write it. -/
theorem checkpoint_ids_unique
    (ran : Run (fun s e t => Step checkpoints s e t ∧ ReadsAlone s e) { store := db } events s) :
    Recorded checkpoints s := by
  refine recorded_of_run (ran.mono fun s e t ⟨stepped, alone⟩ => ⟨stepped, ?_⟩)
  cases stepped with
  | draw found number =>
    refine ⟨alone _ rfl, ?_⟩
    rw [← number]
    exact Nat.le_max_right _ _
  | count r found => exact rfl
  | _ => trivial

/-- Two calls in the same millisecond, one after the other. -/
theorem checkpoint_ids_unique_twice : ∃ s, Recorded checkpoints s ∧
    s.returned.map (fun r => (r.number, r.call.label)) = [(6, some "b"), (5, some "a")] := by
  have first := createCheckpoint_accesses Db.empty [] 5 "" (some "a")
  have second := createCheckpoint_accesses (createCheckpoint Db.empty 5 "" (some "a")).2
    [⟨⟨5, "", 0, some "a"⟩, [], 5⟩] 5 "" (some "b")
  exact ⟨_, checkpoint_ids_unique (first.append second), rfl⟩

/-- Two calls in the same millisecond that both read the counter first: one checkpoint is lost. -/
theorem checkpoint_overwritten : ∃ s, Run (Step checkpoints) { store := Db.empty }
      [.start, .start, .draw 5, .draw 5, .count 5, .file, .count 5, .file] s ∧
    s.returned.map (fun r => (r.number, r.call.label)) = [(5, some "b"), (5, some "a")] ∧
    s.store.get .checkpoint (checkpointKey 5) = some ⟨5, "", 0, some "b"⟩ :=
  ⟨_, @run_race _ _ _ _ checkpoints Db.empty ⟨5, "", 0, some "a"⟩ ⟨5, "", 0, some "b"⟩ 5
    (Eq.refl 0) (Eq.refl 0) rfl rfl, rfl, rfl⟩

/-- Every excision that succeeded has its own entry in the audit log if, moreover, the sequence number does
not wrap around. -/
theorem audit_log_complete
    (ran : Run (fun s e t => Step auditEntries s e t ∧ SequencesAlone s e) { store := db } events s) :
    Recorded auditEntries s := by
  refine recorded_of_run (ran.mono fun s e t ⟨stepped, alone⟩ => ⟨stepped, ?_⟩)
  cases stepped with
  | draw found number =>
    refine ⟨alone.1, ?_⟩
    rw [← number]
    exact (Nat.mod_eq_of_lt alone.2).ge
  | count r found => exact Nat.mod_eq_of_lt alone
  | _ => trivial

def auditEntry (operator : String) : ExciseAuditEntry := ⟨1000, 1, 0, 0, operator⟩

theorem audit_log_complete_twice : ∃ s, Recorded auditEntries s ∧
    s.returned.map (fun r => (r.number, r.call)) = [(1, auditEntry "b"), (0, auditEntry "a")] := by
  let db := Db.empty.put ⟨.retainFrom, keySystem, 1⟩
  have first := @recordAuditEntry_accesses db (auditEntry "a") 0 [] ⟨by decide, by decide⟩ rfl (by decide)
  have second := @recordAuditEntry_accesses (recordAuditEntry db (auditEntry "a")) (auditEntry "b") 1
    [⟨auditEntry "a", [], 0⟩] ⟨by decide, by decide⟩ rfl (by decide)
  exact ⟨_, audit_log_complete (first.append second), rfl⟩

/-- Two excisions in the same millisecond that both read the sequence number first: one entry is lost. -/
theorem audit_entry_overwritten : ∃ s, Run (Step auditEntries)
      { store := Db.empty.put ⟨.retainFrom, keySystem, 1⟩ }
      [.start, .start, .draw 0, .draw 0, .count 0, .file, .count 0, .file] s ∧
    s.returned.map Numbered.call = [auditEntry "b", auditEntry "a"] ∧
    s.store.scanPrefix .exciseAudit [] = [(exciseAuditKeyWithSeq 1000 0, auditEntry "b")] :=
  ⟨_, @run_race _ _ _ _ auditEntries _ (auditEntry "a") (auditEntry "b") 0 ⟨by decide, by decide⟩
    ⟨by decide, by decide⟩ rfl rfl, rfl, rfl⟩

end RockLake
