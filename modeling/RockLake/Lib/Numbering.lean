import Mathlib.Data.List.Nodup
import Mathlib.Data.List.Perm.Basic
import RockLake.Lib.Run

/-! Calls that take a number from a counter and file a record under it. The counter is read and written
back in two accesses, so that accesses of other calls can come in between. -/
namespace Numbering

open List hiding after

/-- A store with a counter and records, and how calls of one kind use them. -/
structure Protocol (S Call Key Row : Type) where
  count : S → Nat
  setCount : Nat → S → S
  find : S → Key → Option Row
  file : Key → Row → S → S
  starts : S → Call → Prop
  draw : Call → Nat → Nat
  next : Nat → Nat
  key : Call → Nat → Key
  row : Call → Nat → Row
  count_setCount : ∀ n s, count (setCount n s) = n
  find_setCount : ∀ n s, find (setCount n s) = find s
  count_file : ∀ k row s, count (file k row s) = count s
  find_file : ∀ k row s, find (file k row s) k = some row
  find_file_other : ∀ k row s k', k' ≠ k → find (file k row s) k' = find s k'
  key_apart : ∀ c c' n n', key c n = key c' n' → n = n'

/-- A call with its number, and the numbers of the calls that had returned when it started. -/
structure Numbered (Call : Type) where
  call : Call
  earlier : List Nat
  number : Nat

def Numbered.Later (r : Numbered Call) : Prop := ∀ n ∈ r.earlier, n < r.number

/-- The store, the calls under way by their next access, and the calls that returned. -/
structure State (S Call : Type) where
  store : S
  started : List (Call × List Nat) := []
  drawn : List (Numbered Call) := []
  counted : List (Numbered Call) := []
  returned : List (Numbered Call) := []

inductive Event where
  | start
  | draw (number : Nat)
  | count (number : Nat)
  | file
  | fail
  | elsewhere

variable {S Call Key Row : Type} (protocol : Protocol S Call Key Row)

/-- One access to the store. Other writes leave the counter and the records alone. -/
inductive Step (s : State S Call) : Event → State S Call → Prop
  | start {call} : protocol.starts s.store call →
      Step s .start { s with started := (call, s.returned.map Numbered.number) :: s.started }
  | draw {before call earlier after number} : s.started = before ++ (call, earlier) :: after →
      protocol.draw call (protocol.count s.store) = number → Step s (.draw number)
      { s with started := before ++ after, drawn := ⟨call, earlier, number⟩ :: s.drawn }
  | count {before after} (r) : s.drawn = before ++ r :: after → Step s (.count r.number)
      { s with
        store := protocol.setCount (protocol.next r.number) s.store
        drawn := before ++ after, counted := r :: s.counted }
  | file {before r after} : s.counted = before ++ r :: after → Step s .file
      { s with
        store := protocol.file (protocol.key r.call r.number) (protocol.row r.call r.number) s.store
        counted := before ++ after, returned := r :: s.returned }
  | fail {before r after} : s.drawn = before ++ r :: after → Step s .fail { s with drawn := before ++ after }
  | elsewhere {store} : protocol.count store = protocol.count s.store →
      protocol.find store = protocol.find s.store → Step s .elsewhere { s with store }

/-- The counter is not read while another call is about to write it, and it does not go back. -/
def Undisturbed (s : State S Call) : Event → Prop
  | .draw number => s.drawn = [] ∧ protocol.count s.store ≤ number
  | .count number => protocol.next number = number + 1
  | _ => True

/-- Calls that returned have different numbers, larger than those of calls before them, and their records. -/
structure Recorded (s : State S Call) : Prop where
  apart : (s.returned.map Numbered.number).Nodup
  filed : ∀ r ∈ s.returned,
    protocol.find s.store (protocol.key r.call r.number) = some (protocol.row r.call r.number)
  later : ∀ r ∈ s.returned, r.Later

structure Invariant (s : State S Call) : Prop where
  started : ∀ job ∈ s.started, ∀ n ∈ job.2, n < protocol.count s.store
  alone : s.drawn.length ≤ 1
  drawn : ∀ r ∈ s.drawn, protocol.count s.store ≤ r.number ∧ r.Later
  below : ∀ r ∈ s.counted ++ s.returned, r.number < protocol.count s.store ∧ r.Later
  apart : ((s.counted ++ s.returned).map Numbered.number).Nodup
  filed : ∀ r ∈ s.returned,
    protocol.find s.store (protocol.key r.call r.number) = some (protocol.row r.call r.number)

variable {protocol} {s : State S Call}

section

variable (inv : Invariant protocol s)
include inv

theorem Invariant.draw (found : s.started = before ++ (call, earlier) :: after)
    (free : s.drawn = []) (above : protocol.count s.store ≤ number) : Invariant protocol
      { s with started := before ++ after, drawn := ⟨call, earlier, number⟩ :: s.drawn } := by
  have started := inv.started
  rw [found] at started
  refine ⟨fun job member => ?_, by simp [free], ?_, inv.below, inv.apart, inv.filed⟩
  · exact started job (mem_append.mpr ((mem_append.mp member).imp_right (mem_cons_of_mem _)))
  · rw [free]
    refine forall_mem_singleton.mpr ⟨above, fun n member => Nat.lt_of_lt_of_le ?_ above⟩
    exact started _ (mem_append_right _ mem_cons_self) n member

theorem Invariant.count (found : s.drawn = before ++ r :: after)
    (forward : protocol.next r.number = r.number + 1) : Invariant protocol
      { s with
        store := protocol.setCount (protocol.next r.number) s.store
        drawn := before ++ after, counted := r :: s.counted } := by
  -- the call is the only one about to write, so no other number was drawn from the old counter
  have only := inv.alone
  rw [found, length_append, length_cons] at only
  obtain rfl : before = [] := length_eq_zero_iff.mp (by omega)
  obtain rfl : after = [] := length_eq_zero_iff.mp (by omega)
  obtain ⟨above, later⟩ := inv.drawn r (found ▸ mem_singleton_self r)
  have counter : protocol.count (protocol.setCount (protocol.next r.number) s.store) = r.number + 1 :=
    (protocol.count_setCount _ _).trans forward
  refine ⟨fun job member n earlier => ?_, Nat.zero_le 1, nofun, ?_, ?_, ?_⟩
  · have := inv.started job member n earlier
    rw [counter]
    omega
  · rw [counter]
    refine forall_mem_cons.mpr ⟨⟨Nat.lt_succ_self _, later⟩, fun r' member => ?_⟩
    have := inv.below r' member
    exact ⟨by omega, this.2⟩
  · refine nodup_cons.mpr ⟨fun member => ?_, inv.apart⟩
    obtain ⟨r', member, same⟩ := mem_map.mp member
    have := (inv.below r' member).1
    omega
  · rw [protocol.find_setCount]
    exact inv.filed

theorem Invariant.file (found : s.counted = before ++ r :: after) :
    Invariant protocol
      { s with
        store := protocol.file (protocol.key r.call r.number) (protocol.row r.call r.number) s.store
        counted := before ++ after, returned := r :: s.returned } := by
  have moved : List.Perm (s.counted ++ s.returned) (before ++ after ++ r :: s.returned) := by
    rw [found]
    exact (List.perm_middle.append_right s.returned).trans perm_middle.symm
  have apart := (moved.map Numbered.number).nodup_iff.mp inv.apart
  have fresh : r.number ∉ s.returned.map Numbered.number := by
    rw [map_append, map_cons] at apart
    exact (nodup_cons.mp apart.of_append_right).1
  refine ⟨?_, inv.alone, ?_, fun r' member => ?_, apart, forall_mem_cons.mpr ⟨?_, fun r' old => ?_⟩⟩
  · rw [protocol.count_file]
    exact inv.started
  · rw [protocol.count_file]
    exact inv.drawn
  · rw [protocol.count_file]
    exact inv.below r' (moved.mem_iff.mpr member)
  · exact protocol.find_file _ _ _
  · refine (protocol.find_file_other _ _ _ _ fun same => fresh ?_).trans (inv.filed r' old)
    exact mem_map.mpr ⟨r', old, protocol.key_apart _ _ _ _ same⟩

theorem Invariant.step (stepped : Step protocol s e t)
    (undisturbed : Undisturbed protocol s e) : Invariant protocol t := by
  cases stepped with
  | start starts =>
    refine ⟨forall_mem_cons.mpr ⟨fun n member => ?_, inv.started⟩, inv.alone, inv.drawn, inv.below,
      inv.apart, inv.filed⟩
    obtain ⟨r, old, rfl⟩ := mem_map.mp member
    exact (inv.below r (mem_append_right _ old)).1
  | draw found number => exact inv.draw found undisturbed.1 undisturbed.2
  | count r found => exact inv.count found undisturbed
  | file found => exact inv.file found
  | @fail before r after found =>
    have shorter := (sublist_cons_self r after).append_left before
    rw [← found] at shorter
    exact ⟨inv.started, Nat.le_trans shorter.length_le inv.alone, fun r member => inv.drawn r (shorter.subset member),
      inv.below, inv.apart, inv.filed⟩
  | elsewhere count find =>
    exact ⟨count ▸ inv.started, inv.alone, count ▸ inv.drawn, count ▸ inv.below, inv.apart, find ▸ inv.filed⟩

end

/-- The accesses of a call that is alone meet any condition that a read with no other call about to write
and the writing of its number meet. -/
theorem run_call (meets : State S Call → Event → Prop) (returned : List (Numbered Call))
    (starts : protocol.starts store call)
    (number : protocol.draw call (protocol.count store) = n)
    (met : ∀ s e, (∀ m, e = .draw m → s.drawn = [] ∧ s.store = store) →
      (∀ m, e = .count m → m = n) → meets s e) :
    Run (fun s e t => Step protocol s e t ∧ meets s e) { store, returned }
      [.start, .draw n, .count n, .file]
      { store := protocol.file (protocol.key call n) (protocol.row call n)
          (protocol.setCount (protocol.next n) store)
        returned := ⟨call, returned.map Numbered.number, n⟩ :: returned } := by
  refine .next ⟨.start starts, met _ _ nofun nofun⟩ ?_
  refine .next ⟨.draw (nil_append _).symm number, met _ _ (fun _ _ => ⟨rfl, rfl⟩) nofun⟩ ?_
  refine .next ⟨.count ⟨call, _, n⟩ (nil_append _).symm, met _ _ nofun fun | _, rfl => rfl⟩ ?_
  refine .next ⟨.file (nil_append _).symm, met _ _ nofun nofun⟩ ?_
  exact .done

/-- Two calls that both read the counter before one of them writes it. -/
theorem run_race (first : protocol.starts store a) (second : protocol.starts store b)
    (number : protocol.draw a (protocol.count store) = n)
    (number' : protocol.draw b (protocol.count store) = n) :
    Run (Step protocol) { store }
      [.start, .start, .draw n, .draw n, .count n, .file, .count n, .file]
      { store := protocol.file (protocol.key b n) (protocol.row b n) (protocol.setCount (protocol.next n)
          (protocol.file (protocol.key a n) (protocol.row a n) (protocol.setCount (protocol.next n) store)))
        returned := [⟨b, [], n⟩, ⟨a, [], n⟩] } := by
  refine .next (.start first) (.next (.start second) ?_)
  refine .next (.draw (nil_append _).symm number') ?_
  refine .next (.draw (nil_append _).symm number) ?_
  refine .next (.count ⟨a, [], n⟩ (nil_append _).symm) ?_
  refine .next (.file (nil_append _).symm) ?_
  refine .next (.count ⟨b, [], n⟩ (nil_append _).symm) ?_
  refine .next (.file (nil_append _).symm) ?_
  exact .done

/-- If the counter is not read while another call is about to write it, numbers are given out once. -/
theorem recorded_of_run
    (ran : Run (fun s e t => Step protocol s e t ∧ Undisturbed protocol s e) { store } events t) :
    Recorded protocol t := by
  have inv : Invariant protocol t := by
    refine ran.invariant _ (fun s e t inv stepped => inv.step stepped.1 stepped.2) ?_
    exact ⟨nofun, Nat.zero_le 1, nofun, nofun, nodup_nil, nofun⟩
  have part := sublist_append_right t.counted t.returned
  exact ⟨inv.apart.sublist (part.map _), inv.filed, fun r member => (inv.below r (part.subset member)).2⟩

end Numbering
