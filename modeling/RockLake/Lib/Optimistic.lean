import Mathlib.Logic.Function.Basic

/-! Optimistic transactions over a shared store. A transaction keeps the store as it was when it
began and notices writes that touch what it reads. A relation that unnoticed writes keep between
that view and the store holds until such a write is noticed, hence whenever a transaction that has
noticed nothing commits. -/

structure OptimisticTransaction (S A : Type) where
  argument : A
  view : S
  conflicted : Bool

/-- A store with the transactions running on it. -/
structure OptimisticStore (S A : Type) where
  store : S
  running : Nat → Option (OptimisticTransaction S A)

namespace OptimisticStore

variable {S A : Type} (s : OptimisticStore S A)

def idle (store : S) : OptimisticStore S A := ⟨store, fun _ => none⟩

/-- A transaction starts, or starts over, from the store as it is. -/
def begin (i : Nat) (argument : A) : OptimisticStore S A :=
  { s with running := Function.update s.running i (some ⟨argument, s.store, false⟩) }

def finish (i : Nat) : OptimisticStore S A :=
  { s with running := Function.update s.running i none }

def write (store : S) (noticed : Bool) : OptimisticStore S A :=
  ⟨store, fun i => (s.running i).map fun tx => { tx with conflicted := tx.conflicted || noticed }⟩

def writeTo (store : S) (noticed : Nat → Bool) : OptimisticStore S A :=
  ⟨store, fun i => (s.running i).map fun tx => { tx with conflicted := tx.conflicted || noticed i }⟩

/-- Every transaction that has noticed nothing still stands in the relation of its argument to the
store. -/
def TracksEach (rel : A → S → S → Prop) : Prop :=
  ∀ i tx, s.running i = some tx → tx.conflicted = false → rel tx.argument tx.view s.store

/-- Every transaction that has noticed nothing still stands in the relation to the store. -/
def Tracks (rel : S → S → Prop) : Prop :=
  ∀ i tx, s.running i = some tx → tx.conflicted = false → rel tx.view s.store

variable {s}

section Each

variable {rel : A → S → S → Prop}

theorem tracksEach_idle (store : S) : (idle store : OptimisticStore S A).TracksEach rel := by
  intro i tx found
  contradiction

theorem TracksEach.begin (tracks : s.TracksEach rel) (refl : ∀ a store, rel a store store) (i : Nat)
    (argument : A) : (s.begin i argument).TracksEach rel := by
  intro j tx found unnoticed
  by_cases same : j = i
  · subst same
    simp only [OptimisticStore.begin, Function.update_self, Option.some.injEq] at found
    subst found
    exact refl _ _
  · simp only [OptimisticStore.begin, Function.update_of_ne same] at found
    exact tracks j tx found unnoticed

theorem TracksEach.finish (tracks : s.TracksEach rel) (i : Nat) : (s.finish i).TracksEach rel := by
  intro j tx found unnoticed
  by_cases same : j = i
  · subst same
    simp [OptimisticStore.finish] at found
  · simp only [OptimisticStore.finish, Function.update_of_ne same] at found
    exact tracks j tx found unnoticed

theorem TracksEach.writeTo (tracks : s.TracksEach rel) {store : S}
    (kept : ∀ i tx, s.running i = some tx → noticed i = false → rel tx.argument tx.view s.store → rel tx.argument tx.view store) :
    (s.writeTo store noticed).TracksEach rel := by
  intro i tx found unnoticed
  obtain ⟨before, present, rfl⟩ := Option.map_eq_some_iff.mp found
  simp only [Bool.or_eq_false_iff] at unnoticed
  exact kept i before present unnoticed.2 (tracks i before present unnoticed.1)

end Each

variable {rel : S → S → Prop}

theorem tracks_iff_each : s.Tracks rel ↔ s.TracksEach fun _ => rel := Iff.rfl

theorem tracks_idle (store : S) : (idle store : OptimisticStore S A).Tracks rel :=
  tracks_iff_each.mpr (tracksEach_idle store)

theorem Tracks.begin (tracks : s.Tracks rel) (refl : ∀ store, rel store store) (i : Nat)
    (argument : A) : (s.begin i argument).Tracks rel :=
  tracks_iff_each.mpr ((tracks_iff_each.mp tracks).begin (fun _ => refl) i argument)

theorem Tracks.finish (tracks : s.Tracks rel) (i : Nat) : (s.finish i).Tracks rel :=
  tracks_iff_each.mpr ((tracks_iff_each.mp tracks).finish i)

theorem Tracks.write (tracks : s.Tracks rel) {store : S}
    (kept : noticed = false → ∀ view, rel view s.store → rel view store) :
    (s.write store noticed).Tracks rel :=
  tracks_iff_each.mpr
    ((tracks_iff_each.mp tracks).writeTo fun _ tx _ unnoticed => kept unnoticed tx.view)

theorem Tracks.noticed (tracks : s.Tracks rel) (store : S) : (s.write store true).Tracks rel :=
  tracks.write nofun

end OptimisticStore
