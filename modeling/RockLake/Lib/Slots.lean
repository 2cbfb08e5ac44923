import Mathlib.Logic.Function.Basic

/-! A map kept in slots. A slot is empty or holds a name with its value. The slots keep a map if every
name of the map is in one slot, with its value, and no other names are. Writing one slot for one name
keeps the map exactly if the slot and the name had only each other before. -/
namespace Slots

open Function

variable {K N V : Type} {view : K → Option (N × V)} {map : N → Option V} {slot : K} {name : N}

structure Keeps (view : K → Option (N × V)) (map : N → Option V) : Prop where
  sound : ∀ {slot name value}, view slot = some (name, value) → map name = some value
  present : ∀ {name value}, map name = some value → ∃ slot, view slot = some (name, value)
  single : ∀ {slot slot' name value value'}, view slot = some (name, value) →
    view slot' = some (name, value') → slot = slot'

theorem keeps_empty : Keeps (fun _ : K => none) fun _ : N => (none : Option V) :=
  ⟨nofun, nofun, nofun⟩

/-- The name is in no other slot, and the slot has no other name. -/
structure Alone (view : K → Option (N × V)) (slot : K) (name : N) : Prop where
  nowhere : ∀ slot' value, view slot' = some (name, value) → slot' = slot
  nothing : ∀ name' value, view slot = some (name', value) → name' = name

theorem Keeps.alone_of_absent (keeps : Keeps view map) (absent : map name = none)
    (empty : view slot = none) : Alone view slot name := by
  constructor
  · intro slot' value found
    rw [keeps.sound found] at absent
    contradiction
  · intro name' value found
    rw [empty] at found
    contradiction

theorem Keeps.alone_of_holds (keeps : Keeps view map) (holds : view slot = some (name, value)) :
    Alone view slot name := by
  constructor
  · intro slot' value' found
    exact keeps.single found holds
  · intro name' value' found
    cases holds.symm.trans found
    rfl

section Replace

variable [DecidableEq K] [DecidableEq N] {value : Option V}

/-- A name that a slot is overwritten with was alone with it, or the slots do not keep the map. -/
theorem Keeps.alone (keeps : Keeps view map)
    (kept : Keeps (update view slot (value.map (name, ·))) (update map name value)) :
    Alone view slot name := by
  have elsewhere : ∀ {slot' entry}, slot' ≠ slot → view slot' = some entry →
      update view slot (value.map (name, ·)) slot' = some entry := by
    intro slot' entry other found
    rw [update_of_ne other, found]
  constructor
  · intro slot' old found
    by_contra other
    have now := kept.sound (elsewhere other found)
    rw [update_self] at now
    have written : update view slot (value.map (name, ·)) slot = some (name, old) := by
      rw [update_self, now]
      rfl
    exact other (kept.single (elsewhere other found) written)
  · intro name' old found
    by_contra other
    -- the other name is still in the map, so it had a second slot
    have before := keeps.sound found
    have still : update map name value name' = some old := by
      rw [update_of_ne other, before]
    obtain ⟨slot', found'⟩ := kept.present still
    by_cases same : slot' = slot
    · rw [same, update_self] at found'
      cases value with
      | none => contradiction
      | some new =>
        cases found'
        exact other rfl
    · rw [update_of_ne same] at found'
      exact same (keeps.single found' found)

theorem Keeps.replace (keeps : Keeps view map) (alone : Alone view slot name) :
    Keeps (update view slot (value.map (name, ·))) (update map name value) := by
  -- an entry is the one just written, or an old one under another name
  have entries : ∀ {slot' name' old},
      update view slot (value.map (name, ·)) slot' = some (name', old) →
      slot' = slot ∧ name' = name ∧ value = some old ∨
        slot' ≠ slot ∧ name' ≠ name ∧ view slot' = some (name', old) := by
    intro slot' name' old found
    by_cases same : slot' = slot
    · rw [same, update_self, Option.map_eq_some_iff] at found
      obtain ⟨new, written, entry⟩ := found
      cases entry
      exact .inl ⟨same, rfl, written⟩
    · rw [update_of_ne same] at found
      refine .inr ⟨same, ?_, found⟩
      rintro rfl
      exact same (alone.nowhere slot' old found)
  refine ⟨fun found => ?_, fun {name' old} found => ?_, fun found found' => ?_⟩
  · rcases entries found with ⟨_, rfl, written⟩ | ⟨_, other, old⟩
    · rw [update_self, written]
    · rw [update_of_ne other, keeps.sound old]
  · by_cases same : name' = name
    · rw [same, update_self] at found
      exact ⟨slot, by rw [update_self, found, same]; rfl⟩
    · rw [update_of_ne same] at found
      obtain ⟨slot', old⟩ := keeps.present found
      have apart : slot' ≠ slot := by
        rintro rfl
        exact same (alone.nothing _ _ old)
      exact ⟨slot', by rw [update_of_ne apart, old]⟩
  · rcases entries found with ⟨rfl, rfl, _⟩ | ⟨_, other, old⟩
    · rcases entries found' with ⟨rfl, _, _⟩ | ⟨_, other, _⟩
      · rfl
      · exact absurd rfl other
    · rcases entries found' with ⟨_, same, _⟩ | ⟨_, _, old'⟩
      · exact absurd same other
      · exact keeps.single old old'

theorem Keeps.replace_iff (keeps : Keeps view map) :
    Keeps (update view slot (value.map (name, ·))) (update map name value) ↔
      Alone view slot name :=
  ⟨keeps.alone, keeps.replace⟩

end Replace

theorem Keeps.eq_of_le (keeps : Keeps view map) (keeps' : Keeps view' map)
    (le : ∀ slot entry, view slot = some entry → view' slot = some entry) : view' = view := by
  funext slot
  cases found' : view' slot with
  | none =>
    cases found : view slot with
    | none => rfl
    | some entry =>
      have kept := le slot entry found
      rw [found'] at kept
      contradiction
  | some entry =>
    obtain ⟨name, value⟩ := entry
    obtain ⟨slot', found⟩ := keeps.present (keeps'.sound found')
    cases keeps'.single (le slot' _ found) found'
    exact found.symm

theorem Keeps.clear_iff (keeps : Keeps view map) [DecidablePred emptied] [DecidablePred gone] :
    Keeps (fun slot => if emptied slot then none else view slot)
        (fun name => if gone name then none else map name) ↔
      ∀ slot name value, view slot = some (name, value) → (emptied slot ↔ gone name) := by
  constructor
  · intro kept slot name value found
    constructor
    · intro isEmptied
      by_contra stays
      obtain ⟨slot', found'⟩ := kept.present ((if_neg stays).trans (keeps.sound found))
      split at found'
      · contradiction
      · rename_i left
        exact left (keeps.single found' found ▸ isEmptied)
    · intro isGone
      by_contra left
      have still := kept.sound ((if_neg left).trans found)
      rw [if_pos isGone] at still
      contradiction
  · intro same
    have entries : ∀ {slot name value}, (if emptied slot then none else view slot) = some (name, value) →
        ¬ gone name ∧ view slot = some (name, value) := by
      intro slot name value found
      split at found
      · contradiction
      · rename_i left
        exact ⟨fun isGone => left ((same slot name value found).mpr isGone), found⟩
    refine ⟨fun found => ?_, fun found => ?_, fun found found' => ?_⟩
    · obtain ⟨stays, old⟩ := entries found
      exact (if_neg stays).trans (keeps.sound old)
    · split at found
      · contradiction
      · rename_i stays
        obtain ⟨slot, old⟩ := keeps.present found
        exact ⟨slot, (if_neg fun isEmptied => stays ((same _ _ _ old).mp isEmptied)).trans old⟩
    · exact keeps.single (entries found).2 (entries found').2

end Slots
