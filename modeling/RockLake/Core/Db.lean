import Mathlib.Logic.Function.Basic
import RockLake.Lib.OrderedMap
import RockLake.Core.Keys

/-! The key-value store: one ordered map for each key family. Point reads and writes, batches of
writes as a transaction applies them, and scans of a family by key prefix. -/
namespace RockLake

open OrderedMap

abbrev Db : Type := (f : Family) → OrderedMap Key f.Row

/-- One key-value pair to be stored. -/
structure Write where
  family : Family
  key : Key
  row : family.Row

namespace Db

variable (db : Db) {f g : Family}

def empty : Db := fun _ => OrderedMap.empty

def get (f : Family) (k : Key) : Option f.Row := (db f).get k

def put (w : Write) : Db := Function.update db w.family ((db w.family).put w.key w.row)

def delete (f : Family) (k : Key) : Db := Function.update db f ((db f).delete k)

/-- The writes of a batch in order, a later one replacing an earlier one of the same key. -/
def putAll (db : Db) (writes : List Write) : Db := writes.foldl put db

/-- All entries of a family whose key starts with the given words, in key order. -/
def scanPrefix (f : Family) (start : Key) : List (Key × f.Row) :=
  (db f).collect fun k row => if start <+: k then some (k, row) else none

theorem get_of_family {db db' : Db} (same : db f = db' f) (k : Key) : db.get f k = db'.get f k := by
  rw [get, same, get]

theorem get_put_same (k : Key) (row : f.Row) : (db.put ⟨f, k, row⟩).get f k = some row := by
  simp [get, put]

theorem get_put_key (row : f.Row) (different : k' ≠ k) :
    (db.put ⟨f, k, row⟩).get f k' = db.get f k' := by
  simp [get, put, get_put_of_ne _ _ different]

theorem put_family (w : Write) (different : f ≠ w.family) : (db.put w) f = db f :=
  Function.update_of_ne different _ _

theorem delete_family (k : Key) (different : g ≠ f) : (db.delete f k) g = db g :=
  Function.update_of_ne different _ _

theorem get_delete_key (different : k' ≠ k) :
    (db.delete f k).get f k' = db.get f k' := by
  simp [get, delete, get_delete, different]

theorem get_delete_same (k : Key) : (db.delete f k).get f k = none := by
  simp [get, delete, get_delete]

theorem get_of_delete {k k' : Key} (found : (db.delete f k).get g k' = some row) :
    db.get g k' = some row := by
  by_cases family : g = f
  · subst family
    by_cases same : k' = k
    · rw [same, get_delete_same] at found
      contradiction
    · rwa [get_delete_key _ same] at found
  · rwa [get_of_family (db.delete_family k family)] at found

@[simp] theorem putAll_nil : db.putAll [] = db := rfl

@[simp] theorem putAll_cons (w : Write) (writes : List Write) :
    db.putAll (w :: writes) = (db.put w).putAll writes := rfl

theorem putAll_append (first second : List Write) :
    db.putAll (first ++ second) = (db.putAll first).putAll second :=
  List.foldl_append

theorem putAll_family (absent : ∀ w ∈ writes, w.family ≠ f) :
    (db.putAll writes) f = db f := by
  induction writes generalizing db with
  | nil => rfl
  | cons w writes ih =>
    rw [putAll_cons, ih _ fun w' member => absent w' (List.mem_cons_of_mem _ member)]
    exact db.put_family w (absent w List.mem_cons_self).symm

theorem putAll_congr {db db' : Db} (same : db f = db' f) (writes : List Write) :
    (db.putAll writes) f = (db'.putAll writes) f := by
  induction writes generalizing db db' with
  | nil => exact same
  | cons w writes ih =>
    refine ih ?_
    by_cases family : f = w.family
    · subst family
      simp [put, same]
    · rw [put_family _ _ family, put_family _ _ family, same]

theorem get_put (w : Write) (k : Key) :
    (∃ row, w = ⟨f, k, row⟩ ∧ (db.put w).get f k = some row) ∨
      ((∀ row, w ≠ ⟨f, k, row⟩) ∧ (db.put w).get f k = db.get f k) := by
  obtain ⟨g, key, row⟩ := w
  by_cases family : f = g
  · subst family
    by_cases same : k = key
    · subst same
      exact .inl ⟨row, rfl, db.get_put_same k row⟩
    · refine .inr ⟨?_, db.get_put_key row same⟩
      rintro row' ⟨⟩
      exact same rfl
  · refine .inr ⟨?_, get_of_family (db.put_family ⟨g, key, row⟩ family) k⟩
    rintro row' ⟨⟩
    exact family rfl

/-- A point read after a batch: the row of some write of that key, or what was there before. -/
theorem get_putAll (writes : List Write) (k : Key) :
    (∃ row, ⟨f, k, row⟩ ∈ writes ∧ (db.putAll writes).get f k = some row) ∨
      ((∀ row, ⟨f, k, row⟩ ∉ writes) ∧ (db.putAll writes).get f k = db.get f k) := by
  induction writes generalizing db with
  | nil => exact .inr ⟨by simp, rfl⟩
  | cons w writes ih =>
    rcases ih (db.put w) with ⟨row, member, found⟩ | ⟨absent, kept⟩
    · exact .inl ⟨row, List.mem_cons_of_mem _ member, found⟩
    rw [putAll_cons]
    rcases db.get_put (f := f) w k with ⟨row, rfl, found⟩ | ⟨other, same⟩
    · exact .inl ⟨row, List.mem_cons_self, kept.trans found⟩
    · refine .inr ⟨fun row member => ?_, kept.trans same⟩
      rcases List.mem_cons.mp member with equal | later
      · exact other row equal.symm
      · exact absent row later

theorem get_putAll_congr {db db' : Db} (same : db.get f k = db'.get f k) (writes : List Write) :
    (db.putAll writes).get f k = (db'.putAll writes).get f k := by
  induction writes generalizing db db' with
  | nil => exact same
  | cons w writes ih =>
    refine ih ?_
    rcases db.get_put (f := f) w k with ⟨row, rfl, found⟩ | ⟨other, kept⟩
    · rw [found, get_put_same]
    · rcases db'.get_put (f := f) w k with ⟨row, here, _⟩ | ⟨_, kept'⟩
      · exact absurd here (other row)
      · rw [kept, kept', same]

theorem mem_scanPrefix :
    e ∈ db.scanPrefix f start ↔ db.get f e.1 = some e.2 ∧ start <+: e.1 := by
  obtain ⟨k, row⟩ := e
  simp only [scanPrefix, mem_collect, get]
  constructor
  · rintro ⟨k', row', found, kept⟩
    split at kept
    · rename_i starts
      cases kept
      exact ⟨found, starts⟩
    · contradiction
  · rintro ⟨found, starts⟩
    exact ⟨k, row, found, if_pos starts⟩

end Db

end RockLake
