import Mathlib.Data.List.Sort

/-! Finite ordered maps as strictly sorted association lists: point reads, writes, deletions and
scans in key order. Scans depend only on the point reads, so two maps are compared key by key. -/
namespace OrderedMap

open List Option

variable {K V W R : Type} [LinearOrder K]

def insertEntry (k : K) (v : V) : List (K × V) → List (K × V)
  | [] => [(k, v)]
  | (k', v') :: rest =>
    if k < k' then (k, v) :: (k', v') :: rest
    else if k = k' then (k, v) :: rest
    else (k', v') :: insertEntry k v rest

theorem mem_insertEntry {l : List (K × V)} (sorted : l.Pairwise fun a b => a.1 < b.1) :
    e ∈ insertEntry k v l ↔ e = (k, v) ∨ e ∈ l ∧ e.1 ≠ k := by
  induction l with
  | nil => simp [insertEntry]
  | cons head rest ih =>
    obtain ⟨k', v'⟩ := head
    obtain ⟨above, sortedRest⟩ := pairwise_cons.mp sorted
    simp only [insertEntry]
    split
    · rename_i less
      have fresh : ∀ e ∈ (k', v') :: rest, e.1 ≠ k := by
        intro e member
        rcases mem_cons.mp member with rfl | later
        · exact less.ne'
        · exact (less.trans (above e later)).ne'
      grind
    · split
      · rename_i same
        subst same
        have fresh : ∀ e ∈ rest, e.1 ≠ k := fun e later => (above e later).ne'
        grind
      · rename_i different
        have head : (k', v').1 ≠ k := fun same => different same.symm
        simp only [mem_cons, ih sortedRest]
        grind

theorem insertEntry_sorted {l : List (K × V)} (sorted : l.Pairwise fun a b => a.1 < b.1) :
    (insertEntry k v l).Pairwise fun a b => a.1 < b.1 := by
  induction l with
  | nil => simp [insertEntry]
  | cons head rest ih =>
    obtain ⟨k', v'⟩ := head
    obtain ⟨above, sortedRest⟩ := pairwise_cons.mp sorted
    simp only [insertEntry]
    split
    · rename_i less
      refine pairwise_cons.mpr ⟨?_, sorted⟩
      intro e member
      rcases mem_cons.mp member with rfl | later
      · exact less
      · exact less.trans (above e later)
    · split
      · rename_i same
        subst same
        exact pairwise_cons.mpr ⟨above, sortedRest⟩
      · rename_i notLess different
        refine pairwise_cons.mpr ⟨?_, ih sortedRest⟩
        intro e member
        rcases (mem_insertEntry sortedRest).mp member with rfl | ⟨later, _⟩
        · exact lt_of_le_of_ne (le_of_not_gt notLess) (Ne.symm different)
        · exact above e later

end OrderedMap

/-- A finite map whose entries are kept in strictly increasing key order. -/
structure OrderedMap (K V : Type) [LinearOrder K] where
  entries : List (K × V)
  sorted : entries.Pairwise fun a b => a.1 < b.1

namespace OrderedMap

open List Option

variable {K V W R : Type} [LinearOrder K]

def empty : OrderedMap K V := ⟨[], List.Pairwise.nil⟩

def get (m : OrderedMap K V) (k : K) : Option V :=
  (m.entries.find? fun e => e.1 = k).map Prod.snd

def put (m : OrderedMap K V) (k : K) (v : V) : OrderedMap K V :=
  ⟨insertEntry k v m.entries, insertEntry_sorted m.sorted⟩

def delete (m : OrderedMap K V) (k : K) : OrderedMap K V :=
  ⟨m.entries.filter fun e => e.1 ≠ k, m.sorted.filter _⟩

def restrict (m : OrderedMap K V) (p : K → V → Bool) : OrderedMap K V :=
  ⟨m.entries.filter fun e => p e.1 e.2, m.sorted.filter _⟩

def mapValues (m : OrderedMap K V) (g : V → W) : OrderedMap K W :=
  ⟨m.entries.map fun e => (e.1, g e.2), List.pairwise_map.mpr m.sorted⟩

def collect (m : OrderedMap K V) (f : K → V → Option R) : List R :=
  m.entries.filterMap fun e => f e.1 e.2

theorem find_entry {l : List (K × V)} (sorted : l.Pairwise fun a b => a.1 < b.1) :
    (l.find? fun e => e.1 = k).map Prod.snd = some v ↔ (k, v) ∈ l := by
  induction l with
  | nil => simp
  | cons head rest ih =>
    obtain ⟨k', v'⟩ := head
    obtain ⟨above, sortedRest⟩ := pairwise_cons.mp sorted
    by_cases same : k' = k
    · subst same
      have absent : (k', v) ∉ rest := fun later => lt_irrefl k' (above (k', v) later)
      simp [absent, eq_comm]
    · have apart : ¬ k = k' := fun h => same h.symm
      simpa [find?_cons, same, apart] using ih sortedRest

theorem get_eq_some {m : OrderedMap K V} :
    m.get k = some v ↔ (k, v) ∈ m.entries :=
  find_entry m.sorted

theorem get_congr {m : OrderedMap K V} {m' : OrderedMap K V}
    (same : ∀ v, (k, v) ∈ m.entries ↔ (k', v) ∈ m'.entries) : m.get k = m'.get k' := by
  apply ext
  intro v
  rw [get_eq_some, get_eq_some]
  exact same v

@[simp] theorem get_empty (k : K) : (empty : OrderedMap K V).get k = none := rfl

section

variable (m : OrderedMap K V)
include m

@[simp] theorem get_put_self (k : K) (v : V) : (m.put k v).get k = some v :=
  get_eq_some.mpr ((mem_insertEntry m.sorted).mpr (Or.inl rfl))

theorem get_put_of_ne {k k' : K} (v : V) (different : k' ≠ k) :
    (m.put k v).get k' = m.get k' := by
  apply get_congr
  intro w
  refine (mem_insertEntry m.sorted).trans ?_
  simp [different]

theorem get_put (k k' : K) (v : V) :
    (m.put k v).get k' = if k' = k then some v else m.get k' := by
  split
  · rename_i same
    rw [same, get_put_self]
  · rename_i different
    exact get_put_of_ne m v different

theorem get_delete (k k' : K) :
    (m.delete k).get k' = if k' = k then none else m.get k' := by
  split
  · rename_i same
    subst same
    apply eq_none_iff_forall_ne_some.mpr
    intro v found
    have member := get_eq_some.mp found
    simp [delete] at member
  · rename_i different
    apply get_congr
    intro v
    simp [delete, different]

theorem get_restrict (p : K → V → Bool) (k : K) :
    (m.restrict p).get k = (m.get k).filter (p k) := by
  apply ext
  intro v
  rw [get_eq_some, filter_eq_some_iff, get_eq_some]
  simp [restrict]

theorem get_mapValues (g : V → W) (k : K) :
    (m.mapValues g).get k = (m.get k).map g := by
  simp only [get, mapValues, find?_map, Option.map_map]
  rfl

end

theorem mem_collect {m : OrderedMap K V} :
    r ∈ m.collect f ↔ ∃ k v, m.get k = some v ∧ f k v = some r := by
  simp [collect, mem_filterMap, get_eq_some]

theorem keyed_ext {l l' : List (K × R)} (sorted : l.Pairwise fun a b => a.1 < b.1)
    (sorted' : l'.Pairwise fun a b => a.1 < b.1) (same : ∀ e, e ∈ l ↔ e ∈ l') : l = l' := by
  have nodup : ∀ {l : List (K × R)}, l.Pairwise (fun a b => a.1 < b.1) → l.Nodup :=
    fun h => h.imp fun {a b} less equal => absurd (congrArg Prod.fst equal) less.ne
  have perm := (perm_ext_iff_of_nodup (nodup sorted) (nodup sorted')).mpr same
  exact perm.eq_of_pairwise (fun a b _ _ less greater => absurd greater (lt_asymm less))
    sorted sorted'

theorem collect_keyed (m : OrderedMap K V) (f : K → V → Option R) :
    ∃ found : List (K × R), found.Pairwise (fun a b => a.1 < b.1) ∧
      (∀ e, e ∈ found ↔ (m.get e.1).bind (f e.1) = some e.2) ∧ m.collect f = found.map Prod.snd := by
  refine ⟨m.entries.filterMap fun e => (f e.1 e.2).map (e.1, ·), m.sorted.filterMap _ ?_, ?_, ?_⟩
  · rintro a b less _ ha _ hb
    obtain ⟨_, _, rfl⟩ := map_eq_some_iff.mp ha
    obtain ⟨_, _, rfl⟩ := map_eq_some_iff.mp hb
    exact less
  · intro e
    simp only [mem_filterMap, map_eq_some_iff, bind_eq_some_iff, get_eq_some]
    constructor
    · rintro ⟨a, present, r, made, rfl⟩
      exact ⟨a.2, present, made⟩
    · rintro ⟨v, present, made⟩
      exact ⟨(e.1, v), present, e.2, made, rfl⟩
  · rw [collect, map_filterMap]
    refine filterMap_congr fun e _ => ?_
    cases f e.1 e.2 <;> rfl

/-- A scan is determined by the point reads: maps that agree key by key, after what the scan
makes of each entry, scan to the same list. -/
theorem collect_congr {m : OrderedMap K V} {m' : OrderedMap K W}
    (agree : ∀ k, (m.get k).bind (f k) = (m'.get k).bind (g k)) :
    m.collect f = m'.collect g := by
  obtain ⟨found, sorted, member, listed⟩ := m.collect_keyed f
  obtain ⟨found', sorted', member', listed'⟩ := m'.collect_keyed g
  rw [listed, listed', keyed_ext sorted sorted' fun e => ?_]
  rw [member, member', agree]

theorem collect_eq_toList {m : OrderedMap K V} :
    m.collect f = one.toList ↔ (∀ k r, (m.get k).bind (f k) = some r → one = some r) ∧
      (∀ r, one = some r → ∃ k, (m.get k).bind (f k) = some r) ∧
      ∀ k k' r r', (m.get k).bind (f k) = some r → (m.get k').bind (f k') = some r' → k = k' := by
  obtain ⟨found, sorted, member, listed⟩ := m.collect_keyed f
  rw [listed]
  constructor
  · intro same
    have only : ∀ {k r}, (m.get k).bind (f k) = some r → found = [(k, r)] ∧ one = some r := by
      intro k r read
      have among := (member (k, r)).mpr read
      cases one with
      | none =>
        rw [map_eq_nil_iff.mp same] at among
        contradiction
      | some r' =>
        obtain ⟨e, rfl, rfl⟩ := map_eq_singleton_iff.mp same
        cases mem_singleton.mp among
        exact ⟨rfl, rfl⟩
    refine ⟨fun k r read => (only read).2, fun r is => ?_, fun k k' r r' read read' => ?_⟩
    · subst is
      obtain ⟨e, rfl, rfl⟩ := map_eq_singleton_iff.mp same
      exact ⟨e.1, (member e).mp (mem_singleton_self e)⟩
    · have both := (only read).1.symm.trans (only read').1
      simp only [cons.injEq, Prod.mk.injEq, and_true] at both
      exact both.1
  · rintro ⟨sound, present, single⟩
    cases found with
    | nil =>
      cases one with
      | none => rfl
      | some r =>
        obtain ⟨k, read⟩ := present r rfl
        exact absurd ((member (k, r)).mpr read) not_mem_nil
    | cons e rest =>
      have first := (member e).mp mem_cons_self
      rw [sound e.1 e.2 first]
      cases rest with
      | nil => rfl
      | cons e' rest =>
        have second := (member e').mp (mem_cons_of_mem _ mem_cons_self)
        have less := (pairwise_cons.mp sorted).1 e' mem_cons_self
        exact absurd (single _ _ _ _ first second) less.ne

theorem collect_perm_append (m : OrderedMap K V) (f : K → V → Option R) (p : K → V → Bool) :
    (m.collect f).Perm ((m.collect fun k v => if p k v then f k v else none) ++
      m.collect fun k v => if p k v then none else f k v) := by
  have parts := (filter_append_perm (fun e => p e.1 e.2) m.entries).symm.filterMap
    fun e => f e.1 e.2
  rw [filterMap_append, filterMap_filter, filterMap_filter] at parts
  refine parts.trans (.of_eq ?_)
  rw [collect, collect]
  congr 1
  refine filterMap_congr fun e _ => ?_
  cases p e.1 e.2 <;> rfl

@[ext] theorem ext_get {m m' : OrderedMap K V} (same : ∀ k, m.get k = m'.get k) : m = m' := by
  obtain ⟨l, sorted⟩ := m
  obtain ⟨l', sorted'⟩ := m'
  have equal : l = l' := by
    refine keyed_ext sorted sorted' fun e => ?_
    rw [← get_eq_some (m := ⟨l, sorted⟩), ← get_eq_some (m := ⟨l', sorted'⟩), same]
  subst equal
  rfl

end OrderedMap
