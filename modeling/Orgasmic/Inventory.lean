import Mathlib.Data.List.Nodup
import Mathlib.Logic.Function.Basic

/-! # Inventories

A finite map that can be searched and gone through: what it has under a key, and a list of names
that misses no key.

* **Checks.** `all` and `any` go through the entries; `agrees` compares two inventories.
* **Changes.** `put`, `remove`, `replace`, and `rename` along a partial inverse. -/

/-- What is there, by its key. -/
structure Inventory (K V : Type*) where
  find : K → Option V
  names : List K
  listed : ∀ {k : K} {v : V}, find k = some v → k ∈ names

namespace Inventory

variable {K V W : Type*} {t t' : Inventory K V} {k : K} {v : V}

/-! ### Checks -/

def all (t : Inventory K V) (check : K → V → Bool) : Bool :=
  t.names.all fun k => (t.find k).all (check k)

def any (t : Inventory K V) (check : K → V → Bool) : Bool :=
  t.names.any fun k => (t.find k).any (check k)

theorem all_eq_true {check : K → V → Bool} :
    t.all check = true ↔ ∀ k v, t.find k = some v → check k v = true := by
  unfold all
  rw [List.all_eq_true]
  constructor
  · intro h k v found
    simpa [found] using h k (t.listed found)
  · intro h k _
    cases found : t.find k with
    | none => rfl
    | some v => exact h k v found

theorem any_eq_true {check : K → V → Bool} :
    t.any check = true ↔ ∃ k v, t.find k = some v ∧ check k v = true := by
  unfold any
  rw [List.any_eq_true]
  constructor
  · rintro ⟨k, -, h⟩
    cases found : t.find k with
    | none =>
        rw [found] at h
        cases h
    | some v =>
        rw [found] at h
        exact ⟨k, v, found, h⟩
  · rintro ⟨k, v, found, h⟩
    exact ⟨k, t.listed found, by simpa [found] using h⟩

/-- The same entries under the same keys. -/
def agrees [DecidableEq V] (t t' : Inventory K V) : Bool :=
  (t.names ++ t'.names).all fun k => decide (t.find k = t'.find k)

theorem agrees_eq_true [DecidableEq V] : t.agrees t' = true ↔ ∀ k, t.find k = t'.find k := by
  unfold agrees
  simp only [List.all_eq_true, decide_eq_true_eq]
  refine ⟨fun h k => ?_, fun h k _ => h k⟩
  cases found : t.find k with
  | some v =>
      rw [← found]
      exact h k (List.mem_append_left _ (t.listed found))
  | none =>
      cases found' : t'.find k with
      | none => rfl
      | some v =>
          rw [← found, ← found']
          exact h k (List.mem_append_right _ (t'.listed found'))

/-! ### Inventories made of others -/

def map (f : V → W) (t : Inventory K V) : Inventory K W where
  find := fun k => (t.find k).map f
  names := t.names
  listed := fun {k w} h => by
    obtain ⟨v, found, -⟩ := Option.map_eq_some_iff.mp h
    exact t.listed found

@[simp] theorem find_map (f : V → W) : (t.map f).find k = (t.find k).map f := rfl

/-- What `change` says under the keys that it speaks of. -/
def replace [DecidableEq K] (t : Inventory K V) (keys : List K) (change : K → Option V) :
    Inventory K V where
  find := fun k => if k ∈ keys then change k else t.find k
  names := keys ++ t.names
  listed := fun {k v} h => by
    split at h
    · next mem => exact List.mem_append_left _ mem
    · exact List.mem_append_right _ (t.listed h)

theorem find_replace_of_mem [DecidableEq K] {keys : List K} {change : K → Option V}
    (mem : k ∈ keys) : (t.replace keys change).find k = change k := if_pos mem

theorem find_replace_of_not_mem [DecidableEq K] {keys : List K} {change : K → Option V}
    (other : k ∉ keys) : (t.replace keys change).find k = t.find k := if_neg other

/-- Each entry under another key; `back` is the key it had. -/
def rename (t : Inventory K V) (move : K → K) (back : K → Option K)
    (moved : ∀ {k k' : K}, back k = some k' → move k' = k) : Inventory K V where
  find := fun k => (back k).bind t.find
  names := t.names.map move
  listed := fun {k v} h => by
    obtain ⟨k', was, found⟩ := Option.bind_eq_some_iff.mp h
    exact List.mem_map.mpr ⟨k', t.listed found, moved was⟩

section keys

variable [DecidableEq K]

def ofList (entries : List (K × V)) : Inventory K V where
  find := fun k => entries.lookup k
  names := entries.map Prod.fst
  listed := fun {k v} h => by
    obtain ⟨before, after, rfl, -⟩ := List.lookup_eq_some_iff.mp h
    simp

def put (t : Inventory K V) (k : K) (v : V) : Inventory K V where
  find := Function.update t.find k (some v)
  names := k :: t.names
  listed := fun {k' v'} h => by
    by_cases same : k' = k
    · subst same
      exact List.mem_cons_self
    · rw [Function.update_of_ne same] at h
      exact List.mem_cons_of_mem _ (t.listed h)

def remove (t : Inventory K V) (k : K) : Inventory K V where
  find := Function.update t.find k none
  names := t.names
  listed := fun {k' v'} h => by
    by_cases same : k' = k
    · subst same
      rw [Function.update_self] at h
      cases h
    · rw [Function.update_of_ne same] at h
      exact t.listed h

@[simp] theorem find_put_self : (t.put k v).find k = some v := Function.update_self ..

theorem find_put_of_ne {k' : K} (other : k' ≠ k) : (t.put k v).find k' = t.find k' :=
  Function.update_of_ne other ..

@[simp] theorem find_remove_self : (t.remove k).find k = none := Function.update_self ..

theorem find_remove_of_ne {k' : K} (other : k' ≠ k) : (t.remove k).find k' = t.find k' :=
  Function.update_of_ne other ..

/-- Under distinct keys a list holds what it says. -/
theorem find_ofList {entries : List (K × V)} (nodup : (entries.map Prod.fst).Nodup) :
    (ofList entries).find k = some v ↔ (k, v) ∈ entries := by
  show entries.lookup k = some v ↔ _
  induction entries with
  | nil => simp
  | cons entry rest ih =>
      obtain ⟨fresh, others⟩ := List.nodup_cons.mp nodup
      obtain ⟨key, value⟩ := entry
      by_cases same : k = key
      · subst same
        have absent : (k, v) ∉ rest := fun mem => fresh (List.mem_map.mpr ⟨_, mem, rfl⟩)
        simp [List.lookup_cons, absent, eq_comm]
      · have other : (k == key) = false := by simpa using same
        rw [List.lookup_cons, other]
        simp [ih others, same]

theorem find_ofList_eq_none {entries : List (K × V)} :
    (ofList entries).find k = none ↔ k ∉ entries.map Prod.fst := by
  show entries.lookup k = none ↔ _
  rw [List.lookup_eq_none_iff]
  simp only [List.mem_map, not_exists, not_and]
  constructor
  · intro h entry mem same
    have := h entry mem
    rw [same] at this
    simp at this
  · intro h entry mem
    have : entry.1 ≠ k := h entry mem
    simpa using this.symm

end keys

end Inventory
