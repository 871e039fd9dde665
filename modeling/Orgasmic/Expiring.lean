import Mathlib.Data.List.Induction
import Mathlib.Order.Lattice
import Std.Data.TreeMap

/-! # Stores whose values expire

A map from keys to values, each with the time from which on it is void. Values are put and taken, and
void ones are dropped now and then, at times that somebody else chooses.

* `last?`: the value that the last operation on a key left, whether it was dropped or not.
* `Sound`: whatever is found in a store was put last, however values were dropped in between.
* `Holds`: values were only dropped when they were void. `Holds.found_iff` is the converse for a store
  that is pruned when it is asked and a clock that does not go back.
* `last?_eq_some_iff`: a value was put last if it was put and nothing was done to its key since. -/

namespace Expiring

open Std

variable {κ ν τ : Type*} {cmp : κ → κ → Ordering}

/-! ### Operations -/

inductive Op (κ ν : Type*)
  | put (key : κ) (value : ν)
  | take (key : κ)

def Op.key : Op κ ν → κ
  | .put key _ => key
  | .take key => key

/-- What an operation leaves of its key. -/
def Op.left : Op κ ν → Option ν
  | .put _ value => some value
  | .take _ => none

section last

variable [DecidableEq κ]

/-- What the last operation on a key left of it. -/
def last? (key : κ) (ops : List (Op κ ν)) : Option ν :=
  ops.foldl (fun found op => if op.key = key then op.left else found) none

theorem last?_concat (key : κ) (ops : List (Op κ ν)) (op : Op κ ν) :
    last? key (ops ++ [op]) = if op.key = key then op.left else last? key ops := by
  rw [last?, List.foldl_append]
  rfl

theorem last?_append {key : κ} {ops more : List (Op κ ν)} (h : ∀ op ∈ more, op.key ≠ key) :
    last? key (ops ++ more) = last? key ops := by
  induction more using List.reverseRecOn with
  | nil => rw [List.append_nil]
  | append_singleton more op ih =>
      obtain ⟨hmore, hop⟩ := List.forall_mem_append.mp h
      rw [← List.append_assoc, last?_concat, if_neg (hop op List.mem_cons_self), ih hmore]

/-- **A value was put last**: nothing was done to its key since. -/
theorem last?_eq_some_iff {key : κ} {ops : List (Op κ ν)} {v : ν} : last? key ops = some v ↔
    ∃ pre post, ops = pre ++ .put key v :: post ∧ ∀ op ∈ post, op.key ≠ key := by
  constructor
  · intro h
    induction ops using List.reverseRecOn with
    | nil => cases h
    | append_singleton ops op ih =>
        rw [last?_concat] at h
        split_ifs at h with hkey
        · cases op with
          | put k w =>
              obtain rfl : w = v := Option.some.inj h
              obtain rfl : k = key := hkey
              exact ⟨ops, [], rfl, by simp⟩
          | take k => cases h
        · obtain ⟨pre, post, rfl, hpost⟩ := ih h
          refine ⟨pre, post ++ [op], by simp, ?_⟩
          exact List.forall_mem_append.mpr ⟨hpost, List.forall_mem_singleton.mpr hkey⟩
  · rintro ⟨pre, post, rfl, hpost⟩
    rw [← List.singleton_append, ← List.append_assoc, last?_append hpost, last?_concat]
    exact if_pos rfl

/-- `last?` over what a list of events did, where an event does one thing at most. -/
theorem last?_flatMap_eq_some_iff {ε : Type*} {key : κ} {v : ν} (ops : ε → List (Op κ ν))
    (hops : ∀ e, (ops e).length ≤ 1) (events : List ε) :
    last? key (events.flatMap ops) = some v ↔
      ∃ pre e post, events = pre ++ e :: post ∧ ops e = [.put key v] ∧
        ∀ e' ∈ post, ∀ op ∈ ops e', op.key ≠ key := by
  constructor
  · intro h
    induction events using List.reverseRecOn with
    | nil => cases h
    | append_singleton events e ih =>
        rw [List.flatMap_append, List.flatMap_singleton] at h
        by_cases hkey : ∀ op ∈ ops e, op.key ≠ key
        · rw [last?_append hkey] at h
          obtain ⟨pre, e', post, rfl, hput, hpost⟩ := ih h
          refine ⟨pre, e', post ++ [e], by simp, hput, ?_⟩
          exact List.forall_mem_append.mpr ⟨hpost, List.forall_mem_singleton.mpr hkey⟩
        · push Not at hkey
          obtain ⟨op, hmem, hop⟩ := hkey
          obtain ⟨op', hone⟩ := List.length_eq_one_iff.mp
            (Nat.le_antisymm (hops e) (List.length_pos_of_mem hmem))
          obtain rfl : op = op' := List.mem_singleton.mp (hone ▸ hmem)
          rw [hone, last?_concat, if_pos hop] at h
          cases op with
          | put k w =>
              obtain rfl : w = v := Option.some.inj h
              obtain rfl : k = key := hop
              exact ⟨events, e, [], rfl, hone, by simp⟩
          | take k => cases h
  · rintro ⟨pre, e, post, rfl, hput, hpost⟩
    rw [last?_eq_some_iff]
    refine ⟨pre.flatMap ops, post.flatMap ops, ?_, ?_⟩
    · rw [List.flatMap_append, List.flatMap_cons, hput, List.singleton_append]
    · intro op hop
      obtain ⟨e', he', hmem⟩ := List.mem_flatMap.mp hop
      exact hpost e' he' op hmem

end last

/-! ### Stores -/

section store

variable [LinearOrder τ] (expires : ν → τ)

/-- The values that are not void yet. -/
def prune (now : τ) (store : TreeMap κ ν cmp) : TreeMap κ ν cmp :=
  store.filter fun _ v => now < expires v

variable [TransCmp cmp] [LawfulEqCmp cmp]

theorem getElem?_prune (now : τ) (store : TreeMap κ ν cmp) (key : κ) :
    (prune expires now store)[key]? = store[key]?.filter fun v => now < expires v :=
  TreeMap.getElem?_filter'

/-- What is found after pruning was there and is not void. -/
theorem found_prune {now : τ} {store : TreeMap κ ν cmp} {key : κ} {v : ν}
    (h : (prune expires now store)[key]? = some v) : store[key]? = some v ∧ now < expires v := by
  rw [getElem?_prune, Option.filter_eq_some_iff] at h
  exact ⟨h.1, of_decide_eq_true h.2⟩

variable [DecidableEq κ]

theorem getElem?_insert (store : TreeMap κ ν cmp) (k key : κ) (v : ν) :
    (store.insert k v)[key]? = if k = key then some v else store[key]? := by
  rw [TreeMap.getElem?_insert]
  simp only [LawfulEqCmp.compare_eq_iff_eq]

theorem getElem?_erase (store : TreeMap κ ν cmp) (k key : κ) :
    (store.erase k)[key]? = if k = key then none else store[key]? := by
  rw [TreeMap.getElem?_erase]
  simp only [LawfulEqCmp.compare_eq_iff_eq]

/-- Nothing is found but what these operations put last. -/
def Sound (store : TreeMap κ ν cmp) (ops : List (Op κ ν)) : Prop :=
  ∀ key v, store[key]? = some v → last? key ops = some v

namespace Sound

variable {store : TreeMap κ ν cmp} {ops : List (Op κ ν)} (h : Sound store ops)
include h

theorem filter (f : κ → ν → Bool) : Sound (store.filter f) ops := by
  intro key v hfound
  rw [TreeMap.getElem?_filter', Option.filter_eq_some_iff] at hfound
  exact h _ _ hfound.1

theorem put (k : κ) (v : ν) : Sound (store.insert k v) (ops ++ [.put k v]) := by
  intro key w hfound
  rw [getElem?_insert] at hfound
  rw [last?_concat, Op.key]
  split_ifs at hfound ⊢
  · exact hfound
  · exact h _ _ hfound

theorem take (k : κ) : Sound (store.erase k) (ops ++ [.take k]) := by
  intro key w hfound
  rw [getElem?_erase] at hfound
  rw [last?_concat, Op.key]
  split_ifs at hfound ⊢
  exact h _ _ hfound

end Sound

/-- The store that these operations led to, if it was pruned at these times in between. -/
structure Holds (store : TreeMap κ ν cmp) (ops : List (Op κ ν)) (times : List τ) : Prop where
  sound : Sound store ops
  /-- What was put last is found unless it was void when the store was pruned. -/
  kept : ∀ {key v}, last? key ops = some v → (∀ t ∈ times, t < expires v) → store[key]? = some v

namespace Holds

variable {expires} {store : TreeMap κ ν cmp} {ops : List (Op κ ν)} {times : List τ}

omit [LawfulEqCmp cmp] in
theorem empty (times : List τ) : Holds expires (∅ : TreeMap κ ν cmp) [] times :=
  ⟨fun _ _ h => by simp at h, fun h => nomatch h⟩

variable (h : Holds expires store ops times)
include h

omit [TransCmp cmp] [LawfulEqCmp cmp] in
theorem mono {times' : List τ} (hsub : ∀ t ∈ times, t ∈ times') : Holds expires store ops times' :=
  ⟨h.sound, fun hlast hlive => h.kept hlast fun t ht => hlive t (hsub t ht)⟩

theorem prune {now : τ} (hnow : now ∈ times) : Holds expires (prune expires now store) ops times := by
  refine ⟨h.sound.filter _, fun hlast hlive => ?_⟩
  rw [getElem?_prune, h.kept hlast hlive, Option.filter_some, if_pos (decide_eq_true (hlive now hnow))]

theorem put (k : κ) (v : ν) : Holds expires (store.insert k v) (ops ++ [.put k v]) times := by
  refine ⟨h.sound.put k v, fun {key w} hlast hlive => ?_⟩
  rw [last?_concat, Op.key] at hlast
  rw [getElem?_insert]
  split_ifs at hlast ⊢
  · exact hlast
  · exact h.kept hlast hlive

theorem take (k : κ) : Holds expires (store.erase k) (ops ++ [.take k]) times := by
  refine ⟨h.sound.take k, fun {key w} hlast hlive => ?_⟩
  rw [last?_concat, Op.key] at hlast
  rw [getElem?_erase]
  split_ifs at hlast ⊢
  · cases hlast
  · exact h.kept hlast hlive

omit [TransCmp cmp] [LawfulEqCmp cmp] in
/-- Nothing is there to take. -/
theorem take_none {k : κ} (hnone : store[k]? = none) : Holds expires store (ops ++ [.take k]) times := by
  refine ⟨fun key v hfound => ?_, fun {key v} hlast hlive => ?_⟩
  · have hne : k ≠ key := by
      rintro rfl
      rw [hnone] at hfound
      cases hfound
    rw [last?_concat, Op.key, if_neg hne]
    exact h.sound _ _ hfound
  · rw [last?_concat, Op.key] at hlast
    split_ifs at hlast
    · cases hlast
    · exact h.kept hlast hlive

/-- **A store that is pruned when it is asked** finds exactly what was put last and is not void: when
else it was pruned leaves no trace. -/
theorem found_iff {now : τ} (hclock : ∀ t ∈ times, t ≤ now) {key : κ} {v : ν} :
    (Expiring.prune expires now store)[key]? = some v ↔ last? key ops = some v ∧ now < expires v := by
  constructor
  · intro hfound
    obtain ⟨hstore, hnow⟩ := found_prune expires hfound
    exact ⟨h.sound _ _ hstore, hnow⟩
  · rintro ⟨hlast, hnow⟩
    rw [getElem?_prune, h.kept hlast fun t ht => (hclock t ht).trans_lt hnow, Option.filter_some,
      if_pos (decide_eq_true hnow)]

end Holds

end store

end Expiring
