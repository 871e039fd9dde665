import Mathlib.Data.List.Induction
import Mathlib.Data.List.Sort
import Std.Data.TreeMap

/-! # Registers folded from a log of events

Every event names at most one key and either sets the register of that key or clears it. After a
fold the register of a key holds the last event of that key, if that event sets it. Events that
arrive in any order are first put in the order of a comparison; where the comparison tells any two
of them apart, the order they arrived in leaves no trace. -/

namespace Registers

open Std

variable {E K V : Type*}

/-! ### Sorting by a comparison -/

section sorting

variable (cmp : E → E → Ordering)

/-- The stable sort by a comparison. -/
def sortBy (events : List E) : List E := events.insertionSort fun a b => (cmp a b).isLE

theorem sortBy_perm (events : List E) : (sortBy cmp events).Perm events :=
  List.perm_insertionSort _ events

@[simp]
theorem mem_sortBy {events : List E} {e : E} : e ∈ sortBy cmp events ↔ e ∈ events :=
  (sortBy_perm cmp events).mem_iff

theorem sortBy_pairwise [TransCmp cmp] (events : List E) :
    (sortBy cmp events).Pairwise fun a b => (cmp a b).isLE := by
  have total : Std.Total fun a b => ((cmp a b).isLE : Prop) := by
    refine ⟨fun a b => ?_⟩
    have swap : cmp b a = (cmp a b).swap := OrientedCmp.eq_swap
    rw [swap]
    cases cmp a b <;> simp
  have trans : IsTrans E fun a b => ((cmp a b).isLE : Prop) :=
    ⟨fun _ _ _ => TransCmp.isLE_trans⟩
  exact List.pairwise_insertionSort _ events

/-- Where equal comparison means equality, the sort forgets the order of arrival. -/
theorem sortBy_eq_of_perm [TransCmp cmp] {events events' : List E} (h : events.Perm events')
    (apart : ∀ a ∈ events, ∀ b ∈ events, cmp a b = .eq → a = b) :
    sortBy cmp events = sortBy cmp events' := by
  have sorts : (sortBy cmp events).Perm (sortBy cmp events') :=
    (sortBy_perm cmp events).trans (h.trans (sortBy_perm cmp events').symm)
  refine sorts.eq_of_pairwise ?_ (sortBy_pairwise cmp events) (sortBy_pairwise cmp events')
  intro a b ha hb hab hba
  rw [mem_sortBy] at ha hb
  exact apart a ha b (h.mem_iff.mpr hb) (OrientedCmp.isLE_antisymm hab hba)

end sorting

/-! ### The registers -/

section fold

variable {cmp : K → K → Ordering} (key : E → Option K) (sets : E → Bool)

/-- One event: it sets its register to itself, or clears it. -/
def record (registers : TreeMap K E cmp) (e : E) : TreeMap K E cmp :=
  match key e with
  | none => registers
  | some k => if sets e then registers.insert k e else registers.erase k

/-- The last event of a key. -/
def last [DecidableEq K] (k : K) (events : List E) : Option E :=
  (events.filter fun e => key e = some k).getLast?

variable [DecidableEq K]

@[simp]
theorem last_nil (k : K) : last key k ([] : List E) = none := rfl

theorem last_concat (k : K) (events : List E) (e : E) :
    last key k (events ++ [e]) = if key e = some k then some e else last key k events := by
  unfold last
  by_cases h : key e = some k <;> simp [List.filter_append, h]

theorem last_eq_some_mem {k : K} {events : List E} {e : E} (h : last key k events = some e) :
    e ∈ events ∧ key e = some k := by
  have mem := List.mem_of_getLast? h
  simpa only [List.mem_filter, decide_eq_true_eq] using mem

theorem last_isSome {k : K} {events : List E} {e : E} (he : e ∈ events) (hk : key e = some k) :
    ∃ l, last key k events = some l := by
  have : events.filter (fun e => key e = some k) ≠ [] := by
    intro none
    have := List.filter_eq_nil_iff.mp none e he
    simp [hk] at this
  exact ⟨_, List.getLast?_eq_getLast_of_ne_nil this⟩

/-- In a list ordered by a relation nothing of the key comes after its last event. -/
theorem last_greatest {R : E → E → Prop} (refl : ∀ e, R e e) {events : List E}
    (ordered : events.Pairwise R) {k : K} {l : E} (hl : last key k events = some l) {e : E}
    (he : e ∈ events) (hk : key e = some k) : R e l := by
  have mem : e ∈ events.filter fun e => key e = some k := by
    simp only [List.mem_filter, decide_eq_true_eq]
    exact ⟨he, hk⟩
  obtain ⟨front, eq⟩ := List.getLast?_eq_some_iff.mp hl
  have pairs : (front ++ [l]).Pairwise R := eq ▸ ordered.filter _
  rw [eq, List.mem_append, List.mem_singleton] at mem
  rcases mem with he | rfl
  · exact (List.pairwise_append.mp pairs).2.2 e he l (by simp)
  · exact refl e

/-- **What a fold leaves in a register**: the last event of the key, if it sets the register. -/
theorem getElem?_foldl [TransCmp cmp] [LawfulEqCmp cmp] (events : List E)
    (registers : TreeMap K E cmp) (k : K) :
    (events.foldl (record key sets) registers)[k]? =
      match last key k events with
      | none => registers[k]?
      | some e => if sets e then some e else none := by
  induction events using List.reverseRecOn with
  | nil => rfl
  | append_singleton events e ih =>
      rw [List.foldl_append, List.foldl_cons, List.foldl_nil, last_concat]
      cases hk : key e with
      | none => simpa [record, hk] using ih
      | some k' =>
          by_cases same : k' = k
          · subst same
            cases hs : sets e <;> simp [record, hk, hs]
          · have apart : cmp k' k ≠ .eq := fun h => same (LawfulEqCmp.eq_of_compare h)
            cases hs : sets e <;>
              simp [record, hk, hs, same, apart, TreeMap.getElem?_insert, TreeMap.getElem?_erase, ih]

end fold

/-! ### Groups -/

section groups

variable {cmp : K → K → Ordering} (key : E → K)

/-- One more item for the group of its key. -/
def push (groups : TreeMap K (List E) cmp) (e : E) : TreeMap K (List E) cmp :=
  groups.alter (key e) fun group => some (group.getD [] ++ [e])

/-- The group of a key holds the items of that key, in the order they came. -/
theorem getElem?_foldl_push [DecidableEq K] [TransCmp cmp] [LawfulEqCmp cmp] (items : List E)
    (k : K) :
    (items.foldl (push key) (∅ : TreeMap K (List E) cmp))[k]? =
      match items.filter (fun e => key e = k) with
      | [] => none
      | group => some group := by
  induction items using List.reverseRecOn with
  | nil => rfl
  | append_singleton items e ih =>
      rw [List.foldl_append, List.foldl_cons, List.foldl_nil, push, TreeMap.getElem?_alter, ih,
        List.filter_append]
      by_cases same : key e = k
      · subst same
        rw [if_pos ReflCmp.compare_self, ih]
        cases items.filter (fun e' => key e' = key e) <;> simp
      · have apart : cmp (key e) k ≠ .eq := fun h => same (LawfulEqCmp.eq_of_compare h)
        simp [apart, same]

end groups

end Registers
