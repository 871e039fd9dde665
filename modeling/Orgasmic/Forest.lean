import Orgasmic.Outline

/-! # Forests in document order

A forest is a list of trees with an item at every node.  `flattenAll` lists the items in document
order: an item before those of its children, and a tree before the trees that follow it.

* **Depths.** `GradedAll`: the roots have one depth, and the children of an item are one deeper.
  Then the list of items decides the forest (`graded_unique`).
* **Edits.** `editFirstIn` puts other trees in the place of the first tree that has a property;
  `editFirstIn_spec` says what this does to the list of items. -/

namespace Forest

variable {α β : Type*}

inductive Tree (α : Type*) where
  | node (item : α) (children : List (Tree α))

def Tree.item : Tree α → α
  | .node a _ => a

/-! ### Items in document order -/

mutual

def Tree.flatten : Tree α → List α
  | .node a cs => a :: flattenAll cs

def flattenAll : List (Tree α) → List α
  | [] => []
  | t :: ts => t.flatten ++ flattenAll ts

end

theorem Tree.flatten_ne_nil (t : Tree α) : t.flatten ≠ [] := by
  obtain ⟨a, cs⟩ := t
  rw [Tree.flatten]
  exact List.cons_ne_nil _ _

theorem flattenAll_append (ts us : List (Tree α)) :
    flattenAll (ts ++ us) = flattenAll ts ++ flattenAll us := by
  induction ts with
  | nil => rfl
  | cons t ts ih => rw [List.cons_append, flattenAll, flattenAll, ih, List.append_assoc]

theorem flattenAll_singleton (t : Tree α) : flattenAll [t] = t.flatten := by
  rw [flattenAll, flattenAll, List.append_nil]

/-! ### Depths -/

section depths
variable (depth : α → ℕ)

mutual

/-- The root has depth `n`, and every other item is one deeper than the one above it. -/
def Tree.Graded (n : ℕ) : Tree α → Prop
  | .node a cs => depth a = n ∧ GradedAll (n + 1) cs

def GradedAll (n : ℕ) : List (Tree α) → Prop
  | [] => True
  | t :: ts => Tree.Graded n t ∧ GradedAll n ts

end

variable {depth}

theorem gradedAll_iff {n : ℕ} {ts : List (Tree α)} :
    GradedAll depth n ts ↔ ∀ t ∈ ts, Tree.Graded depth n t := by
  induction ts with
  | nil => simp [GradedAll]
  | cons t ts ih => simp [GradedAll, ih]

theorem gradedAll_append {n : ℕ} {ts us : List (Tree α)} :
    GradedAll depth n (ts ++ us) ↔ GradedAll depth n ts ∧ GradedAll depth n us := by
  simp only [gradedAll_iff, List.forall_mem_append]

mutual

theorem Tree.Graded.depth_le {n : ℕ} : ∀ {t : Tree α}, Tree.Graded depth n t →
    ∀ a ∈ t.flatten, n ≤ depth a
  | .node a cs, ⟨hroot, hchildren⟩ => by
      rw [Tree.flatten]
      refine List.forall_mem_cons.mpr ⟨Nat.le_of_eq hroot.symm, fun b hb => ?_⟩
      have hdeep := GradedAll.depth_le hchildren b hb
      omega

theorem GradedAll.depth_le {n : ℕ} : ∀ {ts : List (Tree α)}, GradedAll depth n ts →
    ∀ a ∈ flattenAll ts, n ≤ depth a
  | [], _ => by simp [flattenAll]
  | t :: ts, ⟨hhead, htail⟩ => by
      rw [flattenAll]
      exact List.forall_mem_append.mpr ⟨Tree.Graded.depth_le hhead, GradedAll.depth_le htail⟩

end

/-- The first item of some trees has the depth of their roots. -/
theorem GradedAll.head {n : ℕ} {ts : List (Tree α)} (h : GradedAll depth n ts) :
    ∀ a ∈ (flattenAll ts).head?, depth a = n := by
  cases ts with
  | nil => simp [flattenAll]
  | cons t ts =>
      obtain ⟨a, cs⟩ := t
      obtain ⟨⟨hroot, -⟩, -⟩ := h
      intro b hb
      simp only [flattenAll, Tree.flatten, List.cons_append, List.head?_cons,
        Option.mem_some_iff] at hb
      rw [← hb, hroot]

mutual

theorem Tree.Graded.stepped {n p : ℕ} (hp : n ≤ p + 1) : ∀ {t : Tree α}, Tree.Graded depth n t →
    Outline.Stepped p (t.flatten.map depth)
  | .node a cs, ⟨hroot, hchildren⟩ => by
      rw [Tree.flatten, List.map_cons, hroot]
      exact ⟨hp, GradedAll.stepped (Nat.le_refl _) hchildren⟩

/-- Each depth is at most one more than the one before. -/
theorem GradedAll.stepped {n p : ℕ} (hp : n ≤ p + 1) : ∀ {ts : List (Tree α)}, GradedAll depth n ts →
    Outline.Stepped p ((flattenAll ts).map depth)
  | [], _ => trivial
  | t :: ts, ⟨hhead, htail⟩ => by
      rw [flattenAll, List.map_append, Outline.stepped_append]
      refine ⟨Tree.Graded.stepped hp hhead, GradedAll.stepped ?_ htail⟩
      -- the last item of the tree is no less deep than its root
      rw [Outline.lastDepth]
      cases hlast : (t.flatten.map depth).getLast? with
      | none => exact hp
      | some d =>
          obtain ⟨a, ha, rfl⟩ := List.mem_map.mp (List.mem_of_getLast? hlast)
          have := Tree.Graded.depth_le hhead a ha
          rw [Option.getD_some]
          omega

end

/-- **The items in document order decide the forest**, if their depths are those of the forest. -/
theorem graded_unique {n : ℕ} {ts us : List (Tree α)} (ht : GradedAll depth n ts)
    (hu : GradedAll depth n us) (h : flattenAll ts = flattenAll us) : ts = us := by
  -- the induction is on the number of items
  obtain ⟨k, hk⟩ : ∃ k, (flattenAll ts).length ≤ k := ⟨_, Nat.le_refl _⟩
  induction k generalizing n ts us with
  | zero =>
      have hnil (vs : List (Tree α)) (hv : (flattenAll vs).length ≤ 0) : vs = [] := by
        cases vs with
        | nil => rfl
        | cons v vs =>
            obtain ⟨a, cs⟩ := v
            simp [flattenAll, Tree.flatten] at hv
      rw [hnil ts hk, hnil us (h ▸ hk)]
  | succ k ih =>
      cases ts with
      | nil =>
          cases us with
          | nil => rfl
          | cons u us =>
              obtain ⟨b, ds⟩ := u
              simp [flattenAll, Tree.flatten] at h
      | cons t ts =>
          obtain ⟨a, cs⟩ := t
          cases us with
          | nil => simp [flattenAll, Tree.flatten] at h
          | cons u us =>
              obtain ⟨b, ds⟩ := u
              obtain ⟨⟨-, hcs⟩, hts⟩ := ht
              obtain ⟨⟨-, hds⟩, hus⟩ := hu
              simp only [flattenAll, Tree.flatten, List.cons_append, List.cons.injEq] at h
              simp only [flattenAll, Tree.flatten, List.cons_append, List.length_cons,
                List.length_append] at hk
              obtain ⟨rfl, h⟩ := h
              -- the children end where an item that is no deeper begins
              have hends {vs : List (Tree α)} (hv : GradedAll depth n vs) :
                  ∀ c ∈ (flattenAll vs).head?, ¬n + 1 ≤ depth c := fun c hc => by
                have := hv.head c hc
                omega
              obtain ⟨hchildren, hrest⟩ := Outline.span_unique (p := fun c => n + 1 ≤ depth c) h
                hcs.depth_le (hends hts) hds.depth_le (hends hus)
              rw [ih hcs hds hchildren (by omega), ih hts hus hrest (by omega)]

end depths

/-! ### Editing the first tree with a property -/

section edits
variable (p : α → Prop) [DecidablePred p] (edit : α → List (Tree α) → List (Tree α))

mutual

/-- The trees in the place of a tree once its first subtree whose item has the property is edited;
`none` if there is no such item. -/
def Tree.editFirst : Tree α → Option (List (Tree α))
  | .node a cs => if p a then some (edit a cs) else (editFirstIn cs).map fun cs' => [.node a cs']

def editFirstIn : List (Tree α) → Option (List (Tree α))
  | [] => none
  | t :: ts =>
      match t.editFirst with
      | some us => some (us ++ ts)
      | none => (editFirstIn ts).map fun ts' => t :: ts'

end

/-- What an edit does to the items of some trees. -/
def EditSpec (depth : α → ℕ) (n : ℕ) (items : List α) : Option (List (Tree α)) → Prop
  | none => ∀ a ∈ items, ¬p a
  | some us => ∃ pre a cs post, items = pre ++ a :: (flattenAll cs ++ post) ∧ (∀ b ∈ pre, ¬p b) ∧
      p a ∧ GradedAll depth (depth a + 1) cs ∧ (∀ b ∈ post.head?, depth b ≤ depth a) ∧
      flattenAll us = pre ++ (flattenAll (edit a cs) ++ post) ∧
      (GradedAll depth (depth a) (edit a cs) → GradedAll depth n us)

variable {p edit} {depth : α → ℕ}

mutual

theorem editFirst_spec {n : ℕ} : ∀ (t : Tree α), Tree.Graded depth n t →
    EditSpec p edit depth n t.flatten (t.editFirst p edit)
  | .node a cs, ⟨hroot, hchildren⟩ => by
      rw [Tree.editFirst, Tree.flatten]
      split_ifs with ha
      · exact ⟨[], a, cs, [], by simp, by simp, ha, hroot ▸ hchildren, by simp, by simp,
          fun h => hroot ▸ h⟩
      · have ih := editFirstIn_spec cs hchildren
        cases hcs : editFirstIn p edit cs with
        | none =>
            rw [hcs] at ih
            exact List.forall_mem_cons.mpr ⟨ha, ih⟩
        | some cs' =>
            rw [hcs] at ih
            obtain ⟨pre, b, ds, post, hitems, hpre, hb, hds, hpost, hflat, hgraded⟩ := ih
            refine ⟨a :: pre, b, ds, post, by rw [hitems]; rfl, List.forall_mem_cons.mpr ⟨ha, hpre⟩,
              hb, hds, hpost, ?_, fun h => ⟨⟨hroot, hgraded h⟩, trivial⟩⟩
            rw [flattenAll_singleton, Tree.flatten, hflat, List.cons_append]

theorem editFirstIn_spec {n : ℕ} : ∀ (ts : List (Tree α)), GradedAll depth n ts →
    EditSpec p edit depth n (flattenAll ts) (editFirstIn p edit ts)
  | [], _ => by
      rw [editFirstIn, flattenAll]
      simp [EditSpec]
  | t :: ts, ⟨hhead, htail⟩ => by
      have ih := editFirst_spec t hhead
      have ih' := editFirstIn_spec ts htail
      rw [editFirstIn, flattenAll]
      cases ht : t.editFirst p edit with
      | some us =>
          rw [ht] at ih
          obtain ⟨pre, a, cs, post, hitems, hpre, ha, hcs, hpost, hflat, hgraded⟩ := ih
          refine ⟨pre, a, cs, post ++ flattenAll ts, by rw [hitems]; simp, hpre, ha, hcs, ?_, ?_,
            fun h => gradedAll_append.mpr ⟨hgraded h, htail⟩⟩
          · cases post with
            | nil =>
                intro b hb
                have hdeep := hhead.depth_le a (by rw [hitems]; simp)
                have hnext := htail.head b hb
                omega
            | cons c post => exact hpost
          · rw [flattenAll_append, hflat]
            simp
      | none =>
          rw [ht] at ih
          cases hts : editFirstIn p edit ts with
          | none =>
              rw [hts] at ih'
              exact List.forall_mem_append.mpr ⟨ih, ih'⟩
          | some ts' =>
              rw [hts] at ih'
              obtain ⟨pre, a, cs, post, hitems, hpre, ha, hcs, hpost, hflat, hgraded⟩ := ih'
              refine ⟨t.flatten ++ pre, a, cs, post, by rw [hitems]; simp,
                List.forall_mem_append.mpr ⟨ih, hpre⟩, ha, hcs, hpost, ?_,
                fun h => ⟨hhead, hgraded h⟩⟩
              rw [flattenAll, hflat, List.append_assoc]

end

end edits

end Forest
