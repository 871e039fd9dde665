import Mathlib.Data.Nat.Digits.Defs
import Orgasmic.Numbering
import Orgasmic.ParentTree

/-! # The tree of the decisions

`buildDecisionTreeIndex` numbers the decisions of a project as the sections of a book.

* **Roots** are the decisions without a parent, with a parent that is not there, and with
  themselves as parent; the children of a decision are those that name it, in the order of the
  decisions.
* **Paths** (`assignDecisionTreePaths`).  From every root downward: the path of a child is the path
  of its parent, a dot, and the position among the siblings.  What has a path is left alone.
* **Errors.**  The strict validation of the tree is asked too; its error is reported and changes
  nothing. -/

namespace Orgasmic

open Std Text Relation

/-- The fields of a decision that the tree is about. -/
structure DecisionSummary where
  id : Text
  parent : Option Text
  children : List Text
  depth : Option ℕ
  path : Option Text
  sourceFile : Text
deriving DecidableEq, Repr

structure DecisionTreeEntry where
  parent : Option Text
  children : List Text
  depth : ℕ
  path : Text
deriving DecidableEq, Repr

/-- What is reported of the validation's error. -/
structure DecisionTreeError where
  path : Text
  message : Text
deriving DecidableEq, Repr

structure DecisionTreeIndex where
  decisions : List DecisionSummary
  decisionTree : TreeMap Text DecisionTreeEntry
  parseErrors : List DecisionTreeError

/-! ### The error -/

/-- The class as `Debug` prints it. -/
def NodeIdClass.debug : NodeIdClass → Text
  | task => "Task".toList
  | decision => "Decision".toList
  | term => "Term".toList
  | artifact => "Artifact".toList

def ParentTreeError.display : ParentTreeError → Text
  | wrongClass id parent expected =>
      id ++ " has parent ".toList ++ parent ++ ", but :PARENT: must point at a ".toList ++
        expected.debug ++ " id".toList
  | missingParent id parent => id ++ " has orphan parent ".toList ++ parent
  | selfParent id => id ++ " cannot be its own parent".toList
  | cycle chain => ":PARENT: cycle detected: ".toList ++ " -> ".toList.intercalate chain
  | duplicateId id => "duplicate parent-tree id ".toList ++ id
  | unknownId id => "unknown parent-tree id ".toList ++ id

/-- The decision that the error is about. -/
def ParentTreeError.idForPath : ParentTreeError → Option Text
  | wrongClass id _ _ | missingParent id _ | selfParent id | duplicateId id | unknownId id => some id
  | cycle chain => chain.head?

/-- `decisions_dir` is where the decisions of the project are kept. -/
def decisionTreeParseError (decisionsDir : Text) (decisions : List DecisionSummary)
    (err : ParentTreeError) : DecisionTreeError :=
  { path := ((err.idForPath.bind fun id => decisions.find? (·.id = id)).map (·.sourceFile)).getD
      decisionsDir
    message := "decision tree :PARENT: error: ".toList ++ err.display }

/-! ### The tree -/

/-- The number in decimal digits. -/
def ordinal (n : ℕ) : Text := Nat.toDigits 10 n

/-- Number what is below a decision, from its own path on. -/
def assignDecisionTreePaths (children : TreeMap Text (List Text)) : ℕ → Text → ℕ → Text →
    TreeMap Text (ℕ × Text) → Option (TreeMap Text (ℕ × Text))
  | 0, _, _, _, _ => none
  | fuel + 1, id, depth, path, out =>
      if out.contains id then some out
      else ((children[id]?).getD []).zipIdx.foldlM
        (fun out kid =>
          assignDecisionTreePaths children fuel kid.1 (depth + 1)
            (path ++ '.' :: ordinal (kid.2 + 1)) out)
        (out.insert id (depth, path))

/-- The children of every parent that is there. -/
def decisionChildren (ids : List Text) : List DecisionSummary → TreeMap Text (List Text) →
    TreeMap Text (List Text)
  | [], children => children
  | decision :: decisions, children =>
      match decision.parent with
      | none => decisionChildren ids decisions children
      | some parent =>
          if parent ∈ ids ∧ parent ≠ decision.id then
            decisionChildren ids decisions
              (children.insert parent ((children[parent]?).getD [] ++ [decision.id]))
          else decisionChildren ids decisions children

def isTreeRoot (ids : List Text) (decision : DecisionSummary) : Bool :=
  match decision.parent with
  | none => true
  | some parent => decide (parent ∉ ids) || decide (parent = decision.id)

def treeRoots (ids : List Text) (decisions : List DecisionSummary) : List Text :=
  (decisions.filter (isTreeRoot ids)).map (·.id)

/-- The last loop: every decision takes its children out of the map and gets its path. -/
def placeDecisions (assigned : TreeMap Text (ℕ × Text)) : List DecisionSummary →
    TreeMap Text (List Text) → TreeMap Text DecisionTreeEntry →
    List DecisionSummary × TreeMap Text DecisionTreeEntry
  | [], _, tree => ([], tree)
  | decision :: decisions, children, tree =>
      let entryChildren := (children[decision.id]?).getD []
      match assigned[decision.id]? with
      | some (depth, path) =>
          let rest := placeDecisions assigned decisions (children.erase decision.id)
            (tree.insert decision.id ⟨decision.parent, entryChildren, depth, path⟩)
          ({ decision with depth := some depth, path := some path, children := entryChildren } ::
            rest.1, rest.2)
      | none =>
          let rest := placeDecisions assigned decisions (children.erase decision.id) tree
          ({ decision with children := entryChildren } :: rest.1, rest.2)

def buildDecisionTreeIndex (fuel : ℕ) (decisionsDir : Text) (decisions : List DecisionSummary) :
    Option DecisionTreeIndex := do
  let decisions := decisions.map fun decision =>
    { decision with children := [], depth := none, path := none }
  let nodes := decisions.map fun decision => (⟨decision.id, decision.parent⟩ : ParentTreeNode)
  let validated ← validateParentTree fuel .decision nodes
  let ids := decisions.map (·.id)
  let children := decisionChildren ids decisions ∅
  let assigned ← (treeRoots ids decisions).zipIdx.foldlM
    (fun out root => assignDecisionTreePaths children fuel root.1 0 (ordinal (root.2 + 1)) out) ∅
  let placed := placeDecisions assigned decisions children ∅
  pure
    { decisions := placed.1
      decisionTree := placed.2
      parseErrors := match validated with
        | .error err => [decisionTreeParseError decisionsDir decisions err]
        | .ok _ => [] }

/-! ### What the tree is -/

/-- Following the parent, if it is there and another one. -/
def KnownParent (decisions : List DecisionSummary) (child parent : Text) : Prop :=
  ∃ d ∈ decisions, d.id = child ∧ d.parent = some parent ∧ parent ∈ decisions.map (·.id) ∧
    parent ≠ child

/-- A decision without a parent, with an unknown one, or with itself. -/
def IsTreeRoot (decisions : List DecisionSummary) (id : Text) : Prop :=
  ∃ d ∈ decisions, d.id = id ∧
    ∀ parent, d.parent = some parent → parent ∉ decisions.map (·.id) ∨ parent = id

def LeadsToRoot (decisions : List DecisionSummary) (id : Text) : Prop :=
  ∃ root, ReflTransGen (KnownParent decisions) id root ∧ IsTreeRoot decisions root

def OnOrBelowCycle (decisions : List DecisionSummary) (id : Text) : Prop :=
  ∃ b, ReflTransGen (KnownParent decisions) id b ∧ TransGen (KnownParent decisions) b b

/-- The parent of the decision with the id, if it is there and another one. -/
def knownParent (decisions : List DecisionSummary) (id : Text) : Option Text :=
  (decisions.find? (·.id = id)).bind fun d =>
    d.parent.filter fun parent => parent ∈ decisions.map (·.id) ∧ parent ≠ d.id

/-- The children of the decision with the id, in the order of the decisions. -/
def knownChildren (decisions : List DecisionSummary) (id : Text) : List Text :=
  (decisions.filter fun d => d.parent = some id ∧ id ∈ decisions.map (·.id) ∧ id ≠ d.id).map (·.id)

section

variable {decisions : List DecisionSummary}

theorem eq_of_id (distinct : (decisions.map (·.id)).Nodup) {d d' : DecisionSummary}
    (mem : d ∈ decisions) (mem' : d' ∈ decisions) (same : d.id = d'.id) : d = d' :=
  List.inj_on_of_nodup_map distinct mem mem' same

theorem find?_id_iff (distinct : (decisions.map (·.id)).Nodup) {id : Text} {d : DecisionSummary} :
    decisions.find? (·.id = id) = some d ↔ d ∈ decisions ∧ d.id = id := by
  constructor
  · intro found
    exact ⟨List.mem_of_find?_eq_some found, by simpa using List.find?_some found⟩
  · rintro ⟨mem, rfl⟩
    cases found : decisions.find? (·.id = d.id) with
    | none => exact absurd (decide_eq_true rfl) (List.find?_eq_none.mp found d mem)
    | some d' =>
        have same : d'.id = d.id := by simpa using List.find?_some found
        rw [eq_of_id distinct (List.mem_of_find?_eq_some found) mem same]

theorem knownParent_iff (distinct : (decisions.map (·.id)).Nodup) {child parent : Text} :
    knownParent decisions child = some parent ↔ KnownParent decisions child parent := by
  rw [knownParent, Option.bind_eq_some_iff]
  constructor
  · rintro ⟨d, found, kept⟩
    obtain ⟨own, there⟩ := Option.filter_eq_some_iff.mp kept
    obtain ⟨mem, rfl⟩ := (find?_id_iff distinct).mp found
    obtain ⟨known, other⟩ := of_decide_eq_true there
    exact ⟨d, mem, rfl, own, known, other⟩
  · rintro ⟨d, mem, rfl, own, known, other⟩
    exact ⟨d, (find?_id_iff distinct).mpr ⟨mem, rfl⟩, Option.filter_eq_some_iff.mpr
      ⟨own, decide_eq_true ⟨known, other⟩⟩⟩

theorem points_knownParent (distinct : (decisions.map (·.id)).Nodup) :
    Ancestry.Points (knownParent decisions) = KnownParent decisions := by
  funext child parent
  exact propext (knownParent_iff distinct)

theorem mem_knownChildren {child parent : Text} :
    child ∈ knownChildren decisions parent ↔ KnownParent decisions child parent := by
  rw [knownChildren, List.mem_map]
  constructor
  · rintro ⟨d, kept, rfl⟩
    obtain ⟨mem, own⟩ := List.mem_filter.mp kept
    obtain ⟨own, known, other⟩ := of_decide_eq_true own
    exact ⟨d, mem, rfl, own, known, other⟩
  · rintro ⟨d, mem, rfl, own, known, other⟩
    exact ⟨d, List.mem_filter.mpr ⟨mem, decide_eq_true ⟨own, known, other⟩⟩, rfl⟩

theorem mem_treeRoots {id : Text} :
    id ∈ treeRoots (decisions.map (·.id)) decisions ↔ IsTreeRoot decisions id := by
  rw [treeRoots, List.mem_map]
  constructor
  · rintro ⟨d, kept, rfl⟩
    obtain ⟨mem, root⟩ := List.mem_filter.mp kept
    refine ⟨d, mem, rfl, fun parent own => ?_⟩
    rw [isTreeRoot, own] at root
    exact (Bool.or_eq_true_iff.mp root).imp of_decide_eq_true of_decide_eq_true
  · rintro ⟨d, mem, rfl, top⟩
    refine ⟨d, List.mem_filter.mpr ⟨mem, ?_⟩, rfl⟩
    rw [isTreeRoot]
    cases own : d.parent with
    | none => rfl
    | some parent =>
        exact Bool.or_eq_true_iff.mpr ((top parent own).imp decide_eq_true decide_eq_true)

theorem IsTreeRoot.top {id parent : Text} (distinct : (decisions.map (·.id)).Nodup)
    (root : IsTreeRoot decisions id) : ¬ KnownParent decisions id parent := by
  obtain ⟨d, mem, rfl, top⟩ := root
  rintro ⟨d', mem', same, own, known, other⟩
  rw [eq_of_id distinct mem' mem same] at own
  obtain unknown | self := top parent own
  · exact unknown known
  · exact other self

/-- Who has no known parent is a root. -/
theorem isTreeRoot_of_top {d : DecisionSummary} (mem : d ∈ decisions)
    (top : ∀ parent, ¬ KnownParent decisions d.id parent) : IsTreeRoot decisions d.id := by
  refine ⟨d, mem, rfl, fun parent own => ?_⟩
  by_contra! known
  exact top parent ⟨d, mem, rfl, own, known.1, known.2⟩

/-- The roots and the children are the lists of the known parents. -/
theorem lists_of_distinct (distinct : (decisions.map (·.id)).Nodup) :
    Numbering.Lists (knownParent decisions) (treeRoots (decisions.map (·.id)) decisions)
      (knownChildren decisions) where
  mem_kids b c := mem_knownChildren.trans (knownParent_iff distinct).symm
  top a mem := by
    cases above : knownParent decisions a with
    | none => rfl
    | some parent =>
        exact absurd ((knownParent_iff distinct).mp above) ((mem_treeRoots.mp mem).top distinct)
  kids_nodup b := distinct.sublist (List.filter_sublist.map _)
  roots_nodup := distinct.sublist (List.filter_sublist.map _)

theorem known_of_parent (distinct : (decisions.map (·.id)).Nodup) (child parent : Text)
    (above : knownParent decisions child = some parent) : parent ∈ decisions.map (·.id) := by
  obtain ⟨d, -, -, -, known, -⟩ := (knownParent_iff distinct).mp above
  exact known

/-- Whoever has a known parent is a decision. -/
theorem KnownParent.mem {child parent : Text} (h : KnownParent decisions child parent) :
    child ∈ decisions.map (·.id) := by
  obtain ⟨d, mem, rfl, -⟩ := h
  exact List.mem_map_of_mem mem

theorem leadsToRoot_iff (distinct : (decisions.map (·.id)).Nodup) {d : DecisionSummary}
    (mem : d ∈ decisions) : LeadsToRoot decisions d.id ↔ ¬ OnOrBelowCycle decisions d.id := by
  rw [LeadsToRoot, OnOrBelowCycle, ← points_knownParent distinct]
  constructor
  · rintro ⟨root, way, top⟩ ⟨b, to_b, cycle⟩
    have none_above : knownParent decisions root = none :=
      (lists_of_distinct distinct).top root (mem_treeRoots.mpr top)
    obtain below | above := Numbering.comparable way to_b
    · obtain rfl | ⟨c, first, -⟩ := ReflTransGen.cases_head below
      · obtain ⟨c, first, -⟩ := TransGen.head'_iff.mp cycle
        exact absurd (none_above.symm.trans first) nofun
      · exact absurd (none_above.symm.trans first) nofun
    · obtain ⟨n, rest, climbed⟩ := Ancestry.climb_of_reaches above none_above
      exact Ancestry.not_cyclic_of_climb climbed cycle
  · intro free
    cases climbed : Ancestry.climb (knownParent decisions) ((decisions.map (·.id)).length + 1) d.id with
    | none =>
        obtain ⟨b, to_b, cycle⟩ :=
          Ancestry.exists_cycle (known_of_parent distinct) (Nat.lt_succ_self _) climbed
        exact absurd ⟨b, to_b.to_reflTransGen, cycle⟩ free
    | some above =>
        obtain ⟨root, way, none_above⟩ := Ancestry.reaches_of_climb climbed
        refine ⟨root, way, ?_⟩
        have known : root ∈ decisions.map (·.id) := by
          obtain rfl | ⟨c, -, last⟩ := ReflTransGen.cases_tail way
          · exact List.mem_map_of_mem mem
          · exact known_of_parent distinct c root last
        obtain ⟨top, is_decision, rfl⟩ := List.mem_map.mp known
        refine isTreeRoot_of_top is_decision fun parent above => ?_
        rw [(knownParent_iff distinct).mpr above] at none_above
        cases none_above

end

/-! ### The paths as texts -/

/-- The text of a place: the positions, counted from one, between dots. -/
def sectionText (place : List ℕ) : Text := ['.'].intercalate (place.map fun i => ordinal (i + 1))

theorem sectionText_concat {place : List ℕ} (ne : place ≠ []) (i : ℕ) :
    sectionText (place ++ [i]) = sectionText place ++ '.' :: ordinal (i + 1) := by
  induction place with
  | nil => exact absurd rfl ne
  | cons j place ih =>
      cases place with
      | nil => simp [sectionText]
      | cons k place =>
          have rest := ih (List.cons_ne_nil _ _)
          simp only [sectionText, List.map_cons, List.cons_append, List.intercalate_cons_cons] at rest ⊢
          rw [rest]
          simp only [List.append_assoc]

theorem dot_not_mem_ordinal (n : ℕ) : '.' ∉ ordinal n := by
  intro mem
  exact absurd (Nat.isDigit_of_mem_toDigits (by omega) (by omega) mem) (by decide)

theorem ordinal_inj {n m : ℕ} (h : ordinal n = ordinal m) : n = m := by
  have digits := congrArg (Nat.ofDigitChars 10 · 0) h
  simpa only [ordinal, Nat.ofDigitChars_ten_toDigits] using digits

theorem sectionText_inj {v w : List ℕ} (hv : v ≠ []) (hw : w ≠ []) (h : sectionText v = sectionText w) :
    v = w := by
  have pieces : ∀ {u : List ℕ}, u ≠ [] →
      (sectionText u).splitOn '.' = u.map fun i => ordinal (i + 1) := by
    intro u hu
    refine List.splitOn_intercalate '.' ?_ (by simpa using hu)
    intro piece mem
    obtain ⟨i, -, rfl⟩ := List.mem_map.mp mem
    exact dot_not_mem_ordinal _
  have same := congrArg (List.splitOn '.') h
  rw [pieces hv, pieces hw] at same
  refine List.map_injective_iff.mpr ?_ same
  intro i j eq
  have := ordinal_inj eq
  omega

/-- The depth is the number of dots. -/
theorem count_sectionText {v : List ℕ} (hv : v ≠ []) : (sectionText v).count '.' = v.length - 1 := by
  induction v using List.reverseRecOn with
  | nil => exact absurd rfl hv
  | append_singleton v i ih =>
      have none_in : (ordinal (i + 1)).count '.' = 0 :=
        List.count_eq_zero.mpr (dot_not_mem_ordinal _)
      by_cases first : v = []
      · subst first
        simpa [sectionText] using none_in
      · have positive := List.length_pos_iff.mpr first
        rw [sectionText_concat first, List.count_append, List.count_cons_self, none_in, ih first,
          List.length_append, List.length_singleton]
        omega

/-! ### The numbering -/

/-- What is stored of a place. -/
def placeValue (place : List ℕ) : ℕ × Text := (place.length - 1, sectionText place)

/-- The second map has the entries of the first and those of the places. -/
def Adds (out out' : TreeMap Text (ℕ × Text)) (places : Text → List ℕ → Prop) : Prop :=
  ∀ x value, out'[x]? = some value ↔
    out[x]? = some value ∨ ∃ v, places x v ∧ value = placeValue v

/-- Trees that have nothing in common are numbered one after the other. -/
theorem foldlM_adds (f : TreeMap Text (ℕ × Text) → Text × ℕ → Option (TreeMap Text (ℕ × Text)))
    (places : ℕ → Text → Text → List ℕ → Prop) (ids : List Text) (k : ℕ)
    (out : TreeMap Text (ℕ × Text))
    (one : ∀ (i : ℕ) (c : Text) out, ids[i]? = some c →
      (∀ x v, places (k + i) c x v → out[x]? = none) →
      ∃ out', f out (c, k + i) = some out' ∧ Adds out out' (places (k + i) c))
    (apart : ∀ (i j : ℕ) (b c x : Text) v v', ids[i]? = some b → ids[j]? = some c →
      places (k + i) b x v → places (k + j) c x v' → i = j)
    (fresh : ∀ (i : ℕ) (c x : Text) v, ids[i]? = some c → places (k + i) c x v → out[x]? = none) :
    ∃ out', (ids.zipIdx k).foldlM f out = some out' ∧
      Adds out out' fun x v => ∃ (i : ℕ) (c : Text), ids[i]? = some c ∧ places (k + i) c x v := by
  induction ids generalizing k out with
  | nil => exact ⟨out, rfl, fun x value => by simp⟩
  | cons first ids ih =>
      obtain ⟨out₁, placed, adds₁⟩ := one 0 first out rfl fun x v => fresh 0 first x v rfl
      have shift : ∀ i, k + 1 + i = k + (i + 1) := fun i => by omega
      obtain ⟨out', rest, adds⟩ := ih (k + 1) out₁
        (fun i c out at_i new => by
          rw [shift] at new ⊢
          exact one (i + 1) c out at_i new)
        (fun i j b c x v v' at_i at_j hb hc => by
          rw [shift] at hb hc
          exact Nat.succ.inj (apart (i + 1) (j + 1) b c x v v' at_i at_j hb hc))
        (fun i c x v at_i hc => by
          -- neither there before nor in the first tree
          rw [shift] at hc
          cases found : out₁[x]? with
          | none => rfl
          | some value =>
              obtain old | ⟨u, below, -⟩ := (adds₁ x value).mp found
              · rw [fresh (i + 1) c x v at_i hc] at old
                cases old
              · exact absurd (apart 0 (i + 1) first c x u v rfl at_i below hc) (by omega))
      refine ⟨out', ?_, fun x value => ?_⟩
      · rw [List.zipIdx_cons, List.foldlM_cons, ← Nat.add_zero k, placed]
        exact rest
      · rw [adds, adds₁, or_assoc]
        refine or_congr_right ?_
        constructor
        · rintro (⟨v, below, eq⟩ | ⟨v, ⟨i, c, at_i, below⟩, eq⟩)
          · exact ⟨v, ⟨0, first, rfl, below⟩, eq⟩
          · exact ⟨v, ⟨i + 1, c, at_i, shift i ▸ below⟩, eq⟩
        · rintro ⟨v, ⟨_ | i, c, at_i, below⟩, eq⟩
          · obtain rfl := Option.some.inj at_i
            exact .inl ⟨v, below, eq⟩
          · exact .inr ⟨v, ⟨i, c, at_i, (shift i).symm ▸ below⟩, eq⟩

section

variable {up : Text → Option Text} {roots known : List Text} {children : TreeMap Text (List Text)}

/-- The children in the map. -/
def kidsIn (children : TreeMap Text (List Text)) (id : Text) : List Text := (children[id]?).getD []

/-- Numbering from an element that has its place: everything below it gets its own. -/
theorem assignDecisionTreePaths_adds (lists : Numbering.Lists up roots (kidsIn children))
    (closed : ∀ a b, up a = some b → b ∈ known) (placed_known : ∀ a v,
      Numbering.Numbered roots (kidsIn children) a v → a ∈ known)
    {fuel : ℕ} {id : Text} {w : List ℕ} {out : TreeMap Text (ℕ × Text)}
    (place : Numbering.Numbered roots (kidsIn children) id w)
    (enough : known.length < fuel + w.length)
    (fresh : ∀ x v, Numbering.Below (kidsIn children) id w x v → out[x]? = none) :
    ∃ out', assignDecisionTreePaths children fuel id (w.length - 1) (sectionText w) out = some out' ∧
      Adds out out' (Numbering.Below (kidsIn children) id w) := by
  induction fuel generalizing id w out with
  | zero =>
      have short := place.length_le lists closed (placed_known id w place)
      omega
  | succ fuel ih =>
      have positive := List.length_pos_iff.mpr place.ne_nil
      have new : out.contains id = false := by
        rw [TreeMap.contains_eq_isSome_getElem?, fresh id w .self]
        rfl
      have free := place.not_cyclic lists
      have here : ∀ x, (out.insert id (placeValue w))[x]? =
          if id = x then some (placeValue w) else out[x]? := by
        intro x
        rw [TreeMap.getElem?_insert]
        simp only [LawfulEqCmp.compare_eq_iff_eq]
      obtain ⟨out', rest, adds⟩ := foldlM_adds
        (fun out kid => assignDecisionTreePaths children fuel kid.1 (w.length - 1 + 1)
          (sectionText w ++ '.' :: ordinal (kid.2 + 1)) out)
        (fun i c => Numbering.Below (kidsIn children) c (w ++ [i]))
        (kidsIn children id) 0 (out.insert id (placeValue w))
        (fun i c out at_i new => by
          rw [Nat.zero_add] at new ⊢
          have step := ih (place.child at_i) (by rw [List.length_append]; simp; omega) new
          rw [sectionText_concat place.ne_nil, List.length_append, List.length_singleton,
            show w.length + 1 - 1 = w.length - 1 + 1 by omega] at step
          exact step)
        (fun i j b c x v v' at_i at_j hb hc => by
          obtain rfl := Numbering.apart_of_children lists free (List.mem_of_getElem? at_i)
            (List.mem_of_getElem? at_j) hb hc
          exact Numbering.getElem?_inj (lists.kids_nodup id) at_i at_j)
        (fun i c x v at_i hc => by
          rw [Nat.zero_add] at hc
          have other : id ≠ x := by
            rintro rfl
            -- its own child would be above it
            have way := hc.reaches lists
            exact free (.tail' way ((lists.mem_kids _ _).mp (List.mem_of_getElem? at_i)))
          rw [here, if_neg other]
          exact fresh x v (Numbering.below_iff.mpr (.inr ⟨i, c, at_i, hc⟩)))
      refine ⟨out', ?_, fun x value => ?_⟩
      · rw [assignDecisionTreePaths, new]
        exact rest
      · rw [adds, here]
        constructor
        · rintro (stored | ⟨v, ⟨i, c, at_i, below⟩, eq⟩)
          · split at stored
            · next same =>
                subst same
                exact .inr ⟨w, .self, (Option.some.inj stored).symm⟩
            · exact .inl stored
          · rw [Nat.zero_add] at below
            exact .inr ⟨v, Numbering.below_iff.mpr (.inr ⟨i, c, at_i, below⟩), eq⟩
        · rintro (old | ⟨v, below, eq⟩)
          · have other : id ≠ x := by
              rintro rfl
              rw [fresh id w .self] at old
              cases old
            exact .inl (by rw [if_neg other, old])
          · obtain ⟨rfl, rfl⟩ | ⟨i, c, at_i, below⟩ := Numbering.below_iff.mp below
            · exact .inl (by rw [if_pos rfl, eq])
            · exact .inr ⟨v, ⟨i, c, at_i, by rwa [Nat.zero_add]⟩, eq⟩

/-- **The numbering.**  From the roots, everything that has a place gets it, and nothing else. -/
theorem assignRoots_adds (lists : Numbering.Lists up roots (kidsIn children))
    (closed : ∀ a b, up a = some b → b ∈ known) (placed_known : ∀ a v,
      Numbering.Numbered roots (kidsIn children) a v → a ∈ known)
    {fuel : ℕ} (enough : known.length ≤ fuel) :
    ∃ assigned, roots.zipIdx.foldlM (fun out root =>
        assignDecisionTreePaths children fuel root.1 0 (ordinal (root.2 + 1)) out)
          (∅ : TreeMap Text (ℕ × Text)) = some assigned ∧
      ∀ x value, assigned[x]? = some value ↔
        ∃ v, Numbering.Numbered roots (kidsIn children) x v ∧ value = placeValue v := by
  obtain ⟨assigned, built, adds⟩ := foldlM_adds
    (fun out root => assignDecisionTreePaths children fuel root.1 0 (ordinal (root.2 + 1)) out)
    (fun i c => Numbering.Below (kidsIn children) c [i]) roots 0 ∅
    (fun i c out at_i new => by
      rw [Nat.zero_add] at new ⊢
      have tree := assignDecisionTreePaths_adds lists closed placed_known (.root at_i)
        (show known.length < fuel + [i].length by rw [List.length_singleton]; omega) new
      have text : sectionText [i] = ordinal (i + 1) := List.intercalate_singleton
      rwa [text] at tree)
    (fun i j b c x v v' at_i at_j hb hc => by
      obtain rfl := Numbering.apart_of_roots lists (List.mem_of_getElem? at_i)
        (List.mem_of_getElem? at_j) hb hc
      exact Numbering.getElem?_inj lists.roots_nodup at_i at_j)
    (fun i c x v _ _ => TreeMap.getElem?_emptyc)
  refine ⟨assigned, built, fun x value => ?_⟩
  rw [adds, TreeMap.getElem?_emptyc]
  simp only [reduceCtorEq, false_or, Nat.zero_add, Numbering.numbered_iff_below]

end

/-! ### The other loops -/

theorem decisionChildren_getD (ids : List Text) (decisions : List DecisionSummary)
    (children : TreeMap Text (List Text)) (parent : Text) :
    kidsIn (decisionChildren ids decisions children) parent = kidsIn children parent ++
      (decisions.filter fun d => d.parent = some parent ∧ parent ∈ ids ∧ parent ≠ d.id).map (·.id) := by
  induction decisions generalizing children with
  | nil => rw [decisionChildren, List.filter_nil, List.map_nil, List.append_nil]
  | cons d decisions ih =>
      rw [decisionChildren]
      cases own : d.parent with
      | none =>
          rw [ih, List.filter_cons_of_neg (by simp [own])]
      | some other =>
          dsimp only
          by_cases same : other = parent
          · subst same
            split
            · next known =>
                rw [ih, List.filter_cons_of_pos (by simpa [own] using known), kidsIn, kidsIn,
                  TreeMap.getElem?_insert_self, Option.getD_some, List.map_cons, List.append_assoc,
                  List.singleton_append]
            · next unknown =>
                rw [ih, List.filter_cons_of_neg (by simpa [own] using unknown)]
          · rw [List.filter_cons_of_neg (by simp [own, same])]
            split
            · rw [ih, kidsIn, kidsIn, TreeMap.getElem?_insert,
                if_neg (by rwa [LawfulEqCmp.compare_eq_iff_eq])]
            · exact ih children

theorem kidsIn_decisionChildren (decisions : List DecisionSummary) :
    kidsIn (decisionChildren (decisions.map (·.id)) decisions ∅) = knownChildren decisions := by
  funext parent
  rw [decisionChildren_getD, kidsIn, TreeMap.getElem?_emptyc]
  rfl

/-- A decision with its children, its depth and its path. -/
def DecisionSummary.placed (assigned : TreeMap Text (ℕ × Text)) (children : TreeMap Text (List Text))
    (decision : DecisionSummary) : DecisionSummary :=
  match assigned[decision.id]? with
  | some (depth, path) =>
      { decision with depth := some depth, path := some path, children := kidsIn children decision.id }
  | none => { decision with children := kidsIn children decision.id }

/-- The entry of a decision that has a path. -/
def DecisionSummary.entry (decision : DecisionSummary) : Option DecisionTreeEntry :=
  match decision.depth, decision.path with
  | some depth, some path => some ⟨decision.parent, decision.children, depth, path⟩
  | _, _ => none

section

variable {assigned : TreeMap Text (ℕ × Text)} {decisions : List DecisionSummary}

theorem placed_erase {children : TreeMap Text (List Text)} {id : Text} {d : DecisionSummary}
    (other : id ≠ d.id) : d.placed assigned (children.erase id) = d.placed assigned children := by
  have kids : kidsIn (children.erase id) d.id = kidsIn children d.id := by
    rw [kidsIn, kidsIn, TreeMap.getElem?_erase, if_neg (by rwa [LawfulEqCmp.compare_eq_iff_eq])]
  unfold DecisionSummary.placed
  rw [kids]

variable (assigned) in
/-- Taking out the children of one decision changes nothing for the others. -/
theorem map_placed_erase {id : Text} (new : id ∉ decisions.map (·.id))
    (children : TreeMap Text (List Text)) :
    decisions.map (·.placed assigned (children.erase id)) =
      decisions.map (·.placed assigned children) := by
  refine List.map_congr_left fun d mem => placed_erase ?_
  rintro rfl
  exact new (List.mem_map_of_mem mem)

theorem placeDecisions_fst (distinct : (decisions.map (·.id)).Nodup)
    (children : TreeMap Text (List Text)) (tree : TreeMap Text DecisionTreeEntry) :
    (placeDecisions assigned decisions children tree).1 =
      decisions.map (·.placed assigned children) := by
  induction decisions generalizing children tree with
  | nil => rfl
  | cons d decisions ih =>
      obtain ⟨new, distinct⟩ := List.nodup_cons.mp distinct
      have rest := map_placed_erase assigned new children
      rw [placeDecisions, List.map_cons, DecisionSummary.placed]
      cases assigned[d.id]? with
      | none => simp only [ih distinct, rest, kidsIn]
      | some value => simp only [ih distinct, rest, kidsIn]

@[simp]
theorem placed_id (children : TreeMap Text (List Text)) (d : DecisionSummary) :
    (d.placed assigned children).id = d.id := by
  unfold DecisionSummary.placed
  split <;> rfl

theorem placed_entry {children : TreeMap Text (List Text)} {d : DecisionSummary}
    (cleared : d.depth = none) :
    (d.placed assigned children).entry = (assigned[d.id]?).map fun value =>
      ⟨d.parent, kidsIn children d.id, value.1, value.2⟩ := by
  unfold DecisionSummary.placed DecisionSummary.entry
  cases assigned[d.id]? with
  | none => simp only [cleared, Option.map_none]
  | some value => rfl

theorem placeDecisions_snd (distinct : (decisions.map (·.id)).Nodup)
    (cleared : ∀ d ∈ decisions, d.depth = none)
    (children : TreeMap Text (List Text)) (tree : TreeMap Text DecisionTreeEntry) (id : Text) :
    (placeDecisions assigned decisions children tree).2[id]? =
      (((decisions.map (·.placed assigned children)).find? (·.id = id)).bind (·.entry)).or
        tree[id]? := by
  induction decisions generalizing children tree with
  | nil => rfl
  | cons d decisions ih =>
      obtain ⟨new, distinct⟩ := List.nodup_cons.mp distinct
      obtain ⟨first, cleared⟩ := List.forall_mem_cons.mp cleared
      have rest := map_placed_erase assigned new children
      have entry : (d.placed assigned children).entry = _ := placed_entry first
      rw [List.map_cons, List.find?_cons, placed_id]
      by_cases same : d.id = id
      · subst same
        have none_later : (decisions.map (·.placed assigned children)).find? (·.id = d.id) = none := by
          refine List.find?_eq_none.mpr fun d' mem => ?_
          obtain ⟨e, before, rfl⟩ := List.mem_map.mp mem
          rw [placed_id, decide_eq_true_eq]
          intro same
          exact new (List.mem_map.mpr ⟨e, before, same⟩)
        rw [decide_eq_true rfl, Option.bind_some, entry, placeDecisions]
        cases assigned[d.id]? with
        | none => rw [ih distinct cleared, rest, none_later]; rfl
        | some value =>
            dsimp only
            rw [ih distinct cleared, rest, none_later, TreeMap.getElem?_insert_self]
            rfl
      · rw [decide_eq_false same, placeDecisions]
        cases assigned[d.id]? with
        | none => rw [ih distinct cleared, rest]
        | some value =>
            dsimp only
            rw [ih distinct cleared, rest, TreeMap.getElem?_insert,
              if_neg (by rwa [LawfulEqCmp.compare_eq_iff_eq])]

end

/-! ### The whole index -/

/-- A decision before the tree is built. -/
def DecisionSummary.cleared (decision : DecisionSummary) : DecisionSummary :=
  { decision with children := [], depth := none, path := none }

/-- What the validation is given. -/
def treeNodes (decisions : List DecisionSummary) : List ParentTreeNode :=
  decisions.map fun decision => ⟨decision.id, decision.parent⟩

/-- The parent is unknown, the decision itself, or of another class. -/
def BadParent (decisions : List DecisionSummary) (decision : DecisionSummary) : Prop :=
  ∃ parent, decision.parent = some parent ∧
    (parent ∉ decisions.map (·.id) ∨ parent = decision.id ∨
      NodeIdClass.decision.matchesIdPrefix parent = false)

/-- What the index says of the decisions. -/
structure DecisionsNumbered (decisions : List DecisionSummary) (index : DecisionTreeIndex) : Prop where
  same : index.decisions.map (fun d => (d.id, d.parent, d.sourceFile)) =
    decisions.map fun d => (d.id, d.parent, d.sourceFile)
  /-- Exactly the decisions that lead to a root have a path. -/
  path_iff : ∀ d ∈ index.decisions, d.path.isSome ↔ LeadsToRoot decisions d.id
  no_path_iff : ∀ d ∈ index.decisions, d.path = none ↔ OnOrBelowCycle decisions d.id
  /-- And they are the ones with an entry. -/
  entry : ∀ id, index.decisionTree[id]? = (index.decisions.find? (·.id = id)).bind (·.entry)
  depth : ∀ d ∈ index.decisions, d.depth = d.path.map (·.count '.')
  distinct : ∀ d ∈ index.decisions, ∀ d' ∈ index.decisions, d.path.isSome → d.path = d'.path → d = d'
  /-- The position among the siblings is behind the last dot. -/
  child_path : ∀ d ∈ index.decisions, ∀ path, d.path = some path →
    ∀ (i : ℕ), ∀ c ∈ index.decisions, d.children[i]? = some c.id →
      c.path = some (path ++ '.' :: ordinal (i + 1))
  /-- The children stand in the order of the decisions. -/
  children : ∀ d ∈ index.decisions, d.children =
    (index.decisions.filter fun c => c.parent = some d.id ∧ c.id ≠ d.id).map (·.id)
  inverse : ∀ c ∈ index.decisions, ∀ p ∈ index.decisions,
    c.id ∈ p.children ↔ c.parent = some p.id ∧ c.id ≠ p.id

section

variable {decisions : List DecisionSummary} {assigned : TreeMap Text (ℕ × Text)}

/-- The map holds the places of the decisions that have one. -/
def HoldsPlaces (decisions : List DecisionSummary) (assigned : TreeMap Text (ℕ × Text)) : Prop :=
  ∀ x value, assigned[x]? = some value ↔ ∃ v,
    Numbering.Numbered (treeRoots (decisions.map (·.id)) decisions) (knownChildren decisions) x v ∧
      value = placeValue v

/-- The numbering ends, and everybody who can be reached from a root has a place. -/
theorem exists_assigned (distinct : (decisions.map (·.id)).Nodup) {fuel : ℕ}
    (enough : decisions.length ≤ fuel) :
    ∃ assigned, (treeRoots (decisions.map (·.id)) decisions).zipIdx.foldlM
        (fun out root => assignDecisionTreePaths
          (decisionChildren (decisions.map (·.id)) decisions ∅) fuel root.1 0
            (ordinal (root.2 + 1)) out) (∅ : TreeMap Text (ℕ × Text)) = some assigned ∧
      HoldsPlaces decisions assigned := by
  have lists := lists_of_distinct distinct
  rw [← kidsIn_decisionChildren] at lists
  have placed_known : ∀ a v, Numbering.Numbered (treeRoots (decisions.map (·.id)) decisions)
      (kidsIn (decisionChildren (decisions.map (·.id)) decisions ∅)) a v →
        a ∈ decisions.map (·.id) := by
    intro a v place
    cases place with
    | root nth =>
        obtain ⟨d, mem, rfl, -⟩ := mem_treeRoots.mp (List.mem_of_getElem? nth)
        exact List.mem_map_of_mem mem
    | child _ nth =>
        rw [kidsIn_decisionChildren] at nth
        exact (mem_knownChildren.mp (List.mem_of_getElem? nth)).mem
  have enough' : (decisions.map (·.id)).length ≤ fuel := by rwa [List.length_map]
  obtain ⟨assigned, built, places⟩ :=
    assignRoots_adds lists (known_of_parent distinct) placed_known enough'
  rw [kidsIn_decisionChildren] at places
  exact ⟨assigned, built, places⟩

theorem placed_path {children : TreeMap Text (List Text)} {d : DecisionSummary}
    (cleared : d.path = none) :
    (d.placed assigned children).path = (assigned[d.id]?).map (·.2) := by
  unfold DecisionSummary.placed
  cases assigned[d.id]? with
  | none => exact cleared
  | some value => rfl

theorem placed_depth {children : TreeMap Text (List Text)} {d : DecisionSummary}
    (cleared : d.depth = none) :
    (d.placed assigned children).depth = (assigned[d.id]?).map (·.1) := by
  unfold DecisionSummary.placed
  cases assigned[d.id]? with
  | none => exact cleared
  | some value => rfl

@[simp]
theorem placed_parent (children : TreeMap Text (List Text)) (d : DecisionSummary) :
    (d.placed assigned children).parent = d.parent := by
  unfold DecisionSummary.placed
  split <;> rfl

@[simp]
theorem placed_sourceFile (children : TreeMap Text (List Text)) (d : DecisionSummary) :
    (d.placed assigned children).sourceFile = d.sourceFile := by
  unfold DecisionSummary.placed
  split <;> rfl

@[simp]
theorem placed_children (children : TreeMap Text (List Text)) (d : DecisionSummary) :
    (d.placed assigned children).children = kidsIn children d.id := by
  unfold DecisionSummary.placed
  split <;> rfl

theorem HoldsPlaces.path_eq_some (places : HoldsPlaces decisions assigned)
    {children : TreeMap Text (List Text)} {d : DecisionSummary} (cleared : d.path = none)
    {path : Text} :
    (d.placed assigned children).path = some path ↔ ∃ v,
      Numbering.Numbered (treeRoots (decisions.map (·.id)) decisions) (knownChildren decisions)
        d.id v ∧ path = sectionText v := by
  rw [placed_path cleared, Option.map_eq_some_iff]
  constructor
  · rintro ⟨value, found, rfl⟩
    obtain ⟨v, place, rfl⟩ := (places _ _).mp found
    exact ⟨v, place, rfl⟩
  · rintro ⟨v, place, rfl⟩
    exact ⟨placeValue v, (places _ _).mpr ⟨v, place, rfl⟩, rfl⟩

theorem HoldsPlaces.path_isSome (places : HoldsPlaces decisions assigned)
    (distinct : (decisions.map (·.id)).Nodup)
    {children : TreeMap Text (List Text)} {d : DecisionSummary} (cleared : d.path = none) :
    (d.placed assigned children).path.isSome ↔ LeadsToRoot decisions d.id := by
  have has_place := Numbering.exists_numbered_iff (lists_of_distinct distinct) (x := d.id)
  rw [points_knownParent distinct] at has_place
  rw [Option.isSome_iff_exists, LeadsToRoot]
  constructor
  · rintro ⟨path, stored⟩
    obtain ⟨v, place, -⟩ := (places.path_eq_some cleared).mp stored
    obtain ⟨root, mem, way⟩ := has_place.mp ⟨v, place⟩
    exact ⟨root, way, mem_treeRoots.mp mem⟩
  · rintro ⟨root, way, top⟩
    obtain ⟨v, place⟩ := has_place.mpr ⟨root, mem_treeRoots.mpr top, way⟩
    exact ⟨sectionText v, (places.path_eq_some cleared).mpr ⟨v, place, rfl⟩⟩

/-- The children of a decision, read from the placed decisions. -/
theorem knownChildren_placed (children : TreeMap Text (List Text)) {id : Text}
    (known : id ∈ decisions.map (·.id)) :
    knownChildren decisions id =
      ((decisions.map (·.placed assigned children)).filter fun c =>
        c.parent = some id ∧ c.id ≠ id).map (·.id) := by
  rw [knownChildren, List.filter_map, List.map_map]
  have ids : (fun d : DecisionSummary => d.id) ∘ (DecisionSummary.placed assigned children) =
      fun d => d.id := funext fun d => placed_id children d
  rw [ids]
  refine congrArg _ (List.filter_congr fun d _ => ?_)
  simp only [Function.comp_apply, placed_parent, placed_id, known, true_and, ne_comm]

/-- The decisions that the last loop leaves. -/
theorem placed_numbered (places : HoldsPlaces decisions assigned)
    (distinct : (decisions.map (·.id)).Nodup)
    (cleared : ∀ d ∈ decisions, d.depth = none ∧ d.path = none) (errors : List DecisionTreeError) :
    DecisionsNumbered decisions
      ⟨(placeDecisions assigned decisions (decisionChildren (decisions.map (·.id)) decisions ∅) ∅).1,
        (placeDecisions assigned decisions (decisionChildren (decisions.map (·.id)) decisions ∅) ∅).2,
        errors⟩ := by
  have lists := lists_of_distinct distinct
  generalize hmap : decisionChildren (decisions.map (·.id)) decisions ∅ = children
  have kids : kidsIn children = knownChildren decisions := hmap ▸ kidsIn_decisionChildren decisions
  have isSome : ∀ d ∈ decisions, (d.placed assigned children).path.isSome ↔
      LeadsToRoot decisions d.id := fun d mem => places.path_isSome distinct (cleared d mem).2
  have children_eq : ∀ d ∈ decisions, (d.placed assigned children).children =
      ((decisions.map (·.placed assigned children)).filter fun c =>
        c.parent = some (d.placed assigned children).id ∧
          c.id ≠ (d.placed assigned children).id).map (·.id) := by
    intro d mem
    rw [placed_children, kids, placed_id]
    exact knownChildren_placed children (List.mem_map_of_mem mem)
  rw [placeDecisions_fst distinct]
  refine ⟨?_, ?_, ?_, ?_, ?_, ?_, ?_, ?_, ?_⟩
  · simp only [List.map_map]
    refine List.map_congr_left fun d _ => ?_
    simp only [Function.comp_apply, placed_id, placed_parent, placed_sourceFile]
  · refine List.forall_mem_map.mpr fun d mem => ?_
    rw [placed_id]
    exact isSome d mem
  · refine List.forall_mem_map.mpr fun d mem => ?_
    rw [placed_id, ← not_iff_not, ← leadsToRoot_iff distinct mem, ← isSome d mem,
      Option.isSome_iff_ne_none]
  · intro id
    dsimp only
    rw [placeDecisions_snd distinct (fun d mem => (cleared d mem).1), TreeMap.getElem?_emptyc,
      Option.or_none]
  · refine List.forall_mem_map.mpr fun d mem => ?_
    rw [placed_depth (cleared d mem).1, placed_path (cleared d mem).2, Option.map_map]
    cases found : assigned[d.id]? with
    | none => rfl
    | some value =>
        obtain ⟨v, place, rfl⟩ := (places _ _).mp found
        exact congrArg some (count_sectionText place.ne_nil).symm
  · refine List.forall_mem_map.mpr fun d mem => List.forall_mem_map.mpr fun d' mem' => ?_
    intro there same
    obtain ⟨path, stored⟩ := Option.isSome_iff_exists.mp there
    obtain ⟨v, place, rfl⟩ := (places.path_eq_some (cleared d mem).2).mp stored
    obtain ⟨v', place', eq⟩ := (places.path_eq_some (cleared d' mem').2).mp (same.symm.trans stored)
    obtain rfl := sectionText_inj place.ne_nil place'.ne_nil eq
    rw [eq_of_id distinct mem mem' (place.eq_of_place place')]
  · refine List.forall_mem_map.mpr fun d mem path stored i => ?_
    refine List.forall_mem_map.mpr fun c mem' nth => ?_
    obtain ⟨v, place, rfl⟩ := (places.path_eq_some (cleared d mem).2).mp stored
    rw [placed_children, kids, placed_id] at nth
    exact (places.path_eq_some (cleared c mem').2).mpr
      ⟨v ++ [i], place.child nth, (sectionText_concat place.ne_nil i).symm⟩
  · exact List.forall_mem_map.mpr children_eq
  · refine List.forall_mem_map.mpr fun c mem' => List.forall_mem_map.mpr fun p mem => ?_
    rw [placed_children, kids, mem_knownChildren]
    simp only [placed_id, placed_parent]
    constructor
    · rintro ⟨d, mem, same, own, -, other⟩
      rw [eq_of_id distinct mem mem' same] at own
      exact ⟨own, other.symm⟩
    · rintro ⟨own, other⟩
      exact ⟨c, mem', rfl, own, List.mem_map_of_mem mem, other.symm⟩

/-! ### The errors -/

theorem parentIs_treeNodes {child parent : Text} :
    ParentIs (treeNodes decisions) child parent ↔
      ∃ d ∈ decisions, d.id = child ∧ d.parent = some parent := by
  rw [ParentIs, treeNodes, List.mem_map]
  constructor
  · rintro ⟨d, mem, eq⟩
    obtain ⟨rfl, own⟩ := ParentTreeNode.mk.inj eq
    exact ⟨d, mem, rfl, own⟩
  · rintro ⟨d, mem, rfl, own⟩
    exact ⟨d, mem, by rw [own]⟩

theorem treeNodes_ids : (treeNodes decisions).map (·.id) = decisions.map (·.id) := by
  rw [treeNodes, List.map_map]
  rfl

/-- The strict tree exists exactly if no parent is bad and everybody leads to a root. -/
theorem parentForest_iff (distinct : (decisions.map (·.id)).Nodup) :
    ParentForest .decision (treeNodes decisions) ↔
      ∀ d ∈ decisions, ¬ BadParent decisions d ∧ LeadsToRoot decisions d.id := by
  constructor
  · intro forest d mem
    constructor
    · rintro ⟨parent, own, bad⟩
      have up : ParentIs (treeNodes decisions) d.id parent :=
        parentIs_treeNodes.mpr ⟨d, mem, rfl, own⟩
      obtain unknown | self | other := bad
      · exact unknown (treeNodes_ids ▸ forest.present _ _ up)
      · exact forest.different _ _ up self
      · rw [forest.sameClass _ _ up] at other
        cases other
    · rw [leadsToRoot_iff distinct mem]
      rintro ⟨b, -, cycle⟩
      refine forest.acyclic b (TransGen.mono ?_ _ _ cycle)
      rintro child parent ⟨e, there, rfl, own, -⟩
      exact parentIs_treeNodes.mpr ⟨e, there, rfl, own⟩
  · intro good
    have known : ∀ child parent, ParentIs (treeNodes decisions) child parent →
        KnownParent decisions child parent ∧
          NodeIdClass.decision.matchesIdPrefix parent = true := by
      intro child parent up
      obtain ⟨d, mem, rfl, own⟩ := parentIs_treeNodes.mp up
      have fine : ¬ (parent ∉ decisions.map (·.id) ∨ parent = d.id ∨
          NodeIdClass.decision.matchesIdPrefix parent = false) :=
        fun bad => (good d mem).1 ⟨parent, own, bad⟩
      obtain ⟨there, other, cls⟩ : parent ∈ decisions.map (·.id) ∧ parent ≠ d.id ∧
          NodeIdClass.decision.matchesIdPrefix parent = true := by simpa using fine
      exact ⟨⟨d, mem, rfl, own, there, other⟩, cls⟩
    refine ⟨by rwa [treeNodes_ids], ?_, fun c p up => (known c p up).2, ?_, ?_⟩
    · intro child parent up
      obtain ⟨⟨-, -, -, -, -, other⟩, -⟩ := known child parent up
      exact other
    · intro child parent up
      obtain ⟨⟨-, -, -, -, there, -⟩, -⟩ := known child parent up
      rwa [treeNodes_ids]
    · intro id cycle
      have known_cycle : TransGen (KnownParent decisions) id id :=
        TransGen.mono (fun c p up => (known c p up).1) _ _ cycle
      obtain ⟨parent, ⟨d, mem, rfl, -⟩, -⟩ := TransGen.head'_iff.mp known_cycle
      exact (leadsToRoot_iff distinct mem).mp (good d mem).2 ⟨d.id, .refl, known_cycle⟩

theorem validate_error_iff (distinct : (decisions.map (·.id)).Nodup) {fuel : ℕ}
    (enough : decisions.length < fuel) :
    (∃ err, validateParentTree fuel .decision (treeNodes decisions) = some (.error err)) ↔
      ∃ d ∈ decisions, BadParent decisions d ∨ ¬ LeadsToRoot decisions d.id := by
  have enough' : (treeNodes decisions).length < fuel := by rwa [treeNodes, List.length_map]
  obtain ⟨ends, accepts, -⟩ := validateParentTree_complete .decision _ fuel enough'
  obtain ⟨result, validated⟩ := Option.isSome_iff_exists.mp ends
  rw [parentForest_iff distinct] at accepts
  have either : (∃ err, validateParentTree fuel .decision (treeNodes decisions) = some (.error err)) ↔
      ¬ ∃ tree, validateParentTree fuel .decision (treeNodes decisions) = some (.ok tree) := by
    rw [validated]
    cases result <;> simp
  rw [either, accepts]
  simp only [not_forall, not_and_or, not_not, exists_prop]

/-! ### The index -/

theorem map_cleared_ids : (decisions.map (·.cleared)).map (·.id) = decisions.map (·.id) := by
  rw [List.map_map]
  rfl

theorem exists_cleared {P : DecisionSummary → Prop} :
    (∃ d ∈ decisions.map (·.cleared), P d) ↔ ∃ d ∈ decisions, P d.cleared := by
  simp only [List.mem_map, exists_exists_and_eq_and]

theorem knownParent_cleared : KnownParent (decisions.map (·.cleared)) = KnownParent decisions := by
  funext child parent
  rw [KnownParent, KnownParent, map_cleared_ids]
  exact propext exists_cleared

theorem leadsToRoot_cleared : LeadsToRoot (decisions.map (·.cleared)) = LeadsToRoot decisions := by
  have top : IsTreeRoot (decisions.map (·.cleared)) = IsTreeRoot decisions := by
    funext id
    rw [IsTreeRoot, IsTreeRoot, map_cleared_ids]
    exact propext exists_cleared
  funext id
  rw [LeadsToRoot, LeadsToRoot, top, knownParent_cleared]

theorem onOrBelowCycle_cleared :
    OnOrBelowCycle (decisions.map (·.cleared)) = OnOrBelowCycle decisions := by
  funext id
  rw [OnOrBelowCycle, OnOrBelowCycle, knownParent_cleared]

/-- The old results play no part. -/
theorem DecisionsNumbered.of_cleared {index : DecisionTreeIndex}
    (h : DecisionsNumbered (decisions.map (·.cleared)) index) :
    DecisionsNumbered decisions index where
  same := by
    rw [h.same, List.map_map]
    rfl
  path_iff := leadsToRoot_cleared ▸ h.path_iff
  no_path_iff := onOrBelowCycle_cleared ▸ h.no_path_iff
  entry := h.entry
  depth := h.depth
  distinct := h.distinct
  child_path := h.child_path
  children := h.children
  inverse := h.inverse

/-- The decisions of the index are those that it was built from. -/
theorem DecisionsNumbered.exists_iff {index : DecisionTreeIndex}
    (h : DecisionsNumbered decisions index) {P : Text → Option Text → Prop} :
    (∃ d ∈ decisions, P d.id d.parent) ↔ ∃ d ∈ index.decisions, P d.id d.parent := by
  have read : ∀ l : List DecisionSummary, (∃ d ∈ l, P d.id d.parent) ↔
      ∃ value ∈ l.map (fun d => (d.id, d.parent, d.sourceFile)), P value.1 value.2.1 := by
    intro l
    simp only [List.mem_map, exists_exists_and_eq_and]
  rw [read, read, h.same]

/-- **The tree of the decisions.**  For decisions with different ids, whatever their parents are,
the index is built; it numbers exactly the decisions that lead to a root, as `DecisionsNumbered`
says, and the validation reports an error exactly if a parent is bad or a path is missing. -/
theorem buildDecisionTreeIndex_exact (distinct : (decisions.map (·.id)).Nodup) (dir : Text)
    {fuel : ℕ} (enough : decisions.length < fuel) :
    ∃ index, buildDecisionTreeIndex fuel dir decisions = some index ∧
      DecisionsNumbered decisions index ∧
      ((∃ err, validateParentTree fuel .decision (treeNodes decisions) = some (.error err)) ↔
        ∃ d ∈ index.decisions, BadParent decisions d ∨ d.path = none) ∧
      (index.parseErrors ≠ [] ↔
        ∃ err, validateParentTree fuel .decision (treeNodes decisions) = some (.error err)) := by
  have distinct' : ((decisions.map (·.cleared)).map (·.id)).Nodup := by rwa [map_cleared_ids]
  have enough' : (decisions.map (·.cleared)).length ≤ fuel := by
    rw [List.length_map]
    exact enough.le
  have nodes : treeNodes (decisions.map (·.cleared)) = treeNodes decisions := by
    rw [treeNodes, List.map_map]
    rfl
  obtain ⟨ends, -⟩ := validateParentTree_complete .decision (treeNodes decisions) fuel
    (by rwa [treeNodes, List.length_map])
  obtain ⟨validated, hvalidated⟩ := Option.isSome_iff_exists.mp ends
  obtain ⟨assigned, built, places⟩ := exists_assigned distinct' enough'
  have cleared : ∀ d ∈ decisions.map (·.cleared), d.depth = none ∧ d.path = none :=
    List.forall_mem_map.mpr fun _ _ => ⟨rfl, rfl⟩
  have index : buildDecisionTreeIndex fuel dir decisions =
      (validateParentTree fuel .decision (treeNodes (decisions.map (·.cleared)))).bind fun validated =>
        (Option.bind ((treeRoots ((decisions.map (·.cleared)).map (·.id))
            (decisions.map (·.cleared))).zipIdx.foldlM
          (fun out root => assignDecisionTreePaths (decisionChildren
            ((decisions.map (·.cleared)).map (·.id)) (decisions.map (·.cleared)) ∅) fuel root.1 0
              (ordinal (root.2 + 1)) out) (∅ : TreeMap Text (ℕ × Text))) fun assigned =>
          some ⟨(placeDecisions assigned (decisions.map (·.cleared)) (decisionChildren
              ((decisions.map (·.cleared)).map (·.id)) (decisions.map (·.cleared)) ∅) ∅).1,
            (placeDecisions assigned (decisions.map (·.cleared)) (decisionChildren
              ((decisions.map (·.cleared)).map (·.id)) (decisions.map (·.cleared)) ∅) ∅).2,
            match validated with
            | .error err => [decisionTreeParseError dir (decisions.map (·.cleared)) err]
            | .ok _ => []⟩) := rfl
  rw [nodes, hvalidated, Option.bind_some, built, Option.bind_some] at index
  refine ⟨_, index, ?_, ?_, ?_⟩
  · exact (placed_numbered places distinct' cleared _).of_cleared
  · have numbered := (placed_numbered places distinct' cleared []).of_cleared
    rw [validate_error_iff distinct enough]
    refine (numbered.exists_iff (P := fun id parent =>
      BadParent decisions ⟨id, parent, [], none, none, []⟩ ∨ ¬ LeadsToRoot decisions id)).trans ?_
    refine exists_congr fun d => and_congr_right fun mem => or_congr Iff.rfl ?_
    rw [← numbered.path_iff d mem, Option.not_isSome_iff_eq_none]
  · rw [hvalidated]
    cases validated <;> simp

end

/-- A decision that names its parent, as it comes from its file. -/
def decisionNamed (id : Text) (parent : Option Text) : DecisionSummary := ⟨id, parent, [], none, none, []⟩

/-- A root with a child, a decision that is its own parent, and two below each other. -/
theorem buildDecisionTreeIndex_exact_sample :
    let decisions := [decisionNamed "dec_A".toList none,
      decisionNamed "dec_B".toList (some "dec_A".toList),
      decisionNamed "dec_C".toList (some "dec_C".toList),
      decisionNamed "dec_D".toList (some "dec_E".toList),
      decisionNamed "dec_E".toList (some "dec_D".toList)]
    ∃ index, buildDecisionTreeIndex 6 [] decisions = some index ∧
      DecisionsNumbered decisions index ∧
      index.decisions.map (·.path) =
        [some "1".toList, some "1.1".toList, some "2".toList, none, none] := by
  intro decisions
  have distinct : (decisions.map (·.id)).Nodup := by decide
  obtain ⟨index, built, numbered, -⟩ :=
    buildDecisionTreeIndex_exact distinct [] (show decisions.length < 6 by decide)
  refine ⟨index, built, numbered, ?_⟩
  have computed : (buildDecisionTreeIndex 6 [] decisions).map (·.decisions.map (·.path)) =
      some [some "1".toList, some "1.1".toList, some "2".toList, none, none] := by
    decide +kernel
  rw [built] at computed
  exact Option.some.inj computed

end Orgasmic
