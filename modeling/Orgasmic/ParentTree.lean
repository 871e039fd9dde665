import Mathlib.Data.List.Nodup
import Orgasmic.Ancestry
import Orgasmic.Text
import Std.Data.TreeMap

/-! # The parent tree of a node class

`validateParentTree` takes the nodes of a class with their `:PARENT:` values and builds the tree
that the read models use: the parent of every node and the children of every node.

* **Passes.** The first pass rejects an id that was there before and a parent that is the node
  itself or of another class; the second a parent that is not among the nodes; the third climbs
  from every node and rejects a climb that passes an element twice. A last pass collects the
  children in the order of the nodes.
* **Climbs.** The loops of the third pass and of `ancestorChain` are cut off after a number of
  steps (`fuel`); a loop that is not over by then has no result.
* **Completeness.** The tree is built exactly when the nodes are a `ParentForest`
  (`validateParentTree_complete`), and then every climb ends and the two maps are inverse. -/

namespace Orgasmic

open Std Text Relation

inductive NodeIdClass
  | task
  | decision
  | term
  | artifact
deriving DecidableEq, Repr

namespace NodeIdClass

/-- The `ID_PREFIX` of the class's descriptor. -/
def idPrefix : NodeIdClass → Text
  | task => "TASK-".toList
  | decision => "dec_".toList
  | term => "term_".toList
  | artifact => "ART-".toList

def matchesIdPrefix (cls : NodeIdClass) (id : Text) : Bool :=
  cls.idPrefix.isPrefixOf id || (decide (cls = term) && "term:".toList.isPrefixOf id)

end NodeIdClass

/-- The errors of this file's functions that the validation of a tree can return. -/
inductive ParentTreeError
  | wrongClass (id parent : Text) (expected : NodeIdClass)
  | missingParent (id parent : Text)
  | selfParent (id : Text)
  | cycle (chain : List Text)
  | duplicateId (id : Text)
  | unknownId (id : Text)
deriving DecidableEq, Repr

structure ParentTreeNode where
  id : Text
  parent : Option Text
deriving DecidableEq, Repr

def validateParentPointer (cls : NodeIdClass) (id parent : Text) : Except ParentTreeError Unit :=
  if parent = id then .error (.selfParent id)
  else if cls.matchesIdPrefix parent then .ok ()
  else .error (.wrongClass id parent cls)

structure ParentTree where
  parents : TreeMap Text (Option Text)
  children : TreeMap Text (List Text)

namespace ParentTree

def parentOf (tree : ParentTree) (id : Text) : Except ParentTreeError (Option Text) :=
  match tree.parents[id]? with
  | some parent => .ok parent
  | none => .error (.unknownId id)

def childrenOf (tree : ParentTree) (id : Text) : List Text := (tree.children[id]?).getD []

def ancestorLoop (tree : ParentTree) : ℕ → List Text → Text →
    Option (Except ParentTreeError (List Text))
  | 0, _, _ => none
  | fuel + 1, out, current =>
      match tree.parentOf current with
      | .error err => some (.error err)
      | .ok none => some (.ok out)
      | .ok (some parent) => tree.ancestorLoop fuel (out ++ [parent]) parent

/-- Ancestors from nearest parent toward the root. -/
def ancestorChain (tree : ParentTree) (fuel : ℕ) (id : Text) :
    Option (Except ParentTreeError (List Text)) :=
  if tree.parents.contains id then tree.ancestorLoop fuel [] id
  else some (.error (.unknownId id))

end ParentTree

/-! ### The passes -/

/-- The first pass: the parents by id, and the ids in the order of the nodes. -/
def collectNodes (cls : NodeIdClass) : List ParentTreeNode → TreeMap Text (Option Text) →
    List Text → Except ParentTreeError (TreeMap Text (Option Text) × List Text)
  | [], parents, ordered => .ok (parents, ordered)
  | node :: nodes, parents, ordered =>
      if parents.contains node.id then .error (.duplicateId node.id)
      else
        match node.parent with
        | none => collectNodes cls nodes (parents.insert node.id none) (ordered ++ [node.id])
        | some parent =>
            match validateParentPointer cls node.id parent with
            | .error err => .error err
            | .ok () =>
                collectNodes cls nodes (parents.insert node.id (some parent)) (ordered ++ [node.id])

/-- The second pass: the first node, by id, whose parent is not there. -/
def missingParent (parents : TreeMap Text (Option Text)) : Option ParentTreeError :=
  parents.toList.findSome? fun entry =>
    match entry.2 with
    | none => none
    | some parent =>
        if parents.contains parent then none else some (.missingParent entry.1 parent)

/-- `parents.get(current).and_then(…)`. -/
def parentIn (parents : TreeMap Text (Option Text)) (current : Text) : Option Text :=
  (parents[current]?).bind id

/-- The third pass: climb from every id, in order. -/
def findCycle (fuel : ℕ) (parents : TreeMap Text (Option Text)) :
    List Text → Option (Option ParentTreeError)
  | [] => some none
  | id :: ids =>
      match Ancestry.repeated (parentIn parents) fuel [] [id] id with
      | none => none
      | some (some chain) => some (some (.cycle chain))
      | some none => findCycle fuel parents ids

/-- The last pass. -/
def collectChildren (parents : TreeMap Text (Option Text)) :
    List Text → TreeMap Text (List Text) → TreeMap Text (List Text)
  | [], children => children
  | id :: ids, children =>
      match parentIn parents id with
      | none => collectChildren parents ids children
      | some parent =>
          collectChildren parents ids
            (children.insert parent ((children[parent]?).getD [] ++ [id]))

/-- Validate a same-class `:PARENT:` tree. -/
def validateParentTree (fuel : ℕ) (cls : NodeIdClass) (nodes : List ParentTreeNode) :
    Option (Except ParentTreeError ParentTree) :=
  match collectNodes cls nodes ∅ [] with
  | .error err => some (.error err)
  | .ok (parents, ordered) =>
      match missingParent parents with
      | some err => some (.error err)
      | none =>
          match findCycle fuel parents parents.keys with
          | none => none
          | some (some err) => some (.error err)
          | some none => some (.ok ⟨parents, collectChildren parents ordered ∅⟩)

/-! ### What a tree is for -/

/-- `parent` is the `:PARENT:` of the node `child`. -/
def ParentIs (nodes : List ParentTreeNode) (child parent : Text) : Prop :=
  (⟨child, some parent⟩ : ParentTreeNode) ∈ nodes

/-- The nodes are those of a forest: ids tell them apart, every parent is another node of the class
that is there, and nobody is his own ancestor. -/
structure ParentForest (cls : NodeIdClass) (nodes : List ParentTreeNode) : Prop where
  distinct : (nodes.map (·.id)).Nodup
  different : ∀ child parent, ParentIs nodes child parent → parent ≠ child
  sameClass : ∀ child parent, ParentIs nodes child parent → cls.matchesIdPrefix parent = true
  present : ∀ child parent, ParentIs nodes child parent → parent ∈ nodes.map (·.id)
  acyclic : ∀ id, ¬ TransGen (ParentIs nodes) id id

/-! ### The first pass -/

/-- The map holds the parents of the nodes. -/
def Records (parents : TreeMap Text (Option Text)) (nodes : List ParentTreeNode) : Prop :=
  ∀ id parent, parents[id]? = some parent ↔ (⟨id, parent⟩ : ParentTreeNode) ∈ nodes

namespace Records

variable {parents : TreeMap Text (Option Text)} {nodes : List ParentTreeNode}

theorem empty : Records ∅ [] := by
  intro id parent
  rw [TreeMap.getElem?_emptyc]
  simp only [reduceCtorEq, List.not_mem_nil]

theorem contains_iff (h : Records parents nodes) (id : Text) :
    parents.contains id = true ↔ id ∈ nodes.map (·.id) := by
  rw [TreeMap.contains_eq_isSome_getElem?, Option.isSome_iff_exists, List.mem_map]
  constructor
  · rintro ⟨parent, found⟩
    exact ⟨⟨id, parent⟩, (h id parent).mp found, rfl⟩
  · rintro ⟨node, mem, rfl⟩
    exact ⟨node.parent, (h node.id node.parent).mpr mem⟩

theorem parentIn_iff (h : Records parents nodes) (child parent : Text) :
    parentIn parents child = some parent ↔ ParentIs nodes child parent := by
  rw [parentIn, Option.bind_eq_some_iff]
  constructor
  · rintro ⟨stored, found, rfl⟩
    exact (h child (some parent)).mp found
  · intro mem
    exact ⟨some parent, (h child (some parent)).mpr mem, rfl⟩

theorem points (h : Records parents nodes) :
    Ancestry.Points (parentIn parents) = ParentIs nodes := by
  funext child parent
  exact propext (h.parentIn_iff child parent)

theorem insert (h : Records parents nodes) {node : ParentTreeNode}
    (new : node.id ∉ nodes.map (·.id)) :
    Records (parents.insert node.id node.parent) (nodes ++ [node]) := by
  intro id parent
  rw [List.mem_append, List.mem_singleton, TreeMap.getElem?_insert]
  by_cases same : node.id = id
  · rw [if_pos (by rw [LawfulEqCmp.compare_eq_iff_eq]; exact same)]
    subst same
    constructor
    · intro eq
      obtain rfl := Option.some.inj eq
      exact .inr rfl
    · rintro (mem | eq)
      · exact absurd (List.mem_map.mpr ⟨_, mem, rfl⟩) new
      · rw [← eq]
  · rw [if_neg (by rwa [LawfulEqCmp.compare_eq_iff_eq]), h id parent]
    constructor
    · exact .inl
    · rintro (mem | eq)
      · exact mem
      · exact absurd (congrArg ParentTreeNode.id eq.symm) same

end Records

/-- The parent of the node is another node of the class. -/
def PointerOk (cls : NodeIdClass) (node : ParentTreeNode) : Prop :=
  ∀ parent, node.parent = some parent → parent ≠ node.id ∧ cls.matchesIdPrefix parent = true

theorem validateParentPointer_ok {cls : NodeIdClass} {id parent : Text} :
    validateParentPointer cls id parent = .ok () ↔
      parent ≠ id ∧ cls.matchesIdPrefix parent = true := by
  rw [validateParentPointer]
  by_cases self : parent = id
  · simp [self]
  · cases cls.matchesIdPrefix parent <;> simp [self]

theorem collectNodes_cons {cls : NodeIdClass} {node : ParentTreeNode} {nodes : List ParentTreeNode}
    {parents : TreeMap Text (Option Text)} {ordered : List Text}
    (new : parents.contains node.id = false) (pointer : PointerOk cls node) :
    collectNodes cls (node :: nodes) parents ordered =
      collectNodes cls nodes (parents.insert node.id node.parent) (ordered ++ [node.id]) := by
  rw [collectNodes, new]
  cases own : node.parent with
  | none => rfl
  | some parent => simp only [validateParentPointer_ok.mpr (pointer parent own), Bool.false_eq_true,
      if_false]

theorem collectNodes_cons_error {cls : NodeIdClass} {node : ParentTreeNode}
    {nodes : List ParentTreeNode} {parents : TreeMap Text (Option Text)} {ordered : List Text}
    (bad : parents.contains node.id = true ∨ ¬ PointerOk cls node) :
    ∃ err, collectNodes cls (node :: nodes) parents ordered = .error err := by
  rw [collectNodes]
  cases there : parents.contains node.id with
  | true => exact ⟨_, rfl⟩
  | false =>
      cases own : node.parent with
      | none =>
          refine absurd (bad.resolve_left (by rw [there]; exact Bool.false_ne_true)) ?_
          rw [not_not, PointerOk, own]
          rintro parent ⟨⟩
      | some parent =>
          cases checked : validateParentPointer cls node.id parent with
          | error err => exact ⟨err, by simp only [checked, Bool.false_eq_true, if_false]⟩
          | ok =>
              refine absurd (bad.resolve_left (by rw [there]; exact Bool.false_ne_true)) ?_
              rw [not_not, PointerOk, own]
              rintro _ ⟨⟩
              exact validateParentPointer_ok.mp checked

theorem collectNodes_ok {cls : NodeIdClass} {nodes done : List ParentTreeNode}
    {parents parents' : TreeMap Text (Option Text)} {ordered : List Text}
    (records : Records parents done) (apart : (done.map (·.id)).Nodup)
    (h : collectNodes cls nodes parents (done.map (·.id)) = .ok (parents', ordered)) :
    Records parents' (done ++ nodes) ∧ ordered = (done ++ nodes).map (·.id) ∧
      ((done ++ nodes).map (·.id)).Nodup ∧ ∀ node ∈ nodes, PointerOk cls node := by
  induction nodes generalizing parents done with
  | nil =>
      obtain ⟨rfl, rfl⟩ := Prod.mk.inj (Except.ok.inj h)
      rw [List.append_nil]
      exact ⟨records, rfl, apart, fun node mem => absurd mem List.not_mem_nil⟩
  | cons node nodes ih =>
      by_cases bad : parents.contains node.id = true ∨ ¬ PointerOk cls node
      · obtain ⟨err, herr⟩ := collectNodes_cons_error bad
        rw [herr] at h
        cases h
      · obtain ⟨new, pointer⟩ := not_or.mp bad
        rw [not_not] at pointer
        rw [collectNodes_cons (Bool.eq_false_iff.mpr new) pointer] at h
        rw [records.contains_iff] at new
        have apart' : ((done ++ [node]).map (·.id)).Nodup := by
          rw [List.map_append]
          exact apart.append (List.nodup_singleton _) (List.disjoint_singleton.mpr new)
        have ordered' : done.map (·.id) ++ [node.id] = (done ++ [node]).map (·.id) := by
          rw [List.map_append, List.map_singleton]
        rw [ordered'] at h
        obtain ⟨all, order, nodup, pointers⟩ := ih (records.insert new) apart' h
        rw [List.append_assoc, List.singleton_append] at all order nodup
        exact ⟨all, order, nodup, List.forall_mem_cons.mpr ⟨pointer, pointers⟩⟩

theorem collectNodes_total {cls : NodeIdClass} {nodes done : List ParentTreeNode}
    {parents : TreeMap Text (Option Text)} (records : Records parents done)
    (apart : ((done ++ nodes).map (·.id)).Nodup) (pointers : ∀ node ∈ nodes, PointerOk cls node)
    (ordered : List Text) :
    ∃ result, collectNodes cls nodes parents ordered = .ok result := by
  induction nodes generalizing parents done ordered with
  | nil => exact ⟨_, rfl⟩
  | cons node nodes ih =>
      obtain ⟨pointer, pointers⟩ := List.forall_mem_cons.mp pointers
      rw [← List.singleton_append, ← List.append_assoc] at apart
      have new : node.id ∉ done.map (·.id) := by
        rw [List.map_append, List.map_append, List.map_singleton] at apart
        exact List.disjoint_singleton.mp (List.disjoint_of_nodup_append apart.of_append_left)
      rw [collectNodes_cons
        (Bool.eq_false_iff.mpr fun there => new ((records.contains_iff _).mp there)) pointer]
      exact ih (records.insert new) apart pointers _

/-! ### The other passes -/

section passes

variable {parents : TreeMap Text (Option Text)} {nodes : List ParentTreeNode}

theorem missingParent_eq_none (records : Records parents nodes) :
    missingParent parents = none ↔
      ∀ child parent, ParentIs nodes child parent → parent ∈ nodes.map (·.id) := by
  rw [missingParent, List.findSome?_eq_none_iff]
  constructor
  · intro none_missing child parent up
    have entry := none_missing (child, some parent)
      (TreeMap.mem_toList_iff_getElem?_eq_some.mpr ((records child (some parent)).mpr up))
    simp only [ite_eq_left_iff, reduceCtorEq, imp_false, not_not] at entry
    exact (records.contains_iff parent).mp entry
  · rintro present ⟨child, parent⟩ mem
    have found := TreeMap.mem_toList_iff_getElem?_eq_some.mp mem
    cases parent with
    | none => rfl
    | some parent =>
        exact if_pos ((records.contains_iff parent).mpr
          (present child parent ((records child (some parent)).mp found)))

theorem findCycle_ok {fuel : ℕ} {ids : List Text} (h : findCycle fuel parents ids = some none) :
    ∀ id ∈ ids, ∃ above, Ancestry.climb (parentIn parents) fuel id = some above := by
  induction ids with
  | nil => exact fun id mem => absurd mem List.not_mem_nil
  | cons id ids ih =>
      rw [findCycle] at h
      cases found : Ancestry.repeated (parentIn parents) fuel [] [id] id with
      | none =>
          rw [found] at h
          cases h
      | some result =>
          rw [found] at h
          cases result with
          | some chain => cases h
          | none => exact List.forall_mem_cons.mpr ⟨Ancestry.climb_of_repeated found, ih h⟩

theorem findCycle_of_acyclic (acyclic : Ancestry.Acyclic (parentIn parents)) {targets : List Text}
    (closed : ∀ a b, parentIn parents a = some b → b ∈ targets) {fuel : ℕ}
    (enough : targets.length < fuel) (ids : List Text) :
    findCycle fuel parents ids = some none := by
  induction ids with
  | nil => rfl
  | cons id ids ih =>
      rw [findCycle, Ancestry.repeated_eq_none acyclic closed enough]
      exact ih

theorem findCycle_ends {targets : List Text}
    (closed : ∀ a b, parentIn parents a = some b → b ∈ targets) {fuel : ℕ}
    (enough : targets.length < fuel) (ids : List Text) : findCycle fuel parents ids ≠ none := by
  induction ids with
  | nil => simp only [findCycle, ne_eq, reduceCtorEq, not_false_eq_true]
  | cons id ids ih =>
      rw [findCycle]
      have ends := Ancestry.repeated_ends closed (.nil : ([] : List Text).Nodup)
        (List.nil_subset _) (by simpa using enough) [id] id
      cases found : Ancestry.repeated (parentIn parents) fuel [] [id] id with
      | none => exact absurd found ends
      | some result =>
          cases result with
          | some chain => simp only [ne_eq, reduceCtorEq, not_false_eq_true]
          | none => exact ih

/-- The last pass appends to the children of every parent, in the order of the ids. -/
theorem collectChildren_getD (ids : List Text) (children : TreeMap Text (List Text))
    (parent : Text) :
    ((collectChildren parents ids children)[parent]?).getD [] =
      (children[parent]?).getD [] ++ ids.filter (parentIn parents · = some parent) := by
  induction ids generalizing children with
  | nil => rw [collectChildren, List.filter_nil, List.append_nil]
  | cons id ids ih =>
      rw [collectChildren]
      cases up : parentIn parents id with
      | none =>
          rw [ih, List.filter_cons_of_neg (by simp only [up, reduceCtorEq, decide_false,
            Bool.false_eq_true, not_false_eq_true])]
      | some other =>
          simp only
          rw [ih, TreeMap.getElem?_insert]
          by_cases same : other = parent
          · subst same
            rw [if_pos (by rw [LawfulEqCmp.compare_eq_iff_eq]), Option.getD_some,
              List.filter_cons_of_pos (by rw [up, decide_eq_true_eq]), List.append_assoc,
              List.singleton_append]
          · rw [if_neg (by rwa [LawfulEqCmp.compare_eq_iff_eq]),
              List.filter_cons_of_neg (by simpa only [up, Option.some.injEq, decide_eq_true_eq])]

end passes

/-! ### The validated tree -/

/-- What the passes have established of the tree that they return. -/
structure Validated (cls : NodeIdClass) (nodes : List ParentTreeNode) (tree : ParentTree) :
    Prop where
  records : Records tree.parents nodes
  forest : ParentForest cls nodes
  children : ∀ parent, tree.childrenOf parent =
    (nodes.map (·.id)).filter (parentIn tree.parents · = some parent)

theorem pointerOk_iff {cls : NodeIdClass} {nodes : List ParentTreeNode} :
    (∀ node ∈ nodes, PointerOk cls node) ↔ ∀ child parent, ParentIs nodes child parent →
      parent ≠ child ∧ cls.matchesIdPrefix parent = true := by
  constructor
  · exact fun ok child parent up => ok _ up parent rfl
  · rintro ok ⟨child, _⟩ mem parent rfl
    exact ok child parent mem

theorem ParentForest.closed {cls : NodeIdClass} {nodes : List ParentTreeNode}
    {parents : TreeMap Text (Option Text)} (forest : ParentForest cls nodes)
    (records : Records parents nodes) (child parent : Text)
    (up : parentIn parents child = some parent) : parent ∈ nodes.map (·.id) :=
  forest.present child parent ((records.parentIn_iff child parent).mp up)

theorem validated_of_ok {cls : NodeIdClass} {nodes : List ParentTreeNode} {fuel : ℕ}
    {tree : ParentTree} (h : validateParentTree fuel cls nodes = some (.ok tree)) :
    Validated cls nodes tree := by
  rw [validateParentTree] at h
  cases collected : collectNodes cls nodes ∅ [] with
  | error err =>
      rw [collected] at h
      cases h
  | ok result =>
      obtain ⟨parents, ordered⟩ := result
      rw [collected] at h
      obtain ⟨records, rfl, distinct, pointers⟩ :=
        collectNodes_ok (Records.empty : Records ∅ []) .nil collected
      rw [List.nil_append] at records distinct h
      simp only at h
      cases missing : missingParent parents with
      | some err =>
          rw [missing] at h
          cases h
      | none =>
          rw [missing] at h
          simp only at h
          cases searched : findCycle fuel parents parents.keys with
          | none =>
              rw [searched] at h
              cases h
          | some found =>
              rw [searched] at h
              cases found with
              | some err => cases h
              | none =>
                  obtain rfl := Except.ok.inj (Option.some.inj h)
                  refine ⟨records, ⟨distinct, ?_, ?_, ?_, ?_⟩, ?_⟩
                  · exact fun child parent up => (pointerOk_iff.mp pointers child parent up).1
                  · exact fun child parent up => (pointerOk_iff.mp pointers child parent up).2
                  · exact (missingParent_eq_none records).mp missing
                  · intro id cycle
                    -- whoever is on a cycle has a parent, so the third pass climbed from it
                    obtain ⟨parent, up, -⟩ := TransGen.head'_iff.mp cycle
                    have known : id ∈ parents.keys := by
                      rw [TreeMap.mem_keys, TreeMap.mem_iff_contains, records.contains_iff]
                      exact List.mem_map.mpr ⟨_, up, rfl⟩
                    obtain ⟨above, climbed⟩ := findCycle_ok searched id known
                    refine Ancestry.not_cyclic_of_climb climbed ?_
                    rwa [records.points]
                  · intro parent
                    rw [ParentTree.childrenOf, collectChildren_getD, TreeMap.getElem?_emptyc]
                    rfl

/-- On a forest the validation succeeds, given one step more than there are nodes. -/
theorem ok_of_forest {cls : NodeIdClass} {nodes : List ParentTreeNode} {fuel : ℕ}
    (enough : nodes.length < fuel) (forest : ParentForest cls nodes) :
    ∃ tree, validateParentTree fuel cls nodes = some (.ok tree) := by
  obtain ⟨⟨parents, ordered⟩, collected⟩ :=
    collectNodes_total (Records.empty : Records ∅ []) forest.distinct
      (pointerOk_iff.mpr fun child parent up =>
        ⟨forest.different child parent up, forest.sameClass child parent up⟩) []
  obtain ⟨records, -⟩ := collectNodes_ok (Records.empty : Records ∅ []) .nil collected
  rw [List.nil_append] at records
  have acyclic : Ancestry.Acyclic (parentIn parents) := by
    rw [Ancestry.Acyclic, records.points]
    exact forest.acyclic
  refine ⟨⟨parents, collectChildren parents ordered ∅⟩, ?_⟩
  simp only [validateParentTree, collected, (missingParent_eq_none records).mpr forest.present,
    findCycle_of_acyclic acyclic (forest.closed records) (by rwa [List.length_map])]

theorem validateParentTree_ends {cls : NodeIdClass} {nodes : List ParentTreeNode} {fuel : ℕ}
    (enough : nodes.length < fuel) : (validateParentTree fuel cls nodes).isSome = true := by
  rw [validateParentTree]
  cases collected : collectNodes cls nodes ∅ [] with
  | error err => rfl
  | ok result =>
      obtain ⟨parents, ordered⟩ := result
      obtain ⟨records, -⟩ := collectNodes_ok (Records.empty : Records ∅ []) .nil collected
      rw [List.nil_append] at records
      simp only
      cases missing : missingParent parents with
      | some err => rfl
      | none =>
          simp only
          have closed : ∀ a b, parentIn parents a = some b → b ∈ nodes.map (·.id) := fun a b up =>
            (missingParent_eq_none records).mp missing a b ((records.parentIn_iff a b).mp up)
          have ends := findCycle_ends closed
            (show (nodes.map (·.id)).length < fuel by rwa [List.length_map]) parents.keys
          cases searched : findCycle fuel parents parents.keys with
          | none => exact absurd searched ends
          | some found => cases found <;> rfl

namespace Validated

variable {cls : NodeIdClass} {nodes : List ParentTreeNode} {tree : ParentTree}

theorem parentOf_of_mem (h : Validated cls nodes tree) {id : Text} (mem : id ∈ nodes.map (·.id)) :
    tree.parentOf id = .ok (parentIn tree.parents id) := by
  rw [← h.records.contains_iff, TreeMap.contains_eq_isSome_getElem?, Option.isSome_iff_exists]
    at mem
  obtain ⟨parent, found⟩ := mem
  rw [ParentTree.parentOf, parentIn, found]
  rfl

theorem parentOf_eq_some (h : Validated cls nodes tree) (child parent : Text) :
    tree.parentOf child = .ok (some parent) ↔ ParentIs nodes child parent := by
  rw [ParentTree.parentOf]
  cases found : tree.parents[child]? with
  | none =>
      refine iff_of_false (by simp only [reduceCtorEq, not_false_eq_true]) ?_
      rw [← h.records.parentIn_iff, parentIn, found]
      simp only [Option.bind_none, reduceCtorEq, not_false_eq_true]
  | some stored =>
      rw [← h.records.parentIn_iff, parentIn, found]
      simp only [Except.ok.injEq, Option.bind_some, id_eq]

theorem childrenOf_eq (h : Validated cls nodes tree) (parent : Text) :
    tree.childrenOf parent = (nodes.filter (·.parent = some parent)).map (·.id) := by
  rw [h.children, List.filter_map]
  congr 1
  refine List.filter_congr fun node mem => ?_
  have found := (h.records node.id node.parent).mpr mem
  simp only [Function.comp_apply, parentIn, found, Option.bind_some, id_eq]

theorem mem_childrenOf (h : Validated cls nodes tree) (child parent : Text) :
    child ∈ tree.childrenOf parent ↔ ParentIs nodes child parent := by
  rw [h.childrenOf_eq, List.mem_map]
  constructor
  · rintro ⟨⟨id, stored⟩, mem, rfl⟩
    obtain ⟨mem, own⟩ := List.mem_filter.mp mem
    rw [decide_eq_true_eq] at own
    subst own
    exact mem
  · exact fun up => ⟨_, List.mem_filter.mpr ⟨up, decide_eq_true rfl⟩, rfl⟩

theorem acyclic (h : Validated cls nodes tree) : Ancestry.Acyclic (parentIn tree.parents) := by
  rw [Ancestry.Acyclic, h.records.points]
  exact h.forest.acyclic

theorem ancestorLoop_of_climb (h : Validated cls nodes tree) {fuel : ℕ} {out above : List Text}
    {id : Text} (known : id ∈ nodes.map (·.id))
    (climbed : Ancestry.climb (parentIn tree.parents) fuel id = some above) :
    tree.ancestorLoop fuel out id = some (.ok (out ++ above)) := by
  induction fuel generalizing out above id with
  | zero => cases climbed
  | succ fuel ih =>
      rw [ParentTree.ancestorLoop, h.parentOf_of_mem known]
      cases up : parentIn tree.parents id with
      | none =>
          rw [Ancestry.climb_root up] at climbed
          obtain rfl := Option.some.inj climbed
          rw [List.append_nil]
      | some parent =>
          rw [Ancestry.climb_step up] at climbed
          obtain ⟨rest, hrest, rfl⟩ := Option.map_eq_some_iff.mp climbed
          simp only
          rw [ih (h.forest.closed h.records id parent up) hrest, List.append_assoc,
            List.singleton_append]

/-- Every chain of ancestors ends at a root and meets nobody twice. -/
theorem ancestorChain_ok (h : Validated cls nodes tree) {fuel : ℕ} (enough : nodes.length < fuel)
    {id : Text} (known : id ∈ nodes.map (·.id)) :
    ∃ chain, tree.ancestorChain fuel id = some (.ok chain) ∧ (id :: chain).Nodup ∧
      List.IsChain (ParentIs nodes) (id :: chain) ∧
      tree.parentOf (chain.getLastD id) = .ok none := by
  obtain ⟨chain, climbed⟩ := Ancestry.exists_climb h.acyclic (h.forest.closed h.records)
    (by rwa [List.length_map]) id
  obtain ⟨linked, root⟩ := Ancestry.isChain_of_climb climbed
  have last : chain.getLastD id ∈ nodes.map (·.id) := by
    cases chain with
    | nil => exact known
    | cons parent chain =>
        rw [List.getLastD_cons]
        exact Ancestry.subset_of_isChain (h.forest.closed h.records) linked
          (List.getLastD_mem_cons ..)
  refine ⟨chain, ?_, Ancestry.nodup_of_isChain h.acyclic linked, ?_, ?_⟩
  · rw [ParentTree.ancestorChain, if_pos ((h.records.contains_iff id).mpr known),
      h.ancestorLoop_of_climb known climbed, List.nil_append]
  · rwa [h.records.points] at linked
  · rw [h.parentOf_of_mem last, root]

end Validated

/-- The validation accepts exactly the forests, and its tree answers every question about them. -/
theorem validateParentTree_complete (cls : NodeIdClass) (nodes : List ParentTreeNode) (fuel : ℕ)
    (enough : nodes.length < fuel) :
    (validateParentTree fuel cls nodes).isSome = true ∧
      ((∃ tree, validateParentTree fuel cls nodes = some (.ok tree)) ↔ ParentForest cls nodes) ∧
      ∀ tree, validateParentTree fuel cls nodes = some (.ok tree) →
        (∀ id ∈ nodes.map (·.id), ∃ chain, tree.ancestorChain fuel id = some (.ok chain) ∧
          (id :: chain).Nodup ∧ List.IsChain (ParentIs nodes) (id :: chain) ∧
          tree.parentOf (chain.getLastD id) = .ok none) ∧
        (∀ child parent, tree.parentOf child = .ok (some parent) ↔
          child ∈ tree.childrenOf parent) ∧
        ∀ parent, tree.childrenOf parent =
          (nodes.filter (·.parent = some parent)).map (·.id) := by
  refine ⟨validateParentTree_ends enough, ⟨?_, ok_of_forest enough⟩, ?_⟩
  · rintro ⟨tree, ok⟩
    exact (validated_of_ok ok).forest
  · intro tree ok
    have valid := validated_of_ok ok
    refine ⟨fun id known => valid.ancestorChain_ok enough known, ?_, valid.childrenOf_eq⟩
    intro child parent
    rw [valid.parentOf_eq_some, valid.mem_childrenOf]

/-- Three generations of decisions. -/
def generations : List ParentTreeNode :=
  [⟨"dec_ROOT".toList, none⟩, ⟨"dec_CHILD".toList, some "dec_ROOT".toList⟩,
    ⟨"dec_GRAND".toList, some "dec_CHILD".toList⟩]

theorem validateParentTree_complete_sample :
    ∃ tree, validateParentTree 4 .decision generations = some (.ok tree) ∧
      ParentForest .decision generations ∧
      tree.childrenOf "dec_ROOT".toList = ["dec_CHILD".toList] := by
  obtain ⟨-, accepts, facts⟩ :=
    validateParentTree_complete .decision generations 4 (by decide)
  have accepted : ∃ tree, validateParentTree 4 .decision generations = some (.ok tree) :=
    ⟨_, rfl⟩
  obtain ⟨tree, ok⟩ := accepted
  obtain ⟨-, -, children⟩ := facts tree ok
  refine ⟨tree, ok, accepts.mp ⟨tree, ok⟩, ?_⟩
  rw [children]
  decide

end Orgasmic
