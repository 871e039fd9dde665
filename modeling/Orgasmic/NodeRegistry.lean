import Orgasmic.NodeTypes

/-! # The registry of node types

`NodeTypeRegistry` maps the collections of a ledger to their descriptors, and says which collection
an id belongs to.

* **Registration.** `register` refuses a prefix that is a prefix of another one, or has one, also of
  those that the core keeps to itself.
* **Resolution.** `resolveNode` knows the goals, the handoff and the old `term:` ids first; a kind
  is a singleton, an old name of a collection, or a collection.
* **Invariant** (`WellFormed`).  No two registered prefixes are comparable.  It holds of the compiled
  registry (`embedded_spec`), and a registration keeps it (`wellFormed_register`).
* **Result.** `one_owner_iff`: whose id it is, is clear exactly while no collection is called
  `conversation`, which is also an old name of `conversations`. -/

namespace Orgasmic

open Std Text

/-! ### Kinds -/

/-- `NodeKind`. -/
structure NodeKind where
  name : Text
deriving DecidableEq, Repr

namespace NodeKind

def task : NodeKind := ⟨"task".toList⟩
def decision : NodeKind := ⟨"decision".toList⟩
def glossary : NodeKind := ⟨"glossary".toList⟩
def artifact : NodeKind := ⟨"artifact".toList⟩
def project : NodeKind := ⟨"project".toList⟩
def goal : NodeKind := ⟨"goal".toList⟩
def handoff : NodeKind := ⟨"handoff".toList⟩

def collection (collection : Text) : NodeKind :=
  if collection = "tasks".toList then task
  else if collection = "decisions".toList then decision
  else if collection = "glossary".toList then glossary
  else if collection = "artifacts".toList then artifact
  else ⟨collection⟩

def singleton (kind : Text) : Option NodeKind :=
  if kind = "project".toList then some project
  else if kind = "goal".toList then some goal
  else if kind = "handoff".toList then some handoff
  else none

def collectionName (k : NodeKind) : Option Text :=
  if k = project ∨ k = goal ∨ k = handoff then none
  else if k = task then some "tasks".toList
  else if k = decision then some "decisions".toList
  else if k = artifact then some "artifacts".toList
  else some k.name

end NodeKind

/-! ### The registry -/

structure NodeTypeRegistry where
  descriptors : TreeMap Text NodeTypeDescriptor

inductive RegistryError where
  | reservedPrefix (idPrefix : Text)
  | ownedCollection (collection : Text)
  | comparablePrefix (idPrefix collection : Text)
  | badComponent
  | unknownKind (kind : Text)
  | wrongKind (id kind : Text)
  | unknownId (id : Text)
deriving DecidableEq, Repr

def reservedPrefixes : List Text := ["goal-".toList, "handoff-current".toList]

/-- One of the two starts with the other. -/
def comparable (p q : Text) : Bool := p.isPrefixOf q || q.isPrefixOf p

/-- The last element with the greatest key. -/
def maxByKey {α : Type} (key : α → ℕ) : List α → Option α
  | [] => none
  | a :: as =>
      match maxByKey key as with
      | none => some a
      | some b => if key a ≤ key b then some b else some a

/-- The collection that a kind names. -/
def kindCollection (kind : Text) : Text :=
  if kind = "task".toList then "tasks".toList
  else if kind = "decision".toList then "decisions".toList
  else if kind = "term".toList then "glossary".toList
  else if kind = "artifact".toList then "artifacts".toList
  else if kind = "conversation".toList then "conversations".toList
  else kind

namespace NodeTypeRegistry

/-- `descriptors()`, in the order of the collections. -/
def values (r : NodeTypeRegistry) : List NodeTypeDescriptor := r.descriptors.toList.map (·.2)

def descriptor (r : NodeTypeRegistry) (collection : Text) : Option NodeTypeDescriptor :=
  r.descriptors[collection]?

def register (r : NodeTypeRegistry) (descriptor : NodeTypeDescriptor) (replace : Bool) :
    Except RegistryError NodeTypeRegistry :=
  if reservedPrefixes.any (comparable · descriptor.idPrefix) then
    .error (.reservedPrefix descriptor.idPrefix)
  else if !replace && (r.descriptor descriptor.collection).isSome then
    .error (.ownedCollection descriptor.collection)
  else match r.values.find? fun other =>
      other.collection ≠ descriptor.collection && comparable other.idPrefix descriptor.idPrefix with
    | some other => .error (.comparablePrefix descriptor.idPrefix other.collection)
    | none => .ok ⟨r.descriptors.insert descriptor.collection descriptor⟩

def collectionForKind (r : NodeTypeRegistry) (kind : Text) : Option NodeTypeDescriptor :=
  r.descriptor (kindCollection kind)

def descriptorForId (r : NodeTypeRegistry) (id : Text) : Option NodeTypeDescriptor :=
  maxByKey (fun d => byteLen d.idPrefix) (r.values.filter fun d => d.idPrefix.isPrefixOf id)

/-- What the id alone says. -/
def inferredKind (r : NodeTypeRegistry) (id : Text) : Option NodeKind :=
  if id = "handoff-current".toList then some .handoff
  else if "goal-".toList.isPrefixOf id then some .goal
  else if "term:".toList.isPrefixOf id then some .glossary
  else (r.descriptorForId id).map fun d => .collection d.collection

/-- What the kind alone says. -/
def explicitKind (r : NodeTypeRegistry) (kind : Text) : Option NodeKind :=
  (NodeKind.singleton kind).or ((r.collectionForKind kind).map fun d => .collection d.collection)

def resolveNode (r : NodeTypeRegistry) (kind : Option Text) (id : Text) :
    Except RegistryError NodeKind :=
  if validateComponent id = false then .error .badComponent
  else
    let inferred := r.inferredKind id
    match kind with
    | some kind =>
        match r.explicitKind kind with
        | none => .error (.unknownKind kind)
        | some explicit =>
            if inferred.any (· ≠ explicit) then .error (.wrongKind id kind)
            else if inferred = none ∧ explicit.collectionName.isSome then .error (.unknownId id)
            else .ok explicit
    | none =>
        match inferred with
        | some inferred => .ok inferred
        | none => .error (.unknownId id)

end NodeTypeRegistry

/-! ### The compiled descriptors -/

/-- A file in ASCII, by its lines. -/
def asciiLines (lines : List String) : Text :=
  lines.flatMap fun line =>
    line.toByteArray.data.toList.map (fun b => Char.ofNat b.toNat) ++ ['\n']

/-- `task.org`. -/
def taskOrg : Text := asciiLines
  ["#+title: orgasmic task node type", "#+version: 1", "", "* NODE-TYPE task", ":PROPERTIES:",
    ":COLLECTION: tasks", ":ID_PREFIX: TASK-", ":LABEL: Task", ":LABEL_PLURAL: Tasks",
    ":REQUIRED_PROPERTIES: ID", ":STATES: backlog todo in_progress in_review done cancelled",
    ":TRANSITIONS: backlog>todo,in_progress,cancelled todo>in_progress,cancelled " ++
    "in_progress>in_review,todo,cancelled in_review>in_progress,done,cancelled done>- " ++
    "cancelled>-", ":REGENERATE_PROMPT: task-regenerate", ":CHAT_PROMPT: node-chat", ":END:", "",
    "Task headings use the lifecycle state as their Org TODO keyword. Dotted subtask",
    "ids remain flat sibling directories under =tasks/=."]

/-- `decision.org`. -/
def decisionOrg : Text := asciiLines
  ["#+title: orgasmic decision node type", "#+version: 1", "", "* NODE-TYPE decision",
    ":PROPERTIES:", ":COLLECTION: decisions", ":ID_PREFIX: dec_", ":LABEL: Decision",
    ":LABEL_PLURAL: Decisions", ":REQUIRED_PROPERTIES: ID", ":STATES:", ":TRANSITIONS:",
    ":REGENERATE_PROMPT: decision-regenerate", ":CHAT_PROMPT: node-chat", ":END:", "",
    "Decisions are state-free ADR nodes."]

/-- `glossary.org`. -/
def glossaryOrg : Text := asciiLines
  ["#+title: orgasmic glossary node type", "#+version: 1", "", "* NODE-TYPE glossary",
    ":PROPERTIES:", ":COLLECTION: glossary", ":ID_PREFIX: term_", ":LABEL: Glossary term",
    ":LABEL_PLURAL: Glossary terms", ":REQUIRED_PROPERTIES: ID", ":STATES:", ":TRANSITIONS:",
    ":REGENERATE_PROMPT: glossary-regenerate", ":CHAT_PROMPT: node-chat", ":END:", "",
    "Glossary terms are state-free definition nodes."]

/-- `artifact.org`. -/
def artifactOrg : Text := asciiLines
  ["#+title: orgasmic artifact node type", "#+version: 1", "", "* NODE-TYPE artifact",
    ":PROPERTIES:", ":COLLECTION: artifacts", ":ID_PREFIX: ART-", ":LABEL: Artifact",
    ":LABEL_PLURAL: Artifacts", ":REQUIRED_PROPERTIES: ID TITLE VERSION STATE", ":STATES:",
    ":TRANSITIONS:", ":REGENERATE_PROMPT: artifact-generator", ":CHAT_PROMPT: node-chat", ":END:",
    "", "Artifacts retain their MDX content and version archive as type-specific files."]

/-- `conversation.org`. -/
def conversationOrg : Text := asciiLines
  ["#+title: orgasmic conversation node type", "#+version: 1", "", "* NODE-TYPE conversation",
    ":PROPERTIES:", ":COLLECTION: conversations", ":ID_PREFIX: CONV-", ":LABEL: Conversation",
    ":LABEL_PLURAL: Conversations", ":REQUIRED_PROPERTIES: ID PURPOSE OWNER",
    ":STATES: open archived", ":TRANSITIONS: open>archived archived>open",
    ":CHAT_PROMPT: node-chat", ":END:", "",
    "A conversation is an agent chat about one node (a RELATES_TO link in its",
    "links.org) or about the project. Its transcript is its runs, oldest first in",
    ":RUNS:; turns never enter the ledger. PURPOSE and OWNER are immutable; RUNS,",
    "MACHINE, MODE, PROVIDER, SERVICE_TIER, HARNESS_ARGS and CREATED_AT are",
    "daemon-owned. SERVICE_TIER and HARNESS_ARGS are the launch inputs a resumed or",
    "cold relaunch repeats; HARNESS_ARGS is a JSON array."]

/-- The sources in the order in which they are read. -/
def embeddedSources : List (Text × Text) :=
  [("task.org".toList, taskOrg), ("decision.org".toList, decisionOrg),
    ("glossary.org".toList, glossaryOrg), ("artifact.org".toList, artifactOrg),
    ("conversation.org".toList, conversationOrg)]

/-- The loop of `embedded`. -/
def readDescriptors : List (Text × Text) → TreeMap Text NodeTypeDescriptor →
    Except NodeTypeError (TreeMap Text NodeTypeDescriptor)
  | [], descriptors => .ok descriptors
  | (name, source) :: sources, descriptors =>
      match NodeTypeDescriptor.parse source name with
      | .error e => .error e
      | .ok d => readDescriptors sources (descriptors.insert d.collection d)

def NodeTypeRegistry.embedded : Except NodeTypeError NodeTypeRegistry :=
  (readDescriptors embeddedSources ∅).map NodeTypeRegistry.mk

/-! ### The invariant -/

namespace NodeTypeRegistry

/-- The descriptor is registered. -/
def Registered (r : NodeTypeRegistry) (d : NodeTypeDescriptor) : Prop :=
  r.descriptor d.collection = some d

/-- Every descriptor is one that `parse` accepts, under its own collection, and no two prefixes are
comparable, those of the core included. -/
structure WellFormed (r : NodeTypeRegistry) : Prop where
  key : ∀ collection d, r.descriptor collection = some d → d.collection = collection
  accepted : ∀ d, r.Registered d → d.Accepted
  reserved : ∀ d, r.Registered d → ∀ p ∈ reservedPrefixes, comparable p d.idPrefix = false
  apart : ∀ d d', r.Registered d → r.Registered d' → d.collection ≠ d'.collection →
    comparable d.idPrefix d'.idPrefix = false

end NodeTypeRegistry

open NodeTypeRegistry

variable {r : NodeTypeRegistry}

theorem comparable_iff {p q : Text} : comparable p q = true ↔ p <+: q ∨ q <+: p := by
  rw [comparable, Bool.or_eq_true, List.isPrefixOf_iff_prefix, List.isPrefixOf_iff_prefix]

/-- Two prefixes of one text are comparable. -/
theorem comparable_of_prefix {p q id : Text} (hp : p <+: id) (hq : q <+: id) :
    comparable p q = true :=
  comparable_iff.mpr (List.prefix_or_prefix_of_prefix hp hq)

theorem mem_values {d : NodeTypeDescriptor} :
    d ∈ r.values ↔ ∃ collection, r.descriptor collection = some d := by
  simp only [values, descriptor, List.mem_map, Prod.exists, exists_eq_right,
    TreeMap.mem_toList_iff_getElem?_eq_some]

theorem NodeTypeRegistry.WellFormed.mem_values (h : r.WellFormed) {d : NodeTypeDescriptor} :
    d ∈ r.values ↔ r.Registered d := by
  rw [Orgasmic.mem_values]
  constructor
  · rintro ⟨collection, hd⟩
    rwa [← h.key collection d hd] at hd
  · exact fun hd => ⟨d.collection, hd⟩

/-- What a registration does. -/
theorem register_ok {d : NodeTypeDescriptor} {replace : Bool} {r' : NodeTypeRegistry}
    (h : r.register d replace = .ok r') :
    (∀ p ∈ reservedPrefixes, comparable p d.idPrefix = false) ∧
      (replace = false → r.descriptor d.collection = none) ∧
      (∀ other ∈ r.values, other.collection ≠ d.collection →
        comparable other.idPrefix d.idPrefix = false) ∧
      ∀ collection, r'.descriptor collection =
        if collection = d.collection then some d else r.descriptor collection := by
  unfold register at h
  split at h
  · cases h
  next hreserved =>
  split at h
  · cases h
  next howned =>
  split at h
  · cases h
  next hfree =>
  cases h
  refine ⟨fun p hp => ?_, fun hreplace => ?_, fun other hother hne => ?_, fun collection => ?_⟩
  · rw [List.any_eq_true, not_exists] at hreserved
    exact Bool.not_eq_true _ ▸ fun hcomparable => hreserved p ⟨hp, hcomparable⟩
  · rw [hreplace, Bool.not_false, Bool.true_and, Option.isSome_iff_ne_none] at howned
    exact not_not.mp howned
  · have hnone := List.find?_eq_none.mp hfree other hother
    simpa [hne] using hnone
  · show (r.descriptors.insert d.collection d)[collection]? = _
    rw [TreeMap.getElem?_insert]
    exact if_congr (by rw [LawfulEqCmp.compare_eq_iff_eq, eq_comm]) rfl rfl

/-- **A registration keeps the invariant.** -/
theorem wellFormed_register (hr : r.WellFormed) {d : NodeTypeDescriptor} (hd : d.Accepted)
    {replace : Bool} {r' : NodeTypeRegistry} (h : r.register d replace = .ok r') :
    r'.WellFormed := by
  obtain ⟨hreserved, _, hfree, hafter⟩ := register_ok h
  -- what is registered afterwards
  have hcases (c : NodeTypeDescriptor) (hc : r'.Registered c) :
      c = d ∨ c.collection ≠ d.collection ∧ r.Registered c := by
    rw [Registered, hafter] at hc
    split at hc
    · exact .inl (Option.some.inj hc).symm
    · next hne => exact .inr ⟨hne, hc⟩
  refine ⟨fun collection c hc => ?_, fun c hc => ?_, fun c hc => ?_, fun c c' hc hc' hne => ?_⟩
  · rw [hafter] at hc
    split at hc
    · next heq => rw [← Option.some.inj hc, heq]
    · exact hr.key collection c hc
  · obtain rfl | ⟨_, hold⟩ := hcases c hc
    · exact hd
    · exact hr.accepted c hold
  · obtain rfl | ⟨_, hold⟩ := hcases c hc
    · exact hreserved
    · exact hr.reserved c hold
  · obtain rfl | ⟨hother, hold⟩ := hcases c hc
    · obtain rfl | ⟨hother', hold'⟩ := hcases c' hc'
      · exact absurd rfl hne
      · rw [comparable, Bool.or_comm]
        exact hfree c' (hr.mem_values.mpr hold') hother'
    · obtain rfl | ⟨_, hold'⟩ := hcases c' hc'
      · exact hfree c (hr.mem_values.mpr hold) hother
      · exact hr.apart c c' hold hold' hne

/-! ### Runs -/

/-- A call of `register`. -/
structure RegisterCall where
  descriptor : NodeTypeDescriptor
  replace : Bool

namespace NodeTypeRegistry

/-- A call that fails leaves the registry as it is. -/
def after (r : NodeTypeRegistry) (call : RegisterCall) : NodeTypeRegistry :=
  match r.register call.descriptor call.replace with
  | .ok r' => r'
  | .error _ => r

def afterAll (r : NodeTypeRegistry) (calls : List RegisterCall) : NodeTypeRegistry :=
  calls.foldl after r

end NodeTypeRegistry

/-- The call replaces no compiled descriptor by another one. -/
def RegisterCall.Keeps (embedded : NodeTypeRegistry) (call : RegisterCall) : Prop :=
  call.replace = true → ∀ d, embedded.descriptor call.descriptor.collection = some d →
    call.descriptor = d

/-- What holds after every call. -/
structure Extends (embedded r : NodeTypeRegistry) : Prop where
  wellFormed : r.WellFormed
  kept : ∀ collection d, embedded.descriptor collection = some d →
    r.descriptor collection = some d

theorem extends_after {embedded : NodeTypeRegistry} (hr : Extends embedded r) {call : RegisterCall}
    (haccepted : call.descriptor.Accepted) (hkeeps : call.Keeps embedded) :
    Extends embedded (r.after call) := by
  unfold after
  split
  · next r' h =>
      obtain ⟨_, howned, _, hafter⟩ := register_ok h
      refine ⟨wellFormed_register hr.wellFormed haccepted h, fun collection d hd => ?_⟩
      rw [hafter]
      split
      · next heq =>
          rw [heq] at hd
          cases hreplace : call.replace with
          | false =>
              have hnone := howned hreplace
              rw [hr.kept _ d hd] at hnone
              cases hnone
          | true => rw [hkeeps hreplace d hd]
      · exact hr.kept collection d hd
  · exact hr

theorem extends_afterAll {embedded : NodeTypeRegistry} (hr : Extends embedded r)
    {calls : List RegisterCall} (haccepted : ∀ call ∈ calls, call.descriptor.Accepted)
    (hkeeps : ∀ call ∈ calls, call.Keeps embedded) : Extends embedded (r.afterAll calls) := by
  induction calls generalizing r with
  | nil => exact hr
  | cons call calls ih =>
      obtain ⟨hfirst, hrest⟩ := List.forall_mem_cons.mp haccepted
      obtain ⟨hfirst', hrest'⟩ := List.forall_mem_cons.mp hkeeps
      exact ih (extends_after hr hfirst hfirst') hrest hrest'

/-! ### The compiled registry -/

theorem readDescriptors_spec {sources : List (Text × Text)}
    {descriptors descriptors' : TreeMap Text NodeTypeDescriptor}
    (h : readDescriptors sources descriptors = .ok descriptors')
    (hold : ∀ collection (d : NodeTypeDescriptor), descriptors[collection]? = some d →
      d.collection = collection ∧ d.Accepted) :
    ∀ collection (d : NodeTypeDescriptor), descriptors'[collection]? = some d →
      d.collection = collection ∧ d.Accepted := by
  induction sources generalizing descriptors with
  | nil =>
      cases h
      exact hold
  | cons source sources ih =>
      obtain ⟨name, source⟩ := source
      rw [readDescriptors] at h
      cases hparse : NodeTypeDescriptor.parse source name with
      | error e =>
          rw [hparse] at h
          cases h
      | ok d =>
          rw [hparse] at h
          refine ih h fun collection c hc => ?_
          rw [TreeMap.getElem?_insert] at hc
          split at hc
          · next heq =>
              cases hc
              exact ⟨LawfulEqCmp.compare_eq_iff_eq.mp heq, parse_accepts hparse⟩
          · exact hold collection c hc

/-- The collections and their prefixes. -/
def embeddedPrefixes : List (Text × Text) :=
  [("artifacts".toList, "ART-".toList), ("conversations".toList, "CONV-".toList),
    ("decisions".toList, "dec_".toList), ("glossary".toList, "term_".toList),
    ("tasks".toList, "TASK-".toList)]

theorem embedded_values : NodeTypeRegistry.embedded.toOption.map
    (fun e => e.values.map fun d => (d.collection, d.idPrefix)) = some embeddedPrefixes := by
  decide +kernel

/-- **The compiled registry** is there, and keeps the invariant. -/
theorem embedded_spec : ∃ e, NodeTypeRegistry.embedded = .ok e ∧ e.WellFormed ∧
    e.values.map (fun d => (d.collection, d.idPrefix)) = embeddedPrefixes := by
  have hvalues := embedded_values
  cases hread : readDescriptors embeddedSources ∅ with
  | error e =>
      rw [embedded, hread] at hvalues
      cases hvalues
  | ok descriptors =>
      have hmap : (NodeTypeRegistry.mk descriptors).values.map
          (fun d => (d.collection, d.idPrefix)) = embeddedPrefixes := by
        rw [embedded, hread] at hvalues
        exact Option.some.inj hvalues
      have hold := readDescriptors_spec hread fun collection d hd => by
        rw [TreeMap.getElem?_emptyc] at hd
        cases hd
      have hmem (d : NodeTypeDescriptor) (hd : (NodeTypeRegistry.mk descriptors).Registered d) :
          (d.collection, d.idPrefix) ∈ embeddedPrefixes := by
        rw [← hmap]
        exact List.mem_map.mpr ⟨d, mem_values.mpr ⟨_, hd⟩, rfl⟩
      have hreserved : ∀ p ∈ reservedPrefixes, ∀ c ∈ embeddedPrefixes, comparable p c.2 = false := by
        decide
      have hapart : ∀ c ∈ embeddedPrefixes, ∀ c' ∈ embeddedPrefixes, c.1 ≠ c'.1 →
          comparable c.2 c'.2 = false := by
        decide
      exact ⟨_, congrArg (Except.map NodeTypeRegistry.mk) hread,
        ⟨fun collection d hd => (hold collection d hd).1, fun d hd => (hold _ d hd).2,
          fun d hd p hp => hreserved p hp _ (hmem d hd),
          fun d d' hd hd' => hapart _ (hmem d hd) _ (hmem d' hd')⟩, hmap⟩

/-- A compiled collection has its prefix. -/
theorem embedded_prefix {e : NodeTypeRegistry} (he : NodeTypeRegistry.embedded = .ok e)
    {c : Text × Text} (hc : c ∈ embeddedPrefixes) :
    ∃ d, e.descriptor c.1 = some d ∧ d.collection = c.1 ∧ d.idPrefix = c.2 := by
  obtain ⟨_, he', hwell, hvalues⟩ := embedded_spec
  cases he.symm.trans he'
  rw [← hvalues] at hc
  obtain ⟨d, hd, rfl⟩ := List.mem_map.mp hc
  exact ⟨d, hwell.mem_values.mp hd, rfl, rfl⟩

theorem extends_embedded {e : NodeTypeRegistry} (he : NodeTypeRegistry.embedded = .ok e) :
    Extends e e := by
  obtain ⟨_, he', hwell, _⟩ := embedded_spec
  cases he.symm.trans he'
  exact ⟨hwell, fun _ _ hd => hd⟩

/-! ### Owners -/

/-- The rules that claim an id. -/
inductive Owner where
  | goal
  | handoff
  | term
  | registered (d : NodeTypeDescriptor)

namespace NodeTypeRegistry

def Claims (r : NodeTypeRegistry) (id : Text) : Owner → Prop
  | .goal => "goal-".toList <+: id
  | .handoff => id = "handoff-current".toList
  | .term => "term:".toList <+: id
  | .registered d => r.Registered d ∧ d.idPrefix <+: id

end NodeTypeRegistry

/-- The prefix of the compiled glossary is there. -/
def HasGlossary (r : NodeTypeRegistry) : Prop :=
  ∃ d, r.Registered d ∧ d.collection = "glossary".toList ∧ d.idPrefix = "term_".toList

/-- No registered prefix claims what a rule of the core claims. -/
theorem not_core (hr : r.WellFormed) (hglossary : HasGlossary r) {id : Text} {d : NodeTypeDescriptor}
    (hd : r.Registered d) (hid : d.idPrefix <+: id) :
    ¬ "goal-".toList <+: id ∧ id ≠ "handoff-current".toList ∧ ¬ "term:".toList <+: id := by
  have hreserved (p : Text) (hp : p ∈ reservedPrefixes) : ¬ p <+: id := fun hpid => by
    have hcomparable := comparable_of_prefix hpid hid
    rw [hr.reserved d hd p hp] at hcomparable
    cases hcomparable
  refine ⟨hreserved _ (by decide), ?_, fun hterm => ?_⟩
  · rintro rfl
    exact hreserved "handoff-current".toList (by decide) List.prefix_rfl
  · have haccepted := hr.accepted d hd
    have hcolon : ':' ∉ d.idPrefix := fun hmem =>
      (prefixChar_range (haccepted.plain _ hmem)).2.2.2.2 rfl
    -- the prefix ends in front of the colon
    have hshort : d.idPrefix <+: "term".toList := by
      obtain hle | hge := List.prefix_or_prefix_of_prefix hid hterm
      · obtain hle | heq := List.prefix_concat_iff.mp
          (show d.idPrefix <+: "term".toList ++ [':'] from hle) |>.symm
        · exact hle
        · exact absurd (by rw [heq]; decide) hcolon
      · exact absurd (hge.subset (by decide)) hcolon
    obtain ⟨g, hg, hcollection, hgstem⟩ := hglossary
    have hcomparable : comparable d.idPrefix g.idPrefix = true := by
      rw [hgstem]
      exact comparable_iff.mpr (.inl (hshort.trans (by decide)))
    by_cases heq : d.collection = g.collection
    · have hsame : d = g := Option.some.inj (hd.symm.trans (heq ▸ hg))
      rw [hsame, hgstem] at hshort
      exact absurd hshort (by decide)
    · rw [hr.apart d g hd hg heq] at hcomparable
      cases hcomparable

theorem eq_of_registered (hr : r.WellFormed) {id : Text} {d d' : NodeTypeDescriptor}
    (hd : r.Registered d) (hd' : r.Registered d') (hid : d.idPrefix <+: id)
    (hid' : d'.idPrefix <+: id) : d = d' := by
  by_cases heq : d.collection = d'.collection
  · exact Option.some.inj (hd.symm.trans (heq ▸ hd'))
  · have hcomparable := comparable_of_prefix hid hid'
    rw [hr.apart d d' hd hd' heq] at hcomparable
    cases hcomparable

/-- **One owner**: no two rules claim one id. -/
theorem claims_unique (hr : r.WellFormed) (hglossary : HasGlossary r) {id : Text} {o o' : Owner}
    (h : r.Claims id o) (h' : r.Claims id o') : o = o' := by
  have hgoal : "goal-".toList <+: id → ¬ "term:".toList <+: id := fun hg ht => by
    have hcomparable := comparable_of_prefix hg ht
    revert hcomparable
    decide
  have hhandoff : id = "handoff-current".toList →
      ¬ "goal-".toList <+: id ∧ ¬ "term:".toList <+: id := by
    rintro rfl
    decide
  cases o with
  | goal =>
      cases o' with
      | goal => rfl
      | handoff => exact absurd h (hhandoff h').1
      | term => exact absurd h' (hgoal h)
      | registered d => exact absurd h (not_core hr hglossary h'.1 h'.2).1
  | handoff =>
      cases o' with
      | goal => exact absurd h' (hhandoff h).1
      | handoff => rfl
      | term => exact absurd h' (hhandoff h).2
      | registered d => exact absurd h (not_core hr hglossary h'.1 h'.2).2.1
  | term =>
      cases o' with
      | goal => exact absurd h (hgoal h')
      | handoff => exact absurd h (hhandoff h').2
      | term => rfl
      | registered d => exact absurd h (not_core hr hglossary h'.1 h'.2).2.2
  | registered d =>
      cases o' with
      | goal => exact absurd h' (not_core hr hglossary h.1 h.2).1
      | handoff => exact absurd h' (not_core hr hglossary h.1 h.2).2.1
      | term => exact absurd h' (not_core hr hglossary h.1 h.2).2.2
      | registered d' => rw [eq_of_registered hr h.1 h'.1 h.2 h'.2]

theorem maxByKey_mem {α : Type} {key : α → ℕ} {as : List α} {a : α}
    (h : maxByKey key as = some a) : a ∈ as := by
  induction as with
  | nil => cases h
  | cons b as ih =>
      rw [maxByKey] at h
      split at h
      · cases h
        exact List.mem_cons_self
      · next c hc =>
          split at h
          · cases h
            exact List.mem_cons_of_mem _ (ih hc)
          · cases h
            exact List.mem_cons_self

theorem maxByKey_isSome {α : Type} (key : α → ℕ) {as : List α} {a : α} (h : a ∈ as) :
    ∃ b, maxByKey key as = some b := by
  cases as with
  | nil => cases h
  | cons b as =>
      rw [maxByKey]
      split
      · exact ⟨_, rfl⟩
      · split
        · exact ⟨_, rfl⟩
        · exact ⟨_, rfl⟩

/-- **The only descriptor** whose prefix the id starts with. -/
theorem descriptorForId_iff (hr : r.WellFormed) (id : Text) (d : NodeTypeDescriptor) :
    r.descriptorForId id = some d ↔ r.Registered d ∧ d.idPrefix <+: id := by
  have hmem (c : NodeTypeDescriptor) : c ∈ r.values.filter (fun d => d.idPrefix.isPrefixOf id) ↔
      r.Registered c ∧ c.idPrefix <+: id := by
    rw [List.mem_filter, hr.mem_values, List.isPrefixOf_iff_prefix]
  constructor
  · exact fun h => (hmem d).mp (maxByKey_mem h)
  · intro hd
    obtain ⟨c, hc⟩ := maxByKey_isSome (fun d => byteLen d.idPrefix) ((hmem d).mpr hd)
    obtain ⟨hcr, hcid⟩ := (hmem c).mp (maxByKey_mem hc)
    rw [eq_of_registered hr hd.1 hcr hd.2 hcid]
    exact hc

/-! ### Kinds of collections -/

theorem not_infrastructure {collection : Text} (h : isNodeCollection collection = true)
    {name : Text} (hname : name ∈ infrastructure) : collection ≠ name := by
  simp only [isNodeCollection, Bool.and_eq_true, decide_eq_true_eq] at h
  rintro rfl
  exact h.1.2 hname

theorem collectionName_collection {collection : Text} (h : isNodeCollection collection = true) :
    (NodeKind.collection collection).collectionName = some collection := by
  unfold NodeKind.collection
  split
  · next heq => rw [heq]; decide
  split
  · next heq => rw [heq]; decide
  split
  · next heq => rw [heq]; decide
  split
  · next heq => rw [heq]; decide
  -- a name of its own
  have hne (name : Text) (hname : name ∈ infrastructure) : NodeKind.mk collection ≠ ⟨name⟩ :=
    fun heq => not_infrastructure h hname (congrArg NodeKind.name heq)
  have hproject := hne "project".toList (by decide)
  have hgoal := hne "goal".toList (by decide)
  have hhandoff := hne "handoff".toList (by decide)
  have htask : NodeKind.mk collection ≠ .task := hne _ (by decide)
  have hdecision : NodeKind.mk collection ≠ .decision := hne _ (by decide)
  have hartifact : NodeKind.mk collection ≠ .artifact := hne _ (by decide)
  rw [NodeKind.collectionName, if_neg (by
    rintro (heq | heq | heq)
    · exact hproject heq
    · exact hgoal heq
    · exact hhandoff heq), if_neg htask, if_neg hdecision, if_neg hartifact]

theorem singleton_collection {collection : Text} (h : isNodeCollection collection = true) :
    NodeKind.singleton collection = none := by
  rw [NodeKind.singleton, if_neg (not_infrastructure h (by decide)),
    if_neg (not_infrastructure h (by decide)), if_neg (not_infrastructure h (by decide))]

/-- Of the old names of collections only one may be the name of a collection. -/
theorem kindCollection_self {collection : Text} (h : isNodeCollection collection = true)
    (hne : collection ≠ "conversation".toList) : kindCollection collection = collection := by
  rw [kindCollection, if_neg (not_infrastructure h (by decide)),
    if_neg (not_infrastructure h (by decide)), if_neg (not_infrastructure h (by decide)),
    if_neg (not_infrastructure h (by decide)), if_neg hne]

theorem collectionName_singleton {kind : Text} {k : NodeKind}
    (h : NodeKind.singleton kind = some k) : k.collectionName = none := by
  unfold NodeKind.singleton at h
  split at h
  · cases h
    rfl
  split at h
  · cases h
    rfl
  split at h
  · cases h
    rfl
  · cases h

/-! ### Resolution -/

namespace NodeTypeRegistry

def ResolvesTo (r : NodeTypeRegistry) (kind : Option Text) (id collection : Text) : Prop :=
  ∃ k, r.resolveNode kind id = .ok k ∧ k.collectionName = some collection

/-- The kind names a singleton, or another collection than that of the descriptor. -/
def NamesOther (r : NodeTypeRegistry) (d : NodeTypeDescriptor) (kind : Text) : Prop :=
  (NodeKind.singleton kind).isSome = true ∨ ∃ d', r.Registered d' ∧ d'.collection ≠ d.collection ∧
    (kind = d'.collection ∨ kindCollection kind = d'.collection)

end NodeTypeRegistry

/-- **The property.** -/
structure OneOwner (r : NodeTypeRegistry) : Prop where
  /-- No id has two owners. -/
  unique : ∀ id o o', r.Claims id o → r.Claims id o' → o = o'
  /-- The lookup finds the only descriptor. -/
  found : ∀ id d, r.descriptorForId id = some d ↔ r.Registered d ∧ d.idPrefix <+: id
  /-- A minted id needs no kind. -/
  inferred : ∀ d stem, r.Registered d → isMintedStem stem = true →
    r.ResolvesTo none (mintNodeId d stem) d.collection
  /-- Its own collection is a kind for it. -/
  explicit : ∀ d stem, r.Registered d → isMintedStem stem = true →
    r.ResolvesTo (some d.collection) (mintNodeId d stem) d.collection
  /-- No other kind is. -/
  refused : ∀ d stem kind, r.Registered d → isMintedStem stem = true → r.NamesOther d kind →
    ∃ error, r.resolveNode (some kind) (mintNodeId d stem) = .error error

section

variable (hr : r.WellFormed) (hglossary : HasGlossary r) {d : NodeTypeDescriptor}
  (hd : r.Registered d) {stem : Text} (hstem : isMintedStem stem = true)

include hr hglossary hd in
theorem inferredKind_mint :
    r.inferredKind (mintNodeId d stem) = some (.collection d.collection) := by
  have hid : d.idPrefix <+: mintNodeId d stem := List.prefix_append _ _
  obtain ⟨hgoal, hhandoff, hterm⟩ := not_core hr hglossary hd hid
  rw [inferredKind, if_neg hhandoff, if_neg fun h => hgoal (List.isPrefixOf_iff_prefix.mp h),
    if_neg fun h => hterm (List.isPrefixOf_iff_prefix.mp h),
    (descriptorForId_iff hr _ d).mpr ⟨hd, hid⟩]
  rfl

include hr hd hstem in
theorem validateComponent_mint : validateComponent (mintNodeId d stem) = true := by
  have haccepted := hr.accepted d hd
  refine validateComponent_plain (fun hnil => ?_) (mintNodeId_plain haccepted hstem)
  exact haccepted.nonempty (List.append_eq_nil_iff.mp hnil).1

include hr hglossary hd hstem in
theorem resolveNode_mint_none :
    r.resolveNode none (mintNodeId d stem) = .ok (.collection d.collection) := by
  rw [resolveNode, validateComponent_mint hr hd hstem, inferredKind_mint hr hglossary hd]
  rfl

include hr hglossary hd hstem in
/-- A kind is accepted exactly when it stands for the collection. -/
theorem resolveNode_mint_some {kind : Text} {k : NodeKind} (hk : r.explicitKind kind = some k) :
    r.resolveNode (some kind) (mintNodeId d stem) =
      if NodeKind.collection d.collection = k then .ok k
      else .error (.wrongKind (mintNodeId d stem) kind) := by
  rw [resolveNode, validateComponent_mint hr hd hstem, inferredKind_mint hr hglossary hd]
  simp only [hk, Bool.true_eq_false, if_false, Option.any_some, decide_eq_true_eq, ne_eq, ite_not,
    reduceCtorEq, false_and]

end

theorem explicitKind_collection {kind : Text} {d : NodeTypeDescriptor}
    (hsingleton : NodeKind.singleton kind = none)
    (hd : r.descriptor (kindCollection kind) = some d) :
    r.explicitKind kind = some (.collection d.collection) := by
  rw [explicitKind, hsingleton, collectionForKind, hd]
  rfl

/-- **While no collection is called `conversation`.** -/
theorem oneOwner_of_none (hr : r.WellFormed) (hglossary : HasGlossary r)
    (hnone : r.descriptor "conversation".toList = none) : OneOwner r := by
  have hself (d : NodeTypeDescriptor) (hd : r.Registered d) :
      kindCollection d.collection = d.collection := by
    refine kindCollection_self (hr.accepted d hd).collection fun heq => ?_
    rw [Registered, heq, hnone] at hd
    cases hd
  have hname (d : NodeTypeDescriptor) (hd : r.Registered d) :=
    collectionName_collection (hr.accepted d hd).collection
  have hother (d : NodeTypeDescriptor) (hd : r.Registered d) :
      r.explicitKind d.collection = some (.collection d.collection) :=
    explicitKind_collection (singleton_collection (hr.accepted d hd).collection)
      (by rw [hself d hd]; exact hd)
  refine ⟨fun id o o' => claims_unique hr hglossary, descriptorForId_iff hr,
    fun d stem hd hstem => ?_, fun d stem hd hstem => ?_, fun d stem kind hd hstem hkind => ?_⟩
  · exact ⟨_, resolveNode_mint_none hr hglossary hd hstem, hname d hd⟩
  · refine ⟨_, ?_, hname d hd⟩
    rw [resolveNode_mint_some hr hglossary hd hstem (hother d hd), if_pos rfl]
  · -- the kind stands for something else
    obtain ⟨k, hk, hne⟩ : ∃ k, r.explicitKind kind = some k ∧
        NodeKind.collection d.collection ≠ k := by
      cases hsingleton : NodeKind.singleton kind with
      | some k =>
          refine ⟨k, by rw [explicitKind, hsingleton]; rfl, fun heq => ?_⟩
          have hcollection := hname d hd
          rw [heq, collectionName_singleton hsingleton] at hcollection
          cases hcollection
      | none =>
          obtain hsome | ⟨d', hd', hne, hnames⟩ := hkind
          · rw [hsingleton] at hsome
            cases hsome
          have hkc : kindCollection kind = d'.collection := by
            obtain rfl | heq := hnames
            · exact hself d' hd'
            · exact heq
          refine ⟨_, explicitKind_collection hsingleton (by rw [hkc]; exact hd'), fun heq => hne ?_⟩
          have hcollection := hname d hd
          rw [heq, hname d' hd'] at hcollection
          exact Option.some.inj hcollection
    exact ⟨_, by rw [resolveNode_mint_some hr hglossary hd hstem hk, if_neg hne]⟩

/-- With a collection called `conversation` its own name is no kind for its ids. -/
theorem not_oneOwner (hr : r.WellFormed) (hglossary : HasGlossary r) {d c : NodeTypeDescriptor}
    (hd : r.descriptor "conversation".toList = some d)
    (hc : r.descriptor "conversations".toList = some c) : ¬ OneOwner r := by
  intro h
  have hcollection := hr.key _ d hd
  have hregistered : r.Registered d := by rw [Registered, hcollection, hd]
  have hstem : isMintedStem "ABCDE".toList = true := by decide
  obtain ⟨k, hk, _⟩ := h.explicit d _ hregistered hstem
  have hexplicit : r.explicitKind d.collection = some (.collection c.collection) := by
    rw [hcollection]
    exact explicitKind_collection (by decide) hc
  rw [resolveNode_mint_some hr hglossary hregistered hstem hexplicit, if_neg (by
    rw [hcollection, hr.key _ c hc]
    decide)] at hk
  cases hk

/-- What every run keeps. -/
theorem reached_spec {e : NodeTypeRegistry} (he : NodeTypeRegistry.embedded = .ok e)
    {calls : List RegisterCall} (haccepted : ∀ call ∈ calls, call.descriptor.Accepted)
    (hkeeps : ∀ call ∈ calls, call.Keeps e) :
    (e.afterAll calls).WellFormed ∧ HasGlossary (e.afterAll calls) ∧
      ∃ c, (e.afterAll calls).descriptor "conversations".toList = some c := by
  obtain ⟨hwell, hkept⟩ := extends_afterAll (extends_embedded he) haccepted hkeeps
  obtain ⟨g, hg, hcollection, hstem⟩ := embedded_prefix he
    (c := ("glossary".toList, "term_".toList)) (by decide)
  obtain ⟨c, hc, _, _⟩ := embedded_prefix he
    (c := ("conversations".toList, "CONV-".toList)) (by decide)
  refine ⟨hwell, ⟨g, ?_, hcollection, hstem⟩, c, hkept _ c hc⟩
  rw [Registered, hcollection]
  exact hkept _ g hg

/-- **Every id has one owner**, in the registry that any calls lead to that leave the compiled
descriptors as they are, exactly while no collection is called `conversation`. -/
theorem one_owner_iff {e : NodeTypeRegistry} (he : NodeTypeRegistry.embedded = .ok e)
    {calls : List RegisterCall}
    (hparsed : ∀ call ∈ calls, ∃ source display,
      NodeTypeDescriptor.parse source display = .ok call.descriptor)
    (hkeeps : ∀ call ∈ calls, call.Keeps e) :
    OneOwner (e.afterAll calls) ↔
      (e.afterAll calls).descriptor "conversation".toList = none := by
  obtain ⟨hwell, hglossary, c, hc⟩ := reached_spec he (fun call hcall =>
    let ⟨_, _, hparse⟩ := hparsed call hcall
    parse_accepts hparse) hkeeps
  refine ⟨fun h => ?_, oneOwner_of_none hwell hglossary⟩
  cases hd : (e.afterAll calls).descriptor "conversation".toList with
  | none => rfl
  | some d => exact absurd h (not_oneOwner hwell hglossary hd hc)

/-! ### A collection called `conversation` -/

/-- A descriptor of the user. -/
def chatOrg : Text := asciiLines
  ["* Chat", ":PROPERTIES:", ":COLLECTION: conversation", ":ID_PREFIX: CHAT-", ":LABEL: Chat",
    ":LABEL_PLURAL: Chats", ":END:"]

theorem parse_chatOrg : ∃ d, NodeTypeDescriptor.parse chatOrg "chat.org".toList = .ok d ∧
    d.collection = "conversation".toList ∧ d.idPrefix = "CHAT-".toList := by
  have hvalues : (NodeTypeDescriptor.parse chatOrg "chat.org".toList).toOption.map
      (fun d => (d.collection, d.idPrefix)) = some ("conversation".toList, "CHAT-".toList) := by
    decide +kernel
  cases hparse : NodeTypeDescriptor.parse chatOrg "chat.org".toList with
  | error e =>
      rw [hparse] at hvalues
      cases hvalues
  | ok d =>
      rw [hparse] at hvalues
      have hpair : (d.collection, d.idPrefix) = ("conversation".toList, "CHAT-".toList) :=
        Option.some.inj hvalues
      exact ⟨d, rfl, congrArg Prod.fst hpair, congrArg Prod.snd hpair⟩

/-- Nothing is registered under the name, so that the call replaces nothing. -/
theorem embedded_conversation {e : NodeTypeRegistry} (he : NodeTypeRegistry.embedded = .ok e) :
    e.descriptor "conversation".toList = none := by
  obtain ⟨_, he', hwell, hvalues⟩ := embedded_spec
  cases he.symm.trans he'
  cases hd : e.descriptor "conversation".toList with
  | none => rfl
  | some d =>
      have hmem : (d.collection, d.idPrefix) ∈ embeddedPrefixes := by
        rw [← hvalues]
        exact List.mem_map.mpr ⟨d, mem_values.mpr ⟨_, hd⟩, rfl⟩
      rw [hwell.key _ d hd] at hmem
      have hnot : ∀ c ∈ embeddedPrefixes, c.1 ≠ "conversation".toList := by decide
      exact absurd rfl (hnot _ hmem)

theorem register_chat {e : NodeTypeRegistry} (he : NodeTypeRegistry.embedded = .ok e)
    {d : NodeTypeDescriptor} (hcollection : d.collection = "conversation".toList)
    (hstem : d.idPrefix = "CHAT-".toList) :
    (e.after ⟨d, false⟩).descriptor "conversation".toList = some d := by
  have hnone := embedded_conversation he
  obtain ⟨_, he', _, hvalues⟩ := embedded_spec
  cases he.symm.trans he'
  have hfree : e.values.find? (fun other => other.collection ≠ d.collection &&
      comparable other.idPrefix d.idPrefix) = none := by
    rw [List.find?_eq_none]
    intro other hother
    have hmem : (other.collection, other.idPrefix) ∈ embeddedPrefixes := by
      rw [← hvalues]
      exact List.mem_map.mpr ⟨other, hother, rfl⟩
    have hapart : ∀ c ∈ embeddedPrefixes, comparable c.2 "CHAT-".toList = false := by decide
    rw [hstem, hapart _ hmem, Bool.and_false]
    exact Bool.false_ne_true
  have hregister : e.register d false = .ok ⟨e.descriptors.insert d.collection d⟩ := by
    rw [register, hstem, hcollection, hnone, if_neg (by decide), if_neg (by decide),
      ← hstem, ← hcollection, hfree]
  rw [after, hregister]
  show (e.descriptors.insert d.collection d)["conversation".toList]? = some d
  rw [← hcollection, TreeMap.getElem?_insert_self]

/-- The chat type is registered. -/
theorem one_owner_iff_chat : ∃ e d, NodeTypeRegistry.embedded = .ok e ∧
    NodeTypeDescriptor.parse chatOrg "chat.org".toList = .ok d ∧
    (OneOwner (e.afterAll [⟨d, false⟩]) ↔
      (e.afterAll [⟨d, false⟩]).descriptor "conversation".toList = none) := by
  obtain ⟨e, he, _, _⟩ := embedded_spec
  obtain ⟨d, hd, _, _⟩ := parse_chatOrg
  refine ⟨e, d, he, hd, one_owner_iff he ?_ ?_⟩
  · exact List.forall_mem_singleton.mpr ⟨_, _, hd⟩
  · exact List.forall_mem_singleton.mpr fun hreplace => absurd hreplace Bool.false_ne_true

/-- After that an id of a chat is refused with its own collection as kind. -/
theorem one_owner_fails : ¬ ∀ e calls, NodeTypeRegistry.embedded = .ok e →
    (∀ call ∈ calls, ∃ source display,
      NodeTypeDescriptor.parse source display = .ok call.descriptor) →
    (∀ call ∈ calls, call.Keeps e) → OneOwner (e.afterAll calls) := by
  intro h
  obtain ⟨e, he, _, _⟩ := embedded_spec
  obtain ⟨d, hd, hcollection, hstem⟩ := parse_chatOrg
  have hkeeps : ∀ call ∈ [RegisterCall.mk d false], call.Keeps e :=
    List.forall_mem_singleton.mpr fun hreplace => absurd hreplace Bool.false_ne_true
  obtain ⟨hwell, hglossary, c, hc⟩ := reached_spec he
    (List.forall_mem_singleton.mpr (parse_accepts hd)) hkeeps
  exact not_oneOwner hwell hglossary (register_chat he hcollection hstem) hc
    (h e _ he (List.forall_mem_singleton.mpr ⟨_, _, hd⟩) hkeeps)

end Orgasmic
