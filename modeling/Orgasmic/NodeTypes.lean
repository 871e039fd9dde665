import Orgasmic.NodeRecords
import Orgasmic.RepairPlan
import Std.Data.TreeMap

/-! # Node-type descriptors

A descriptor gives a collection of nodes its id prefix, its states and their transitions, and its
prompts.

* **Parsing.** `NodeTypeDescriptor.parse` reads one heading with a `:COLLECTION:`.
* **What is accepted** (`parse_accepts`).  The collection is a directory of nodes, and the prefix is a
  word of letters, digits, hyphens and underscores.
* **Minting.** `mintNodeId` puts a stem behind the prefix. -/

namespace Orgasmic

open Std Text

structure NodeTypeDescriptor where
  collection : Text
  idPrefix : Text
  label : Text
  labelPlural : Text
  requiredProperties : List Text
  states : List Text
  transitions : TreeMap Text (List Text)
  regeneratePrompt : Option Text
  chatPrompt : Option Text

/-- The errors of `NodeTypeDescriptor::parse`, with what their texts name. -/
inductive NodeTypeError where
  | document (cause : OrgError)
  | topLevelHeadings (display : Text)
  | missingNodeType (display : Text)
  | severalNodeTypes (display : Text)
  | missingProperty (display key : Text)
  | reservedCollection (display collection : Text)
  | invalidCollection (display collection : Text)
  | badPrefix (display : Text)
  | badStates (display : Text)
  | badTransition (display rule : Text)
  | unknownSource (display state : Text)
  | unknownTarget (display state : Text)
  | duplicateSource (display state : Text)
  | missingTransitions (display : Text)
  | transitionsWithoutStates (display : Text)
deriving DecidableEq, Repr

def words (value : Option Text) : List Text := (value.map splitWhitespace).getD []

/-- The value of a property, trimmed, unless it is empty. -/
def filledProperty (heading : Heading) (key : Text) : Option Text :=
  ((heading.property key).map trim).filter (· ≠ [])

/-- The closure `required`. -/
def requiredProperty (display : Text) (heading : Heading) (key : Text) :
    Except NodeTypeError Text :=
  match filledProperty heading key with
  | some value => .ok value
  | none => .error (.missingProperty display key)

/-- The heading that describes the type: the only top-level one, or the only section of it that
names a collection. -/
def nodeTypeHeading (display : Text) (file : OrgFile) : Except NodeTypeError Heading :=
  match file.headings with
  | [root] =>
      if (root.property "COLLECTION".toList).isSome then .ok root
      else match root.sections.filter fun h => (h.property "COLLECTION".toList).isSome with
        | [] => .error (.missingNodeType display)
        | [heading] => .ok heading
        | _ => .error (.severalNodeTypes display)
  | _ => .error (.topLevelHeadings display)

/-- The loop over the transition rules. -/
def parseTransitions (display : Text) (states : List Text) :
    List Text → TreeMap Text (List Text) → Except NodeTypeError (TreeMap Text (List Text))
  | [], transitions => .ok transitions
  | rule :: rules, transitions =>
      match splitOnce '>' rule with
      | none => .error (.badTransition display rule)
      | some (source, targets) =>
          if source ∉ states then .error (.unknownSource display source)
          else
            let targets := if targets = "-".toList then [] else targets.splitOn ','
            match targets.find? (· ∉ states) with
            | some target => .error (.unknownTarget display target)
            | none =>
                if transitions.contains source then .error (.duplicateSource display source)
                else parseTransitions display states rules (transitions.insert source targets)

def prefixChar (c : Char) : Bool := c.isAlphanum || c = '-' || c = '_'

def stateChar (c : Char) : Bool := c.isLower || c.isDigit || c = '_'

namespace NodeTypeDescriptor

def parse (source display : Text) : Except NodeTypeError NodeTypeDescriptor := do
  let file ← (OrgFile.parse source display).mapError .document
  let heading ← nodeTypeHeading display file
  let collection ← requiredProperty display heading "COLLECTION".toList
  if isNodeCollection collection = false then
    .error (.reservedCollection display collection)
  else if collection = ".".toList ∨ collection = "..".toList ∨ '/' ∈ collection ∨
      '\\' ∈ collection ∨ collection = [] then
    .error (.invalidCollection display collection)
  else do
    let idPrefix ← requiredProperty display heading "ID_PREFIX".toList
    let states := words (heading.property "STATES".toList)
    if idPrefix.all prefixChar = false then .error (.badPrefix display)
    else if states.all (·.all stateChar) = false then .error (.badStates display)
    else do
      let transitions ← parseTransitions display states
        (words (heading.property "TRANSITIONS".toList)) ∅
      if states ≠ [] ∧ transitions.size ≠ states.length then .error (.missingTransitions display)
      else if states = [] ∧ transitions.size ≠ 0 then .error (.transitionsWithoutStates display)
      else do
        let label ← requiredProperty display heading "LABEL".toList
        let labelPlural ← requiredProperty display heading "LABEL_PLURAL".toList
        .ok ⟨collection, idPrefix, label, labelPlural,
          words (heading.property "REQUIRED_PROPERTIES".toList), states, transitions,
          filledProperty heading "REGENERATE_PROMPT".toList,
          filledProperty heading "CHAT_PROMPT".toList⟩

/-- What `parse` promises of a descriptor. -/
structure Accepted (d : NodeTypeDescriptor) : Prop where
  collection : isNodeCollection d.collection = true
  nonempty : d.idPrefix ≠ []
  plain : ∀ c ∈ d.idPrefix, prefixChar c = true

end NodeTypeDescriptor

theorem filledProperty_ne {heading : Heading} {key value : Text}
    (h : filledProperty heading key = some value) : value ≠ [] := by
  obtain ⟨_, hne⟩ := Option.filter_eq_some_iff.mp h
  exact of_decide_eq_true hne

theorem requiredProperty_ne {display key value : Text} {heading : Heading}
    (h : requiredProperty display heading key = .ok value) : value ≠ [] := by
  unfold requiredProperty at h
  split at h
  · next filled =>
      cases h
      exact filledProperty_ne filled
  · cases h

/-- **What is accepted**: a collection of nodes, and a prefix that is a word. -/
theorem parse_accepts {source display : Text} {d : NodeTypeDescriptor}
    (h : NodeTypeDescriptor.parse source display = .ok d) : d.Accepted := by
  obtain ⟨file, _, h⟩ := of_bind_ok h
  obtain ⟨heading, _, h⟩ := of_bind_ok h
  obtain ⟨collection, _, h⟩ := of_bind_ok h
  split at h
  · cases h
  next hcollection =>
  split at h
  · cases h
  obtain ⟨idPrefix, hprefix, h⟩ := of_bind_ok h
  dsimp only at h
  split at h
  · cases h
  next hplain =>
  split at h
  · cases h
  obtain ⟨transitions, _, h⟩ := of_bind_ok h
  split at h
  · cases h
  split at h
  · cases h
  obtain ⟨label, _, h⟩ := of_bind_ok h
  obtain ⟨labelPlural, _, h⟩ := of_bind_ok h
  cases h
  exact ⟨Bool.not_eq_false _ ▸ hcollection, requiredProperty_ne hprefix,
    List.all_eq_true.mp (Bool.not_eq_false _ ▸ hplain)⟩

/-! ### Minting -/

/-- `mint_node_id`; `stem` is what `random_stem` draws. -/
def mintNodeId (d : NodeTypeDescriptor) (stem : Text) : Text := d.idPrefix ++ stem

theorem prefixChar_of_crockford {c : Char} (h : isCrockfordChar c = true) : prefixChar c = true := by
  have halphanum : c.isAlphanum = ((c.isUpper || c.isLower) || c.isDigit) := rfl
  simp only [isCrockfordChar, prefixChar, halphanum, Bool.or_eq_true, Bool.and_eq_true] at h ⊢
  obtain hdigit | hupper := h
  · exact .inl (.inl (.inr hdigit))
  · exact .inl (.inl (.inl (.inl hupper.1.1.1.1)))

/-- A minted id is a word. -/
theorem mintNodeId_plain {d : NodeTypeDescriptor} (hd : d.Accepted) {stem : Text}
    (hstem : isMintedStem stem = true) : ∀ c ∈ mintNodeId d stem, prefixChar c = true := by
  simp only [isMintedStem, Bool.and_eq_true, decide_eq_true_eq, List.all_eq_true] at hstem
  intro c hc
  obtain hc | hc := List.mem_append.mp hc
  · exact hd.plain c hc
  · exact prefixChar_of_crockford (hstem.1.2 c hc)

theorem prefixChar_range {c : Char} (h : prefixChar c = true) :
    isControl c = false ∧ c ≠ '/' ∧ c ≠ '\\' ∧ c ≠ '.' ∧ c ≠ ':' := by
  have hne (x : Char) (hx : prefixChar x = false) : c ≠ x := by
    rintro rfl
    rw [h] at hx
    cases hx
  refine ⟨?_, hne _ (by decide), hne _ (by decide), hne _ (by decide), hne _ (by decide)⟩
  simp only [prefixChar, Bool.or_eq_true, decide_eq_true_eq] at h
  simp only [isControl, Bool.or_eq_false_iff, decide_eq_false_iff_not, Bool.and_eq_false_iff,
    Nat.not_le]
  obtain (h | rfl) | rfl := h
  · obtain ⟨_, _⟩ | ⟨_, _⟩ | ⟨_, _⟩ := alphanum_range h <;> omega
  · decide
  · decide

/-- A word is a component of a path. -/
theorem validateComponent_plain {value : Text} (hne : value ≠ [])
    (h : ∀ c ∈ value, prefixChar c = true) : validateComponent value = true := by
  have hdot : '.' ∉ value := fun hmem => (prefixChar_range (h _ hmem)).2.2.2.1 rfl
  simp only [validateComponent, Bool.and_eq_true, decide_eq_true_eq, List.all_eq_true]
  refine ⟨⟨⟨hne, ?_⟩, ?_⟩, fun c hc => ?_⟩
  · rintro rfl
    exact hdot (List.mem_singleton.mpr rfl)
  · rintro rfl
    exact hdot (List.mem_cons_self)
  · obtain ⟨hcontrol, hslash, hback, _, _⟩ := prefixChar_range (h c hc)
    rw [hcontrol]
    exact ⟨⟨by simpa using hslash, by simpa using hback⟩, rfl⟩

end Orgasmic
