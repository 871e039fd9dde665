import Orgasmic.EventSizes

/-! # What a bounded event keeps

Bounding replaces strings by heads and subtrees by digests, and puts digests beside strings.  Whatever
it does not replace stays as it was.

* **Replacements** (`Kept`).  A value against what is left of it: the same value, a head, a digest of
  what was left, or a container whose children are kept, with digests beside long strings.
* **Unchanged subtrees** (`boundChild_unchanged`).  A subtree in which nothing is replaced is itself.
* **Fitting events** (`bounded_event_fits`).  An event with a short type fits and keeps its type. -/

namespace Orgasmic

open Text JsonText

section

variable (sha256 : Bytes → Vector UInt8 32) (cap : ℕ)

/-! ### Replacements -/

/-- The digest beside a string, or what is left of it. -/
inductive SiblingValue (text : Bytes) : Json → Prop
  | digest : SiblingValue text (siblingDigest sha256 text)
  | elided {value : Json} (reason : DigestReason) (h : SiblingValue text value) :
      SiblingValue text (digestOf sha256 reason value)

/-- The value may stand under the key, beside a long string of the object. -/
def Sibling (members : List (Key × Json)) (key : Bytes) (value : Json) : Prop :=
  ∃ m ∈ members, ∃ text, m.2 = .string text ∧ cap < text.length ∧
    key = m.1.text ++ boundedSuffix ∧ SiblingValue sha256 text value

mutual

/-- What bounding may leave of a value. -/
inductive Kept : Json → Json → Prop
  | same (j : Json) : Kept j j
  | head {text : Bytes} (long : cap < text.length) :
      Kept (.string text) (.string (boundedHead sha256 text))
  | digest {j j' : Json} (reason : DigestReason) (h : Kept j j') :
      Kept j (digestOf sha256 reason j')
  | array {items items' : List Json} (h : KeptItems items items') :
      Kept (.array items) (.array items')
  | object {members members' extra : List (Key × Json)} (h : KeptMembers members members members')
      (beside : ∀ m ∈ extra, Sibling sha256 cap members m.1.text m.2) :
      Kept (.object members) (.object (members' ++ extra))

inductive KeptItems : List Json → List Json → Prop
  | nil : KeptItems [] []
  | cons {j j' : Json} {items items' : List Json} (h : Kept j j') (rest : KeptItems items items') :
      KeptItems (j :: items) (j' :: items')

/-- The members of an object keep their keys and their order. -/
inductive KeptMembers : List (Key × Json) → List (Key × Json) → List (Key × Json) → Prop
  | nil {all : List (Key × Json)} : KeptMembers all [] []
  | cons {all members members' : List (Key × Json)} {key : Key} {j j' : Json} (h : Kept j j')
      (rest : KeptMembers all members members') :
      KeptMembers all ((key, j) :: members) ((key, j') :: members')
  | beside {all members members' : List (Key × Json)} {key : Key} {j j' : Json}
      (h : Sibling sha256 cap all key.text j') (rest : KeptMembers all members members') :
      KeptMembers all ((key, j) :: members) ((key, j') :: members')

end

variable {sha256 cap}

theorem sibling_inserted {all extra : List (Key × Json)} {key : Bytes} {value : Json}
    (new : Sibling sha256 cap all key value)
    (beside : ∀ m ∈ extra, Sibling sha256 cap all m.1.text m.2) :
    ∀ m ∈ mapInsert key value extra, Sibling sha256 cap all m.1.text m.2 := by
  induction extra with
  | nil =>
      intro m mem
      rw [List.mem_singleton.mp mem]
      exact new
  | cons n extra ih =>
      obtain ⟨first, rest⟩ := List.forall_mem_cons.mp beside
      rw [mapInsert]
      split
      · next here =>
          refine List.forall_mem_cons.mpr ⟨?_, rest⟩
          rw [here]
          exact new
      · exact List.forall_mem_cons.mpr ⟨first, ih rest⟩

/-- What is left of some members of an object, with digests beside them. -/
def KeptWith (sha256 : Bytes → Vector UInt8 32) (cap : ℕ)
    (all members final : List (Key × Json)) : Prop :=
  ∃ members' extra, final = members' ++ extra ∧ KeptMembers sha256 cap all members members' ∧
    ∀ m ∈ extra, Sibling sha256 cap all m.1.text m.2

theorem KeptWith.kept {members final : List (Key × Json)}
    (h : KeptWith sha256 cap members members final) :
    Kept sha256 cap (.object members) (.object final) := by
  obtain ⟨members', extra, rfl, kept, beside⟩ := h
  exact .object kept beside

/-- A sibling is inserted among kept members. -/
theorem KeptWith.inserted {all members final : List (Key × Json)} {key : Bytes} {value : Json}
    (h : KeptWith sha256 cap all members final) (new : Sibling sha256 cap all key value) :
    KeptWith sha256 cap all members (mapInsert key value final) := by
  obtain ⟨members', extra, rfl, kept, beside⟩ := h
  induction members generalizing members' with
  | nil =>
      cases kept
      exact ⟨[], _, rfl, .nil, sibling_inserted new beside⟩
  | cons m members ih =>
      have here : ∀ {k : Key} {j j' : Json} {rest : List (Key × Json)},
          KeptMembers sha256 cap all members rest →
          (∀ {rest' : List (Key × Json)}, KeptMembers sha256 cap all members rest' →
            KeptMembers sha256 cap all ((k, j) :: members) ((k, j') :: rest')) →
          KeptWith sha256 cap all ((k, j) :: members)
            (mapInsert key value ((k, j') :: rest ++ extra)) := by
        intro k j j' rest tail put
        rw [List.cons_append, mapInsert]
        split
        · next same =>
            exact ⟨(k, value) :: rest, extra, rfl, .beside (by rwa [show k.text = key from same]) tail,
              beside⟩
        · obtain ⟨members'', extra', eq, kept', beside'⟩ := ih _ tail
          exact ⟨(k, j') :: members'', extra', by rw [eq]; rfl, put kept', beside'⟩
      cases kept with
      | cons h rest => exact here rest fun rest' => .cons h rest'
      | beside h rest => exact here rest fun rest' => .beside h rest'

/-- A member among kept members gives up its value. -/
theorem KeptWith.elided {all members final : List (Key × Json)} {key : Bytes} {value : Json}
    (reason : DigestReason) (h : KeptWith sha256 cap all members final)
    (there : mapGet final key = some value) :
    KeptWith sha256 cap all members (mapInsert key (digestOf sha256 reason value) final) := by
  obtain ⟨members', extra, rfl, kept, beside⟩ := h
  have gives : ∀ {k : Bytes} {v : Json}, Sibling sha256 cap all k v →
      Sibling sha256 cap all k (digestOf sha256 reason v) := by
    rintro k v ⟨m, mem, text, string, long, named, what⟩
    exact ⟨m, mem, text, string, long, named, .elided reason what⟩
  induction members generalizing members' with
  | nil =>
      cases kept
      refine ⟨[], _, rfl, .nil, sibling_inserted (gives ?_) beside⟩
      obtain ⟨m, found, rfl⟩ := Option.map_eq_some_iff.mp there
      have named := List.find?_some found
      rw [decide_eq_true_eq] at named
      rw [← named]
      exact beside m (List.mem_of_find?_eq_some found)
  | cons m members ih =>
      cases kept with
      | @cons _ _ rest k j j' h tail =>
          rw [List.cons_append, mapGet, List.find?_cons] at there
          rw [List.cons_append, mapInsert]
          by_cases same : k.text = key
          · simp only [same, decide_true, Option.map_some, Option.some.injEq] at there
            rw [if_pos same, ← there]
            exact ⟨_, extra, rfl, .cons (.digest reason h) tail, beside⟩
          · simp only [same, decide_false] at there
            obtain ⟨members'', extra', eq, kept', beside'⟩ := ih _ there tail
            rw [if_neg same, eq]
            exact ⟨_, extra', rfl, .cons h kept', beside'⟩
      | @beside _ _ rest k j j' h tail =>
          rw [List.cons_append, mapGet, List.find?_cons] at there
          rw [List.cons_append, mapInsert]
          by_cases same : k.text = key
          · simp only [same, decide_true, Option.map_some, Option.some.injEq] at there
            rw [if_pos same, ← there]
            exact ⟨_, extra, rfl, .beside (gives h) tail, beside⟩
          · simp only [same, decide_false] at there
            obtain ⟨members'', extra', eq, kept', beside'⟩ := ih _ there tail
            rw [if_neg same, eq]
            exact ⟨_, extra', rfl, .beside h kept', beside'⟩

/-- A way to bound children that keeps what it does not replace. -/
structure Keeps (sha256 : Bytes → Vector UInt8 32) (cap : ℕ) (child : Json → BoundedChild) :
    Prop where
  value : ∀ j, Kept sha256 cap j (child j).value
  digest : ∀ {j d}, (child j).digest = some d →
    ∃ text, j = .string text ∧ cap < text.length ∧ d = siblingDigest sha256 text

theorem Keeps.members {child : Json → BoundedChild} (keeps : Keeps sha256 cap child)
    (all members : List (Key × Json)) :
    KeptMembers sha256 cap all members (members.map fun m => (m.1, (child m.2).value)) := by
  induction members with
  | nil => exact .nil
  | cons m members ih => exact .cons (keeps.value m.2) ih

theorem Keeps.items {child : Json → BoundedChild} (keeps : Keeps sha256 cap child)
    (items : List Json) : KeptItems sha256 cap items (items.map fun j => (child j).value) := by
  induction items with
  | nil => exact .nil
  | cons j items ih => exact .cons (keeps.value j) ih

theorem Keeps.boundedMembers {child : Json → BoundedChild} (keeps : Keeps sha256 cap child)
    (members : List (Key × Json)) :
    KeptWith sha256 cap members members (boundedMembers child members) := by
  have siblings : ∀ d ∈ siblingDigests (members.map fun m => (m.1, child m.2)),
      Sibling sha256 cap members d.1 d.2 := by
    intro d mem
    obtain ⟨c, inside, made⟩ := List.mem_filterMap.mp mem
    obtain ⟨digest, published, rfl⟩ := Option.map_eq_some_iff.mp made
    obtain ⟨m, hm, rfl⟩ := List.mem_map.mp inside
    obtain ⟨text, string, long, rfl⟩ := keeps.digest published
    exact ⟨m, hm, text, string, long, rfl, .digest⟩
  rw [Orgasmic.boundedMembers]
  generalize siblingDigests (members.map fun m => (m.1, child m.2)) = digests at siblings
  have start : KeptWith sha256 cap members members
      (members.map fun m => (m.1, (child m.2).value)) :=
    ⟨_, [], (List.append_nil _).symm, keeps.members members members, by simp⟩
  generalize members.map (fun m => (m.1, (child m.2).value)) = final at start
  induction digests generalizing final with
  | nil => exact start
  | cons d digests ih =>
      obtain ⟨first, rest⟩ := List.forall_mem_cons.mp siblings
      exact ih rest _ (start.inserted first)

theorem Keeps.boundValueWith {child : Json → BoundedChild} (keeps : Keeps sha256 cap child)
    (j : Json) : Kept sha256 cap j (boundValueWith child j).value := by
  cases j with
  | object members =>
      rw [boundValueWith_object]
      exact (keeps.boundedMembers members).kept
  | array items =>
      have kept := keeps.items items
      simp only [Orgasmic.boundValueWith, List.map_map]
      exact .array kept
  | _ => exact .same _

theorem keeps_boundChild (sha256 : Bytes → Vector UInt8 32) (cap levels : ℕ) :
    Keeps sha256 cap (boundChild sha256 cap levels) := by
  induction levels with
  | zero =>
      constructor
      · intro j
        unfold boundChild
        split
        · exact .same _
        · exact .digest _ (.same _)
      · intro j d published
        unfold boundChild at published
        split at published <;> cases published
  | succ levels ih =>
      constructor
      · intro j
        unfold boundChild
        split
        · exact .same _
        · cases j with
          | string text =>
              dsimp only
              split
              · next long => exact .head long
              · exact .same _
          | object members =>
              dsimp only
              split
              · exact .digest _ (ih.boundValueWith _)
              · exact ih.boundValueWith _
          | array items =>
              dsimp only
              split
              · exact .digest _ (ih.boundValueWith _)
              · exact ih.boundValueWith _
          | _ => exact .same _
      · intro j d published
        unfold boundChild at published
        split at published
        · cases published
        · cases j with
          | string text =>
              dsimp only at published
              split at published
              · next long =>
                  cases published
                  exact ⟨text, rfl, long, rfl⟩
              · cases published
          | object members => dsimp only at published; split at published <;> cases published
          | array items => dsimp only at published; split at published <;> cases published
          | _ => cases published

/-! ### Whole events -/

theorem KeptWith.elide {members : List (Key × Json)} (totalCap : ℕ) (order : List (Bytes × ℕ))
    {e : Elision} (h : KeptWith sha256 cap members members e.members) :
    KeptWith sha256 cap members members
      (order.foldl (elideStep sha256 totalCap) e).members := by
  induction order generalizing e with
  | nil => exact h
  | cons entry order ih =>
      apply ih
      unfold elideStep
      split
      · exact h
      · cases there : mapGet e.members entry.1 with
        | none => exact h
        | some value => exact h.elided .eventSize there

/-- What is left of an event: what bounding keeps of it, or a digest of that with its type. -/
def KeptEvent (sha256 : Bytes → Vector UInt8 32) (cap : ℕ) (event final : Json) : Prop :=
  Kept sha256 cap event final ∨ ∃ members type, Kept sha256 cap event (.object members) ∧
    mapGet members typeKeyword = some type ∧
      final = (digestEvent sha256 (.object members) (some type)).value

theorem keptEvent (event : Json) :
    KeptEvent sha256 cap event (boundDriverEventPayload sha256 cap event).value := by
  have bounded : Kept sha256 cap event (boundValue sha256 cap 0 event).value :=
    (keeps_boundChild sha256 cap _).boundValueWith event
  unfold boundDriverEventPayload
  dsimp only
  split
  swap
  · exact .inl bounded
  cases event with
  | object members =>
      have first := boundValueWith_object (boundChild sha256 cap (boundMaxDepth - (0 + 1))) members
      have kept := (keeps_boundChild sha256 cap (boundMaxDepth - (0 + 1))).boundedMembers members
      rw [boundValue, first]
      generalize boundedMembers (boundChild sha256 cap (boundMaxDepth - (0 + 1))) members =
        bounded at kept
      have elided := (show KeptWith sha256 cap members members
        (Elision.mk bounded (jsonLenOfObject bounded) 0).members from kept).elide
          (driverEventTotalCap cap) (elisionOrder bounded)
      rw [boundWholeEvent]
      dsimp only
      generalize List.foldl (elideStep sha256 (driverEventTotalCap cap))
        ⟨bounded, jsonLenOfObject bounded, 0⟩ (elisionOrder bounded) = e at elided ⊢
      split
      · exact .inl elided.kept
      · cases type : mapGet e.members typeKeyword with
        | some type => exact .inr ⟨_, _, elided.kept, type, rfl⟩
        | none => exact .inl (.digest .eventSize elided.kept)
  | _ => exact .inl (.digest _ bounded)

/-! ### Unchanged subtrees -/

theorem sum_boundedPayloads (l : List BoundStats) :
    l.sum.boundedPayloads = (l.map BoundStats.boundedPayloads).sum := by
  induction l with
  | nil => rfl
  | cons a l ih =>
      rw [List.sum_cons, List.map_cons, List.sum_cons, ← ih]
      rfl

theorem boundedPayloads_eq_zero {l : List BoundStats} (h : l.sum.boundedPayloads = 0) :
    ∀ a ∈ l, a.boundedPayloads = 0 := by
  rw [sum_boundedPayloads, List.sum_eq_zero_iff_forall_eq_nat] at h
  exact fun a mem => h _ (List.mem_map.mpr ⟨a, mem, rfl⟩)

/-- A way to bound children that leaves alone what it does not count. -/
def LeavesAlone (child : Json → BoundedChild) : Prop :=
  ∀ j, (child j).stats.boundedPayloads = 0 → (child j).value = j ∧ (child j).digest = none

theorem LeavesAlone.boundValueWith {child : Json → BoundedChild} (alone : LeavesAlone child)
    {j : Json} (h : (boundValueWith child j).stats.boundedPayloads = 0) :
    (boundValueWith child j).value = j := by
  cases j with
  | object members =>
      have each : ∀ m ∈ members, (child m.2).value = m.2 ∧ (child m.2).digest = none := by
        intro m mem
        exact alone m.2 (boundedPayloads_eq_zero h _
          (List.mem_map.mpr ⟨(m.1, child m.2), List.mem_map.mpr ⟨m, mem, rfl⟩, rfl⟩))
      have same : members.map (fun m => (m.1, (child m.2).value)) = members := by
        conv_rhs => rw [← List.map_id members]
        exact List.map_congr_left fun m mem => Prod.ext rfl (each m mem).1
      have none : siblingDigests (members.map fun m => (m.1, child m.2)) = [] := by
        rw [siblingDigests, List.filterMap_eq_nil_iff]
        intro c mem
        obtain ⟨m, hm, rfl⟩ := List.mem_map.mp mem
        rw [(each m hm).2]
        rfl
      rw [boundValueWith_object, boundedMembers, none, same]
      rfl
  | array items =>
      have each : ∀ i ∈ items, (child i).value = i := by
        intro i mem
        exact (alone i (boundedPayloads_eq_zero h _
          (List.mem_map.mpr ⟨child i, List.mem_map.mpr ⟨i, mem, rfl⟩, rfl⟩))).1
      simp only [Orgasmic.boundValueWith, List.map_map]
      congr 1
      conv_rhs => rw [← List.map_id items]
      exact List.map_congr_left each
  | _ => rfl

theorem add_boundedPayloads (a b : BoundStats) :
    (a + b).boundedPayloads = a.boundedPayloads + b.boundedPayloads := rfl

/-- **A subtree in which nothing is replaced is itself.** -/
theorem boundChild_unchanged (sha256 : Bytes → Vector UInt8 32) (cap levels : ℕ) :
    LeavesAlone (boundChild sha256 cap levels) := by
  induction levels with
  | zero =>
      intro j h
      unfold boundChild at h ⊢
      split
      · exact ⟨rfl, rfl⟩
      · next other =>
          rw [if_neg other] at h
          cases h
  | succ levels ih =>
      intro j h
      unfold boundChild at h ⊢
      split
      · exact ⟨rfl, rfl⟩
      · next other =>
          rw [if_neg other] at h
          cases j with
          | string text =>
              dsimp only at h ⊢
              split
              · next long =>
                  rw [if_pos long] at h
                  cases h
              · exact ⟨rfl, rfl⟩
          | object members =>
              dsimp only at h ⊢
              split
              · next large =>
                  rw [if_pos large] at h
                  exact absurd h (Nat.succ_ne_zero _)
              · next small =>
                  rw [if_neg small] at h
                  exact ⟨ih.boundValueWith h, rfl⟩
          | array items =>
              dsimp only at h ⊢
              split
              · next large =>
                  rw [if_pos large] at h
                  exact absurd h (Nat.succ_ne_zero _)
              · next small =>
                  rw [if_neg small] at h
                  exact ⟨ih.boundValueWith h, rfl⟩
          | _ => exact ⟨rfl, rfl⟩

/-! ### Fitting events -/

section

variable (sha256 : Bytes → Vector UInt8 32) (cap : ℕ)

theorem digestEvent_size (value : Json) (type : Option Json) :
    jsonLen (digestEvent sha256 value type).value ≤ (digestEvent sha256 value type).size := by
  cases type with
  | none => exact Nat.le_refl _
  | some type =>
      have inserted := jsonLenOfObject_mapInsert typeKeyword type
        [jsonField "orgasmic_bounded" (.object
          [jsonField "bytes" (.number (decimalBytes (write value).length)),
            jsonField "sha256" (.string (hexSha256 sha256 (write value))),
            jsonField "retained_bytes" (.number (decimalBytes 0)),
            jsonField "reason" (.string DigestReason.eventSize.name),
            jsonField "source" (.string boundedPayloadSource)])]
      simp only [digestEvent, digestSubtree, digestOf, jsonLen_object]
      omega

/-- The loop's running size is that of the members that are left, after any number of turns. -/
theorem elided_size {members : List (Key × Json)} (distinct : (members.map (·.1.text)).Nodup)
    (totalCap turns : ℕ) :
    let e := ((elisionOrder members).take turns).foldl (elideStep sha256 totalCap)
      ⟨members, jsonLenOfObject members, 0⟩
    (write (.object e.members)).length = e.current := by
  have start := exact_start distinct
  rw [← List.take_append_drop turns (elisionOrder members)] at start
  intro e
  rw [← jsonLen_eq, jsonLen_object]
  exact (start.run sha256 totalCap).current.symm

/-- **`bound_whole_event` never counts too little.** -/
theorem boundWholeEvent_size {members : List (Key × Json)}
    (distinct : (members.map (·.1.text)).Nodup) (totalCap : ℕ) :
    (write (boundWholeEvent sha256 totalCap (.object members)).value).length ≤
      (boundWholeEvent sha256 totalCap (.object members)).size := by
  have exact := elided_size sha256 distinct totalCap (elisionOrder members).length
  rw [List.take_length] at exact
  dsimp only at exact
  rw [boundWholeEvent]
  dsimp only
  split
  · exact exact.le
  · rw [← jsonLen_eq]
    exact digestEvent_size sha256 _ _

/-- An event whose type is a short string: what is left of it fits, and has the type. -/
theorem boundWholeEvent_fits {members : List (Key × Json)} {type : Bytes} {totalCap : ℕ}
    (distinct : (members.map (·.1.text)).Nodup)
    (typed : mapGet members typeKeyword = some (.string type)) (short : type.length ≤ 1024)
    (room : 16384 ≤ totalCap) :
    (write (boundWholeEvent sha256 totalCap (.object members)).value).length ≤ totalCap ∧
      ∃ members', (boundWholeEvent sha256 totalCap (.object members)).value = .object members' ∧
        mapGet members' typeKeyword = some (.string type) := by
  have kept : mapGet ((elisionOrder members).foldl (elideStep sha256 totalCap)
      ⟨members, jsonLenOfObject members, 0⟩).members typeKeyword = some (.string type) :=
    (mapGet_elided sha256 elisionOrder_ne_type).trans typed
  have counted := boundWholeEvent_size sha256 distinct totalCap
  rw [boundWholeEvent] at counted ⊢
  dsimp only at counted ⊢
  rw [kept] at counted ⊢
  split
  · next fits =>
      rw [if_pos fits] at counted
      exact ⟨counted.trans fits, _, rfl, kept⟩
  · next large =>
      rw [if_neg large] at counted
      refine ⟨counted.trans ?_, _, rfl, mapGet_mapInsert _ _ _⟩
      have digest := digestOf_size sha256 .eventSize (.object ((elisionOrder members).foldl
        (elideStep sha256 totalCap) ⟨members, jsonLenOfObject members, 0⟩).members)
      have key := jsonStringLen_le typeKeyword
      have keyLength : typeKeyword.length = 4 := by decide
      have value := jsonStringLen_le type
      simp only [digestEvent, digestSubtree, digestOf] at digest ⊢
      simp only [jsonLen] at digest ⊢
      omega

/-- The event that is left after its payloads have been bounded, with a short type. -/
theorem boundedMembers_typed {members : List (Key × Json)} {type : Bytes}
    (typed : mapGet members typeKeyword = some (.string type)) (short : type.length ≤ cap)
    (levels : ℕ) :
    mapGet (boundedMembers (boundChild sha256 cap (levels + 1)) members) typeKeyword =
      some (.string type) := by
  rw [mapGet_boundedMembers, typed, Option.map_some, boundChild_short sha256 cap short]

/-- **A bounded event fits.**  For an event whose type is a string of at most 1 KiB: what is written
is within the budget, the type is there, and everything else is kept or replaced.  Subtrees in which
nothing is replaced are unchanged, and no running size is below what is written. -/
theorem bounded_event_fits {members : List (Key × Json)} {type : Bytes}
    (distinct : (members.map (·.1.text)).Nodup)
    (typed : mapGet members typeKeyword = some (.string type)) (short : type.length ≤ 1024) :
    let bounded := boundDriverEventPayload sha256 driverEventPayloadCapBytes (.object members)
    (write bounded.value).length ≤ driverEventTotalCap driverEventPayloadCapBytes ∧
      (∃ members', bounded.value = .object members' ∧
        mapGet members' typeKeyword = some (.string type)) ∧
      KeptEvent sha256 driverEventPayloadCapBytes (.object members) bounded.value ∧
      (∀ levels j, (boundChild sha256 driverEventPayloadCapBytes levels j).stats.boundedPayloads = 0 →
        (boundChild sha256 driverEventPayloadCapBytes levels j).value = j) ∧
      (∀ depth j, (write (boundValue sha256 driverEventPayloadCapBytes depth j).value).length ≤
        (boundValue sha256 driverEventPayloadCapBytes depth j).size) ∧
      ∀ members' : List (Key × Json), (members'.map (·.1.text)).Nodup → ∀ totalCap turns,
        (let e := ((elisionOrder members').take turns).foldl (elideStep sha256 totalCap)
          ⟨members', jsonLenOfObject members', 0⟩
        (write (.object e.members)).length ≤ e.current) ∧
        (write (boundWholeEvent sha256 totalCap (.object members')).value).length ≤
          (boundWholeEvent sha256 totalCap (.object members')).size := by
  have left : mapGet (boundedMembers (boundChild sha256 driverEventPayloadCapBytes 15) members)
      typeKeyword = some (.string type) :=
    boundedMembers_typed sha256 _ typed (short.trans (by decide)) 14
  have first := boundValueWith_object (boundChild sha256 driverEventPayloadCapBytes 15) members
  have size := boundValue_size sha256 driverEventPayloadCapBytes 0 (.object members)
  have fits : (write (boundDriverEventPayload sha256 driverEventPayloadCapBytes
        (.object members)).value).length ≤ driverEventTotalCap driverEventPayloadCapBytes ∧
      ∃ members', (boundDriverEventPayload sha256 driverEventPayloadCapBytes
          (.object members)).value = .object members' ∧
        mapGet members' typeKeyword = some (.string type) := by
    unfold boundDriverEventPayload
    dsimp only
    split
    · rw [show (boundValue sha256 driverEventPayloadCapBytes 0 (.object members)).value =
        .object (boundedMembers (boundChild sha256 driverEventPayloadCapBytes 15) members) from first]
      exact boundWholeEvent_fits sha256 (boundedMembers_keys _ distinct) left short (by decide)
    · next small => exact ⟨size.trans (Nat.not_lt.mp small), _, first, left⟩
  exact ⟨fits.1, fits.2, keptEvent _, fun levels j h => (boundChild_unchanged sha256 _ levels j h).1,
    boundValue_size sha256 _, fun members' distinct' totalCap turns =>
      ⟨(elided_size sha256 distinct' totalCap turns).le,
        boundWholeEvent_size sha256 distinct' totalCap⟩⟩

/-- `bounded_event_fits` for an event with one long string. -/
theorem bounded_event_fits_sample :
    let sha256 : Bytes → Vector UInt8 32 := fun _ => Vector.replicate 32 0
    let bounded := boundDriverEventPayload sha256 driverEventPayloadCapBytes (.object
      [jsonField "type" (.string (utf8 "text_chunk".toList)),
        jsonField "text" (.string (List.replicate 70000 97))])
    (write bounded.value).length ≤ driverEventTotalCap driverEventPayloadCapBytes :=
  (bounded_event_fits (fun _ => Vector.replicate 32 0) (by decide)
    (show mapGet _ typeKeyword = some (.string (utf8 "text_chunk".toList)) from rfl) (by decide)).1

end

end

end Orgasmic
