import Orgasmic.EventKept

/-! # Bounding an event twice

A bounded event may pass through the writer again.  The second pass leaves it alone unless the first
one put a digest where digests are taken, or kept a type that does not fit.

* **Settled values** (`Settled`): nothing is replaced in them.  What the first pass leaves of a value
  is settled unless it holds a `DeepSite`, a digest on the last level that is bounded.
* **Events** (`bounded_again_iff`). -/

namespace Orgasmic

open Text JsonText

section

variable (sha256 : Bytes → Vector UInt8 32) (cap : ℕ)

/-! ### Settled values -/

/-- Nothing is replaced in the value. -/
def Settled (levels : ℕ) (j : Json) : Prop :=
  (boundChild sha256 cap levels j).stats.boundedPayloads = 0

variable {sha256 cap}

theorem settled_marker {levels : ℕ} {j : Json} (marker : isBoundedMarker j = true) :
    Settled sha256 cap levels j := by
  unfold Settled boundChild
  rw [if_pos marker]
  rfl

theorem not_settled_zero {j : Json} (other : isBoundedMarker j = false) :
    ¬ Settled sha256 cap 0 j := by
  unfold Settled boundChild
  rw [if_neg (by rw [other]; exact Bool.false_ne_true)]
  exact Nat.one_ne_zero

theorem settled_string {levels : ℕ} {text : Bytes} :
    Settled sha256 cap (levels + 1) (.string text) ↔ text.length ≤ cap := by
  unfold Settled boundChild
  rw [if_neg (show ¬ isBoundedMarker (.string text) = true from Bool.false_ne_true)]
  dsimp only
  split
  · next long => exact ⟨fun h => absurd h Nat.one_ne_zero, fun h => absurd long (Nat.not_lt.mpr h)⟩
  · next short => exact ⟨fun _ => Nat.not_lt.mp short, fun _ => rfl⟩

theorem settled_number {levels : ℕ} {text : Bytes} :
    Settled sha256 cap (levels + 1) (.number text) := by
  unfold Settled boundChild
  rw [if_neg (show ¬ isBoundedMarker (.number text) = true from Bool.false_ne_true)]
  rfl

theorem boundedPayloads_eq_zero_iff {l : List BoundStats} :
    l.sum.boundedPayloads = 0 ↔ ∀ a ∈ l, a.boundedPayloads = 0 := by
  rw [sum_boundedPayloads, List.sum_eq_zero_iff_forall_eq_nat, List.forall_mem_map]

/-- A container in which nothing is replaced: nothing in its children is. -/
theorem boundValueWith_settled {levels : ℕ} {members : List (Key × Json)} :
    (boundValueWith (boundChild sha256 cap levels) (.object members)).stats.boundedPayloads = 0 ↔
      ∀ m ∈ members, Settled sha256 cap levels m.2 := by
  simp only [boundValueWith, boundedPayloads_eq_zero_iff, List.forall_mem_map]
  rfl

theorem boundValueWith_settled_array {levels : ℕ} {items : List Json} :
    (boundValueWith (boundChild sha256 cap levels) (.array items)).stats.boundedPayloads = 0 ↔
      ∀ i ∈ items, Settled sha256 cap levels i := by
  simp only [boundValueWith, boundedPayloads_eq_zero_iff, List.forall_mem_map]
  rfl

theorem boundValueWith_exact {child : Json → BoundedChild}
    (exact : ∀ j, (child j).stats.boundedPayloads = 0 →
      (child j).size = jsonLen j ∧ (child j).digest = none) {j : Json}
    (h : (boundValueWith child j).stats.boundedPayloads = 0) :
    (boundValueWith child j).size = jsonLen j := by
  cases j with
  | object members =>
      simp only [boundValueWith, boundedPayloads_eq_zero_iff, List.forall_mem_map] at h
      have none : siblingDigests (members.map fun m => (m.1, child m.2)) = [] := by
        rw [siblingDigests, List.filterMap_eq_nil_iff]
        intro c mem
        obtain ⟨m, hm, rfl⟩ := List.mem_map.mp mem
        rw [(exact m.2 (h m hm)).2]
        rfl
      simp only [boundValueWith, none, List.map_nil, List.sum_nil, List.map_map, jsonLen,
        membersLen_sum, Nat.add_zero]
      refine congrArg (fun l => 2 + (members.length - 1) + List.sum l) ?_
      exact List.map_congr_left fun m hm => by
        rw [Function.comp_apply, (exact m.2 (h m hm)).1]
  | array items =>
      simp only [boundValueWith, boundedPayloads_eq_zero_iff, List.forall_mem_map] at h
      simp only [boundValueWith, List.map_map, jsonLen, itemsLen_sum]
      refine congrArg (fun l => 2 + (items.length - 1) + List.sum l) ?_
      exact List.map_congr_left fun i hi => (exact i (h i hi)).1
  | _ => rfl

/-- The size of a settled value is that of its text. -/
theorem settled_size {levels : ℕ} {j : Json} (settled : Settled sha256 cap levels j) :
    (boundChild sha256 cap levels j).size = jsonLen j := by
  have both : ∀ levels j, (boundChild sha256 cap levels j).stats.boundedPayloads = 0 →
      (boundChild sha256 cap levels j).size = jsonLen j ∧
        (boundChild sha256 cap levels j).digest = none := by
    intro levels
    induction levels with
    | zero =>
        intro j h
        refine ⟨?_, (boundChild_unchanged sha256 cap 0 j h).2⟩
        unfold boundChild at h ⊢
        split
        · rfl
        · next other =>
            rw [if_neg other] at h
            exact absurd h Nat.one_ne_zero
    | succ levels ih =>
        intro j h
        refine ⟨?_, (boundChild_unchanged sha256 cap (levels + 1) j h).2⟩
        unfold boundChild at h ⊢
        split
        · rfl
        · next other =>
            rw [if_neg other] at h
            cases j with
            | string text =>
                dsimp only at h ⊢
                split
                · next long =>
                    rw [if_pos long] at h
                    exact absurd h Nat.one_ne_zero
                · rfl
            | object members =>
                dsimp only at h ⊢
                split
                · next large =>
                    rw [if_pos large] at h
                    exact absurd h (Nat.succ_ne_zero _)
                · next small =>
                    rw [if_neg small] at h
                    exact boundValueWith_exact ih h
            | array items =>
                dsimp only at h ⊢
                split
                · next large =>
                    rw [if_pos large] at h
                    exact absurd h (Nat.succ_ne_zero _)
                · next small =>
                    rw [if_neg small] at h
                    exact boundValueWith_exact ih h
            | _ => rfl
  exact (both levels j settled).1

theorem boundValueWith_size_eq {levels : ℕ} {j : Json}
    (h : (boundValueWith (boundChild sha256 cap levels) j).stats.boundedPayloads = 0) :
    (boundValueWith (boundChild sha256 cap levels) j).size = jsonLen j :=
  boundValueWith_exact (fun j settled =>
    ⟨settled_size settled, (boundChild_unchanged sha256 cap levels j settled).2⟩) h

theorem settled_object {levels : ℕ} {members : List (Key × Json)}
    (other : isBoundedMarker (.object members) = false) :
    Settled sha256 cap (levels + 1) (.object members) ↔
      (∀ m ∈ members, Settled sha256 cap levels m.2) ∧ jsonLen (.object members) ≤ cap := by
  rw [← boundValueWith_settled]
  unfold Settled boundChild
  rw [if_neg (by rw [other]; exact Bool.false_ne_true)]
  dsimp only
  split
  · next large =>
      refine ⟨fun h => absurd h (Nat.succ_ne_zero _), fun h => absurd large (Nat.not_lt.mpr ?_)⟩
      rw [boundValueWith_size_eq h.1]
      exact h.2
  · next small =>
      refine ⟨fun h => ⟨h, ?_⟩, fun h => h.1⟩
      rw [← boundValueWith_size_eq h]
      exact Nat.not_lt.mp small

theorem settled_array {levels : ℕ} {items : List Json} :
    Settled sha256 cap (levels + 1) (.array items) ↔
      (∀ i ∈ items, Settled sha256 cap levels i) ∧ jsonLen (.array items) ≤ cap := by
  rw [← boundValueWith_settled_array]
  unfold Settled boundChild
  rw [if_neg (show ¬ isBoundedMarker (.array items) = true from Bool.false_ne_true)]
  dsimp only
  split
  · next large =>
      refine ⟨fun h => absurd h (Nat.succ_ne_zero _), fun h => absurd large (Nat.not_lt.mpr ?_)⟩
      rw [boundValueWith_size_eq h.1]
      exact h.2
  · next small =>
      refine ⟨fun h => ⟨h, ?_⟩, fun h => h.1⟩
      rw [← boundValueWith_size_eq h]
      exact Nat.not_lt.mp small

/-! ### What the first pass leaves -/

theorem forall_mapInsert {P : Bytes → Json → Prop} {key : Bytes} {value : Json}
    {members : List (Key × Json)} (distinct : (members.map (·.1.text)).Nodup) :
    (∀ m ∈ mapInsert key value members, P m.1.text m.2) ↔
      P key value ∧ ∀ m ∈ members, m.1.text ≠ key → P m.1.text m.2 := by
  induction members with
  | nil => simp [mapInsert]
  | cons n members ih =>
      obtain ⟨fresh, distinct⟩ := List.nodup_cons.mp distinct
      rw [mapInsert]
      split
      · next here =>
          rw [List.forall_mem_cons, List.forall_mem_cons, here]
          have others : ∀ m ∈ members, m.1.text ≠ key := fun m mem same =>
            fresh (List.mem_map.mpr ⟨m, mem, same.trans here.symm⟩)
          exact ⟨fun h => ⟨h.1, fun ne => absurd rfl ne, fun m mem _ => h.2 m mem⟩,
            fun h => ⟨h.1, fun m mem => h.2.2 m mem (others m mem)⟩⟩
      · next ne =>
          rw [List.forall_mem_cons, List.forall_mem_cons, ih distinct]
          exact ⟨fun h => ⟨h.2.1, fun _ => h.1, h.2.2⟩, fun h => ⟨h.2.1 ne, h.1, h.2.2⟩⟩

theorem forall_inserted {P : Bytes → Json → Prop} {digests : List (Bytes × Json)}
    {members : List (Key × Json)} (distinct : (members.map (·.1.text)).Nodup)
    (keys : (digests.map Prod.fst).Nodup) :
    (∀ m ∈ digests.foldl (fun map d => mapInsert d.1 d.2 map) members, P m.1.text m.2) ↔
      (∀ d ∈ digests, P d.1 d.2) ∧
        ∀ m ∈ members, m.1.text ∉ digests.map Prod.fst → P m.1.text m.2 := by
  induction digests generalizing members with
  | nil => simp
  | cons d digests ih =>
      obtain ⟨fresh, keys⟩ := List.nodup_cons.mp keys
      rw [List.foldl_cons, ih (mapInsert_keys distinct) keys, List.forall_mem_cons,
        forall_mapInsert (P := fun key value => key ∉ digests.map Prod.fst → P key value) distinct]
      simp only [List.map_cons, List.mem_cons, not_or]
      constructor
      · rintro ⟨rest, first, others⟩
        exact ⟨⟨first fresh, rest⟩, fun m mem ne => others m mem ne.1 ne.2⟩
      · rintro ⟨⟨first, rest⟩, others⟩
        exact ⟨rest, fun _ => first, fun m mem ne later => others m mem ⟨ne, later⟩⟩

/-- The string is longer than the cap. -/
def LongString (cap : ℕ) : Json → Prop
  | .string text => cap < text.length
  | _ => False

/-- The key is that of a digest beside a long string of the object. -/
def Overwritten (cap : ℕ) (members : List (Key × Json)) (key : Bytes) : Prop :=
  ∃ m ∈ members, LongString cap m.2 ∧ key = m.1.text ++ boundedSuffix

/-- A digest stands beside a string on the last level that is bounded: in a value of the last level
but one under a key, outside of subtrees that become digests and of members that are overwritten. -/
def DeepSite (sha256 : Bytes → Vector UInt8 32) (cap : ℕ) : ℕ → Json → Prop
  | 0, _ => False
  | levels + 1, j =>
      isBoundedMarker j = false ∧
        (boundValueWith (boundChild sha256 cap levels) j).size ≤ cap ∧
          match j with
          | .object members =>
              (levels = 1 ∧ ∃ m ∈ members, LongString cap m.2) ∨
                ∃ m ∈ members, ¬ Overwritten cap members m.1.text ∧
                  DeepSite sha256 cap levels m.2
          | .array items => ∃ i ∈ items, DeepSite sha256 cap levels i
          | _ => False

theorem isBoundedMarker_digestOf (reason : DigestReason) (j : Json) :
    isBoundedMarker (digestOf sha256 reason j) = true := by
  rw [digestOf, isBoundedMarker]
  exact decide_eq_true rfl

/-- The digests beside the strings of an object, below the last level. -/
theorem mem_siblingDigests {levels : ℕ} {members : List (Key × Json)} {d : Bytes × Json} :
    d ∈ siblingDigests (members.map fun m => (m.1, boundChild sha256 cap (levels + 1) m.2)) ↔
      ∃ m ∈ members, ∃ text, m.2 = .string text ∧ cap < text.length ∧
        d = (m.1.text ++ boundedSuffix, siblingDigest sha256 text) := by
  rw [siblingDigests, List.mem_filterMap]
  constructor
  · rintro ⟨c, mem, made⟩
    obtain ⟨m, hm, rfl⟩ := List.mem_map.mp mem
    obtain ⟨digest, published, rfl⟩ := Option.map_eq_some_iff.mp made
    obtain ⟨text, string, long, rfl⟩ := (keeps_boundChild sha256 cap _).digest published
    exact ⟨m, hm, text, string, long, rfl⟩
  · rintro ⟨m, hm, text, string, long, rfl⟩
    refine ⟨_, List.mem_map.mpr ⟨m, hm, rfl⟩, ?_⟩
    have published : (boundChild sha256 cap (levels + 1) m.2).digest =
        some (siblingDigest sha256 text) := by
      rw [string]
      unfold boundChild
      rw [if_neg (show ¬ isBoundedMarker (.string text) = true from Bool.false_ne_true)]
      dsimp only
      rw [if_pos long]
      rfl
    rw [published]
    rfl

theorem siblingKeys_nodup {child : Json → BoundedChild} {members : List (Key × Json)}
    (distinct : (members.map (·.1.text)).Nodup) :
    ((siblingDigests (members.map fun m => (m.1, child m.2))).map Prod.fst).Nodup := by
  have sub : ((siblingDigests (members.map fun m => (m.1, child m.2))).map Prod.fst).Sublist
      ((members.map (·.1.text)).map (· ++ boundedSuffix)) := by
    clear distinct
    induction members with
    | nil => exact List.Sublist.refl _
    | cons m members ih =>
        rw [List.map_cons, siblingDigests, List.filterMap_cons]
        cases (child m.2).digest with
        | none => exact ih.cons _
        | some digest => exact ih.cons_cons _
  exact sub.nodup (distinct.map fun _ _ same => List.append_cancel_right same)

/-- Bounding keeps the keys where they are. -/
theorem boundedMembers_prefix (child : Json → BoundedChild) (members : List (Key × Json)) :
    ∃ extra, (boundedMembers child members).map (·.1.text) = members.map (·.1.text) ++ extra := by
  rw [boundedMembers]
  have start : ∃ extra, (members.map fun m => (m.1, (child m.2).value)).map (·.1.text) =
      members.map (·.1.text) ++ extra := ⟨[], by rw [List.map_map, List.append_nil]; rfl⟩
  generalize members.map (fun m => (m.1, (child m.2).value)) = map at start
  generalize siblingDigests (members.map fun m => (m.1, child m.2)) = digests
  induction digests generalizing map with
  | nil => exact start
  | cons d digests ih =>
      obtain ⟨extra, eq⟩ := start
      apply ih
      rw [keys_mapInsert, eq]
      split
      · exact ⟨extra, rfl⟩
      · exact ⟨extra ++ [d.1], List.append_assoc _ _ _⟩

/-- Bounding makes no marker of an object. -/
theorem isBoundedMarker_boundedMembers {child : Json → BoundedChild} {members : List (Key × Json)}
    (other : isBoundedMarker (.object members) = false) :
    isBoundedMarker (.object (boundedMembers child members)) = false := by
  obtain ⟨extra, keys⟩ := boundedMembers_prefix child members
  cases members with
  | nil => rfl
  | cons m members =>
      cases left : boundedMembers child (m :: members) with
      | nil => rfl
      | cons n rest =>
          rw [left, List.map_cons, List.map_cons, List.cons_append, List.cons.injEq] at keys
          cases rest with
          | cons _ _ => rfl
          | nil =>
              obtain ⟨same, empty⟩ := keys
              have none : members = [] := by
                have := congrArg List.length empty
                rw [List.length_append, List.length_map, List.length_map, List.length_nil] at this
                exact List.length_eq_zero_iff.mp (by omega)
              rw [none, isBoundedMarker] at other
              rw [isBoundedMarker, same]
              exact other

theorem charBoundary_le (text : Bytes) (index : ℕ) : charBoundaryAtOrBelow text index ≤ index := by
  have below : ∀ index, boundaryFrom text index ≤ index := by
    intro index
    induction index with
    | zero => exact Nat.le_refl 0
    | succ index ih =>
        rw [boundaryFrom]
        split
        · exact Nat.le_refl _
        · exact ih.trans (Nat.le_succ _)
  unfold charBoundaryAtOrBelow
  split
  · next short => exact short
  · exact below index

/-- A head is short, whatever it stands for. -/
theorem boundedHead_length (text : Bytes) : (boundedHead sha256 text).length ≤ 4096 := by
  have parts : (utf8 "…[orgasmic-bounded: ".toList).length = 22 ∧
      (utf8 " bytes, sha256 ".toList).length = 15 ∧ (utf8 ", retained ".toList).length = 11 ∧
        (utf8 "; full payload stays in the ".toList).length = 28 ∧
          boundedPayloadSource.length = 74 ∧ (utf8 "]".toList).length = 1 := by
    decide +kernel
  obtain ⟨p₁, p₂, p₃, p₄, p₅, p₆⟩ := parts
  have cut := charBoundary_le text boundedPayloadHeadBytes
  have head : boundedPayloadHeadBytes = 2048 := rfl
  have d₁ := decimalBytes_length text.length
  have d₂ := decimalBytes_length (charBoundaryAtOrBelow text boundedPayloadHeadBytes)
  have sha := hexSha256_length sha256 text
  simp only [boundedHead, retainedHead, List.length_append, List.length_take]
  omega

theorem siblingDigest_size (sha256 : Bytes → Vector UInt8 32) (text : Bytes) :
    jsonLen (siblingDigest sha256 text) ≤ 4096 := by
  have names : (utf8 "bytes".toList).length = 5 ∧ (utf8 "sha256".toList).length = 6 ∧
      (utf8 "retained_bytes".toList).length = 14 ∧ (utf8 "source".toList).length = 6 ∧
        boundedPayloadSource.length = 74 := by
    decide +kernel
  obtain ⟨n₁, n₂, n₃, n₄, n₅⟩ := names
  have k₁ := jsonStringLen_le (utf8 "bytes".toList)
  have k₂ := jsonStringLen_le (utf8 "sha256".toList)
  have k₃ := jsonStringLen_le (utf8 "retained_bytes".toList)
  have k₄ := jsonStringLen_le (utf8 "source".toList)
  have k₅ := jsonStringLen_le boundedPayloadSource
  have k₆ := jsonStringLen_le (hexSha256 sha256 text)
  rw [hexSha256_length] at k₆
  have d₁ := decimalBytes_length text.length
  have d₂ := decimalBytes_length (charBoundaryAtOrBelow text boundedPayloadHeadBytes)
  simp only [siblingDigest, jsonField, jsonLen, membersLen, List.length_cons, List.length_nil]
  omega

/-- A digest beside a string is settled, unless its fields are below the last level. -/
theorem settled_siblingDigest (room : 4096 ≤ cap) (levels : ℕ) (text : Bytes) :
    Settled sha256 cap (levels + 1) (siblingDigest sha256 text) ↔ levels ≠ 0 := by
  have size := siblingDigest_size sha256 text
  have source : boundedPayloadSource.length = 74 := by decide +kernel
  rw [siblingDigest] at size ⊢
  rw [settled_object rfl]
  constructor
  · rintro ⟨fields, -⟩ rfl
    exact not_settled_zero rfl (fields _ List.mem_cons_self)
  · intro ne
    obtain ⟨levels, rfl⟩ := Nat.exists_eq_succ_of_ne_zero ne
    refine ⟨?_, size.trans room⟩
    simp only [jsonField, List.forall_mem_cons, List.not_mem_nil, false_imp_iff, implies_true,
      and_true]
    refine ⟨settled_number, settled_string.mpr ?_, settled_number, settled_string.mpr ?_⟩
    · rw [hexSha256_length]
      omega
    · omega

theorem longString_iff {j : Json} :
    LongString cap j ↔ ∃ text, j = .string text ∧ cap < text.length := by
  constructor
  · intro h
    cases j with
    | string text => exact ⟨text, rfl, h⟩
    | _ => exact absurd h id
  · rintro ⟨text, rfl, long⟩
    exact long

/-- What the first pass leaves of an object's members, as far as their keys are looked at. -/
theorem settled_boundedMembers (room : 4096 ≤ cap) {levels : ℕ} {members : List (Key × Json)}
    (K : Bytes → Prop) (distinct : (members.map (·.1.text)).Nodup)
    (ih : ∀ m ∈ members, Settled sha256 cap (levels + 1) (boundChild sha256 cap (levels + 1) m.2).value ↔
      ¬ DeepSite sha256 cap (levels + 1) m.2) :
    (∀ m ∈ boundedMembers (boundChild sha256 cap (levels + 1)) members,
        K m.1.text → Settled sha256 cap (levels + 1) m.2) ↔
      ¬ ((levels + 1 = 1 ∧ ∃ m ∈ members, K (m.1.text ++ boundedSuffix) ∧ LongString cap m.2) ∨
        ∃ m ∈ members, K m.1.text ∧ ¬ Overwritten cap members m.1.text ∧
          DeepSite sha256 cap (levels + 1) m.2) := by
  have keys : ((members.map fun m =>
      (m.1, (boundChild sha256 cap (levels + 1) m.2).value)).map (·.1.text)).Nodup := by
    rwa [List.map_map]
  have overwritten : ∀ key, key ∈ (siblingDigests (members.map fun m =>
      (m.1, boundChild sha256 cap (levels + 1) m.2))).map Prod.fst ↔
        Overwritten cap members key := by
    intro key
    simp only [List.mem_map, mem_siblingDigests, Overwritten, longString_iff]
    constructor
    · rintro ⟨d, ⟨m, hm, text, string, long, rfl⟩, rfl⟩
      exact ⟨m, hm, ⟨text, string, long⟩, rfl⟩
    · rintro ⟨m, hm, ⟨text, string, long⟩, rfl⟩
      exact ⟨_, ⟨m, hm, text, string, long, rfl⟩, rfl⟩
  rw [boundedMembers, forall_inserted (P := fun key j => K key → Settled sha256 cap (levels + 1) j)
    keys (siblingKeys_nodup distinct), not_or]
  refine and_congr ?_ ?_
  · constructor
    · rintro h ⟨last, m, hm, looked, long⟩
      obtain ⟨text, string, long⟩ := longString_iff.mp long
      have settled := h _ (mem_siblingDigests.mpr ⟨m, hm, text, string, long, rfl⟩) looked
      exact (settled_siblingDigest room levels text).mp settled (by omega)
    · intro h d mem looked
      obtain ⟨m, hm, text, string, long, rfl⟩ := mem_siblingDigests.mp mem
      refine (settled_siblingDigest room levels text).mpr fun zero => h ?_
      exact ⟨by omega, m, hm, looked, longString_iff.mpr ⟨text, string, long⟩⟩
  · rw [List.forall_mem_map]
    simp only [overwritten]
    constructor
    · rintro h ⟨m, hm, looked, free, deep⟩
      exact (ih m hm).mp (h m hm free looked) deep
    · intro h m hm free looked
      exact (ih m hm).mpr fun deep => h ⟨m, hm, looked, free, deep⟩

theorem boundChild_zero_settled (levels : ℕ) (j : Json) :
    Settled sha256 cap levels (boundChild sha256 cap 0 j).value := by
  unfold boundChild
  split
  · next marker => exact settled_marker marker
  · exact settled_marker (isBoundedMarker_digestOf _ _)

theorem boundValueWith_array (child : Json → BoundedChild) (items : List Json) :
    (boundValueWith child (.array items)).value = .array (items.map fun i => (child i).value) := by
  simp only [boundValueWith, List.map_map]
  rfl

theorem settled_bounded_array {levels : ℕ} {items : List Json}
    (ih : ∀ i ∈ items, Settled sha256 cap levels (boundChild sha256 cap levels i).value ↔
      ¬ DeepSite sha256 cap levels i) :
    (∀ i ∈ items.map (fun i => (boundChild sha256 cap levels i).value),
        Settled sha256 cap levels i) ↔
      ¬ ∃ i ∈ items, DeepSite sha256 cap levels i := by
  rw [List.forall_mem_map]
  constructor
  · rintro h ⟨i, mem, deep⟩
    exact (ih i mem).mp (h i mem) deep
  · intro h i mem
    exact (ih i mem).mpr fun deep => h ⟨i, mem, deep⟩

/-- The members of an object on the last level: nothing stands beside them. -/
theorem settled_boundedMembers_zero {members : List (Key × Json)} :
    ∀ m ∈ boundedMembers (boundChild sha256 cap 0) members, Settled sha256 cap 0 m.2 := by
  have none : siblingDigests (members.map fun m => (m.1, boundChild sha256 cap 0 m.2)) = [] := by
    rw [siblingDigests, List.filterMap_eq_nil_iff]
    intro c mem
    obtain ⟨m, -, rfl⟩ := List.mem_map.mp mem
    unfold boundChild
    split <;> rfl
  rw [boundedMembers, none, List.foldl_nil, List.forall_mem_map]
  exact fun m _ => boundChild_zero_settled 0 m.2

/-- A container that is kept has the size that was counted for it, or less. -/
theorem kept_size {levels : ℕ} {j : Json}
    (small : (boundValueWith (boundChild sha256 cap levels) j).size ≤ cap) :
    jsonLen (boundValueWith (boundChild sha256 cap levels) j).value ≤ cap :=
  (boundValueWith_size (boundChild_size sha256 cap levels) j).trans small

/-- **What the first pass leaves of a value is settled** unless it holds a deep site. -/
theorem settled_bounded_iff (room : 4096 ≤ cap) (levels : ℕ) {j : Json} (distinct : DistinctKeys j) :
    Settled sha256 cap levels (boundChild sha256 cap levels j).value ↔
      ¬ DeepSite sha256 cap levels j := by
  induction levels generalizing j with
  | zero => exact ⟨fun _ => id, fun _ => boundChild_zero_settled 0 j⟩
  | succ levels ih =>
      unfold DeepSite
      by_cases marker : isBoundedMarker j = true
      · have same : (boundChild sha256 cap (levels + 1) j).value = j := by
          unfold boundChild
          rw [if_pos marker]
        rw [same]
        exact ⟨fun _ deep => absurd (marker.symm.trans deep.1) (by decide),
          fun _ => settled_marker marker⟩
      rw [Bool.not_eq_true] at marker
      cases j with
      | string text =>
          refine ⟨fun _ deep => deep.2.2, fun _ => ?_⟩
          by_cases long : cap < text.length
          · have left : (boundChild sha256 cap (levels + 1) (.string text)).value =
                .string (boundedHead sha256 text) := by
              unfold boundChild
              rw [if_neg (show ¬ isBoundedMarker (.string text) = true from Bool.false_ne_true)]
              dsimp only
              rw [if_pos long]
              rfl
            rw [left]
            exact settled_string.mpr ((boundedHead_length text).trans room)
          · rw [boundChild_short sha256 cap (Nat.not_lt.mp long)]
            exact settled_string.mpr (Nat.not_lt.mp long)
      | object members =>
          obtain ⟨keys, below⟩ := distinctKeys_object distinct
          have value : ¬ cap < (boundValueWith (boundChild sha256 cap levels)
              (.object members)).size → (boundChild sha256 cap (levels + 1) (.object members)).value =
                .object (boundedMembers (boundChild sha256 cap levels) members) := by
            intro small
            unfold boundChild
            rw [if_neg (by rw [marker]; exact Bool.false_ne_true)]
            dsimp only
            rw [if_neg small]
            exact boundValueWith_object _ _
          by_cases large : cap < (boundValueWith (boundChild sha256 cap levels)
              (.object members)).size
          · refine ⟨fun _ deep => absurd large (Nat.not_lt.mpr deep.2.1), fun _ => ?_⟩
            unfold boundChild
            rw [if_neg (by rw [marker]; exact Bool.false_ne_true)]
            dsimp only
            rw [if_pos large]
            exact settled_marker (isBoundedMarker_digestOf _ _)
          · have size := kept_size (Nat.not_lt.mp large)
            rw [boundValueWith_object] at size
            rw [value large, settled_object (isBoundedMarker_boundedMembers marker),
              and_iff_left size]
            rw [eq_true marker, eq_true (Nat.not_lt.mp large), true_and, true_and]
            cases levels with
            | zero =>
                refine ⟨fun _ deep => ?_, fun _ => settled_boundedMembers_zero⟩
                obtain ⟨last, -⟩ | ⟨m, -, -, deep⟩ := deep
                · exact absurd last (by decide)
                · exact deep
            | succ levels =>
                have all := settled_boundedMembers room (fun _ => True) keys
                  fun m mem => ih (below m mem)
                simpa only [true_implies, true_and] using all
      | array items =>
          by_cases large : cap < (boundValueWith (boundChild sha256 cap levels)
              (.array items)).size
          · refine ⟨fun _ deep => absurd large (Nat.not_lt.mpr deep.2.1), fun _ => ?_⟩
            unfold boundChild
            rw [if_neg (show ¬ isBoundedMarker (.array items) = true from Bool.false_ne_true)]
            dsimp only
            rw [if_pos large]
            exact settled_marker (isBoundedMarker_digestOf _ _)
          · have left : (boundChild sha256 cap (levels + 1) (.array items)).value =
                .array (items.map fun i => (boundChild sha256 cap levels i).value) := by
              rw [← boundValueWith_array]
              unfold boundChild
              rw [if_neg (show ¬ isBoundedMarker (.array items) = true from Bool.false_ne_true)]
              dsimp only
              rw [if_neg large]
            have size := kept_size (Nat.not_lt.mp large)
            rw [boundValueWith_array] at size
            rw [left, settled_array, and_iff_left size,
              settled_bounded_array fun i mem => ih (distinctKeys_array distinct i mem),
              eq_true marker, eq_true (Nat.not_lt.mp large), true_and, true_and]
      | _ => exact ⟨fun _ deep => deep.2.2, fun _ => by
          unfold Settled boundChild
          split <;> rfl⟩

/-! ### The second pass -/

variable (sha256) in
/-- The loop leaves the event, or counts what it gives up. -/
theorem elided_counts (totalCap : ℕ) (order : List (Bytes × ℕ)) (e : Elision) :
    order.foldl (elideStep sha256 totalCap) e = e ∨
      e.stats.boundedPayloads <
        (order.foldl (elideStep sha256 totalCap) e).stats.boundedPayloads := by
  induction order generalizing e with
  | nil => exact .inl rfl
  | cons entry order ih =>
      rw [List.foldl_cons]
      have step : elideStep sha256 totalCap e entry = e ∨
          (elideStep sha256 totalCap e entry).stats.boundedPayloads =
            e.stats.boundedPayloads + 1 := by
        unfold elideStep
        split
        · exact .inl rfl
        · split
          · exact .inl rfl
          · exact .inr rfl
      obtain same | more := step
      · rw [same]
        exact ih e
      · refine .inr ?_
        obtain same | rest := ih (elideStep sha256 totalCap e entry)
        · rw [same]
          omega
        · omega

variable (sha256) in
/-- An event over its budget is not left as it is. -/
theorem boundWholeEvent_counts {totalCap : ℕ} {j : Json} (large : totalCap < jsonLen j) :
    (boundWholeEvent sha256 totalCap j).stats.boundedPayloads ≠ 0 := by
  cases j with
  | object members =>
      rw [boundWholeEvent]
      dsimp only
      split
      · next fits =>
          obtain same | more := elided_counts sha256 totalCap (elisionOrder members)
            ⟨members, jsonLenOfObject members, 0⟩
          · rw [same, ← jsonLen_object] at fits
            exact absurd large (Nat.not_lt.mpr fits)
          · exact (Nat.zero_lt_of_lt more).ne'
      · have one : ∀ value type, (digestEvent sha256 value type).stats.boundedPayloads = 1 := by
          intro value type
          cases type <;> rfl
        rw [add_boundedPayloads, one]
        omega
  | _ => exact Nat.one_ne_zero

/-- A value that the writer leaves alone: nothing in it is replaced, and it is within the budget. -/
theorem again_iff {j : Json} :
    let again := boundDriverEventPayload sha256 cap j
    (again.value = j ∧ again.boundedPayloads = 0) ↔
      (boundValue sha256 cap 0 j).stats.boundedPayloads = 0 ∧
        jsonLen j ≤ driverEventTotalCap cap := by
  have unchanged : (boundValue sha256 cap 0 j).stats.boundedPayloads = 0 →
      (boundValue sha256 cap 0 j).value = j ∧ (boundValue sha256 cap 0 j).size = jsonLen j :=
    fun h => ⟨(boundChild_unchanged sha256 cap 15).boundValueWith h, boundValueWith_size_eq h⟩
  unfold boundDriverEventPayload
  dsimp only
  split
  · next large =>
      constructor
      · rintro ⟨-, none⟩
        rw [add_boundedPayloads, Nat.add_eq_zero_iff] at none
        obtain ⟨value, size⟩ := unchanged none.1
        rw [size] at large
        rw [value] at none
        exact absurd none.2 (boundWholeEvent_counts sha256 large)
      · rintro ⟨none, fits⟩
        rw [(unchanged none).2] at large
        exact absurd large (Nat.not_lt.mpr fits)
  · next small =>
      constructor
      · rintro ⟨-, none⟩
        rw [(unchanged none).2] at small
        exact ⟨none, Nat.not_lt.mp small⟩
      · rintro ⟨none, -⟩
        exact ⟨(unchanged none).1, none⟩

/-! ### What is given up -/

variable (sha256) in
/-- The members that an event gives up from a running size on, with the digests in their places. -/
def givenUp (totalCap : ℕ) (members : List (Key × Json)) :
    ℕ → List (Bytes × ℕ) → List (Bytes × Json)
  | _, [] => []
  | current, entry :: order =>
      if current ≤ totalCap then []
      else match mapGet members entry.1 with
        | none => givenUp totalCap members current order
        | some child =>
            (entry.1, digestOf sha256 .eventSize child) ::
              givenUp totalCap members
                (current - entry.2 + jsonLen (digestOf sha256 .eventSize child)) order

theorem elided_fits {totalCap : ℕ} {e : Elision} (fits : e.current ≤ totalCap)
    (order : List (Bytes × ℕ)) : order.foldl (elideStep sha256 totalCap) e = e := by
  induction order with
  | nil => rfl
  | cons entry order ih => rw [List.foldl_cons, elideStep, if_pos fits, ih]

theorem elided_members {totalCap : ℕ} {members : List (Key × Json)} {order : List (Bytes × ℕ)}
    {e : Elision} (noted : ∀ entry ∈ order, mapGet e.members entry.1 = mapGet members entry.1)
    (distinct : (order.map Prod.fst).Nodup) :
    (order.foldl (elideStep sha256 totalCap) e).members =
      (givenUp sha256 totalCap members e.current order).foldl
        (fun map d => mapInsert d.1 d.2 map) e.members := by
  induction order generalizing e with
  | nil => rfl
  | cons entry order ih =>
      obtain ⟨first, rest⟩ := List.forall_mem_cons.mp noted
      obtain ⟨fresh, distinct⟩ := List.nodup_cons.mp distinct
      by_cases fits : e.current ≤ totalCap
      · rw [elided_fits fits, givenUp, if_pos fits]
        rfl
      · rw [List.foldl_cons, givenUp, if_neg fits, elideStep, if_neg fits, first]
        cases mapGet members entry.1 with
        | none => exact ih rest distinct
        | some child =>
            refine ih (fun other mem => ?_) distinct
            have ne : entry.1 ≠ other.1 := fun same =>
              fresh (List.mem_map.mpr ⟨other, mem, same.symm⟩)
            exact (mapGet_mapInsert_of_ne ne _ _).trans (rest other mem)

theorem givenUp_keys {totalCap : ℕ} {members : List (Key × Json)} (order : List (Bytes × ℕ))
    (current : ℕ) :
    ((givenUp sha256 totalCap members current order).map Prod.fst).Sublist
      (order.map Prod.fst) := by
  induction order generalizing current with
  | nil => exact List.Sublist.refl _
  | cons entry order ih =>
      rw [givenUp]
      split
      · exact List.nil_sublist _
      · cases mapGet members entry.1 with
        | none => exact (ih current).cons _
        | some child => exact (ih _).cons_cons _

theorem givenUp_markers {totalCap : ℕ} {members : List (Key × Json)} (order : List (Bytes × ℕ))
    (current : ℕ) :
    ∀ d ∈ givenUp sha256 totalCap members current order, isBoundedMarker d.2 = true := by
  induction order generalizing current with
  | nil => exact fun _ mem => absurd mem List.not_mem_nil
  | cons entry order ih =>
      rw [givenUp]
      split
      · exact fun _ mem => absurd mem List.not_mem_nil
      · cases mapGet members entry.1 with
        | none => exact ih current
        | some child => exact List.forall_mem_cons.mpr ⟨isBoundedMarker_digestOf _ _, ih _⟩

/-- What the loop leaves is settled if what it does not give up is. -/
theorem settled_elided {totalCap levels : ℕ} {members : List (Key × Json)}
    (distinct : (members.map (·.1.text)).Nodup) :
    (∀ m ∈ ((elisionOrder members).foldl (elideStep sha256 totalCap)
        ⟨members, jsonLenOfObject members, 0⟩).members, Settled sha256 cap levels m.2) ↔
      ∀ m ∈ members, m.1.text ∉ (givenUp sha256 totalCap members (jsonLenOfObject members)
        (elisionOrder members)).map Prod.fst → Settled sha256 cap levels m.2 := by
  have order := (exact_start distinct).distinct
  rw [elided_members (fun _ _ => rfl) order,
    forall_inserted (P := fun _ j => Settled sha256 cap levels j) distinct
      ((givenUp_keys _ _).nodup order), and_iff_right]
  exact fun d mem => settled_marker (givenUp_markers _ _ d mem)

/-! ### Events -/

variable (sha256 cap)

/-- A deep site in a child of the event, under a key that is looked at. -/
def DeepBelow (looked : Bytes → Prop) : Json → Prop
  | .object members => ∃ m ∈ members, looked m.1.text ∧ ¬ Overwritten cap members m.1.text ∧
      DeepSite sha256 cap 15 m.2
  | .array items => ∃ i ∈ items, DeepSite sha256 cap 15 i
  | _ => False

/-- What the first pass leaves to the second one: a deep site that is not given up, or in an event
that becomes a digest a type that has one or does not fit beside it. -/
def LeavesWork (event : Json) : Prop :=
  if (boundValue sha256 cap 0 event).size ≤ driverEventTotalCap cap then
    DeepBelow sha256 cap (fun _ => True) event
  else match event with
    | .object members =>
        let left := boundedMembers (boundChild sha256 cap 15) members
        let e := (elisionOrder left).foldl (elideStep sha256 (driverEventTotalCap cap))
          ⟨left, jsonLenOfObject left, 0⟩
        if e.current ≤ driverEventTotalCap cap then
          DeepBelow sha256 cap (· ∉ (givenUp sha256 (driverEventTotalCap cap) left
            (jsonLenOfObject left) (elisionOrder left)).map Prod.fst) event
        else ∃ type, mapGet members typeKeyword = some type ∧
          (DeepSite sha256 cap 15 type ∨ driverEventTotalCap cap < jsonLen (digestEvent sha256
            (.object e.members) (some (boundChild sha256 cap 15 type).value)).value)
    | _ => False

variable {sha256 cap}

/-- The payloads of an event after the first pass. -/
theorem settled_below (room : 4096 ≤ cap) {members : List (Key × Json)} {K : Bytes → Prop}
    (distinct : DistinctKeys (.object members)) :
    (∀ m ∈ boundedMembers (boundChild sha256 cap 15) members,
        K m.1.text → Settled sha256 cap 15 m.2) ↔
      ¬ DeepBelow sha256 cap K (.object members) := by
  obtain ⟨keys, below⟩ := distinctKeys_object distinct
  rw [settled_boundedMembers room K keys fun m mem => settled_bounded_iff room 15 (below m mem),
    DeepBelow]
  refine not_congr ⟨fun h => ?_, .inr⟩
  obtain ⟨last, -⟩ | h := h
  · exact absurd last (by decide)
  · exact h

variable (sha256) in
/-- A digest is settled: its fields are short. -/
theorem settled_digestFields (room : 4096 ≤ cap) (levels : ℕ) (reason : DigestReason) (j : Json) :
    ∀ m ∈ [jsonField "orgasmic_bounded" (.object
      [jsonField "bytes" (.number (decimalBytes (write j).length)),
        jsonField "sha256" (.string (hexSha256 sha256 (write j))),
        jsonField "retained_bytes" (.number (decimalBytes 0)),
        jsonField "reason" (.string reason.name),
        jsonField "source" (.string boundedPayloadSource)])],
      Settled sha256 cap (levels + 2) m.2 := by
  have size := digestOf_size sha256 reason j
  have source : boundedPayloadSource.length = 74 := by decide +kernel
  have why : reason.name.length ≤ 12 := by cases reason <;> decide
  simp only [digestOf, jsonLen, membersLen, jsonField, List.length_cons, List.length_nil] at size
  rw [List.forall_mem_singleton]
  simp only [jsonField]
  rw [settled_object rfl]
  refine ⟨?_, ?_⟩
  · simp only [List.forall_mem_cons, List.not_mem_nil, false_imp_iff, implies_true, and_true]
    refine ⟨settled_number, settled_string.mpr ?_, settled_number, settled_string.mpr ?_,
      settled_string.mpr ?_⟩
    · rw [hexSha256_length]
      omega
    · omega
    · omega
  · simp only [jsonLen, membersLen, List.length_cons, List.length_nil]
    omega

theorem digestOf_again (room : 4096 ≤ cap) (j : Json) :
    (boundValue sha256 cap 0 (digestOf sha256 .eventSize j)).stats.boundedPayloads = 0 ∧
      jsonLen (digestOf sha256 .eventSize j) ≤ driverEventTotalCap cap := by
  refine ⟨boundValueWith_settled.mpr (settled_digestFields sha256 room 13 .eventSize j), ?_⟩
  have size := digestOf_size sha256 .eventSize j
  rw [driverEventTotalCap]
  omega

/-- A digest with a type beside it. -/
theorem digestEvent_again (room : 4096 ≤ cap) (j type : Json) :
    (boundValue sha256 cap 0 (digestEvent sha256 j (some type)).value).stats.boundedPayloads = 0 ↔
      Settled sha256 cap 15 type := by
  have members : (digestEvent sha256 j (some type)).value = .object
      [jsonField "orgasmic_bounded" (.object
        [jsonField "bytes" (.number (decimalBytes (write j).length)),
          jsonField "sha256" (.string (hexSha256 sha256 (write j))),
          jsonField "retained_bytes" (.number (decimalBytes 0)),
          jsonField "reason" (.string DigestReason.eventSize.name),
          jsonField "source" (.string boundedPayloadSource)]), (⟨typeKeyword, false⟩, type)] := by
    have other : utf8 "orgasmic_bounded".toList ≠ typeKeyword := by decide
    simp only [digestEvent, digestSubtree, digestOf, mapInsert, jsonField, if_neg other]
  have first := settled_digestFields sha256 room 13 .eventSize j
  rw [List.forall_mem_singleton] at first
  rw [members, boundValue, boundValueWith_settled, List.forall_mem_cons,
    List.forall_mem_singleton]
  exact and_iff_right first

/-- An event whose payloads fit once they are bounded. -/
theorem boundValue_again (room : 4096 ≤ cap) {event : Json} (distinct : DistinctKeys event) :
    (boundValue sha256 cap 0 (boundValue sha256 cap 0 event).value).stats.boundedPayloads = 0 ↔
      ¬ DeepBelow sha256 cap (fun _ => True) event := by
  cases event with
  | object members =>
      rw [boundValue, boundValueWith_object, boundValueWith_settled, ← settled_below room distinct]
      simp only [true_implies]
      exact Iff.rfl
  | array items =>
      rw [boundValue, boundValueWith_array, boundValueWith_settled_array]
      exact settled_bounded_array fun i mem =>
        settled_bounded_iff room 15 (distinctKeys_array distinct i mem)
  | _ => exact ⟨fun _ deep => deep, fun _ => rfl⟩

/-- An event that gives up members, or becomes a digest. -/
theorem boundWholeEvent_again (room : 4096 ≤ cap) {members : List (Key × Json)}
    (distinct : DistinctKeys (.object members)) :
    let left := boundedMembers (boundChild sha256 cap 15) members
    let e := (elisionOrder left).foldl (elideStep sha256 (driverEventTotalCap cap))
      ⟨left, jsonLenOfObject left, 0⟩
    let whole := boundWholeEvent sha256 (driverEventTotalCap cap) (.object left)
    ((boundValue sha256 cap 0 whole.value).stats.boundedPayloads = 0 ∧
        jsonLen whole.value ≤ driverEventTotalCap cap) ↔
      ¬ if e.current ≤ driverEventTotalCap cap then
          DeepBelow sha256 cap (· ∉ (givenUp sha256 (driverEventTotalCap cap) left
            (jsonLenOfObject left) (elisionOrder left)).map Prod.fst) (.object members)
        else ∃ type, mapGet members typeKeyword = some type ∧
          (DeepSite sha256 cap 15 type ∨ driverEventTotalCap cap < jsonLen (digestEvent sha256
            (.object e.members) (some (boundChild sha256 cap 15 type).value)).value) := by
  intro left e whole
  obtain ⟨keys, below⟩ := distinctKeys_object distinct
  have keys : (left.map (·.1.text)).Nodup := boundedMembers_keys _ keys
  have size : jsonLen (.object e.members) = e.current := by
    have exact := elided_size sha256 keys (driverEventTotalCap cap) (elisionOrder left).length
    rw [List.take_length] at exact
    exact (jsonLen_eq _).trans exact
  have type : mapGet e.members typeKeyword =
      (mapGet members typeKeyword).map fun j => (boundChild sha256 cap 15 j).value :=
    (mapGet_elided sha256 elisionOrder_ne_type).trans mapGet_boundedMembers
  have value : whole = if e.current ≤ driverEventTotalCap cap then
      ⟨.object e.members, e.current, e.stats⟩
      else { digestEvent sha256 (.object e.members) (mapGet e.members typeKeyword) with
        stats := e.stats +
          (digestEvent sha256 (.object e.members) (mapGet e.members typeKeyword)).stats } := rfl
  rw [value]
  split
  · next small =>
      rw [← size] at small
      rw [and_iff_left small, boundValue, boundValueWith_settled, settled_elided keys,
        ← settled_below room distinct]
      exact Iff.rfl
  · next large =>
      dsimp only
      rw [type]
      cases typed : mapGet members typeKeyword with
      | none =>
          refine ⟨fun _ work => ?_, fun _ => digestOf_again room _⟩
          obtain ⟨type, there, -⟩ := work
          cases there
      | some type =>
          obtain ⟨m, found, rfl⟩ := Option.map_eq_some_iff.mp typed
          have deep : Settled sha256 cap 15 (boundChild sha256 cap 15 m.2).value ↔
              ¬ DeepSite sha256 cap 15 m.2 :=
            settled_bounded_iff room 15 (below m (List.mem_of_find?_eq_some found))
          rw [Option.map_some, digestEvent_again room, deep]
          simp only [Option.some.injEq, exists_eq_left', not_or, Nat.not_lt]

/-- **When bounding twice is bounding once.**  The second pass gives the value back and counts
nothing, unless the first one left it work. -/
theorem bounded_again_iff {event : Json} (distinct : DistinctKeys event) :
    let once := boundDriverEventPayload sha256 driverEventPayloadCapBytes event
    let twice := boundDriverEventPayload sha256 driverEventPayloadCapBytes once.value
    (twice.value = once.value ∧ twice.boundedPayloads = 0) ↔
      ¬ LeavesWork sha256 driverEventPayloadCapBytes event := by
  have room : 4096 ≤ driverEventPayloadCapBytes := by decide
  generalize driverEventPayloadCapBytes = cap at room
  intro once twice
  rw [show (twice.value = once.value ∧ twice.boundedPayloads = 0) ↔ _ from again_iff]
  have counted := boundValue_size sha256 cap 0 event
  rw [← jsonLen_eq] at counted
  unfold LeavesWork
  by_cases fits : (boundValue sha256 cap 0 event).size ≤ driverEventTotalCap cap
  · have value : once.value = (boundValue sha256 cap 0 event).value := by
      simp only [once, boundDriverEventPayload, if_neg (Nat.not_lt.mpr fits)]
    rw [if_pos fits, value, and_iff_left (counted.trans fits)]
    exact boundValue_again room distinct
  · have value : once.value = (boundWholeEvent sha256 (driverEventTotalCap cap)
        (boundValue sha256 cap 0 event).value).value := by
      simp only [once, boundDriverEventPayload, if_pos (Nat.not_le.mp fits)]
    rw [if_neg fits, value]
    cases event with
    | object members =>
        rw [show (boundValue sha256 cap 0 (.object members)).value =
          .object (boundedMembers (boundChild sha256 cap 15) members) from boundValueWith_object _ _]
        exact boundWholeEvent_again room distinct
    | array items => exact ⟨fun _ work => work, fun _ => digestOf_again room _⟩
    | _ => exact ⟨fun _ work => work, fun _ => digestOf_again room _⟩

/-- `bounded_again_iff` for an event without containers. -/
theorem bounded_again_iff_tick :
    let sha256 : Bytes → Vector UInt8 32 := fun _ => Vector.replicate 32 0
    let once := boundDriverEventPayload sha256 driverEventPayloadCapBytes
      (.object [jsonField "type" (.string (utf8 "tick".toList)), jsonField "seq" (.number [49])])
    let twice := boundDriverEventPayload sha256 driverEventPayloadCapBytes once.value
    twice.value = once.value ∧ twice.boundedPayloads = 0 := by
  refine (bounded_again_iff ?_).mpr ?_
  · exact ⟨by decide, trivial, trivial, trivial⟩
  · rw [LeavesWork, if_pos (by decide)]
    rintro ⟨m, mem, -, -, deep⟩
    obtain rfl | rfl := List.mem_pair.mp mem
    · exact deep.2.2
    · exact deep.2.2

/-- A type whose text is short, and too large when it is written. -/
theorem bounded_again_fails :
    ¬ ∀ (sha256 : Bytes → Vector UInt8 32) (event : Json), DistinctKeys event →
      let once := boundDriverEventPayload sha256 driverEventPayloadCapBytes event
      let twice := boundDriverEventPayload sha256 driverEventPayloadCapBytes once.value
      twice.value = once.value ∧ twice.boundedPayloads = 0 := by
  intro all
  let sha256 : Bytes → Vector UInt8 32 := fun _ => Vector.replicate 32 0
  let type : Json := .string (List.replicate 16384 1)
  let event : Json := .object [(⟨typeKeyword, false⟩, type)]
  have length : jsonLen type = 98306 := by
    simp only [type, jsonLen, jsonStringLen, List.map_replicate, List.sum_replicate_nat]
    decide
  have size : jsonLen event = 98315 := by
    simp only [event, jsonLen, membersLen, length]
    decide
  have none : (boundValue sha256 driverEventPayloadCapBytes 0 event).stats.boundedPayloads = 0 := by
    refine boundValueWith_settled.mpr fun m mem => ?_
    rw [List.mem_singleton.mp mem]
    exact settled_string.mpr (List.length_replicate.trans_le (by decide))
  have value : (boundValue sha256 driverEventPayloadCapBytes 0 event).value = event :=
    (boundChild_unchanged sha256 driverEventPayloadCapBytes 15).boundValueWith none
  have counted : (boundValue sha256 driverEventPayloadCapBytes 0 event).size = 98315 :=
    (boundValueWith_size_eq none).trans size
  have order : elisionOrder [(⟨typeKeyword, false⟩, type)] = [] := by
    have structural : typeKeyword ∈ structuralKeys := by decide
    simp [elisionOrder, structural]
  have once : (boundDriverEventPayload sha256 driverEventPayloadCapBytes event).value =
      (digestEvent sha256 event (some type)).value := by
    have large : driverEventTotalCap driverEventPayloadCapBytes < 98315 := by decide
    have current : ¬ jsonLenOfObject [(⟨typeKeyword, false⟩, type)] ≤
        driverEventTotalCap driverEventPayloadCapBytes := by
      rw [← jsonLen_object, show jsonLen (.object [(⟨typeKeyword, false⟩, type)]) = 98315 from size]
      decide
    simp only [boundDriverEventPayload, counted, if_pos large, value, boundWholeEvent, event, order,
      List.foldl_nil, if_neg current]
    rfl
  have again := (again_iff.mp (all sha256 event ⟨by decide, trivial, trivial⟩)).2
  rw [once] at again
  have inserted := jsonLen_le_of_mapGet (mapGet_mapInsert typeKeyword type
    [jsonField "orgasmic_bounded" (.object
      [jsonField "bytes" (.number (decimalBytes (write event).length)),
        jsonField "sha256" (.string (hexSha256 sha256 (write event))),
        jsonField "retained_bytes" (.number (decimalBytes 0)),
        jsonField "reason" (.string DigestReason.eventSize.name),
        jsonField "source" (.string boundedPayloadSource)])])
  rw [← jsonLen_object, length] at inserted
  exact absurd (inserted.trans again) (by decide)

end

end Orgasmic
