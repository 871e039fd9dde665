import Orgasmic.BoundedEvent

/-! # Sizes of bounded events

The sizes that are added up while an event is bounded are never smaller than what is written, so an
event that counts as small enough is.

* **Lengths.** `jsonLen` is the length of the compact text (`jsonLen_eq`).
* **Running sizes.** A member that a digest overwrites is counted twice, and nothing else is counted
  wrongly (`boundChild_size`, `boundValue_size`); the loop over a whole event is exact (`Exact`).
* **What is kept** (`Kept`).  Whatever is not replaced by a head or a digest stays as it was. -/

namespace Orgasmic

open Text JsonText

/-! ### Lengths -/

theorem escapeByte_length (b : UInt8) : (escapeByte b).length =
    if [34, 92, 10, 13, 9, 8, 12].contains b then 2 else if b < 0x20 then 6 else 1 := by
  unfold escapeByte
  by_cases named : b ∈ [(34 : UInt8), 92, 10, 13, 9, 8, 12]
  · rw [if_pos (List.contains_iff_mem.mpr named)]
    simp only [List.mem_cons, List.not_mem_nil, or_false] at named
    obtain rfl | rfl | rfl | rfl | rfl | rfl | rfl := named <;> rfl
  · rw [if_neg (mt List.contains_iff_mem.mp named)]
    simp only [List.mem_cons, List.not_mem_nil, or_false, not_or] at named
    obtain ⟨quote, backslash, lf, cr, tab, bs, ff⟩ := named
    rw [if_neg quote, if_neg backslash, if_neg bs, if_neg tab, if_neg lf, if_neg ff, if_neg cr]
    split <;> rfl

theorem jsonStringLen_eq (text : Bytes) : jsonStringLen text = (quoted text).length := by
  have each : text.map (fun b =>
      if [34, 92, 10, 13, 9, 8, 12].contains b then 2 else if b < 0x20 then 6 else 1) =
        text.map fun b => (escapeByte b).length :=
    List.map_congr_left fun b _ => (escapeByte_length b).symm
  rw [jsonStringLen, each, quoted, body, List.length_cons, List.length_append, List.length_flatMap,
    List.length_singleton]
  omega

mutual

/-- **`json_len` is the length of the compact text.** -/
theorem jsonLen_eq : ∀ j : Json, jsonLen j = (write j).length
  | .null => rfl
  | .bool true => rfl
  | .bool false => rfl
  | .number text => rfl
  | .string text => by rw [jsonLen, write, jsonStringLen_eq]
  | .array [] => rfl
  | .array (item :: items) => by
      have first := jsonLen_eq item
      have rest := itemsLen_eq items
      rw [jsonLen, itemsLen, write, List.length_cons, List.length_cons, List.length_append,
        List.length_append, List.length_singleton]
      omega
  | .object [] => rfl
  | .object ((key, value) :: members) => by
      have first := jsonLen_eq value
      have rest := membersLen_eq members
      rw [jsonLen, membersLen, write, writeMember, List.length_cons, List.length_cons,
        List.length_append, List.length_append, List.length_append, List.length_cons,
        List.length_singleton, jsonStringLen_eq]
      omega

theorem itemsLen_eq : ∀ items : List Json,
    itemsLen items + items.length = (writeItems items).length
  | [] => rfl
  | item :: items => by
      have first := jsonLen_eq item
      have rest := itemsLen_eq items
      rw [itemsLen, writeItems, List.length_cons, List.length_cons, List.length_append]
      omega

theorem membersLen_eq : ∀ members : List (Key × Json),
    membersLen members + members.length = (writeMembers members).length
  | [] => rfl
  | (key, value) :: members => by
      have first := jsonLen_eq value
      have rest := membersLen_eq members
      rw [membersLen, writeMembers, writeMember, List.length_cons, List.length_cons,
        List.length_append, List.length_append, List.length_cons, jsonStringLen_eq]
      omega

end

/-! ### Maps -/

theorem jsonLen_object (members : List (Key × Json)) :
    jsonLen (.object members) = jsonLenOfObject members := by
  rw [jsonLen, jsonLenOfObject]

/-- An inserted member costs its text, a comma and a colon, or less. -/
theorem jsonLenOfObject_mapInsert (key : Bytes) (value : Json) (members : List (Key × Json)) :
    jsonLenOfObject (mapInsert key value members) ≤
      jsonLenOfObject members + (jsonStringLen key + 2 + jsonLen value) := by
  have grown : (mapInsert key value members).length + membersLen (mapInsert key value members) ≤
      members.length + membersLen members + (jsonStringLen key + 2 + jsonLen value) ∧
        1 ≤ (mapInsert key value members).length ∧
          (members = [] → (mapInsert key value members).length = 1 ∧
            membersLen (mapInsert key value members) = jsonStringLen key + 1 + jsonLen value) := by
    induction members with
    | nil =>
        refine ⟨?_, Nat.le_refl 1, fun _ => ⟨rfl, ?_⟩⟩ <;>
          simp only [mapInsert, membersLen, List.length_cons, List.length_nil] <;> omega
    | cons m members ih =>
        obtain ⟨k, v⟩ := m
        rw [mapInsert]
        split
        · refine ⟨?_, Nat.succ_le_succ (Nat.zero_le _), nofun⟩
          simp only [membersLen, List.length_cons]
          omega
        · refine ⟨?_, Nat.succ_le_succ (Nat.zero_le _), nofun⟩
          simp only [membersLen, List.length_cons]
          omega
  obtain ⟨total, some, empty⟩ := grown
  rw [jsonLenOfObject, jsonLenOfObject]
  cases members with
  | nil =>
      obtain ⟨one, len⟩ := empty rfl
      rw [one, len]
      simp only [membersLen, List.length_nil]
      omega
  | cons m members =>
      simp only [List.length_cons] at total ⊢
      omega

/-- A value that is replaced leaves, and the new one comes. -/
theorem jsonLenOfObject_replaced {key : Bytes} {value child : Json} {members : List (Key × Json)}
    (there : mapGet members key = some child) :
    jsonLenOfObject (mapInsert key value members) + jsonLen child =
      jsonLenOfObject members + jsonLen value := by
  have same : (mapInsert key value members).length = members.length ∧
      membersLen (mapInsert key value members) + jsonLen child =
        membersLen members + jsonLen value := by
    induction members with
    | nil => cases there
    | cons m members ih =>
        obtain ⟨k, v⟩ := m
        rw [mapInsert]
        rw [mapGet, List.find?_cons] at there
        by_cases here : k.text = key
        · simp only [here, decide_true, Option.map_some, Option.some.injEq] at there
          rw [if_pos here, there]
          refine ⟨rfl, ?_⟩
          simp only [membersLen]
          omega
        · simp only [here, decide_false] at there
          obtain ⟨long, sum⟩ := ih there
          rw [if_neg here]
          refine ⟨congrArg (· + 1) long, ?_⟩
          simp only [membersLen]
          omega
  obtain ⟨long, sum⟩ := same
  rw [jsonLenOfObject, jsonLenOfObject, long]
  omega

theorem jsonLen_le_of_mapGet {key : Bytes} {child : Json} {members : List (Key × Json)}
    (there : mapGet members key = some child) : jsonLen child ≤ jsonLenOfObject members := by
  have inside : jsonLen child ≤ membersLen members := by
    obtain ⟨m, found, rfl⟩ := Option.map_eq_some_iff.mp there
    have mem := List.mem_of_find?_eq_some found
    clear there found
    induction members with
    | nil => cases mem
    | cons n members ih =>
        obtain ⟨k, v⟩ := n
        rw [membersLen]
        obtain rfl | mem := List.mem_cons.mp mem
        · dsimp only
          omega
        · have := ih mem
          omega
  rw [jsonLenOfObject]
  omega

theorem mapGet_mapInsert (key : Bytes) (value : Json) (members : List (Key × Json)) :
    mapGet (mapInsert key value members) key = some value := by
  induction members with
  | nil => simp [mapInsert, mapGet]
  | cons m members ih =>
      rw [mapInsert]
      split
      · next here => simp [mapGet, here]
      · next other =>
          rw [mapGet, List.find?_cons]
          simpa [other, mapGet] using ih

theorem mapGet_mapInsert_of_ne {key other : Bytes} (ne : key ≠ other) (value : Json)
    (members : List (Key × Json)) :
    mapGet (mapInsert key value members) other = mapGet members other := by
  induction members with
  | nil => simp [mapInsert, mapGet, ne]
  | cons m members ih =>
      rw [mapInsert]
      split
      · next here => simp [mapGet, here, ne]
      · rw [mapGet, mapGet, List.find?_cons, List.find?_cons]
        by_cases found : m.1.text = other
        · simp [found]
        · simpa [found, mapGet] using ih

theorem keys_mapInsert (key : Bytes) (value : Json) (members : List (Key × Json)) :
    (mapInsert key value members).map (·.1.text) =
      if key ∈ members.map (·.1.text) then members.map (·.1.text)
        else members.map (·.1.text) ++ [key] := by
  induction members with
  | nil => rfl
  | cons m members ih =>
      rw [mapInsert]
      split
      · next here => simp [here]
      · next other =>
          rw [List.map_cons, ih, List.map_cons]
          have ne : key ≠ m.1.text := fun h => other h.symm
          by_cases later : key ∈ members.map (·.1.text)
          · rw [if_pos later, if_pos (List.mem_cons_of_mem _ later)]
          · rw [if_neg later, if_neg (by simpa [ne] using later)]
            rfl

theorem mapInsert_keys {key : Bytes} {value : Json} {members : List (Key × Json)}
    (distinct : (members.map (·.1.text)).Nodup) :
    ((mapInsert key value members).map (·.1.text)).Nodup := by
  rw [keys_mapInsert]
  split
  · exact distinct
  · next absent => exact List.nodup_append.mpr ⟨distinct, List.nodup_singleton _,
      fun a ha b hb heq => absent (by rw [← List.mem_singleton.mp hb, ← heq]; exact ha)⟩

/-! ### Running sizes -/

theorem itemsLen_sum (items : List Json) : itemsLen items = (items.map jsonLen).sum := by
  induction items with
  | nil => rfl
  | cons item items ih => rw [itemsLen, ih, List.map_cons, List.sum_cons]

theorem membersLen_sum (members : List (Key × Json)) :
    membersLen members =
      (members.map fun m => jsonStringLen m.1.text + 1 + jsonLen m.2).sum := by
  induction members with
  | nil => rfl
  | cons m members ih => rw [membersLen, ih, List.map_cons, List.sum_cons]

theorem sum_map_le {α : Type} {l : List α} {f g : α → ℕ} (h : ∀ a ∈ l, f a ≤ g a) :
    (l.map f).sum ≤ (l.map g).sum := by
  induction l with
  | nil => exact Nat.le_refl _
  | cons a l ih =>
      obtain ⟨first, rest⟩ := List.forall_mem_cons.mp h
      rw [List.map_cons, List.map_cons, List.sum_cons, List.sum_cons]
      exact Nat.add_le_add first (ih rest)

theorem jsonLenOfObject_inserted (digests : List (Bytes × Json)) (members : List (Key × Json)) :
    jsonLenOfObject (digests.foldl (fun map d => mapInsert d.1 d.2 map) members) ≤
      jsonLenOfObject members +
        (digests.map fun d => jsonStringLen d.1 + 2 + jsonLen d.2).sum := by
  induction digests generalizing members with
  | nil => exact Nat.le_refl _
  | cons d digests ih =>
      have first := jsonLenOfObject_mapInsert d.1 d.2 members
      have rest := ih (mapInsert d.1 d.2 members)
      rw [List.foldl_cons, List.map_cons, List.sum_cons]
      omega

section sizes

variable {child : Json → BoundedChild}

/-- The sizes of a container add up to at least what is written of it. -/
theorem boundValueWith_size (h : ∀ j, jsonLen (child j).value ≤ (child j).size) (j : Json) :
    jsonLen (boundValueWith child j).value ≤ (boundValueWith child j).size := by
  cases j with
  | object members =>
      simp only [boundValueWith, jsonLen_object]
      refine (jsonLenOfObject_inserted _ _).trans (Nat.add_le_add_right ?_ _)
      rw [jsonLenOfObject, membersLen_sum, List.map_map, List.map_map, List.map_map,
        List.length_map]
      refine Nat.add_le_add_left (sum_map_le fun m _ => ?_) _
      have := h m.2
      simp only [Function.comp_apply]
      omega
  | array items =>
      simp only [boundValueWith, jsonLen, itemsLen_sum, List.map_map, List.length_map]
      exact Nat.add_le_add_left (sum_map_le fun i _ => h i) _
  | _ => exact Nat.le_refl _

end sizes

section

variable (sha256 : Bytes → Vector UInt8 32) (cap : ℕ)

theorem boundChild_size (levels : ℕ) (j : Json) :
    jsonLen (boundChild sha256 cap levels j).value ≤ (boundChild sha256 cap levels j).size := by
  induction levels generalizing j with
  | zero =>
      unfold boundChild
      split
      · exact Nat.le_refl _
      · exact Nat.le_refl _
  | succ levels ih =>
      unfold boundChild
      split
      · exact Nat.le_refl _
      · cases j with
        | string text => dsimp only; split <;> exact Nat.le_refl _
        | object members =>
            dsimp only
            split
            · exact Nat.le_refl _
            · exact boundValueWith_size ih _
        | array items =>
            dsimp only
            split
            · exact Nat.le_refl _
            · exact boundValueWith_size ih _
        | _ => exact Nat.le_refl _

/-- **`bound_value` never counts too little.** -/
theorem boundValue_size (depth : ℕ) (j : Json) :
    (write (boundValue sha256 cap depth j).value).length ≤ (boundValue sha256 cap depth j).size := by
  rw [← jsonLen_eq]
  exact boundValueWith_size (boundChild_size sha256 cap _) j

/-! ### The loop over an event -/

/-- The running size is the size, and what is still to be given up has the size that was noted. -/
structure Exact (e : Elision) (order : List (Bytes × ℕ)) : Prop where
  current : e.current = jsonLenOfObject e.members
  noted : ∀ entry ∈ order, ∃ child, mapGet e.members entry.1 = some child ∧
    jsonLen child = entry.2
  distinct : (order.map Prod.fst).Nodup

theorem Exact.step {e : Elision} {entry : Bytes × ℕ} {order : List (Bytes × ℕ)} (totalCap : ℕ)
    (exact : Exact e (entry :: order)) : Exact (elideStep sha256 totalCap e entry) order := by
  obtain ⟨current, noted, distinct⟩ := exact
  obtain ⟨⟨child, there, was⟩, rest⟩ := List.forall_mem_cons.mp noted
  obtain ⟨other, distinct⟩ := List.nodup_cons.mp distinct
  unfold elideStep
  split
  · exact ⟨current, rest, distinct⟩
  · rw [there]
    refine ⟨?_, fun later mem => ?_, distinct⟩
    · have replaced : _ = _ + jsonLen (digestOf sha256 .eventSize child) :=
        jsonLenOfObject_replaced there
      have counted : jsonLen child ≤ jsonLenOfObject e.members := jsonLen_le_of_mapGet there
      simp only [digestSubtree]
      omega
    · obtain ⟨value, found, size⟩ := rest later mem
      refine ⟨value, ?_, size⟩
      rw [mapGet_mapInsert_of_ne fun h => other (List.mem_map.mpr ⟨later, mem, h.symm⟩), found]

theorem Exact.run {e : Elision} {front back : List (Bytes × ℕ)} (totalCap : ℕ)
    (exact : Exact e (front ++ back)) :
    Exact (front.foldl (elideStep sha256 totalCap) e) back := by
  induction front generalizing e with
  | nil => exact exact
  | cons entry front ih => exact ih (exact.step sha256 totalCap)

theorem mapGet_of_mem {members : List (Key × Json)} (distinct : (members.map (·.1.text)).Nodup)
    {m : Key × Json} (mem : m ∈ members) : mapGet members m.1.text = some m.2 := by
  induction members with
  | nil => cases mem
  | cons n members ih =>
      obtain ⟨other, distinct⟩ := List.nodup_cons.mp distinct
      rw [mapGet, List.find?_cons]
      obtain rfl | mem := List.mem_cons.mp mem
      · simp
      · have ne : n.1.text ≠ m.1.text := fun h => other (List.mem_map.mpr ⟨m, mem, h.symm⟩)
        simpa [ne, mapGet] using ih distinct mem

theorem exact_start {members : List (Key × Json)} (distinct : (members.map (·.1.text)).Nodup) :
    Exact ⟨members, jsonLenOfObject members, 0⟩ (elisionOrder members) := by
  refine ⟨rfl, fun entry mem => ?_, ?_⟩
  · rw [elisionOrder, List.mem_mergeSort, List.mem_map] at mem
    obtain ⟨m, inside, rfl⟩ := mem
    exact ⟨m.2, mapGet_of_mem distinct (List.mem_filter.mp inside).1, rfl⟩
  · have keys : (((members.filter (·.1.text ∉ structuralKeys)).map
        fun m => (m.1.text, jsonLen m.2)).map Prod.fst).Nodup := by
      rw [List.map_map]
      exact (List.filter_sublist.map fun m : Key × Json => m.1.text).nodup distinct
    exact ((List.mergeSort_perm _ _).map Prod.fst).nodup_iff.mpr keys

/-! ### What is left of an event -/

theorem jsonStringLen_le (text : Bytes) : jsonStringLen text ≤ 2 + 6 * text.length := by
  have each : (text.map fun b : UInt8 =>
      if [34, 92, 10, 13, 9, 8, 12].contains b then 2 else if b < 0x20 then 6 else 1).sum ≤
        (text.map fun _ => 6).sum := by
    refine sum_map_le fun b _ => ?_
    split
    · omega
    · split <;> omega
  rw [List.map_const', List.sum_replicate_nat] at each
  rw [jsonStringLen]
  omega

theorem decimalBytes_length (n : ℕ) : (decimalBytes n).length ≤ 80 := by
  have digits : (Nat.toDigits 10 (n % 2 ^ 64)).length ≤ 20 :=
    (Nat.length_toDigits_le_iff (by omega) (by omega)).mpr
      ((Nat.mod_lt _ (Nat.two_pow_pos 64)).trans_le (by decide))
  have each : ((Nat.toDigits 10 (n % 2 ^ 64)).map fun c => (String.utf8EncodeChar c).length).sum ≤
      ((Nat.toDigits 10 (n % 2 ^ 64)).map fun _ => 4).sum := by
    refine sum_map_le fun c _ => ?_
    rw [String.length_utf8EncodeChar]
    exact Char.utf8Size_le_four c
  rw [List.map_const', List.sum_replicate_nat] at each
  rw [decimalBytes, utf8, List.length_flatMap]
  omega

theorem hexSha256_length (bytes : Bytes) : (hexSha256 sha256 bytes).length = 64 := by
  rw [hexSha256, List.length_flatMap]
  have each : ((sha256 bytes).toList.map fun b => [hexLower (b / 16), hexLower (b % 16)].length) =
      (sha256 bytes).toList.map fun _ => 2 := rfl
  rw [each, List.map_const', List.sum_replicate_nat, Vector.length_toList]

/-- A digest is small, whatever it stands for. -/
theorem digestOf_size (reason : DigestReason) (value : Json) :
    jsonLen (digestOf sha256 reason value) ≤ 4096 := by
  have names : (utf8 "orgasmic_bounded".toList).length = 16 ∧ (utf8 "bytes".toList).length = 5 ∧
      (utf8 "sha256".toList).length = 6 ∧ (utf8 "retained_bytes".toList).length = 14 ∧
        (utf8 "reason".toList).length = 6 ∧ (utf8 "source".toList).length = 6 ∧
          boundedPayloadSource.length = 74 := by
    decide +kernel
  have why : reason.name.length ≤ 12 := by cases reason <;> decide
  obtain ⟨n₁, n₂, n₃, n₄, n₅, n₆, n₇⟩ := names
  have k₁ := jsonStringLen_le (utf8 "orgasmic_bounded".toList)
  have k₂ := jsonStringLen_le (utf8 "bytes".toList)
  have k₃ := jsonStringLen_le (utf8 "sha256".toList)
  have k₄ := jsonStringLen_le (utf8 "retained_bytes".toList)
  have k₅ := jsonStringLen_le (utf8 "reason".toList)
  have k₆ := jsonStringLen_le (utf8 "source".toList)
  have k₇ := jsonStringLen_le boundedPayloadSource
  have k₈ := jsonStringLen_le reason.name
  have k₉ := jsonStringLen_le (hexSha256 sha256 (write value))
  rw [hexSha256_length] at k₉
  have d₁ := decimalBytes_length (write value).length
  have d₂ := decimalBytes_length 0
  simp only [digestOf, jsonField, jsonLen, membersLen, List.length_cons, List.length_nil]
  omega

/-- The members of a bounded object. -/
def boundedMembers (child : Json → BoundedChild) (members : List (Key × Json)) :
    List (Key × Json) :=
  (siblingDigests (members.map fun m => (m.1, child m.2))).foldl
    (fun map d => mapInsert d.1 d.2 map) (members.map fun m => (m.1, (child m.2).value))

theorem boundValueWith_object (child : Json → BoundedChild) (members : List (Key × Json)) :
    (boundValueWith child (.object members)).value = .object (boundedMembers child members) := by
  simp only [boundValueWith, boundedMembers, List.map_map]
  rfl

theorem boundedMembers_keys (child : Json → BoundedChild) {members : List (Key × Json)}
    (distinct : (members.map (·.1.text)).Nodup) :
    ((boundedMembers child members).map (·.1.text)).Nodup := by
  rw [boundedMembers]
  have start : ((members.map fun m => (m.1, (child m.2).value)).map (·.1.text)).Nodup := by
    rwa [List.map_map]
  generalize members.map (fun m => (m.1, (child m.2).value)) = map at start ⊢
  generalize siblingDigests (members.map fun m => (m.1, child m.2)) = digests
  induction digests generalizing map with
  | nil => exact start
  | cons d digests ih => exact ih _ (mapInsert_keys start)

/-- No sibling is called `type`. -/
theorem mapGet_boundedMembers {child : Json → BoundedChild} {members : List (Key × Json)} :
    mapGet (boundedMembers child members) typeKeyword =
      (mapGet members typeKeyword).map fun j => (child j).value := by
  have siblings : ∀ d ∈ siblingDigests (members.map fun m => (m.1, child m.2)),
      d.1 ≠ typeKeyword := by
    intro d mem same
    obtain ⟨c, -, made⟩ := List.mem_filterMap.mp mem
    obtain ⟨digest, -, rfl⟩ := Option.map_eq_some_iff.mp made
    have long := congrArg List.length same
    have suffix : boundedSuffix.length = 8 := by decide
    have key : typeKeyword.length = 4 := by decide
    rw [List.length_append] at long
    omega
  rw [boundedMembers]
  generalize siblingDigests (members.map fun m => (m.1, child m.2)) = digests at siblings
  have start : mapGet (members.map fun m => (m.1, (child m.2).value)) typeKeyword =
      (mapGet members typeKeyword).map fun j => (child j).value := by
    rw [mapGet, mapGet, List.find?_map, Option.map_map, Option.map_map]
    rfl
  rw [← start]
  generalize members.map (fun m => (m.1, (child m.2).value)) = map
  induction digests generalizing map with
  | nil => rfl
  | cons d digests ih =>
      obtain ⟨first, rest⟩ := List.forall_mem_cons.mp siblings
      rw [List.foldl_cons, ih rest, mapGet_mapInsert_of_ne first]

theorem boundChild_short {levels : ℕ} {text : Bytes} (short : text.length ≤ cap) :
    boundChild sha256 cap (levels + 1) (.string text) =
      { value := .string text, size := jsonStringLen text } := by
  unfold boundChild
  rw [if_neg (show ¬ isBoundedMarker (.string text) = true from Bool.false_ne_true)]
  exact if_neg (Nat.not_lt.mpr short)

theorem mapGet_elided {totalCap : ℕ} {order : List (Bytes × ℕ)} {e : Elision}
    (other : ∀ entry ∈ order, entry.1 ≠ typeKeyword) :
    mapGet (order.foldl (elideStep sha256 totalCap) e).members typeKeyword =
      mapGet e.members typeKeyword := by
  induction order generalizing e with
  | nil => rfl
  | cons entry order ih =>
      obtain ⟨first, rest⟩ := List.forall_mem_cons.mp other
      rw [List.foldl_cons, ih rest, elideStep]
      split
      · rfl
      · split
        · rfl
        · exact mapGet_mapInsert_of_ne first _ _

theorem elisionOrder_ne_type {members : List (Key × Json)} :
    ∀ entry ∈ elisionOrder members, entry.1 ≠ typeKeyword := by
  intro entry mem
  rw [elisionOrder, List.mem_mergeSort, List.mem_map] at mem
  obtain ⟨m, inside, rfl⟩ := mem
  have free := of_decide_eq_true (List.mem_filter.mp inside).2
  intro same
  apply free
  rw [show m.1.text = typeKeyword from same]
  exact List.mem_cons_self

end

end Orgasmic
