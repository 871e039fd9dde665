import Orgasmic.BoundedEvent

/-! # Error data of a JSON-RPC answer

`bounded_error_data` renders the data of an error in at most 3072 bytes.  What is too long is cut in
front of a marker that says how many bytes were left out.

* **Characters.** `isCharBoundary` reads the byte at an index.  In a text that is UTF-8 it holds
  between two characters only (`exists_of_isCharBoundary`).
* **Values.** `utf8_write`: the compact text of a JSON value is UTF-8.
* **The loop.** The marker's length decides the cut, and the cut decides the marker's length.
  `markerLoop_spec`: both only grow from turn to turn, and the marker has at most 39 bytes.
* **Result.** `boundedErrorData_spec`. -/

namespace Orgasmic

open Text JsonText

/-! ### The function -/

def RPC_ERROR_DATA_MAX_BYTES : ℕ := 3 * 1024

def omittedMarker (omitted : ℕ) : Bytes :=
  utf8 ("[... ".toList ++ Nat.toDigits 10 omitted ++ " bytes omitted]".toList)

/-- The loop, with fuel; `boundaryFrom` is its inner loop, and a slice inside a character panics. -/
def markerLoop (serialized : Bytes) : ℕ → ℕ → Option Bytes
  | 0, _ => none
  | fuel + 1, markerLen =>
      let prefixLen := boundaryFrom serialized (RPC_ERROR_DATA_MAX_BYTES - markerLen)
      let omitted := serialized.length - prefixLen
      let marker := omittedMarker omitted
      if marker.length = markerLen then
        if isCharBoundary serialized prefixLen then some (serialized.take prefixLen ++ marker)
        else none
      else markerLoop serialized fuel marker.length

def serializedData (data : Option Json) : Bytes := write (data.getD .null)

def boundedErrorData (fuel : ℕ) (data : Option Json) : Option Bytes :=
  let serialized := serializedData data
  if serialized.length ≤ RPC_ERROR_DATA_MAX_BYTES then some serialized
  else markerLoop serialized fuel (omittedMarker 0).length

/-! ### Characters -/

theorem utf8_append (a b : Text) : utf8 (a ++ b) = utf8 a ++ utf8 b := List.flatMap_append

theorem utf8_cons (c : Char) (t : Text) : utf8 (c :: t) = String.utf8EncodeChar c ++ utf8 t :=
  List.flatMap_cons

/-- A byte that continues a character. -/
theorem continuation (n : ℕ) : 128 ≤ UInt8.ofNat (n % 0x40 + 0x80) ∧
    UInt8.ofNat (n % 0x40 + 0x80) < 192 := by
  have hall : (List.range 64).all fun k => decide (128 ≤ UInt8.ofNat (k + 0x80)) &&
      decide (UInt8.ofNat (k + 0x80) < 192) := by
    decide
  have hk := List.all_eq_true.mp hall (n % 0x40) (List.mem_range.mpr (Nat.mod_lt _ (by decide)))
  simpa using hk

/-- The bytes of a character but the first one. -/
theorem tail_utf8EncodeChar (c : Char) :
    ∀ b ∈ (String.utf8EncodeChar c).tail, 128 ≤ b ∧ b < 192 := by
  unfold String.utf8EncodeChar
  dsimp only
  split
  · simp
  · split
    · exact List.forall_mem_singleton.mpr (continuation _)
    · split
      · exact List.forall_mem_cons.mpr ⟨continuation _, List.forall_mem_singleton.mpr (continuation _)⟩
      · exact List.forall_mem_cons.mpr ⟨continuation _, List.forall_mem_cons.mpr ⟨continuation _,
          List.forall_mem_singleton.mpr (continuation _)⟩⟩

/-- **Between two characters**: a character boundary of UTF-8 text splits the text. -/
theorem exists_of_isCharBoundary {t : Text} {i : ℕ} (h : isCharBoundary (utf8 t) i = true) :
    ∃ a b, t = a ++ b ∧ (utf8 a).length = i := by
  induction t generalizing i with
  | nil =>
      refine ⟨[], [], rfl, ?_⟩
      simp only [isCharBoundary, utf8, List.flatMap_nil, List.length_nil, List.drop_nil, List.head?_nil,
        Option.any_none, Bool.or_false, Bool.or_self, decide_eq_true_eq] at h
      rw [h]
      rfl
  | cons c t ih =>
      obtain rfl | hpos := Nat.eq_zero_or_pos i
      · exact ⟨[], c :: t, rfl, rfl⟩
      rw [utf8_cons, isCharBoundary] at h
      simp only [Bool.or_eq_true, decide_eq_true_eq] at h
      obtain hlt | hle := Nat.lt_or_ge i (String.utf8EncodeChar c).length
      · -- inside the first character
        obtain (h | h) | h := h
        · omega
        · rw [List.length_append] at h
          omega
        · obtain ⟨k, rfl⟩ := Nat.exists_eq_add_of_lt hpos
          rw [List.drop_append_of_le_length (Nat.le_of_lt hlt)] at h
          obtain ⟨b, rest, hrest⟩ := List.exists_cons_of_ne_nil (l := (String.utf8EncodeChar c).drop
            (0 + k + 1)) (by rw [ne_eq, List.drop_eq_nil_iff]; omega)
          have hmem : b ∈ (String.utf8EncodeChar c).tail := by
            rw [← List.drop_one]
            have hdrop : b ∈ ((String.utf8EncodeChar c).drop 1).drop k := by
              rw [List.drop_drop, show 1 + k = 0 + k + 1 by omega, hrest]
              exact List.mem_cons_self
            exact List.mem_of_mem_drop hdrop
          obtain ⟨hlow, hhigh⟩ := tail_utf8EncodeChar c b hmem
          rw [hrest, List.cons_append, List.head?_cons, Option.any_some, Bool.or_eq_true,
            decide_eq_true_eq, decide_eq_true_eq] at h
          obtain h | h := h
          · exact absurd h (UInt8.not_lt.mpr hlow)
          · exact absurd hhigh (UInt8.not_lt.mpr h)
      · obtain ⟨j, rfl⟩ := Nat.exists_eq_add_of_le hle
        have hrest : isCharBoundary (utf8 t) j = true := by
          rw [isCharBoundary]
          simp only [Bool.or_eq_true, decide_eq_true_eq]
          obtain (h | h) | h := h
          · exact .inl (.inl (by omega))
          · rw [List.length_append] at h
            exact .inl (.inr (by omega))
          · rw [List.drop_length_add_append] at h
            exact .inr h
        obtain ⟨a, b, rfl, rfl⟩ := ih hrest
        exact ⟨c :: a, b, rfl, by rw [utf8_cons, List.length_append]⟩

/-! ### Values -/

/-- The bytes of some text, as a `String` keeps them. -/
def IsUtf8 (s : Bytes) : Prop := ∃ t : Text, s = utf8 t

mutual

/-- Every string, key and number text of the value is UTF-8. -/
def TextValue : Json → Prop
  | .number text => IsUtf8 text
  | .string text => IsUtf8 text
  | .array items => TextItems items
  | .object members => TextMembers members
  | _ => True

def TextItems : List Json → Prop
  | [] => True
  | item :: items => TextValue item ∧ TextItems items

def TextMembers : List (Key × Json) → Prop
  | [] => True
  | (key, value) :: members => IsUtf8 key.text ∧ TextValue value ∧ TextMembers members

end

theorem IsUtf8.nil : IsUtf8 [] := ⟨[], rfl⟩

theorem IsUtf8.append {s s' : Bytes} (h : IsUtf8 s) (h' : IsUtf8 s') : IsUtf8 (s ++ s') := by
  obtain ⟨t, rfl⟩ := h
  obtain ⟨t', rfl⟩ := h'
  exact ⟨t ++ t', (utf8_append t t').symm⟩

theorem isUtf8_ascii {s : Bytes} (h : ∀ b ∈ s, b < 128) : IsUtf8 s := by
  have hall : (List.range 128).all fun n =>
      decide (String.utf8EncodeChar (Char.ofNat n) = [UInt8.ofNat n]) := by
    decide
  induction s with
  | nil => exact .nil
  | cons b s ih =>
      obtain ⟨hb, hs⟩ := List.forall_mem_cons.mp h
      have hmem : b.toNat ∈ List.range 128 := List.mem_range.mpr (UInt8.lt_iff_toNat_lt.mp hb)
      have hchar := of_decide_eq_true (List.all_eq_true.mp hall _ hmem)
      rw [UInt8.ofNat_toNat] at hchar
      refine IsUtf8.append (s := [b]) ⟨[Char.ofNat b.toNat], ?_⟩ (ih hs)
      rw [utf8_cons, hchar]
      rfl

theorem isUtf8_of_all {s : Bytes} (h : s.all (fun b => decide (b < 128)) = true) : IsUtf8 s :=
  isUtf8_ascii fun b hb => of_decide_eq_true (List.all_eq_true.mp h b hb)

theorem IsUtf8.cons {b : UInt8} {s : Bytes} (hb : b < 128) (h : IsUtf8 s) : IsUtf8 (b :: s) :=
  (isUtf8_ascii (List.forall_mem_singleton.mpr hb)).append h

/-- A byte of an ASCII character is written in ASCII. -/
theorem escapeByte_ascii {b : UInt8} (h : b < 128) : ∀ x ∈ escapeByte b, x < 128 := by
  have hall : (List.range 128).all fun n =>
      decide (∀ x ∈ escapeByte (UInt8.ofNat n), x < 128) := by
    decide +kernel
  have hmem : b.toNat ∈ List.range 128 := List.mem_range.mpr (UInt8.lt_iff_toNat_lt.mp h)
  have hb := of_decide_eq_true (List.all_eq_true.mp hall _ hmem)
  rwa [UInt8.ofNat_toNat] at hb

/-- A byte of another character is written as it is. -/
theorem escapeByte_high {b : UInt8} (h : 128 ≤ b) : escapeByte b = [b] := by
  have hn : 128 ≤ b.toNat := UInt8.le_iff_toNat_le.mp h
  have hne (n : UInt8) (hsmall : n.toNat < 128) : b ≠ n := by
    rintro rfl
    omega
  have hlt : ¬ b < 32 := fun hb => by
    have := UInt8.lt_iff_toNat_lt.mp hb
    have h32 : (32 : UInt8).toNat = 32 := rfl
    omega
  rw [escapeByte, if_neg (hne 34 (by decide)), if_neg (hne 92 (by decide)),
    if_neg (hne 8 (by decide)), if_neg (hne 9 (by decide)), if_neg (hne 10 (by decide)),
    if_neg (hne 12 (by decide)), if_neg (hne 13 (by decide)), if_neg hlt]

/-- One byte below 128, or bytes from 128 on only. -/
theorem utf8EncodeChar_shape (c : Char) : (∃ b, String.utf8EncodeChar c = [b] ∧ b < 128) ∨
    ∀ b ∈ String.utf8EncodeChar c, 128 ≤ b := by
  have lead (n m k : ℕ) (hm : 0 < m) (hk : 128 ≤ k) (hsum : m + k ≤ 256) :
      128 ≤ UInt8.ofNat (n % m + k) := by
    have := Nat.mod_lt n hm
    rw [UInt8.le_iff_toNat_le, UInt8.toNat_ofNat', Nat.mod_eq_of_lt (by omega)]
    exact le_trans hk (Nat.le_add_left _ _)
  have next (n : ℕ) : 128 ≤ UInt8.ofNat (n % 0x40 + 0x80) := (continuation n).1
  unfold String.utf8EncodeChar
  dsimp only
  split
  · next h =>
      refine .inl ⟨_, rfl, ?_⟩
      rw [UInt8.lt_iff_toNat_lt]
      show c.val.toNat % 256 < 128
      omega
  · split
    · refine .inr (List.forall_mem_cons.mpr ⟨lead _ _ _ (by decide) (by decide) (by decide), ?_⟩)
      exact List.forall_mem_singleton.mpr (next _)
    · split
      · refine .inr (List.forall_mem_cons.mpr ⟨lead _ _ _ (by decide) (by decide) (by decide), ?_⟩)
        exact List.forall_mem_cons.mpr ⟨next _, List.forall_mem_singleton.mpr (next _)⟩
      · refine .inr (List.forall_mem_cons.mpr ⟨lead _ _ _ (by decide) (by decide) (by decide), ?_⟩)
        exact List.forall_mem_cons.mpr ⟨next _, List.forall_mem_cons.mpr ⟨next _,
          List.forall_mem_singleton.mpr (next _)⟩⟩

theorem isUtf8_body {s : Bytes} (h : IsUtf8 s) : IsUtf8 (body s) := by
  obtain ⟨t, rfl⟩ := h
  induction t with
  | nil => exact .nil
  | cons c t ih =>
      rw [utf8_cons, body, List.flatMap_append]
      refine IsUtf8.append ?_ ih
      obtain ⟨b, heq, hb⟩ | hhigh := utf8EncodeChar_shape c
      · rw [heq, List.flatMap_singleton]
        exact isUtf8_ascii (escapeByte_ascii hb)
      · -- the character's bytes stay what they are
        have hsame : (String.utf8EncodeChar c).flatMap escapeByte = String.utf8EncodeChar c := by
          rw [List.flatMap_congr fun b hb => escapeByte_high (hhigh b hb), List.flatMap_singleton']
        rw [hsame]
        exact ⟨[c], by rw [utf8_cons]; exact (List.append_nil _).symm⟩

theorem isUtf8_quoted {s : Bytes} (h : IsUtf8 s) : IsUtf8 (quoted s) :=
  .cons (by decide) ((isUtf8_body h).append (isUtf8_of_all (by decide)))

mutual

/-- **The compact text of a value is UTF-8.** -/
theorem utf8_write : ∀ value : Json, TextValue value → IsUtf8 (write value)
  | .null, _ => isUtf8_of_all (by decide)
  | .bool true, _ => isUtf8_of_all (by decide)
  | .bool false, _ => isUtf8_of_all (by decide)
  | .number _, h => h
  | .string _, h => isUtf8_quoted h
  | .array [], _ => isUtf8_of_all (by decide)
  | .array (item :: items), h => .cons (by decide)
      (((utf8_write item h.1).append (utf8_writeItems items h.2)).append (isUtf8_of_all (by decide)))
  | .object [], _ => isUtf8_of_all (by decide)
  | .object ((key, value) :: members), h => .cons (by decide)
      (((utf8_writeMember (key, value) h.1 h.2.1).append (utf8_writeMembers members h.2.2)).append
        (isUtf8_of_all (by decide)))

theorem utf8_writeItems : ∀ items : List Json, TextItems items → IsUtf8 (writeItems items)
  | [], _ => .nil
  | item :: items, h =>
      .cons (by decide) ((utf8_write item h.1).append (utf8_writeItems items h.2))

theorem utf8_writeMember : ∀ member : Key × Json, IsUtf8 member.1.text → TextValue member.2 →
    IsUtf8 (writeMember member)
  | (_, value), hkey, h => (isUtf8_quoted hkey).append (.cons (by decide) (utf8_write value h))

theorem utf8_writeMembers : ∀ members : List (Key × Json), TextMembers members →
    IsUtf8 (writeMembers members)
  | [], _ => .nil
  | (key, value) :: members, h => .cons (by decide)
      ((utf8_writeMember (key, value) h.1 h.2.1).append (utf8_writeMembers members h.2.2))

end

/-! ### The marker -/

theorem omittedMarker_length (n : ℕ) :
    (omittedMarker n).length = 20 + (Nat.toDigits 10 n).length := by
  have hdigits : ∀ ds : Text, (∀ c ∈ ds, c.isDigit = true) → (utf8 ds).length = ds.length := by
    intro ds h
    induction ds with
    | nil => rfl
    | cons c ds ih =>
        obtain ⟨hc, hds⟩ := List.forall_mem_cons.mp h
        have hsize : c.utf8Size = 1 := by
          simp only [Char.isDigit, Bool.and_eq_true, decide_eq_true_eq, ge_iff_le] at hc
          have hlow : c.val ≤ 127 := UInt32.le_trans hc.2 (by decide)
          exact if_pos hlow
        rw [utf8_cons, List.length_append, String.length_utf8EncodeChar, hsize, ih hds,
          List.length_cons, Nat.add_comm]
  rw [omittedMarker, utf8_append, utf8_append, List.length_append, List.length_append,
    hdigits _ fun c hc => Nat.isDigit_of_mem_toDigits (by decide) (by decide) hc]
  have hfront : (utf8 "[... ".toList).length = 5 := rfl
  have hback : (utf8 " bytes omitted]".toList).length = 15 := rfl
  omega

/-- Of a greater count the marker is not shorter. -/
theorem omittedMarker_mono {n m : ℕ} (h : n ≤ m) :
    (omittedMarker n).length ≤ (omittedMarker m).length := by
  rw [omittedMarker_length, omittedMarker_length]
  have hpos : 0 < (Nat.toDigits 10 m).length := Nat.length_toDigits_pos
  have hm := (Nat.length_toDigits_le_iff (b := 10) (n := m) (by decide) hpos).mp le_rfl
  have hn := (Nat.length_toDigits_le_iff (b := 10) (by decide) hpos).mpr (lt_of_le_of_lt h hm)
  omega

/-- No count that fits a word has more than twenty digits. -/
theorem omittedMarker_le {n : ℕ} (h : n < 2 ^ 64) : (omittedMarker n).length ≤ 40 := by
  rw [omittedMarker_length]
  have hdigits := (Nat.length_toDigits_le_iff (b := 10) (n := n) (k := 20) (by decide)
    (by decide)).mpr (lt_of_lt_of_le h (by decide))
  omega

theorem boundaryFrom_le (text : Bytes) (i : ℕ) : boundaryFrom text i ≤ i := by
  induction i with
  | zero => exact le_rfl
  | succ i ih =>
      rw [boundaryFrom]
      split
      · exact le_rfl
      · exact Nat.le_succ_of_le ih

theorem boundaryFrom_mono (text : Bytes) {i j : ℕ} (h : i ≤ j) :
    boundaryFrom text i ≤ boundaryFrom text j := by
  induction h with
  | refl => exact le_rfl
  | step _ ih =>
      refine le_trans ih ?_
      rw [boundaryFrom]
      split
      · exact Nat.le_succ_of_le (boundaryFrom_le text _)
      · exact le_rfl

theorem isCharBoundary_boundaryFrom (text : Bytes) (i : ℕ) :
    isCharBoundary text (boundaryFrom text i) = true := by
  induction i with
  | zero => rfl
  | succ i ih =>
      rw [boundaryFrom]
      split
      · assumption
      · exact ih

/-! ### The loop -/

/-- What the loop may answer. -/
def MarkedCut (text : Text) (result : Bytes) : Prop :=
  ∃ kept omitted, text = kept ++ omitted ∧
    result = utf8 kept ++ omittedMarker (utf8 omitted).length ∧
    result.length ≤ RPC_ERROR_DATA_MAX_BYTES

/-- The marker of a turn. -/
def nextMarker (serialized : Bytes) (markerLen : ℕ) : Bytes :=
  omittedMarker (serialized.length -
    boundaryFrom serialized (RPC_ERROR_DATA_MAX_BYTES - markerLen))

/-- A longer marker leaves less room, so that more is left out. -/
theorem nextMarker_mono (serialized : Bytes) {m m' : ℕ} (h : m ≤ m') :
    (nextMarker serialized m).length ≤ (nextMarker serialized m').length :=
  omittedMarker_mono (Nat.sub_le_sub_left
    (boundaryFrom_mono serialized (Nat.sub_le_sub_left h _)) _)

theorem nextMarker_le {serialized : Bytes} (h : serialized.length < 2 ^ 64) (m : ℕ) :
    (nextMarker serialized m).length ≤ 40 :=
  omittedMarker_le (lt_of_le_of_lt (Nat.sub_le _ _) h)

/-- A turn that finds the marker as long as it was taken to be. -/
theorem markedCut_of_fixed {text : Text} {m : ℕ} (hm : m ≤ 40)
    (hfixed : (nextMarker (utf8 text) m).length = m) :
    MarkedCut text ((utf8 text).take (boundaryFrom (utf8 text) (RPC_ERROR_DATA_MAX_BYTES - m)) ++
      nextMarker (utf8 text) m) := by
  obtain ⟨kept, omitted, rfl, hlen⟩ := exists_of_isCharBoundary
    (isCharBoundary_boundaryFrom (utf8 text) (RPC_ERROR_DATA_MAX_BYTES - m))
  have hle := boundaryFrom_le (utf8 (kept ++ omitted)) (RPC_ERROR_DATA_MAX_BYTES - m)
  have hmax : RPC_ERROR_DATA_MAX_BYTES = 3072 := rfl
  have hrest : (utf8 (kept ++ omitted)).length - (utf8 kept).length = (utf8 omitted).length := by
    rw [utf8_append, List.length_append, Nat.add_sub_cancel_left]
  have htake : (utf8 (kept ++ omitted)).take (utf8 kept).length = utf8 kept := by
    rw [utf8_append, List.take_left]
  refine ⟨kept, omitted, rfl, ?_, ?_⟩
  · rw [nextMarker, ← hlen, htake, hrest]
  · rw [← hlen] at hle
    rw [List.length_append, hfixed, ← hlen, htake]
    omega

/-- **The loop ends**, since the marker grows from turn to turn. -/
theorem markerLoop_spec {text : Text} (hfits : (utf8 text).length < 2 ^ 64) (fuel m : ℕ)
    (hfuel : 41 ≤ fuel + m) (hm : m ≤ 40) (hgrows : m ≤ (nextMarker (utf8 text) m).length) :
    ∃ result, (∀ more, markerLoop (utf8 text) (fuel + more) m = some result) ∧
      MarkedCut text result := by
  induction fuel generalizing m with
  | zero => omega
  | succ fuel ih =>
      by_cases hfixed : (nextMarker (utf8 text) m).length = m
      · refine ⟨_, fun more => ?_, markedCut_of_fixed hm hfixed⟩
        rw [Nat.add_right_comm, markerLoop]
        show (if (nextMarker (utf8 text) m).length = m then _ else _) = _
        rw [if_pos hfixed, if_pos (isCharBoundary_boundaryFrom _ _)]
        rfl
      · have hlt : m < (nextMarker (utf8 text) m).length := by omega
        obtain ⟨result, hloop, hcut⟩ := ih (nextMarker (utf8 text) m).length (by omega)
          (nextMarker_le hfits m) (nextMarker_mono _ (Nat.le_of_lt hlt))
        refine ⟨result, fun more => ?_, hcut⟩
        rw [Nat.add_right_comm, markerLoop]
        show (if (nextMarker (utf8 text) m).length = m then _ else _) = _
        rw [if_neg hfixed]
        exact hloop more

/-- **Error data is bounded.**  For every value the loop ends within twenty turns, whatever more fuel
there is, and no slice is inside a character.  The answer is the whole text, or a part of it up to a
character and the marker with the number of bytes behind that part. -/
theorem boundedErrorData_spec {data : Option Json} (hdata : TextValue (data.getD .null))
    (hfits : (serializedData data).length < 2 ^ 64) :
    ∃ text result, serializedData data = utf8 text ∧
      (∀ more, boundedErrorData (20 + more) data = some result) ∧
      ((serializedData data).length ≤ RPC_ERROR_DATA_MAX_BYTES ∧ result = serializedData data ∨
        RPC_ERROR_DATA_MAX_BYTES < (serializedData data).length ∧ MarkedCut text result) := by
  obtain ⟨text, htext⟩ : IsUtf8 (serializedData data) := utf8_write _ hdata
  obtain hle | hlong := le_or_gt (serializedData data).length RPC_ERROR_DATA_MAX_BYTES
  · exact ⟨text, _, htext, fun more => if_pos hle, .inl ⟨hle, rfl⟩⟩
  · have hstart : (omittedMarker 0).length = 21 := rfl
    rw [htext] at hfits
    have hgrows : (omittedMarker 0).length ≤
        (nextMarker (utf8 text) (omittedMarker 0).length).length :=
      omittedMarker_mono (Nat.zero_le _)
    obtain ⟨result, hloop, hcut⟩ := markerLoop_spec hfits 20 (omittedMarker 0).length
      (by omega) (by omega) hgrows
    refine ⟨text, result, htext, fun more => ?_, .inr ⟨hlong, hcut⟩⟩
    show (if (serializedData data).length ≤ RPC_ERROR_DATA_MAX_BYTES then _ else _) = _
    rw [if_neg (Nat.not_le.mpr hlong), htext]
    exact hloop more

/-- Four thousand letters. -/
theorem boundedErrorData_spec_letters :
    ∃ text result, serializedData (some (.string (List.replicate 4000 97))) = utf8 text ∧
      (∀ more, boundedErrorData (20 + more) (some (.string (List.replicate 4000 97))) = some result) ∧
      ((serializedData (some (.string (List.replicate 4000 97)))).length ≤ RPC_ERROR_DATA_MAX_BYTES ∧
          result = serializedData (some (.string (List.replicate 4000 97))) ∨
        RPC_ERROR_DATA_MAX_BYTES < (serializedData (some (.string (List.replicate 4000 97)))).length ∧
          MarkedCut text result) := by
  have hascii : ∀ b ∈ List.replicate 4000 (97 : UInt8), b < 128 := fun b hb =>
    List.eq_of_mem_replicate hb ▸ by decide
  refine boundedErrorData_spec (isUtf8_ascii hascii) ?_
  have hbody : body (List.replicate 4000 97) = List.replicate 4000 97 := by
    rw [body, List.flatMap_replicate, show escapeByte 97 = [97] from rfl,
      List.flatten_replicate_singleton]
  show (quoted (List.replicate 4000 97)).length < 2 ^ 64
  rw [quoted, hbody, List.length_cons, List.length_append, List.length_replicate]
  decide

end Orgasmic
