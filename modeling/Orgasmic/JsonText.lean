import Mathlib.Data.List.DropRight
import Mathlib.Tactic.Common

/-! # Reading JSON text

The grammar of RFC 8259 over bytes, as a reader that returns what the text says.

* **Values** (`Json`): strings are decoded, numbers keep their text.  An object keeps its members in
  order, with duplicates, and for each key whether it is spelled with an escape.
* **Readers** take a text and return a value and the text behind it.  `elements` and `members` are the
  loops of an array and an object over a reader of values; `value` closes the recursion, with one
  unit of fuel for each level of nesting.
* **Objects** are looked up by decoded keys, and the last member of a key counts (`lookup`). -/

namespace JsonText

/-- A key, decoded, and whether an escape spells it. -/
structure Key where
  text : List UInt8
  escaped : Bool
deriving DecidableEq, Repr

inductive Json where
  | null
  | bool (b : Bool)
  | number (text : List UInt8)
  | string (text : List UInt8)
  | array (items : List Json)
  | object (members : List (Key × Json))

/-! ### Bytes -/

def isWs (b : UInt8) : Bool := b = 32 || b = 9 || b = 10 || b = 13

def isDigit (b : UInt8) : Bool := 48 ≤ b && b ≤ 57

/-- The value of a hexadecimal digit. -/
def hexDigit (b : UInt8) : Option ℕ :=
  if isDigit b then some (b.toNat - 48)
  else if 97 ≤ b && b ≤ 102 then some (b.toNat - 87)
  else if 65 ≤ b && b ≤ 70 then some (b.toNat - 55)
  else none

def skipWs (s : List UInt8) : List UInt8 := s.dropWhile isWs

/-- The byte, behind white space. -/
def token (b : UInt8) (s : List UInt8) : Option (List UInt8) :=
  match skipWs s with
  | [] => none
  | c :: rest => if c = b then some rest else none

/-- The text, exactly. -/
def literal (text s : List UInt8) : Option (List UInt8) :=
  if text.isPrefixOf s then some (s.drop text.length) else none

/-! ### Strings -/

/-- Four hexadecimal digits. -/
def hex4 : List UInt8 → Option (ℕ × List UInt8)
  | a :: b :: c :: d :: rest => do
      let a ← hexDigit a
      let b ← hexDigit b
      let c ← hexDigit c
      let d ← hexDigit d
      some (((a * 16 + b) * 16 + c) * 16 + d, rest)
  | _ => none

/-- The bytes of a code point. -/
def encode (n : ℕ) : List UInt8 := String.utf8EncodeChar (Char.ofNat n)

/-- The escapes of one letter. -/
def shortEscape (b : UInt8) : Option UInt8 :=
  if b = 34 then some 34 else if b = 92 then some 92 else if b = 47 then some 47
  else if b = 98 then some 8 else if b = 102 then some 12 else if b = 110 then some 10
  else if b = 114 then some 13 else if b = 116 then some 9 else none

/-- What stands behind a `\u`: a code point, or the two halves of a surrogate pair. -/
def unicodeEscape (s : List UInt8) : Option (List UInt8 × List UInt8) := do
  let (first, s) ← hex4 s
  if 0xd800 ≤ first && first < 0xdc00 then
    let s ← literal [92, 117] s
    let (second, s) ← hex4 s
    if 0xdc00 ≤ second && second < 0xe000 then
      some (encode (0x10000 + (first - 0xd800) * 0x400 + (second - 0xdc00)), s)
    else none
  else if 0xdc00 ≤ first && first < 0xe000 then none
  else some (encode first, s)

/-- What a `\` stands for with the bytes behind it. -/
def escape : List UInt8 → Option (List UInt8 × List UInt8)
  | [] => none
  | b :: s => if b = 117 then unicodeEscape s else (shortEscape b).map fun c => ([c], s)

/-- The rest of a string whose opening quote was read; every turn reads a byte. -/
def stringRest : ℕ → List UInt8 → Option (Key × List UInt8)
  | 0, _ => none
  | _ + 1, [] => none
  | turns + 1, b :: s =>
      if b = 34 then some (⟨[], false⟩, s)
      else if b < 32 then none
      else if b = 92 then do
        let (c, s) ← escape s
        let (k, s) ← stringRest turns s
        some (⟨c ++ k.text, true⟩, s)
      else do
        let (k, s) ← stringRest turns s
        some (⟨b :: k.text, k.escaped⟩, s)

/-- A string behind white space. -/
def string (s : List UInt8) : Option (Key × List UInt8) := do
  let s ← token 34 s
  stringRest (s.length + 1) s

/-! ### Numbers -/

/-- One or more digits. -/
def digits (s : List UInt8) : Option (List UInt8) :=
  match s with
  | [] => none
  | b :: _ => if isDigit b then some (s.dropWhile isDigit) else none

/-- An optional sign, and an integer without leading zeros. -/
def integerPart (s : List UInt8) : Option (List UInt8) :=
  let s := if s.head? = some 45 then s.drop 1 else s
  if s.head? = some 48 then some (s.drop 1) else digits s

def fraction (s : List UInt8) : Option (List UInt8) :=
  if s.head? = some 46 then digits (s.drop 1) else some s

def exponent (s : List UInt8) : Option (List UInt8) :=
  if s.head? = some 101 ∨ s.head? = some 69 then
    let s := s.drop 1
    digits (if s.head? = some 43 ∨ s.head? = some 45 then s.drop 1 else s)
  else some s

def numberRest (s : List UInt8) : Option (List UInt8) := do
  let s ← integerPart s
  let s ← fraction s
  exponent s

def number (s : List UInt8) : Option (Json × List UInt8) :=
  (numberRest s).map fun rest => (.number (s.take (s.length - rest.length)), rest)

/-! ### Arrays and objects -/

section Loops

variable (value : List UInt8 → Option (Json × List UInt8))

/-- The items of an array, the first one at the front; every turn reads a byte. -/
def elements : ℕ → List UInt8 → Option (List Json × List UInt8)
  | 0, _ => none
  | turns + 1, s => do
      let (item, s) ← value s
      match skipWs s with
      | [] => none
      | b :: s =>
          if b = 44 then do
            let (items, s) ← elements turns s
            some (item :: items, s)
          else if b = 93 then some ([item], s)
          else none

/-- The members of an object, the first one at the front; every turn reads a byte. -/
def members : ℕ → List UInt8 → Option (List (Key × Json) × List UInt8)
  | 0, _ => none
  | turns + 1, s => do
      let (key, s) ← string s
      let s ← token 58 s
      let (item, s) ← value s
      match skipWs s with
      | [] => none
      | b :: s =>
          if b = 44 then do
            let (ms, s) ← members turns s
            some ((key, item) :: ms, s)
          else if b = 125 then some ([(key, item)], s)
          else none

/-- An array whose bracket was read. -/
def array (s : List UInt8) : Option (Json × List UInt8) :=
  match token 93 s with
  | some s => some (.array [], s)
  | none => (elements value (s.length + 1) s).map fun p => (.array p.1, p.2)

/-- The members of an object whose brace was read. -/
def objectMembers (s : List UInt8) : Option (List (Key × Json) × List UInt8) :=
  match token 125 s with
  | some s => some ([], s)
  | none => members value (s.length + 1) s

end Loops

/-- A value behind white space. -/
def value : ℕ → List UInt8 → Option (Json × List UInt8)
  | 0, _ => none
  | levels + 1, s =>
      match skipWs s with
      | [] => none
      | b :: s =>
          if b = 34 then (string (b :: s)).map fun p => (.string p.1.text, p.2)
          else if b = 123 then (objectMembers (value levels) s).map fun p => (.object p.1, p.2)
          else if b = 91 then array (value levels) s
          else if b = 116 then (literal [116, 114, 117, 101] (b :: s)).map ((.bool true, ·))
          else if b = 102 then (literal [102, 97, 108, 115, 101] (b :: s)).map ((.bool false, ·))
          else if b = 110 then (literal [110, 117, 108, 108] (b :: s)).map ((.null, ·))
          else number (b :: s)

/-- The bytes are UTF-8. -/
def isUtf8 (s : List UInt8) : Bool := (String.fromUTF8? ⟨s.toArray⟩).isSome

/-- A whole text: one value between white space. -/
def parse (s : List UInt8) : Option Json := do
  let (j, rest) ← value (s.length + 1) s
  if isUtf8 s ∧ skipWs rest = [] then some j else none

/-- The last member of the key. -/
def lookup (members : List (Key × Json)) (key : List UInt8) : Option Json :=
  ((members.filter (·.1.text = key)).getLast?).map (·.2)

/-- The last member that spells the key without an escape. -/
def spelled (members : List (Key × Json)) (key : List UInt8) : Option Json :=
  ((members.filter (·.1 = ⟨key, false⟩)).getLast?).map (·.2)

/-- The last member of the key spells it with an escape, and has the value. -/
def Overridden (members : List (Key × Json)) (key : List UInt8) (j : Json) : Prop :=
  (members.filter (·.1.text = key)).getLast? = some (⟨key, true⟩, j)

/-- The numbers of a value, by their texts. -/
def Json.numbers : Json → List (List UInt8)
  | .number text => [text]
  | .array items => items.attach.flatMap fun ⟨j, _⟩ => j.numbers
  | .object members => members.attach.flatMap fun ⟨m, _⟩ => m.2.numbers
  | _ => []
termination_by j => sizeOf j
decreasing_by
  · next h =>
      have := List.sizeOf_lt_of_mem h
      simp only [Json.array.sizeOf_spec]
      omega
  · next h =>
      have := List.sizeOf_lt_of_mem h
      have hm : sizeOf m.2 < sizeOf m := by
        obtain ⟨k, j⟩ := m
        show sizeOf j < sizeOf (k, j)
        rw [Prod.mk.sizeOf_spec]
        omega
      simp only [Json.object.sizeOf_spec]
      omega

/-! ### Members -/

/-- What spells the key decides, or a later member that does not. -/
theorem spelled_cases {ms : List (Key × Json)} {key : List UInt8} {j : Json}
    (h : spelled ms key = some j) :
    lookup ms key = some j ∨ ∃ j', Overridden ms key j' ∧ lookup ms key = some j' := by
  have hspelled : ms.filter (·.1 = ⟨key, false⟩) =
      (ms.filter (·.1.text = key)).filter (·.1 = ⟨key, false⟩) := by
    rw [List.filter_filter]
    refine List.filter_congr fun m _ => ?_
    by_cases hm : m.1 = ⟨key, false⟩ <;> simp [hm]
  rw [spelled, hspelled] at h
  unfold lookup Overridden
  cases hlast : (ms.filter (·.1.text = key)).getLast? with
  | none =>
      rw [List.getLast?_eq_none_iff] at hlast
      rw [hlast] at h
      cases h
  | some m =>
      obtain ⟨front, hfront⟩ := List.getLast?_eq_some_iff.mp hlast
      have htext : m.1.text = key := by
        have hmem : m ∈ ms.filter (·.1.text = key) := List.mem_of_getLast? hlast
        simpa using (List.mem_filter.mp hmem).2
      obtain ⟨⟨text, escaped⟩, value⟩ := m
      subst htext
      cases escaped with
      | true => exact .inr ⟨value, rfl, rfl⟩
      | false =>
          rw [hfront] at h
          simp only [List.filter_append, List.filter_cons, decide_true, if_true, List.filter_nil,
            List.getLast?_concat, Option.map_some] at h
          exact .inl h

/-- A member that overrides is the last one of its key. -/
theorem Overridden.lookup_eq {ms : List (Key × Json)} {key : List UInt8} {j : Json}
    (h : Overridden ms key j) : lookup ms key = some j := by
  rw [lookup, h]
  rfl

theorem value_of_parse {s : List UInt8} {j : Json} (h : parse s = some j) :
    ∃ rest, value (s.length + 1) s = some (j, rest) := by
  obtain ⟨⟨j', rest⟩, hvalue, h⟩ := Option.bind_eq_some_iff.mp h
  dsimp only at h
  split at h
  · cases h
    exact ⟨rest, hvalue⟩
  · cases h

/-! ### White space and fuel -/

@[simp] theorem skipWs_skipWs (s : List UInt8) : skipWs (skipWs s) = skipWs s :=
  List.dropWhile_idempotent isWs s

theorem skipWs_length_le (s : List UInt8) : (skipWs s).length ≤ s.length :=
  List.length_dropWhile_le isWs s

theorem token_skipWs (b : UInt8) (s : List UInt8) : token b (skipWs s) = token b s := by
  rw [token, skipWs_skipWs, token]

theorem string_skipWs (s : List UInt8) : string (skipWs s) = string s := by
  rw [string, token_skipWs, string]

section Loops

variable {v w : List UInt8 → Option (Json × List UInt8)}

theorem members_skipWs (turns : ℕ) (s : List UInt8) :
    members v turns (skipWs s) = members v turns s := by
  cases turns with
  | zero => rfl
  | succ turns => rw [members, string_skipWs, members]

theorem elements_skipWs (hv : ∀ s, v (skipWs s) = v s) (turns : ℕ) (s : List UInt8) :
    elements v turns (skipWs s) = elements v turns s := by
  cases turns with
  | zero => rfl
  | succ turns => rw [elements, hv, elements]

end Loops

theorem value_skipWs (levels : ℕ) (s : List UInt8) : value levels (skipWs s) = value levels s := by
  cases levels with
  | zero => rfl
  | succ levels => rw [value, skipWs_skipWs, value]

/-! ### What a reader leaves -/

theorem token_length {b : UInt8} {s r : List UInt8} (h : token b s = some r) :
    r.length < s.length := by
  have hle := skipWs_length_le s
  unfold token at h
  split at h
  · cases h
  · next c rest hs =>
      rw [hs, List.length_cons] at hle
      split at h
      · cases h
        omega
      · cases h

theorem literal_length {text s r : List UInt8} (h : literal text s = some r) :
    r.length ≤ s.length := by
  unfold literal at h
  split at h
  · cases h
    rw [List.length_drop]
    omega
  · cases h

theorem hex4_length {s r : List UInt8} {n : ℕ} (h : hex4 s = some (n, r)) :
    r.length < s.length := by
  unfold hex4 at h
  split at h
  · simp only [Option.bind_eq_bind, Option.bind_eq_some_iff, Option.some.injEq, Prod.mk.injEq] at h
    obtain ⟨-, -, -, -, -, -, -, -, -, rfl⟩ := h
    simp only [List.length_cons]
    omega
  · cases h

theorem unicodeEscape_length {s d r : List UInt8} (h : unicodeEscape s = some (d, r)) :
    r.length < s.length := by
  obtain ⟨⟨first, s₁⟩, h₁, h⟩ := Option.bind_eq_some_iff.mp h
  have hlt := hex4_length h₁
  dsimp only at h
  split at h
  · obtain ⟨s₂, h₂, h⟩ := Option.bind_eq_some_iff.mp h
    obtain ⟨⟨second, s₃⟩, h₃, h⟩ := Option.bind_eq_some_iff.mp h
    have := literal_length h₂
    have := hex4_length h₃
    dsimp only at h
    split at h
    · obtain ⟨-, rfl⟩ := Prod.mk.inj (Option.some.inj h)
      omega
    · cases h
  · split at h
    · cases h
    · obtain ⟨-, rfl⟩ := Prod.mk.inj (Option.some.inj h)
      omega

theorem escape_length {s d r : List UInt8} (h : escape s = some (d, r)) : r.length < s.length := by
  cases s with
  | nil => cases h
  | cons b s =>
      simp only [escape] at h
      split at h
      · exact Nat.lt_succ_of_lt (unicodeEscape_length h)
      · obtain ⟨c, -, hc⟩ := Option.map_eq_some_iff.mp h
        cases hc
        exact Nat.lt_succ_self _

theorem stringRest_length {turns : ℕ} {s r : List UInt8} {k : Key}
    (h : stringRest turns s = some (k, r)) : r.length < s.length := by
  induction turns generalizing s k with
  | zero => cases h
  | succ turns ih =>
      cases s with
      | nil => cases h
      | cons b s =>
          simp only [stringRest] at h
          split at h
          · cases h
            exact Nat.lt_succ_self _
          · split at h
            · cases h
            · split at h
              · obtain ⟨⟨d, s₁⟩, h₁, h⟩ := Option.bind_eq_some_iff.mp h
                obtain ⟨⟨k', s₂⟩, h₂, h⟩ := Option.bind_eq_some_iff.mp h
                cases h
                have hlt := escape_length h₁
                have hlt' := ih h₂
                exact Nat.lt_succ_of_lt (hlt'.trans hlt)
              · obtain ⟨⟨k', s₂⟩, h₂, h⟩ := Option.bind_eq_some_iff.mp h
                cases h
                exact Nat.lt_succ_of_lt (ih h₂)

theorem string_length {s r : List UInt8} {k : Key} (h : string s = some (k, r)) :
    r.length < s.length := by
  obtain ⟨s₁, h₁, h⟩ := Option.bind_eq_some_iff.mp h
  have := token_length h₁
  have := stringRest_length h
  omega

theorem digits_length {s r : List UInt8} (h : digits s = some r) : r.length < s.length := by
  cases s with
  | nil => cases h
  | cons b s =>
      simp only [digits] at h
      split at h
      · next hb =>
          cases h
          have := List.length_dropWhile_le isDigit s
          simp only [List.dropWhile_cons, hb, if_true, List.length_cons]
          omega
      · cases h

theorem dropIf_length (p : Prop) [Decidable p] (s : List UInt8) :
    (if p then s.drop 1 else s).length ≤ s.length := by
  split
  · rw [List.length_drop]
    omega
  · exact Nat.le_refl _

theorem integerPart_length {s r : List UInt8} (h : integerPart s = some r) :
    r.length < s.length := by
  have hle := dropIf_length (s.head? = some 45) s
  simp only [integerPart] at h
  generalize (if s.head? = some 45 then s.drop 1 else s) = t at hle h
  split at h
  · next hz =>
      cases h
      cases t with
      | nil => cases hz
      | cons b t => exact hle
  · have := digits_length h
    omega

theorem fraction_length {s r : List UInt8} (h : fraction s = some r) : r.length ≤ s.length := by
  unfold fraction at h
  split at h
  · have := digits_length h
    rw [List.length_drop] at this
    omega
  · cases h
    exact Nat.le_refl _

theorem exponent_length {s r : List UInt8} (h : exponent s = some r) : r.length ≤ s.length := by
  unfold exponent at h
  split at h
  · have hd := digits_length h
    have := dropIf_length ((s.drop 1).head? = some 43 ∨ (s.drop 1).head? = some 45) (s.drop 1)
    rw [List.length_drop] at this
    omega
  · cases h
    exact Nat.le_refl _

theorem number_length {s r : List UInt8} {j : Json} (h : number s = some (j, r)) :
    r.length < s.length := by
  obtain ⟨r', hr, heq⟩ := Option.map_eq_some_iff.mp h
  cases heq
  obtain ⟨s₁, h₁, hr⟩ := Option.bind_eq_some_iff.mp hr
  obtain ⟨s₂, h₂, hr⟩ := Option.bind_eq_some_iff.mp hr
  have := integerPart_length h₁
  have := fraction_length h₂
  have := exponent_length hr
  omega

section Loops

variable {v w : List UInt8 → Option (Json × List UInt8)}
  (hv : ∀ {s j r}, v s = some (j, r) → r.length < s.length)
include hv

theorem elements_length {turns : ℕ} {s r : List UInt8} {js : List Json}
    (h : elements v turns s = some (js, r)) : r.length < s.length := by
  induction turns generalizing s js with
  | zero => cases h
  | succ turns ih =>
      obtain ⟨⟨j, s₁⟩, h₁, h⟩ := Option.bind_eq_some_iff.mp h
      have hlt := hv h₁
      have hle := skipWs_length_le s₁
      dsimp only at h
      split at h
      · cases h
      · next b s₂ hs =>
          rw [hs, List.length_cons] at hle
          split at h
          · obtain ⟨⟨js', s₃⟩, h₃, h⟩ := Option.bind_eq_some_iff.mp h
            cases h
            have := ih h₃
            omega
          · split at h
            · cases h
              omega
            · cases h

theorem members_length {turns : ℕ} {s r : List UInt8} {ms : List (Key × Json)}
    (h : members v turns s = some (ms, r)) : r.length < s.length := by
  induction turns generalizing s ms with
  | zero => cases h
  | succ turns ih =>
      obtain ⟨⟨k, s₀⟩, h₀, h⟩ := Option.bind_eq_some_iff.mp h
      obtain ⟨s₀', h₀', h⟩ := Option.bind_eq_some_iff.mp h
      obtain ⟨⟨j, s₁⟩, h₁, h⟩ := Option.bind_eq_some_iff.mp h
      have := string_length h₀
      have := token_length h₀'
      have hlt := hv h₁
      have hle := skipWs_length_le s₁
      dsimp only at h
      split at h
      · cases h
      · next b s₂ hs =>
          rw [hs, List.length_cons] at hle
          split at h
          · obtain ⟨⟨js', s₃⟩, h₃, h⟩ := Option.bind_eq_some_iff.mp h
            cases h
            have := ih h₃
            omega
          · split at h
            · cases h
              omega
            · cases h

/-- More turns, and a reader that reads more, change no result. -/
theorem elements_mono (bound : ℕ)
    (hvw : ∀ {s p}, s.length ≤ bound → v s = some p → w s = some p) {turns turns' : ℕ}
    (hturns : turns ≤ turns') {s : List UInt8} (hs : s.length ≤ bound)
    {p : List Json × List UInt8} (h : elements v turns s = some p) :
    elements w turns' s = some p := by
  induction turns generalizing turns' s p with
  | zero => cases h
  | succ turns ih =>
      obtain ⟨turns', rfl⟩ := Nat.exists_eq_add_of_le' (Nat.lt_of_lt_of_le (Nat.succ_pos _) hturns)
      obtain ⟨⟨j, s₁⟩, h₁, h⟩ := Option.bind_eq_some_iff.mp h
      have hlt := hv h₁
      have hle := skipWs_length_le s₁
      simp only [elements, hvw hs h₁, Option.bind_eq_bind, Option.bind_some]
      dsimp only at h
      split at h
      · cases h
      · next b s₂ hs₂ =>
          rw [hs₂, List.length_cons] at hle
          split at h
          · next hb =>
              obtain ⟨⟨js', s₃⟩, h₃, h⟩ := Option.bind_eq_some_iff.mp h
              cases h
              rw [if_pos hb, ih (Nat.le_of_succ_le_succ hturns) (by omega) h₃]
              rfl
          · next hb =>
              rw [if_neg hb]
              exact h

theorem members_mono (bound : ℕ)
    (hvw : ∀ {s p}, s.length ≤ bound → v s = some p → w s = some p) {turns turns' : ℕ}
    (hturns : turns ≤ turns') {s : List UInt8} (hs : s.length ≤ bound)
    {p : List (Key × Json) × List UInt8} (h : members v turns s = some p) :
    members w turns' s = some p := by
  induction turns generalizing turns' s p with
  | zero => cases h
  | succ turns ih =>
      obtain ⟨turns', rfl⟩ := Nat.exists_eq_add_of_le' (Nat.lt_of_lt_of_le (Nat.succ_pos _) hturns)
      obtain ⟨⟨k, s₀⟩, h₀, h⟩ := Option.bind_eq_some_iff.mp h
      obtain ⟨s₀', h₀', h⟩ := Option.bind_eq_some_iff.mp h
      obtain ⟨⟨j, s₁⟩, h₁, h⟩ := Option.bind_eq_some_iff.mp h
      have hlt₀ := string_length h₀
      have hlt₀' := token_length h₀'
      have hlt := hv h₁
      have hle := skipWs_length_le s₁
      simp only [members, h₀, h₀', hvw (by omega : s₀'.length ≤ bound) h₁, Option.bind_eq_bind,
        Option.bind_some]
      dsimp only at h
      split at h
      · cases h
      · next b s₂ hs₂ =>
          rw [hs₂, List.length_cons] at hle
          split at h
          · next hb =>
              obtain ⟨⟨js', s₃⟩, h₃, h⟩ := Option.bind_eq_some_iff.mp h
              cases h
              rw [if_pos hb, ih (Nat.le_of_succ_le_succ hturns) (by omega) h₃]
              rfl
          · next hb =>
              rw [if_neg hb]
              exact h

theorem array_mono {bound : ℕ}
    (hvw : ∀ {s p}, s.length ≤ bound → v s = some p → w s = some p) {s : List UInt8}
    (hs : s.length ≤ bound) {p : Json × List UInt8} (h : array v s = some p) :
    array w s = some p := by
  unfold array at h ⊢
  split at h
  · exact h
  · obtain ⟨q, hq, rfl⟩ := Option.map_eq_some_iff.mp h
    rw [elements_mono hv bound hvw (Nat.le_refl _) hs hq, Option.map_some]

theorem objectMembers_mono {bound : ℕ}
    (hvw : ∀ {s p}, s.length ≤ bound → v s = some p → w s = some p) {s : List UInt8}
    (hs : s.length ≤ bound) {p : List (Key × Json) × List UInt8}
    (h : objectMembers v s = some p) : objectMembers w s = some p := by
  unfold objectMembers at h ⊢
  split at h
  · exact h
  · exact members_mono hv bound hvw (Nat.le_refl _) hs h

theorem array_length {s r : List UInt8} {j : Json} (h : array v s = some (j, r)) :
    r.length < s.length := by
  unfold array at h
  split at h
  · next hb =>
      cases h
      exact token_length hb
  · obtain ⟨q, hq, heq⟩ := Option.map_eq_some_iff.mp h
    cases heq
    exact elements_length hv hq

theorem objectMembers_length {s r : List UInt8} {ms : List (Key × Json)}
    (h : objectMembers v s = some (ms, r)) : r.length < s.length := by
  unfold objectMembers at h
  split at h
  · next hb =>
      cases h
      exact token_length hb
  · exact members_length hv h

end Loops

theorem value_length {levels : ℕ} {s r : List UInt8} {j : Json}
    (h : value levels s = some (j, r)) : r.length < s.length := by
  induction levels generalizing s r j with
  | zero => cases h
  | succ levels ih =>
      have hle := skipWs_length_le s
      have hlit : ∀ {text t u : List UInt8} {j' : Json} {c : UInt8} (cs : List UInt8),
          text = c :: cs → (literal text t).map (j', ·) = some (j, u) → u.length < t.length := by
        intro text t u j' c cs htext hl
        obtain ⟨u', hu, heq⟩ := Option.map_eq_some_iff.mp hl
        cases heq
        subst htext
        unfold literal at hu
        split at hu
        · next hp =>
            cases hu
            obtain ⟨u', rfl⟩ := List.isPrefixOf_iff_prefix.mp hp
            simp only [List.length_drop, List.length_append, List.length_cons]
            omega
        · cases hu
      simp only [value] at h
      split at h
      · cases h
      · next b t hs =>
          rw [hs] at hle
          refine Nat.lt_of_lt_of_le ?_ hle
          split at h
          · obtain ⟨⟨k, u⟩, hu, heq⟩ := Option.map_eq_some_iff.mp h
            cases heq
            exact string_length hu
          · split at h
            · obtain ⟨⟨ms, u⟩, hu, heq⟩ := Option.map_eq_some_iff.mp h
              cases heq
              exact Nat.lt_succ_of_lt (objectMembers_length ih hu)
            · split at h
              · exact Nat.lt_succ_of_lt (array_length ih h)
              · split at h
                · exact hlit _ rfl h
                · split at h
                  · exact hlit _ rfl h
                  · split at h
                    · exact hlit _ rfl h
                    · exact number_length h

/-- More levels change no result, and **as many levels as bytes are enough**. -/
theorem value_fuel {levels levels' : ℕ} {s : List UInt8} {p : Json × List UInt8}
    (h : value levels s = some p) (hmore : levels ≤ levels' ∨ s.length < levels') :
    value levels' s = some p := by
  induction levels generalizing levels' s p with
  | zero => cases h
  | succ levels ih =>
      obtain ⟨levels', rfl⟩ : ∃ n, levels' = n + 1 := ⟨levels' - 1, by omega⟩
      have hle := skipWs_length_le s
      simp only [value] at h ⊢
      split at h
      · cases h
      · next b t hs =>
          rw [hs, List.length_cons] at hle
          have hmono : ∀ {s p}, s.length ≤ t.length → value levels s = some p →
              value levels' s = some p := fun hs' hp => ih hp (by omega)
          split at h
          · next hb => rw [if_pos hb]; exact h
          · next hb =>
              rw [if_neg hb]
              split at h
              · next hb =>
                  obtain ⟨q, hq, rfl⟩ := Option.map_eq_some_iff.mp h
                  rw [if_pos hb, objectMembers_mono value_length hmono (Nat.le_refl _) hq]
                  rfl
              · next hb =>
                  rw [if_neg hb]
                  split at h
                  · next hb =>
                      rw [if_pos hb]
                      exact array_mono value_length hmono (Nat.le_refl _) h
                  · next hb =>
                      rw [if_neg hb]
                      exact h

end JsonText
