import Orgasmic.HistoryLine

/-! # The scanner against JSON

What the line scanner accepts is JSON, and its discriminators are read off the members that spell
them without an escape.

* **Tokens.** Each reader of `JsonScan` is the reader of `JsonText` without the value
  (`string_eq`, `number_eq`).
* **Values.** What `skipValue` consumes is a value (`skipValue_sound`), whatever the nesting.
* **Members.** `memberLoop_sound` relates the loop over members, with what it has found, to the
  members that are read; `scanEnvelopeDiscriminators_sound` is the envelope. -/

namespace Orgasmic

open Text JsonText

namespace JsonScan

/-! ### Tokens -/

theorem peek_eq (s : Bytes) :
    peek s = match skipWs s with | [] => none | b :: rest => some (b, b :: rest) := rfl

theorem eat_eq (b : UInt8) (s : Bytes) : eat b s = token b s := by
  rw [eat, peek_eq, token]
  cases skipWs s with
  | nil => rfl
  | cons c rest => rfl

theorem toDigit_eq (b : UInt8) : toDigit b = hexDigit b := rfl

theorem hex4_eq (s : Bytes) : hex4 s = JsonText.hex4 s := by
  unfold hex4 JsonText.hex4
  rfl

theorem escape_eq (s : Bytes) : escape s = (JsonText.escape s).map (·.2) := by
  cases s with
  | nil => rfl
  | cons b s =>
      by_cases hu : b = 117
      · subst hu
        have hnot : [34, 92, 47, 98, 102, 110, 114, 116].contains (117 : UInt8) = false := by decide
        simp only [escape, JsonText.escape, hnot, Bool.false_eq_true, if_false, if_true,
          unicodeEscape, hex4_eq]
        cases JsonText.hex4 s with
        | none => rfl
        | some p =>
            obtain ⟨first, s⟩ := p
            simp only [Option.bind_eq_bind, Option.bind_some]
            by_cases hhigh : (0xd800 ≤ first && first < 0xdc00) = true
            · simp only [hhigh, if_true]
              change (literal [92, 117] s).bind _ = _
              cases literal [92, 117] s with
              | none => rfl
              | some s =>
                  simp only [Option.bind_some]
                  cases JsonText.hex4 s with
                  | none => rfl
                  | some q =>
                      simp only [Option.bind_some]
                      split <;> rfl
            · simp only [hhigh, Bool.false_eq_true, if_false]
              split <;> rfl
      · simp only [escape, JsonText.escape, hu, if_false, Option.map_map]
        unfold shortEscape
        by_cases h : b ∈ [(34 : UInt8), 92, 47, 98, 102, 110, 114, 116]
        · rw [if_pos (List.contains_iff_mem.mpr h)]
          simp only [List.mem_cons, List.not_mem_nil, or_false] at h
          obtain rfl | rfl | rfl | rfl | rfl | rfl | rfl | rfl := h <;> rfl
        · rw [if_neg (mt List.contains_iff_mem.mp h)]
          simp only [List.mem_cons, List.not_mem_nil, or_false, not_or] at h
          simp [h]

theorem stringLoop_eq (turns : ℕ) (s : Bytes) (escaped : Bool) :
    stringLoop turns s escaped =
      (stringRest turns s).map fun p => (escaped || p.1.escaped, p.2) := by
  induction turns generalizing s escaped with
  | zero => rfl
  | succ turns ih =>
      cases s with
      | nil => rfl
      | cons b s =>
          have hcontrol : b ≤ 0x1f ↔ b < 32 := by
            simp only [UInt8.le_iff_toNat_le, UInt8.lt_iff_toNat_lt]
            change b.toNat ≤ 31 ↔ b.toNat < 32
            omega
          simp only [stringLoop, stringRest, hcontrol, escape_eq]
          split
          · simp
          · split
            · rfl
            · split
              · cases JsonText.escape s with
                | none => rfl
                | some p =>
                    simp only [Option.map_some, Option.bind_some, ih, Option.bind_eq_bind]
                    cases stringRest turns p.2 <;> simp
              · rw [ih]
                cases stringRest turns s <;> simp

/-- A string without escapes is the bytes that spell it. -/
theorem stringRest_plain {turns : ℕ} {s rest : Bytes} {k : Key} (h : stringRest turns s = some (k, rest))
    (hplain : k.escaped = false) : s = k.text ++ 34 :: rest := by
  induction turns generalizing s k with
  | zero => cases h
  | succ turns ih =>
      cases s with
      | nil => cases h
      | cons b s =>
          simp only [stringRest] at h
          split at h
          · next hb => cases h; rw [hb]; rfl
          · split at h
            · cases h
            · split at h
              · obtain ⟨p, hp, h⟩ := Option.bind_eq_some_iff.mp h
                obtain ⟨q, hq, h⟩ := Option.bind_eq_some_iff.mp h
                cases h
                cases hplain
              · obtain ⟨q, hq, h⟩ := Option.bind_eq_some_iff.mp h
                cases h
                rw [List.cons_append, ← ih hq hplain]

/-- The raw contents of a string, if the scanner trusts them. -/
def plainShort (k : Key) : Option Bytes :=
  if !k.escaped && k.text.length ≤ maxDiscriminatorBytes then some k.text else none

theorem string_eq (s : Bytes) :
    string s = (JsonText.string s).map fun p => (plainShort p.1, p.2) := by
  simp only [string, JsonText.string, eat_eq, stringLoop_eq, Option.bind_eq_bind]
  cases token 34 s with
  | none => rfl
  | some start =>
      simp only [Option.bind_some, Bool.false_or]
      cases hr : stringRest (start.length + 1) start with
      | none => rfl
      | some p =>
          obtain ⟨k, rest⟩ := p
          simp only [Option.map_some, Option.bind_some, plainShort]
          cases he : k.escaped with
          | true => rfl
          | false =>
              have hs := stringRest_plain hr he
              have hraw : start.take (start.length - rest.length - 1) = k.text := by
                rw [hs, List.length_append, List.length_cons]
                rw [show k.text.length + (rest.length + 1) - rest.length - 1 = k.text.length by omega]
                exact List.take_left
              rw [hraw]

theorem digits_eq (s : Bytes) : digits s = JsonText.digits s := by
  cases s with
  | nil => rfl
  | cons b s =>
      simp only [digits, JsonText.digits]
      change (if ((b :: s).dropWhile isDigit).length < (b :: s).length then
        some ((b :: s).dropWhile isDigit) else none) = _
      cases hb : isDigit b with
      | true =>
          have := List.length_dropWhile_le isDigit s
          simp only [List.dropWhile_cons, hb, if_true, List.length_cons]
          rw [if_pos (by omega)]
      | false => simp [hb]

theorem fraction_bind (s : Bytes) (f : Bytes → Option Bytes) :
    (fraction s).bind f =
      if s.head? = some 46 then (JsonText.digits (s.drop 1)).bind f else f s := by
  unfold fraction
  split <;> rfl

theorem number_eq (s : Bytes) : number s = (JsonText.number s).map (·.2) := by
  rw [JsonText.number, Option.map_map]
  change _ = (numberRest s).map id
  rw [Option.map_id_fun, id]
  simp only [number, numberRest, Option.bind_eq_bind, fraction_bind, integerPart, exponent, digits_eq]
  generalize (if s.head? = some 45 then s.drop 1 else s) = t
  cases t with
  | nil => rfl
  | cons b t =>
      simp only [List.head?_cons, Option.bind_some, Option.some.injEq]
      by_cases hz : b = 48
      · simp only [hz, if_true, Option.bind_some]
      · simp only [hz, if_false]
        split
        · rfl
        · next hd =>
            have hdigit : isDigit b = false := by
              rw [← Bool.not_eq_true]
              intro hdigit
              apply hd
              simp only [isDigit, Bool.and_eq_true, decide_eq_true_eq, UInt8.le_iff_toNat_le] at hdigit ⊢
              have : b.toNat ≠ 48 := fun h => hz (UInt8.toNat_inj.mp h)
              change 49 ≤ b.toNat ∧ b.toNat ≤ 57
              change 48 ≤ b.toNat ∧ b.toNat ≤ 57 at hdigit
              omega
            simp [JsonText.digits, hdigit]

/-! ### Values -/

theorem peek_eq_some_iff {s t : Bytes} {b : UInt8} :
    peek s = some (b, t) ↔ t = skipWs s ∧ ∃ rest, skipWs s = b :: rest := by
  rw [peek_eq]
  cases skipWs s with
  | nil => simp
  | cons c rest =>
      simp only [Option.some.injEq, Prod.mk.injEq, List.cons.injEq]
      constructor
      · rintro ⟨rfl, rfl⟩
        exact ⟨rfl, rest, rfl, rfl⟩
      · rintro ⟨rfl, rest', rfl, -⟩
        exact ⟨rfl, rfl⟩

section Loops

variable {v : Bytes → Option (Json × Bytes)}

theorem elementLoop_sound {skip : Bytes → Option Bytes}
    (hskip : ∀ {s r}, skip s = some r → ∃ j, v s = some (j, r)) {turns : ℕ} {s r : Bytes}
    (h : elementLoop skip turns s = some r) : ∃ js, elements v turns s = some (js, r) := by
  induction turns generalizing s with
  | zero => cases h
  | succ turns ih =>
      obtain ⟨s₁, h₁, h⟩ := Option.bind_eq_some_iff.mp h
      obtain ⟨⟨b, s₂⟩, h₂, h⟩ := Option.bind_eq_some_iff.mp h
      obtain ⟨j, hj⟩ := hskip h₁
      obtain ⟨rfl, rest, hrest⟩ := peek_eq_some_iff.mp h₂
      simp only [elements, hj, Option.bind_eq_bind, Option.bind_some, hrest]
      simp only [hrest, List.drop_one, List.tail_cons] at h
      split at h
      · next hb =>
          obtain ⟨js, hjs⟩ := ih h
          exact ⟨j :: js, by rw [if_pos hb, hjs]; rfl⟩
      · next hb =>
          split at h
          · next hb' => exact ⟨[j], by rw [if_neg hb, if_pos hb', ← Option.some.inj h]⟩
          · cases h

variable {σ : Type} {onValue : Option Bytes → σ → Bytes → Option (σ × Bytes)}
  {R : Key → Json → σ → σ → Prop}

/-- What was found along the members, member by member. -/
def Found (R : Key → Json → σ → σ → Prop) : List (Key × Json) → σ → σ → Prop
  | [], a, b => a = b
  | m :: ms, a, c => ∃ b, R m.1 m.2 a b ∧ Found R ms b c

variable (hvalue : ∀ {key found s found' r}, onValue (plainShort key) found s = some (found', r) →
  ∃ j, v s = some (j, r) ∧ R key j found found')
include hvalue

theorem memberLoop_sound {turns : ℕ} {s r : Bytes} {found found' : σ}
    (h : memberLoop onValue turns found s = some (found', r)) :
    ∃ ms, members v turns s = some (ms, r) ∧ Found R ms found found' := by
  induction turns generalizing s found with
  | zero => cases h
  | succ turns ih =>
      obtain ⟨⟨key, s₀⟩, h₀, h⟩ := Option.bind_eq_some_iff.mp h
      obtain ⟨s₀', h₀', h⟩ := Option.bind_eq_some_iff.mp h
      obtain ⟨⟨f₁, s₁⟩, h₁, h⟩ := Option.bind_eq_some_iff.mp h
      obtain ⟨⟨b, s₂⟩, h₂, h⟩ := Option.bind_eq_some_iff.mp h
      rw [string_eq] at h₀
      obtain ⟨⟨k, s'⟩, hk, heq⟩ := Option.map_eq_some_iff.mp h₀
      cases heq
      rw [eat_eq] at h₀'
      obtain ⟨j, hj, hR⟩ := hvalue h₁
      obtain ⟨rfl, rest, hrest⟩ := peek_eq_some_iff.mp h₂
      simp only [members, hk, h₀', hj, Option.bind_eq_bind, Option.bind_some, hrest]
      simp only [hrest, List.drop_one, List.tail_cons] at h
      split at h
      · next hb =>
          obtain ⟨ms, hms, hal⟩ := ih h
          exact ⟨(k, j) :: ms, by rw [if_pos hb, hms]; rfl, f₁, hR, hal⟩
      · next hb =>
          split at h
          · next hb' =>
              cases h
              exact ⟨[(k, j)], by rw [if_neg hb, if_pos hb'], _, hR, rfl⟩
          · cases h

theorem objectMembers_sound (hv : ∀ {s j r}, v s = some (j, r) → r.length < s.length)
    {s r : Bytes} {found found' : σ} (h : objectMembers onValue found s = some (found', r)) :
    ∃ ms, JsonText.objectMembers v s = some (ms, r) ∧ Found R ms found found' := by
  obtain ⟨⟨b, t⟩, ht, h⟩ := Option.bind_eq_some_iff.mp h
  obtain ⟨rfl, rest, hrest⟩ := peek_eq_some_iff.mp ht
  unfold JsonText.objectMembers
  have htoken : token 125 s = if b = 125 then some rest else none := by
    rw [token, hrest]
  dsimp only at h
  rw [htoken]
  split at h
  · next hb =>
      simp only [hrest, List.drop_one, List.tail_cons] at h
      cases h
      exact ⟨[], by rw [if_pos hb], rfl⟩
  · next hb =>
      obtain ⟨ms, hms, hal⟩ := memberLoop_sound hvalue h
      refine ⟨ms, ?_, hal⟩
      rw [if_neg hb]
      rw [members_skipWs] at hms
      exact members_mono hv s.length (fun _ hp => hp)
        (Nat.succ_le_succ (skipWs_length_le s)) (Nat.le_refl _) hms

end Loops

/-- **What the scanner skips is a value.** -/
theorem skipValue_sound {levels : ℕ} {s r : Bytes} (h : skipValue levels s = some r) :
    ∃ j, value levels s = some (j, r) := by
  induction levels generalizing s r with
  | zero => cases h
  | succ levels ih =>
      obtain ⟨⟨b, t⟩, ht, h⟩ := Option.bind_eq_some_iff.mp h
      obtain ⟨rfl, rest, hrest⟩ := peek_eq_some_iff.mp ht
      simp only [hrest, List.drop_one, List.tail_cons] at h
      simp only [value, hrest]
      split at h
      · next hb =>
          rw [if_pos hb]
          rw [string_eq, Option.map_map] at h
          obtain ⟨p, hp, rfl⟩ := Option.map_eq_some_iff.mp h
          exact ⟨_, by rw [hp]; rfl⟩
      · next hb =>
          rw [if_neg hb]
          split at h
          · next hb =>
              obtain ⟨p, hp, rfl⟩ := Option.map_eq_some_iff.mp h
              obtain ⟨ms, hms, -⟩ := objectMembers_sound (v := value levels)
                (R := fun _ _ _ _ => True) (fun {key found s found' r} hskip => by
                  obtain ⟨r', hr, heq⟩ := Option.map_eq_some_iff.mp hskip
                  cases heq
                  obtain ⟨j, hj⟩ := ih hr
                  exact ⟨j, hj, trivial⟩) value_length hp
              exact ⟨_, by rw [if_pos hb, hms]; rfl⟩
          · next hb =>
              rw [if_neg hb]
              split at h
              · next hb =>
                  rw [if_pos hb]
                  obtain ⟨⟨c, u⟩, hu, h⟩ := Option.bind_eq_some_iff.mp h
                  obtain ⟨rfl, rest', hrest'⟩ := peek_eq_some_iff.mp hu
                  have htoken : token 93 rest = if c = 93 then some rest' else none := by
                    rw [token, hrest']
                  unfold array
                  dsimp only at h
                  rw [htoken]
                  split at h
                  · next hc =>
                      simp only [hrest', List.tail_cons] at h
                      cases h
                      exact ⟨_, by rw [if_pos hc]⟩
                  · next hc =>
                      obtain ⟨js, hjs⟩ := elementLoop_sound (v := value levels) ih h
                      rw [elements_skipWs (value_skipWs levels)] at hjs
                      refine ⟨.array js, ?_⟩
                      rw [if_neg hc, elements_mono value_length rest.length
                        (fun _ hp => hp) (Nat.succ_le_succ (skipWs_length_le rest))
                        (Nat.le_refl _) hjs]
                      rfl
              · next hb =>
                  rw [if_neg hb]
                  have hliteral : ∀ {text : Bytes} (j : Json), eatExact text (b :: rest) = some r →
                      (literal text (b :: rest)).map (j, ·) = some (j, r) := by
                    intro text j he
                    change literal text (b :: rest) = some r at he
                    rw [he]
                    rfl
                  split at h
                  · next hb => exact ⟨_, by rw [if_pos hb]; exact hliteral _ h⟩
                  · next hb =>
                      rw [if_neg hb]
                      split at h
                      · next hb => exact ⟨_, by rw [if_pos hb]; exact hliteral _ h⟩
                      · next hb =>
                          rw [if_neg hb]
                          split at h
                          · next hb => exact ⟨_, by rw [if_pos hb]; exact hliteral _ h⟩
                          · next hb =>
                              rw [if_neg hb]
                              split at h
                              · rw [number_eq] at h
                                obtain ⟨p, hp, rfl⟩ := Option.map_eq_some_iff.mp h
                                exact ⟨p.1, hp⟩
                              · cases h

/-! ### Captures -/

/-- The levels of the scanner, in front of a value anywhere in the line. -/
abbrev lineValue : Bytes → Option (Json × Bytes) := value (maxDepth + 1)

theorem skipValueAt_sound {depth : ℕ} {s r : Bytes} (h : skipValueAt depth s = some r) :
    ∃ j, lineValue s = some (j, r) := by
  obtain ⟨j, hj⟩ := skipValue_sound h
  exact ⟨j, value_fuel hj (.inl (Nat.sub_le _ _))⟩

theorem plainShort_eq_some_iff {k : Key} {t : Bytes} (ht : t.length ≤ maxDiscriminatorBytes) :
    plainShort k = some t ↔ k = ⟨t, false⟩ := by
  obtain ⟨text, escaped⟩ := k
  unfold plainShort
  cases escaped with
  | true => simp
  | false =>
      simp only [Bool.not_false, Bool.true_and, decide_eq_true_eq, Option.ite_none_right_eq_some,
        Option.some.injEq, Key.mk.injEq, and_true]
      constructor
      · exact fun h => h.2
      · rintro rfl
        exact ⟨ht, rfl⟩

/-- A captured string is the value. -/
theorem captureString_sound {depth : ℕ} {s r : Bytes} {found : Option Bytes}
    (h : captureString depth s = some (found, r)) :
    ∃ j, lineValue s = some (j, r) ∧ ∀ t, found = some t → j = .string t := by
  obtain ⟨⟨b, s'⟩, hs, h⟩ := Option.bind_eq_some_iff.mp h
  obtain ⟨rfl, rest, hrest⟩ := peek_eq_some_iff.mp hs
  dsimp only at h
  split at h
  · next hb =>
      rw [string_eq, string_skipWs] at h
      obtain ⟨p, hp, heq⟩ := Option.map_eq_some_iff.mp h
      cases heq
      refine ⟨.string p.1.text, ?_, ?_⟩
      · rw [lineValue, value, hrest]
        simp only [if_pos hb]
        rw [← hrest, string_skipWs, hp]
        rfl
      · intro t ht
        unfold plainShort at ht
        split at ht
        · cases ht
          rfl
        · cases ht
  · obtain ⟨r', hr, heq⟩ := Option.map_eq_some_iff.mp h
    cases heq
    obtain ⟨j, hj⟩ := skipValueAt_sound hr
    rw [lineValue, value_skipWs] at hj
    exact ⟨j, hj, fun t ht => by cases ht⟩

/-- The last member with the key, if any, decides what was found. -/
theorem Found.last {σ : Type} {R : Key → Json → σ → σ → Prop} (wanted : Bytes)
    {P : Json → σ → Prop} (hhit : ∀ {j a b}, R ⟨wanted, false⟩ j a b → P j b)
    (hmiss : ∀ {k j a b j'}, k ≠ ⟨wanted, false⟩ → R k j a b → P j' a → P j' b)
    {Q : σ → Prop} (hstart : ∀ {k j a b}, k ≠ ⟨wanted, false⟩ → R k j a b → Q a → Q b)
    {ms : List (Key × Json)} {a c : σ} (h : Found R ms a c) (ha : Q a) :
    (spelled ms wanted = none ∧ Q c) ∨ ∃ j, spelled ms wanted = some j ∧ P j c := by
  -- Along the list, what holds of the state so far is carried by the members behind.
  suffices hrun : ∀ (ms : List (Key × Json)) (a : σ), Found R ms a c →
      ((spelled ms wanted = none ∧ (Q a → Q c) ∧ ∀ j, P j a → P j c) ∨
        ∃ j, spelled ms wanted = some j ∧ P j c) by
    obtain ⟨hn, hQ, -⟩ | hj := hrun ms a h
    · exact .inl ⟨hn, hQ ha⟩
    · exact .inr hj
  intro ms
  induction ms with
  | nil =>
      rintro a rfl
      exact .inl ⟨rfl, id, fun _ => id⟩
  | cons m ms ih =>
      rintro a ⟨b, hR, hrest⟩
      obtain ⟨hn, hQ, hP⟩ | ⟨j, hj, hPj⟩ := ih b hrest
      · by_cases hk : m.1 = ⟨wanted, false⟩
        · refine .inr ⟨m.2, ?_, hP m.2 (hhit (hk ▸ hR))⟩
          unfold spelled at hn ⊢
          rw [Option.map_eq_none_iff, List.getLast?_eq_none_iff] at hn
          rw [List.filter_cons, if_pos (by simpa using hk), hn]
          rfl
        · refine .inl ⟨?_, fun hq => hQ (hstart hk hR hq), fun j hp => hP j (hmiss hk hR hp)⟩
          unfold spelled at hn ⊢
          rwa [List.filter_cons, if_neg (by simpa using hk)]
      · refine .inr ⟨j, ?_, hPj⟩
        unfold spelled at hj ⊢
        obtain ⟨m', hm', rfl⟩ := Option.map_eq_some_iff.mp hj
        rw [List.filter_cons]
        split
        · rw [List.getLast?_cons, hm']
          rfl
        · rw [hm']
          rfl

/-- **A captured member** is the last one that spells its key. -/
theorem captureMember_sound {wanted : Bytes} (hw : wanted.length ≤ maxDiscriminatorBytes) {depth : ℕ}
    {s r : Bytes} {found : Option Bytes} (h : captureMember wanted depth s = some (found, r)) :
    ∃ ms, JsonText.objectMembers lineValue s = some (ms, r) ∧
      ∀ t, found = some t → spelled ms wanted = some (.string t) := by
  obtain ⟨ms, hms, hfound⟩ := objectMembers_sound (v := lineValue)
    (R := fun k j a b => if k = ⟨wanted, false⟩ then ∀ t, b = some t → j = .string t else b = a)
    (fun {key found s found' r} hvalue => by
      split at hvalue
      · next hk =>
          rw [plainShort_eq_some_iff hw] at hk
          obtain ⟨j, hj, hcap⟩ := captureString_sound hvalue
          exact ⟨j, hj, by rw [if_pos hk]; exact hcap⟩
      · next hk =>
          rw [plainShort_eq_some_iff hw] at hk
          obtain ⟨r', hr, heq⟩ := Option.map_eq_some_iff.mp hvalue
          cases heq
          obtain ⟨j, hj⟩ := skipValueAt_sound hr
          exact ⟨j, hj, by rw [if_neg hk]⟩) value_length h
  refine ⟨ms, hms, ?_⟩
  intro t ht
  obtain ⟨-, hnone⟩ | ⟨j, hj, hP⟩ := hfound.last wanted
    (P := fun j b => ∀ t, b = some t → j = .string t) (Q := fun b => b = none)
    (fun hR => by rw [if_pos rfl] at hR; exact hR)
    (fun hk hR hP => by rw [if_neg hk] at hR; rw [hR]; exact hP)
    (fun hk hR hq => by rw [if_neg hk] at hR; rw [hR]; exact hq) rfl
  · rw [hnone] at ht
    cases ht
  · rw [hj, hP t ht]

end JsonScan

/-! ### The envelope -/

open JsonScan

/-- What one member of the envelope does to the discriminators. -/
def EnvelopeStep (k : Key) (j : Json) (a b : EnvelopeDiscriminators) : Prop :=
  if k = ⟨kindMember, false⟩ then
    b.eventType = a.eventType ∧ ∀ t, b.kind = some t → j = .string t
  else if k = ⟨eventMember, false⟩ then
    b.kind = a.kind ∧ ∀ t, b.eventType = some t →
      ∃ es, j = .object es ∧ spelled es typeMember = some (.string t)
  else b = a

theorem member_lengths : kindMember.length ≤ maxDiscriminatorBytes ∧
    eventMember.length ≤ maxDiscriminatorBytes ∧ typeMember.length ≤ maxDiscriminatorBytes := by
  decide +kernel

theorem kindMember_ne_eventMember : kindMember ≠ eventMember := by decide +kernel

theorem lineValue_succ {s : Bytes} {p : Json × Bytes} (h : lineValue s = some p) :
    value (maxDepth + 2) s = some p := value_fuel h (.inl (Nat.le_succ _))

theorem value_object {levels : ℕ} {s rest : Bytes} {p : List (Key × Json) × Bytes}
    (hs : skipWs s = 123 :: rest) (h : JsonText.objectMembers (value levels) rest = some p) :
    value (levels + 1) s = some (.object p.1, p.2) := by
  rw [value, hs]
  simp only [show (123 : UInt8) ≠ 34 by decide, if_false, if_true]
  rw [h]
  rfl

theorem envelopeMember_sound {key : Key} {found found' : EnvelopeDiscriminators} {s r : Bytes}
    (h : envelopeMember (plainShort key) found s = some (found', r)) :
    ∃ j, value (maxDepth + 2) s = some (j, r) ∧ EnvelopeStep key j found found' := by
  obtain ⟨hkind, hevent, htype⟩ := member_lengths
  unfold envelopeMember at h
  unfold EnvelopeStep
  split at h
  · next hk =>
      rw [plainShort_eq_some_iff hkind] at hk
      obtain ⟨p, hp, heq⟩ := Option.map_eq_some_iff.mp h
      cases heq
      obtain ⟨j, hj, hcap⟩ := captureString_sound hp
      exact ⟨j, lineValue_succ hj, by rw [if_pos hk]; exact ⟨rfl, hcap⟩⟩
  · next hk =>
      rw [plainShort_eq_some_iff hkind] at hk
      split at h
      · next hk' =>
          rw [plainShort_eq_some_iff hevent] at hk'
          obtain ⟨⟨b, t⟩, ht, h⟩ := Option.bind_eq_some_iff.mp h
          obtain ⟨rfl, rest, hrest⟩ := peek_eq_some_iff.mp ht
          dsimp only at h
          split at h
          · next hb =>
              obtain ⟨p, hp, heq⟩ := Option.map_eq_some_iff.mp h
              cases heq
              simp only [hrest, List.drop_one, List.tail_cons] at hp
              obtain ⟨es, hes, hcap⟩ := captureMember_sound htype hp
              refine ⟨.object es, value_object (hb ▸ hrest) hes, ?_⟩
              rw [if_neg hk, if_pos hk']
              exact ⟨rfl, fun t ht => ⟨es, rfl, hcap t ht⟩⟩
          · obtain ⟨r', hr, heq⟩ := Option.map_eq_some_iff.mp h
            cases heq
            obtain ⟨j, hj⟩ := skipValueAt_sound hr
            rw [lineValue, value_skipWs] at hj
            refine ⟨j, lineValue_succ hj, ?_⟩
            rw [if_neg hk, if_pos hk']
            exact ⟨rfl, fun t ht => by cases ht⟩
      · next hk' =>
          rw [plainShort_eq_some_iff hevent] at hk'
          obtain ⟨r', hr, heq⟩ := Option.map_eq_some_iff.mp h
          cases heq
          obtain ⟨j, hj⟩ := skipValueAt_sound hr
          exact ⟨j, lineValue_succ hj, by rw [if_neg hk, if_neg hk']⟩

/-- **The discriminators of a line**: the line is one JSON object, and they are the values of the
last members that spell `kind`, and `type` in the last `event`. -/
theorem scanEnvelopeDiscriminators_sound {line : Bytes} {found : EnvelopeDiscriminators}
    (h : scanEnvelopeDiscriminators line = some found) :
    ∃ ms, parse line = some (.object ms) ∧
      (∀ t, found.kind = some t → spelled ms kindMember = some (.string t)) ∧
      ∀ t, found.eventType = some t →
        ∃ es, spelled ms eventMember = some (.object es) ∧
          spelled es typeMember = some (.string t) := by
  obtain ⟨text, htext, h⟩ := Option.bind_eq_some_iff.mp h
  obtain ⟨s, hs, h⟩ := Option.bind_eq_some_iff.mp h
  obtain ⟨⟨found', r⟩, hr, h⟩ := Option.bind_eq_some_iff.mp h
  dsimp only at h
  split at h
  case isFalse => cases h
  case isTrue hend =>
    cases h
    obtain ⟨ms, hms, hfound⟩ := objectMembers_sound (v := value (maxDepth + 2))
      envelopeMember_sound value_length hr
    have hobject : value (maxDepth + 3) line = some (.object ms, r) := by
      rw [eat_eq, token] at hs
      split at hs
      · cases hs
      · next c rest hrest =>
          split at hs
          · next hc =>
              cases hs
              exact value_object (hc ▸ hrest) hms
          · cases hs
    refine ⟨ms, ?_, ?_, ?_⟩
    · have hutf : isUtf8 line = true := by
        obtain ⟨str, hstr, -⟩ := Option.map_eq_some_iff.mp htext
        rw [isUtf8, hstr]
        rfl
      rw [parse, value_fuel hobject (.inr (Nat.lt_succ_self _))]
      simp only [Option.bind_eq_bind, Option.bind_some]
      exact if_pos ⟨hutf, hend⟩
    · intro t ht
      obtain ⟨-, hnone⟩ | ⟨j, hj, hP⟩ := hfound.last kindMember
        (P := fun j b => ∀ t, b.kind = some t → j = .string t) (Q := fun b => b.kind = none)
        (fun hR => by
          rw [EnvelopeStep, if_pos rfl] at hR
          exact hR.2)
        (fun hk hR hP => by
          rw [EnvelopeStep, if_neg hk] at hR
          split at hR
          · rw [hR.1]; exact hP
          · rw [hR]; exact hP)
        (fun hk hR hq => by
          rw [EnvelopeStep, if_neg hk] at hR
          split at hR
          · rw [hR.1]; exact hq
          · rw [hR]; exact hq) rfl
      · rw [hnone] at ht
        cases ht
      · rw [hj, hP t ht]
    · intro t ht
      have hne : (⟨eventMember, false⟩ : Key) ≠ ⟨kindMember, false⟩ := by
        rw [Ne, Key.mk.injEq, not_and_or]
        exact .inl kindMember_ne_eventMember.symm
      obtain ⟨-, hnone⟩ | ⟨j, hj, hP⟩ := hfound.last eventMember
        (P := fun j b => ∀ t, b.eventType = some t →
          ∃ es, j = .object es ∧ spelled es typeMember = some (.string t))
        (Q := fun b => b.eventType = none)
        (fun hR => by
          rw [EnvelopeStep, if_neg hne, if_pos rfl] at hR
          exact hR.2)
        (fun hk hR hP => by
          rw [EnvelopeStep, if_neg hk] at hR
          split at hR
          · rw [hR.1]; exact hP
          · rw [hR]; exact hP)
        (fun hk hR hq => by
          rw [EnvelopeStep, if_neg hk] at hR
          split at hR
          · rw [hR.1]; exact hq
          · rw [hR]; exact hq) rfl
      · rw [hnone] at ht
        cases ht
      · obtain ⟨es, rfl, hes⟩ := hP t ht
        exact ⟨es, hj, hes⟩

end Orgasmic
