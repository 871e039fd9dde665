import Orgasmic.JsonWriter
import Orgasmic.SessionScan

/-! # What the transcript filter keeps

A session writer appends every envelope as one line of compact JSON. `lineIsLifecycleRelevant`
decides from the bytes of a line, without parsing it, whether a scan has to look at it.

* **The kind.** Ids are strings, and a quote in a string follows a backslash. So nothing in front
  of the envelope's own `"kind":"` looks like it (`neverStarts_head`), and the probe of the header
  reads the envelope's kind or, where the window cuts it off, nothing.
* **The type.** The loop over every `"type":"` may stop at keys of nested objects, at keys that end
  in `"type` and at whatever follows them; its cursor never passes the event's own type, because
  that follows a brace or a comma (`namesLifecycleType_of_tag`). -/

namespace Orgasmic

open JsonText Text

/-! ### The line of an envelope -/

/-- The serialized name of a kind. -/
def SessionEventKind.name : SessionEventKind → Text
  | driverEvent => "driver_event".toList
  | lifecycle => "lifecycle".toList
  | note => "note".toList

def envelopeField (name : String) (value : Json) : Key × Json := (⟨utf8 name.toList, false⟩, value)

section line

variable (rfc3339 : ℤ → Text)

/-- The members before `kind`. -/
def SessionEnvelope.headMembers (envelope : SessionEnvelope Json) : List (Key × Json) :=
  [envelopeField "seq" (.number (utf8 (Nat.toDigits 10 envelope.seq))),
    envelopeField "time" (.string (utf8 (rfc3339 envelope.time))),
    envelopeField "run_id" (.string (utf8 envelope.runId)),
    envelopeField "runtime_id" (.string (utf8 envelope.runtimeId)),
    envelopeField "boot_id" (.string (utf8 envelope.bootId))]

/-- `serde_json::to_string` of the envelope: its fields in the order of their declaration. -/
def SessionEnvelope.line (envelope : SessionEnvelope Json) : Bytes :=
  write (.object (envelope.headMembers rfc3339 ++
    [envelopeField "kind" (.string (utf8 envelope.kind.name)), envelopeField "event" envelope.event]))

end line

/-! ### Searches -/

/-- The needle starts nowhere in `s` when `t` follows. -/
def NeverStarts (needle : Bytes) : Bytes → Bytes → Prop
  | [], _ => True
  | b :: s, t => ¬ needle <+: b :: (s ++ t) ∧ NeverStarts needle s t

section searches

variable {needle : Bytes}

theorem findBytes_cons {b : UInt8} {s : Bytes} (h : ¬ needle <+: b :: s) :
    findBytes (b :: s) needle = (findBytes s needle).map (· + 1) := by
  rw [findBytes, if_neg]
  rintro ⟨-, starts⟩
  exact h (List.isPrefixOf_iff_prefix.mp starts)

theorem findBytes_of_prefix {s : Bytes} (ne : needle ≠ []) (h : needle <+: s) :
    findBytes s needle = some 0 := by
  cases s with
  | nil => exact absurd (List.prefix_nil.mp h) ne
  | cons b s => rw [findBytes, if_pos ⟨ne, List.isPrefixOf_iff_prefix.mpr h⟩]

theorem findBytes_short {s : Bytes} (h : s.length < needle.length) : findBytes s needle = none := by
  induction s with
  | nil => rfl
  | cons b s ih =>
      rw [List.length_cons] at h
      rw [findBytes_cons, ih (by omega)]
      · rfl
      · intro starts
        have := starts.length_le
        rw [List.length_cons] at this
        omega

/-- What a search finds is there. -/
theorem prefix_of_findBytes {s : Bytes} {found : ℕ} (h : findBytes s needle = some found) :
    needle <+: s.drop found := by
  induction s generalizing found with
  | nil => cases h
  | cons b s ih =>
      by_cases starts : needle ≠ [] ∧ needle.isPrefixOf (b :: s) = true
      · rw [findBytes, if_pos starts] at h
        obtain rfl := Option.some.inj h
        exact List.isPrefixOf_iff_prefix.mp starts.2
      · rw [findBytes, if_neg starts] at h
        obtain ⟨rest, hrest, rfl⟩ := Option.map_eq_some_iff.mp h
        exact ih hrest

/-- A search finds the first place. -/
theorem exists_findBytes {s t : Bytes} (ne : needle ≠ []) (h : needle <+: t) :
    ∃ found, findBytes (s ++ t) needle = some found ∧ found ≤ s.length := by
  induction s with
  | nil => exact ⟨0, findBytes_of_prefix ne h, Nat.le_refl 0⟩
  | cons b s ih =>
      by_cases starts : needle <+: b :: (s ++ t)
      · exact ⟨0, findBytes_of_prefix ne starts, Nat.zero_le _⟩
      · obtain ⟨found, hfound, le⟩ := ih
        refine ⟨found + 1, ?_, Nat.succ_le_succ le⟩
        rw [List.cons_append, findBytes_cons starts, hfound, Option.map_some]

namespace NeverStarts

theorem append {s s' t : Bytes} (h : NeverStarts needle s (s' ++ t))
    (h' : NeverStarts needle s' t) : NeverStarts needle (s ++ s') t := by
  induction s with
  | nil => exact h'
  | cons b s ih =>
      refine ⟨?_, ih h.2⟩
      have starts := h.1
      rwa [← List.append_assoc] at starts

theorem shorten {s t t' : Bytes} (h : NeverStarts needle s t) (le : t' <+: t) :
    NeverStarts needle s t' := by
  induction s with
  | nil => trivial
  | cons b s ih =>
      refine ⟨fun starts => h.1 (starts.trans ?_), ih h.2⟩
      obtain ⟨rest, rfl⟩ := le
      exact ⟨rest, by rw [List.cons_append, List.append_assoc]⟩

theorem take {s t : Bytes} (h : NeverStarts needle s t) (n : ℕ) :
    NeverStarts needle (s.take n) [] := by
  induction s generalizing n with
  | nil => rw [List.take_nil]; trivial
  | cons b s ih =>
      cases n with
      | zero => trivial
      | succ n =>
          refine ⟨fun starts => h.1 (starts.trans ?_), ih h.2 n⟩
          rw [List.append_nil]
          exact List.prefix_cons_inj b |>.mpr ((List.take_prefix n s).trans (List.prefix_append s t))

theorem findBytes_append {s t : Bytes} (h : NeverStarts needle s t) :
    findBytes (s ++ t) needle = (findBytes t needle).map (· + s.length) := by
  induction s with
  | nil => simp only [List.nil_append, List.length_nil, Nat.add_zero, Option.map_id']
  | cons b s ih =>
      rw [List.cons_append, findBytes_cons h.1, ih h.2, Option.map_map]
      rfl

end NeverStarts

end searches

/-! ### The envelope's kind -/

/-- The needle of a probe: a name between quotes, a colon and a quote. -/
def probeKey (name : Bytes) : Bytes := quote :: (name ++ [quote, 58, quote])

section kind

variable {name : Bytes}

theorem probeKey_prefix_cons {b : UInt8} {t : Bytes} (h : probeKey name <+: b :: t) :
    b = quote ∧ ∃ rest, t = name ++ quote :: 58 :: quote :: rest := by
  obtain ⟨rest, eq⟩ := h
  rw [probeKey, List.cons_append, List.append_assoc] at eq
  obtain ⟨same, tail⟩ := List.cons.inj eq
  exact ⟨same.symm, rest, tail.symm⟩

theorem neverStarts_of_no_quote {s : Bytes} (h : quote ∉ s) (t : Bytes) :
    NeverStarts (probeKey name) s t := by
  induction s with
  | nil => trivial
  | cons b s ih =>
      obtain ⟨other, rest⟩ := not_or.mp (mt List.mem_cons.mpr h)
      exact ⟨fun starts => other (probeKey_prefix_cons starts).1.symm, ih rest⟩

/-- The probe's needle does not start behind a quote of a string that no colon follows. -/
theorem not_starts_in_string (plain : Plain name) {rest t : Bytes} (escaped : Escaped rest)
    (tail : t.head? ≠ some 58) : ¬ probeKey name <+: quote :: (rest ++ quote :: t) := by
  intro starts
  obtain ⟨-, after, eq⟩ := probeKey_prefix_cons starts
  obtain ⟨-, same⟩ := escaped.cut plain eq.symm
  rw [← same] at tail
  exact tail rfl

theorem neverStarts_body (plain : Plain name) {rest t : Bytes} (escaped : Escaped rest)
    (tail : t.head? ≠ some 58) : NeverStarts (probeKey name) rest (quote :: t) := by
  induction escaped with
  | nil => trivial
  | plain other _ _ ih =>
      exact ⟨fun starts => other (probeKey_prefix_cons starts).1, ih⟩
  | pair b inner ih =>
      refine ⟨fun starts => absurd (probeKey_prefix_cons starts).1 (by decide), ?_, ih⟩
      intro starts
      obtain rfl := (probeKey_prefix_cons starts).1
      exact not_starts_in_string plain inner tail starts

/-- A string value is no place for the probe's needle to start. -/
theorem neverStarts_value (plain : Plain name) (start : name.head? ≠ some 44) (ne : name ≠ [])
    (text t : Bytes) : NeverStarts (probeKey name) (quoted text ++ [44]) t := by
  have closing : NeverStarts (probeKey name) [quote, 44] t := by
    refine ⟨?_, neverStarts_of_no_quote (by decide) t⟩
    intro starts
    obtain ⟨-, after, eq⟩ := probeKey_prefix_cons starts
    cases name with
    | nil => exact ne rfl
    | cons c name => exact start (congrArg some (List.cons.inj eq).1.symm)
  have shape : quoted text ++ [44] = quote :: (body text ++ [quote, 44]) := by
    rw [quoted, List.cons_append, List.append_assoc]
    rfl
  rw [shape]
  refine ⟨?_, ?_⟩
  · have behind := not_starts_in_string (t := 44 :: t) plain (escaped_body text)
      (by simp only [List.head?_cons, ne_eq, Option.some.injEq]; decide)
    rwa [List.append_assoc]
  · exact (neverStarts_body plain (escaped_body text) (t := 44 :: t)
      (by simp only [List.head?_cons, ne_eq, Option.some.injEq]; decide)).append closing

/-- Nor is another key. -/
theorem neverStarts_key (plain : Plain name) (start : name.head? ≠ some 58) (ne : name ≠ [])
    {key : Bytes} (plainKey : Plain key) (other : key ≠ name) (t : Bytes) :
    NeverStarts (probeKey name) (quote :: (key ++ [quote, 58])) t := by
  have inner : quote ∉ key := fun mem => (plainKey quote mem).1 rfl
  refine ⟨?_, (neverStarts_of_no_quote inner _).append ⟨?_, neverStarts_of_no_quote (by decide) t⟩⟩
  · intro starts
    obtain ⟨-, after, eq⟩ := probeKey_prefix_cons starts
    rw [List.append_assoc] at eq
    exact other ((Escaped.of_plain plainKey).cut plain eq.symm).1.symm
  · intro starts
    obtain ⟨-, after, eq⟩ := probeKey_prefix_cons starts
    cases name with
    | nil => exact ne rfl
    | cons c name => exact start (congrArg some (List.cons.inj eq).1.symm)

/-- A member with another plain key and with a value that is a string or has no quote. -/
structure ProbeQuiet (name : Bytes) (m : Key × Json) : Prop where
  plain : Plain (body m.1.text)
  other : body m.1.text ≠ name
  scalar : (∃ text, m.2 = .string text) ∨ quote ∉ write m.2

theorem neverStarts_member (plain : Plain name) (colon : name.head? ≠ some 58)
    (comma : name.head? ≠ some 44) (ne : name ≠ []) {m : Key × Json} (quiet : ProbeQuiet name m)
    (t : Bytes) : NeverStarts (probeKey name) (writeMember m ++ [44]) t := by
  obtain ⟨key, value⟩ := m
  have shape : writeMember (key, value) ++ [44] =
      quote :: (body key.text ++ [quote, 58]) ++ (write value ++ [44]) := by
    simp only [writeMember, quoted, List.cons_append, List.append_assoc, List.nil_append, quote]
  rw [shape]
  refine (neverStarts_key plain colon ne quiet.plain quiet.other _).append ?_
  obtain ⟨text, rfl⟩ | none := quiet.scalar
  · rw [write]
    exact neverStarts_value plain comma ne text t
  · refine neverStarts_of_no_quote ?_ t
    rw [List.mem_append, not_or]
    exact ⟨none, by decide⟩

theorem neverStarts_members (plain : Plain name) (colon : name.head? ≠ some 58)
    (comma : name.head? ≠ some 44) (ne : name ≠ []) {members : List (Key × Json)}
    (quiet : ∀ m ∈ members, ProbeQuiet name m) (t : Bytes) :
    NeverStarts (probeKey name) (members.flatMap (writeMember · ++ [44])) t := by
  induction members with
  | nil => trivial
  | cons m members ih =>
      obtain ⟨first, rest⟩ := List.forall_mem_cons.mp quiet
      exact (neverStarts_member plain colon comma ne first _).append (ih rest)

end kind

theorem findIdx?_quote {value : Bytes} (h : quote ∉ value) (rest : Bytes) :
    (value ++ quote :: rest).findIdx? (· = quote) = some value.length := by
  induction value with
  | nil => rfl
  | cons b value ih =>
      obtain ⟨other, tail⟩ := not_or.mp (mt List.mem_cons.mpr h)
      rw [List.cons_append, List.findIdx?_cons, if_neg (by simpa using Ne.symm other), ih tail]
      rfl

theorem exists_findIdx?_quote (s rest : Bytes) :
    ∃ stop, (s ++ quote :: rest).findIdx? (· = quote) = some stop ∧ stop ≤ s.length := by
  induction s with
  | nil => exact ⟨0, rfl, Nat.le_refl 0⟩
  | cons b s ih =>
      obtain ⟨stop, hstop, le⟩ := ih
      rw [List.cons_append, List.findIdx?_cons, hstop]
      by_cases same : b = quote
      · exact ⟨0, by rw [if_pos (decide_eq_true same)], Nat.zero_le _⟩
      · exact ⟨stop + 1, by rw [if_neg (by simpa using same)]; rfl, Nat.succ_le_succ le⟩

theorem untilQuote_append {value : Bytes} (h : quote ∉ value) (rest : Bytes) :
    untilQuote (value ++ quote :: rest) = some value := by
  rw [untilQuote, findIdx?_quote h, Option.map_some, List.take_left]

theorem untilQuote_eq_none {value : Bytes} (h : quote ∉ value) : untilQuote value = none := by
  rw [untilQuote, Option.map_eq_none_iff, List.findIdx?_eq_none_iff]
  intro b mem
  rw [decide_eq_false_iff_not]
  rintro rfl
  exact h mem

theorem probeStringValue_key {front key rest : Bytes} (ne : key ≠ [])
    (first : NeverStarts key front (key ++ rest)) :
    probeStringValue (front ++ (key ++ rest)) key = untilQuote rest := by
  rw [probeStringValue, first.findBytes_append, findBytes_of_prefix ne (List.prefix_append _ _)]
  simp only [Option.map_some, Option.bind_some, Nat.zero_add]
  rw [← List.drop_drop, List.drop_left, List.drop_left]

/-- What the probe of a window reads: the value behind the first key, if the window holds it. -/
theorem probeStringValue_take {front key value rest : Bytes} (ne : key ≠ [])
    (first : NeverStarts key front (key ++ (value ++ quote :: rest))) (h : quote ∉ value) (n : ℕ) :
    probeStringValue ((front ++ (key ++ (value ++ quote :: rest))).take n) key =
      if front.length + key.length + value.length < n then some value else none := by
  have unread : ∀ s : Bytes, findBytes s key = none → probeStringValue s key = none := by
    intro s none
    rw [probeStringValue, none, Option.bind_none]
  by_cases inFront : n ≤ front.length
  · rw [if_neg (by omega), List.take_append_of_le_length inFront]
    refine unread _ ?_
    rw [← List.append_nil (front.take n), (first.take n).findBytes_append]
    rfl
  · obtain ⟨k, rfl⟩ : ∃ k, n = front.length + k := ⟨n - front.length, by omega⟩
    rw [List.take_length_add_append]
    by_cases inKey : k < key.length
    · rw [if_neg (by omega)]
      refine unread _ ?_
      rw [(first.shorten (List.take_prefix k _)).findBytes_append, findBytes_short]
      · rfl
      · rw [List.length_take]
        omega
    · obtain ⟨m, rfl⟩ : ∃ m, k = key.length + m := ⟨k - key.length, by omega⟩
      rw [List.take_length_add_append, probeStringValue_key ne]
      · by_cases inValue : m ≤ value.length
        · rw [if_neg (by omega), List.take_append_of_le_length inValue]
          exact untilQuote_eq_none fun mem => h (List.mem_of_mem_take mem)
        · obtain ⟨j, rfl⟩ : ∃ j, m = value.length + (j + 1) := ⟨m - value.length - 1, by omega⟩
          rw [if_pos (by omega), List.take_length_add_append, List.take_succ_cons]
          exact untilQuote_append h _
      · refine first.shorten ?_
        obtain ⟨back, eq⟩ := List.take_prefix m (value ++ quote :: rest)
        exact ⟨back, by rw [List.append_assoc, eq]⟩

/-! ### The event's type -/

theorem typeKey_bytes : typeKey = [34, 116, 121, 112, 101, 34, 58, 34] := by decide

/-- The needle of the types overlaps itself in its last quote only. -/
theorem typeKey_overlap : ∀ k : Fin 8, 0 < k.val → (typeKey.drop k).isPrefixOf typeKey = true →
    k.val = 7 := by
  rw [typeKey_bytes]
  decide

theorem typeKey_length : typeKey.length = 8 := by
  rw [typeKey_bytes]
  rfl

/-- How the tag of a known type is written. -/
theorem lifecycle_tags : ∀ word ∈ lifecycleDriverEventTypes, quote ∉ word ∧
    quoted (utf8 "type".toList) ++ 58 :: quoted word = typeKey ++ (word ++ [quote]) := by
  decide

/-- A `"type":"` that starts before a tag ends before the tag, unless a colon precedes the tag. -/
theorem typeKey_before {pre rest : Bytes} {found : ℕ} (colon : pre.getLast? ≠ some 58)
    (starts : typeKey <+: (pre ++ (typeKey ++ rest)).drop found) (before : found < pre.length) :
    found + typeKey.length ≤ pre.length := by
  by_contra late
  rw [typeKey_length] at late
  obtain ⟨after, eq⟩ := starts
  rw [List.drop_append_of_le_length before.le] at eq
  have inside : (pre.drop found).length = pre.length - found := List.length_drop
  obtain ⟨more, long, -⟩ | ⟨back, cut, tail⟩ := List.append_eq_append_iff.mp eq
  · have := congrArg List.length long
    rw [inside, List.length_append, typeKey_length] at this
    omega
  · -- the tag's first bytes are the key's last ones
    have back_eq : typeKey.drop (pre.length - found) = back := by
      conv_lhs => rw [cut, ← inside]
      exact List.drop_left
    have overlap : back <+: typeKey :=
      List.prefix_of_prefix_length_le ⟨after, tail.symm⟩ (List.prefix_append typeKey rest)
        (by rw [cut, List.length_append]; omega)
    have seven := typeKey_overlap ⟨pre.length - found, by omega⟩ (by simp only; omega)
      (List.isPrefixOf_iff_prefix.mpr (by rwa [back_eq]))
    simp only at seven
    have front : pre.drop found = typeKey.take 7 := by
      rw [cut, ← seven, ← inside, List.take_left]
    refine colon ?_
    rw [← List.take_append_drop found pre, front, typeKey_bytes,
      List.getLast?_append_of_ne_nil _ (by decide)]
    decide

/-- The loop over the types comes to every tag that does not follow a colon. -/
theorem namesLifecycleType_of_tag {turns : ℕ} {pre word rest : Bytes}
    (known : word ∈ lifecycleDriverEventTypes) (colon : pre.getLast? ≠ some 58)
    (enough : pre.length < turns) :
    namesLifecycleType turns (pre ++ (typeKey ++ (word ++ quote :: rest))) = true := by
  have plain : quote ∉ word := (lifecycle_tags word known).1
  induction turns generalizing pre with
  | zero => omega
  | succ turns ih =>
      obtain ⟨found, hfound, le⟩ : ∃ found,
          findBytes (pre ++ (typeKey ++ (word ++ quote :: rest))) typeKey = some found ∧
            found ≤ pre.length :=
        exists_findBytes (by rw [typeKey_bytes]; exact List.cons_ne_nil _ _)
          (List.prefix_append typeKey (word ++ quote :: rest))
      rw [namesLifecycleType, hfound]
      simp only
      obtain before | rfl := Nat.lt_or_eq_of_le le
      · have fits := typeKey_before colon (prefix_of_findBytes hfound) before
        rw [List.drop_append_of_le_length fits]
        obtain ⟨stop, hstop, inside⟩ := exists_findIdx?_quote (pre.drop (found + typeKey.length))
          (typeKey.tail ++ (word ++ quote :: rest))
        have tag : typeKey = quote :: typeKey.tail := by
          rw [typeKey_bytes]
          rfl
        rw [← List.cons_append, ← tag] at hstop
        rw [hstop]
        simp only
        split
        · rfl
        · rw [List.drop_append_of_le_length inside, List.drop_drop]
          refine ih ?_ ?_
          · intro last
            rw [List.getLast?_drop] at last
            split at last
            · cases last
            · exact colon last
          · rw [List.length_drop]
            have := typeKey_length
            omega
      · rw [← List.drop_drop, List.drop_left, List.drop_left, findIdx?_quote plain]
        simp only
        rw [List.take_left, if_pos (List.elem_iff.mpr known)]

/-! ### The filter -/

section filter

variable (rfc3339 : ℤ → Text) (envelope : SessionEnvelope Json)

theorem kind_bytes : utf8 "kind".toList = [107, 105, 110, 100] := by decide

theorem kindKey_eq : kindKey = probeKey (utf8 "kind".toList) := by decide

theorem kindKey_ne_nil : kindKey ≠ [] := by
  rw [kindKey_eq]
  exact List.cons_ne_nil _ _

/-- How the member of a kind is written. -/
theorem kind_tags (kind : SessionEventKind) : quote ∉ utf8 kind.name ∧
    writeMember (envelopeField "kind" (.string (utf8 kind.name))) =
      kindKey ++ (utf8 kind.name ++ [quote]) := by
  cases kind <;> decide

theorem digits_no_quote (n : ℕ) : quote ∉ utf8 (Nat.toDigits 10 n) := by
  intro mem
  obtain ⟨c, hc, hb⟩ := List.mem_flatMap.mp mem
  have digit := Nat.isDigit_of_mem_toDigits (by omega) (by omega) hc
  have all : ∀ d : Fin 10, quote ∉ String.utf8EncodeChar (Char.ofNat (48 + d)) := by
    decide
  simp only [Char.isDigit, Bool.and_eq_true, decide_eq_true_eq] at digit
  have low : 48 ≤ c.toNat := digit.1
  have high : c.toNat ≤ 57 := digit.2
  have none := all ⟨c.toNat - 48, by omega⟩
  rw [Nat.add_sub_cancel' low, Char.ofNat_toNat] at none
  exact none hb

theorem ProbeQuiet.string {name key : Bytes} (h : Plain (body key) ∧ body key ≠ name) (text : Bytes) :
    ProbeQuiet name (⟨key, false⟩, .string text) :=
  ⟨h.1, h.2, .inl ⟨text, rfl⟩⟩

theorem ProbeQuiet.number {name key text : Bytes} (h : Plain (body key) ∧ body key ≠ name)
    (digits : quote ∉ text) : ProbeQuiet name (⟨key, false⟩, .number text) :=
  ⟨h.1, h.2, .inr (by rwa [write])⟩

theorem quiet_head : ∀ m ∈ envelope.headMembers rfc3339, ProbeQuiet (utf8 "kind".toList) m := by
  simp only [SessionEnvelope.headMembers, List.forall_mem_cons, List.not_mem_nil, false_imp_iff,
    implies_true, and_true, envelopeField]
  refine ⟨?_, ?_, ?_, ?_, ?_⟩
  · exact ProbeQuiet.number (by decide) (digits_no_quote _)
  all_goals exact ProbeQuiet.string (by decide) _

/-- The line in front of the member `kind`. -/
def lineHead : Bytes := 123 :: (envelope.headMembers rfc3339).flatMap (writeMember · ++ [44])

theorem neverStarts_head (t : Bytes) : NeverStarts kindKey (lineHead rfc3339 envelope) t := by
  have quiet := quiet_head rfc3339 envelope
  rw [kindKey_eq]
  rw [kind_bytes] at quiet ⊢
  exact ⟨fun starts => absurd (probeKey_prefix_cons starts).1 (by decide),
    neverStarts_members (by decide) (by decide) (by decide) (by decide) quiet t⟩

theorem line_eq : envelope.line rfc3339 =
    lineHead rfc3339 envelope ++ (kindKey ++ (utf8 envelope.kind.name ++
      quote :: (writeMembers [envelopeField "event" envelope.event] ++ [125]))) := by
  rw [SessionEnvelope.line, write_object_append, (kind_tags envelope.kind).2, lineHead]
  simp only [List.append_assoc, List.cons_append, List.nil_append]

/-- The filter reads the envelope's own kind, if the window of the header holds it. -/
theorem probe_kind :
    probeStringValue (lineHeader (envelope.line rfc3339)) kindKey =
      if (lineHead rfc3339 envelope).length + kindKey.length + (utf8 envelope.kind.name).length <
        envelopeHeaderProbeBytes then some (utf8 envelope.kind.name) else none := by
  rw [line_eq, lineHeader]
  exact probeStringValue_take kindKey_ne_nil (neverStarts_head rfc3339 envelope _)
    (kind_tags envelope.kind).1 _

theorem getLast?_brace (members : List (Key × Json)) :
    (123 :: members.flatMap (writeMember · ++ [44])).getLast? ≠ some 58 := by
  obtain rfl | ⟨front, m, rfl⟩ := List.eq_nil_or_concat members
  · decide
  · rw [List.concat_eq_append, List.flatMap_append, List.flatMap_singleton, ← List.append_assoc,
      ← List.cons_append, List.getLast?_concat]
    decide

/-- A known type stands in the line behind a brace or a comma. -/
theorem exists_tag {members : List (Key × Json)} (event : envelope.event = .object members)
    {word : Bytes} (own : lookup members (utf8 "type".toList) = some (.string word))
    (known : word ∈ lifecycleDriverEventTypes) :
    ∃ pre rest, envelope.line rfc3339 = pre ++ (typeKey ++ (word ++ quote :: rest)) ∧
      pre.getLast? ≠ some 58 := by
  obtain ⟨m, hm, value⟩ := Option.map_eq_some_iff.mp own
  obtain ⟨mem, key⟩ := List.mem_filter.mp (List.mem_of_getLast? hm)
  rw [decide_eq_true_eq] at key
  obtain ⟨front, back, rfl⟩ := List.append_of_mem mem
  have tag : writeMember m = typeKey ++ (word ++ [quote]) := by
    obtain ⟨⟨text, escaped⟩, json⟩ := m
    obtain rfl : json = .string word := value
    obtain rfl : text = utf8 "type".toList := key
    rw [writeMember, write]
    exact (lifecycle_tags word known).2
  refine ⟨123 :: ((envelope.headMembers rfc3339 ++
      [envelopeField "kind" (.string (utf8 envelope.kind.name))]).flatMap (writeMember · ++ [44]) ++
      (quoted (utf8 "event".toList) ++ 58 :: 123 :: front.flatMap (writeMember · ++ [44]))),
    writeMembers back ++ [125] ++ (writeMembers [] ++ [125]), ?_, ?_⟩
  · rw [SessionEnvelope.line, List.append_cons, write_object_append, event]
    simp only [envelopeField, writeMember, write_object_append, tag, List.append_assoc,
      List.cons_append, List.nil_append]
  · have last := getLast?_brace front
    rw [← List.cons_append, ← List.append_assoc, List.append_cons,
      List.getLast?_append_of_ne_nil _ (List.cons_ne_nil _ _)]
    exact last

/-- **No deciding line is dropped.** -/
theorem lineIsLifecycleRelevant_line :
    (∀ kind, probeStringValue (lineHeader (envelope.line rfc3339)) kindKey = some kind →
      kind = utf8 envelope.kind.name) ∧
    (envelope.kind = .lifecycle ∨ envelope.kind = .note →
      lineIsLifecycleRelevant (envelope.line rfc3339) = true) ∧
    ∀ members word, envelope.kind = .driverEvent → envelope.event = .object members →
      lookup members (utf8 "type".toList) = some (.string word) →
      word ∈ lifecycleDriverEventTypes →
      (envelope.line rfc3339).length ≤ lifecycleDriverEventMaxLineBytes →
      lineIsLifecycleRelevant (envelope.line rfc3339) = true := by
  refine ⟨?_, ?_, ?_⟩
  · intro kind read
    rw [probe_kind] at read
    split at read
    · exact (Option.some.inj read).symm
    · cases read
  · intro kind
    have other : utf8 envelope.kind.name ≠ utf8 "driver_event".toList := by
      obtain kind | kind := kind <;> rw [kind] <;> decide
    rw [lineIsLifecycleRelevant, if_pos]
    rw [probe_kind]
    split
    · exact fun same => other (Option.some.inj same)
    · exact Option.some_ne_none _ ∘ Eq.symm
  · intro members word _ event own known fits
    obtain ⟨pre, rest, eq, colon⟩ := exists_tag rfc3339 envelope event own known
    rw [lineIsLifecycleRelevant]
    split
    · rfl
    · rw [if_neg (by omega)]
      have long : pre.length < (envelope.line rfc3339).length := by
        rw [eq, List.length_append, List.length_append, typeKey_length]
        omega
      rw [eq] at long ⊢
      exact namesLifecycleType_of_tag known colon long

end filter

/-- A `ready` event whose run id and whose first member look like other envelopes. -/
def lookalike : SessionEnvelope Json where
  seq := 12
  time := 0
  runId := "run-1\",\"kind\":\"lifecycle".toList
  runtimeId := "rt-1".toList
  bootId := "boot-1".toList
  kind := .driverEvent
  event := .object [envelopeField "\"type" (.string (utf8 "\"type\":\"".toList)),
    envelopeField "type" (.string (utf8 "ready".toList))]

theorem lineIsLifecycleRelevant_line_sample :
    lineIsLifecycleRelevant (lookalike.line fun _ => "2026-01-01T00:00:00Z".toList) = true :=
  (lineIsLifecycleRelevant_line (fun _ => "2026-01-01T00:00:00Z".toList) lookalike).2.2 _
    (utf8 "ready".toList) rfl rfl rfl (by decide +kernel) (by decide +kernel)

end Orgasmic
