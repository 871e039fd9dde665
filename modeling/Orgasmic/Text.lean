import Mathlib.Algebra.GroupWithZero.Nat
import Mathlib.Data.List.DropRight
import Mathlib.Data.List.Infix
import Mathlib.Tactic.Common

/-! # Texts and their lines

A text is a list of characters.  The module gives the string operations that a line-oriented
format rests on, and the facts about them that proofs about such a format use:

* **Trimming** (`trim`, `trimStart`, `trimEnd`) with the Unicode notion of white space.  The
  *ink* of a text is its number of characters that are not white space; trimming keeps it
  (`ink_trim`), so two texts with the same trimmed form have the same ink (`ink_eq_of_trim_eq`).
* **Raw lines** (`rawLines`): a text cut after each line feed, terminators included.  Cutting
  loses nothing (`rawLines_flatten`) and commutes with concatenation at a closed text, that is
  one which is empty or ends with a line feed (`rawLines_append`).
* **Content** of a raw line: the line without its `\n` or `\r\n`. -/

/-- A text, as the list of its characters. -/
abbrev Text := List Char

namespace Text

instance : LawfulBEq Text := List.instLawfulBEq

instance : LawfulBEq (List Text) := List.instLawfulBEq

/-! ### White space -/

/-- The Unicode property `White_Space`. -/
def isWhitespace (c : Char) : Bool :=
  let n := c.toNat
  (9 ≤ n && n ≤ 13) || n == 32 || n == 0x85 || n == 0xA0 || n == 0x1680 ||
    (0x2000 ≤ n && n ≤ 0x200A) || n == 0x2028 || n == 0x2029 || n == 0x202F || n == 0x205F ||
    n == 0x3000

/-- The Unicode general category `Cc`. -/
def isControl (c : Char) : Bool :=
  let n := c.toNat
  n ≤ 0x1F || (0x7F ≤ n && n ≤ 0x9F)

/-- The text is made of white space only. -/
def Blank (t : Text) : Prop := ∀ c ∈ t, isWhitespace c = true

theorem alphanum_range {c : Char} (h : c.isAlphanum = true) :
    (65 ≤ c.toNat ∧ c.toNat ≤ 90) ∨ (97 ≤ c.toNat ∧ c.toNat ≤ 122) ∨
      (48 ≤ c.toNat ∧ c.toNat ≤ 57) := by
  have hranges : ((decide (c.val ≥ 65 ∧ c.val ≤ 90) ||
      (decide (c.val ≥ 97) && decide (c.val ≤ 122))) ||
        (decide (c.val ≥ 48) && decide (c.val ≤ 57))) = true := h
  simp only [Bool.or_eq_true, Bool.and_eq_true, decide_eq_true_eq, ge_iff_le,
    UInt32.le_iff_toNat_le] at hranges
  obtain (h | h) | h := hranges
  · exact .inl h
  · exact .inr (.inl h)
  · exact .inr (.inr h)

instance (t : Text) : Decidable (Blank t) := List.decidableBAll (isWhitespace · = true) t

def trimStart (t : Text) : Text := t.dropWhile isWhitespace

def trimEnd (t : Text) : Text := t.rdropWhile isWhitespace

def trim (t : Text) : Text := trimEnd (trimStart t)

/-- The number of characters that are not white space. -/
def ink (t : Text) : ℕ := t.countP (fun c => !isWhitespace c)

@[simp] theorem blank_nil : Blank [] := by intro c h; cases h

@[simp] theorem blank_cons (c : Char) (t : Text) :
    Blank (c :: t) ↔ isWhitespace c = true ∧ Blank t := by simp [Blank]

@[simp] theorem blank_append (a b : Text) : Blank (a ++ b) ↔ Blank a ∧ Blank b := by
  simp only [Blank, List.mem_append]
  exact ⟨fun h => ⟨fun c hc => h c (.inl hc), fun c hc => h c (.inr hc)⟩,
    fun h c hc => hc.elim (h.1 c) (h.2 c)⟩

@[simp] theorem ink_nil : ink [] = 0 := rfl

@[simp] theorem ink_append (a b : Text) : ink (a ++ b) = ink a + ink b := by
  simp [ink, List.countP_append]

theorem ink_cons_of_not_ws {c : Char} (h : isWhitespace c = false) (t : Text) :
    ink (c :: t) = ink t + 1 := by simp [ink, h]

theorem ink_eq_zero_iff (t : Text) : ink t = 0 ↔ Blank t := by
  simp [ink, Blank, List.countP_eq_zero]

theorem Blank.ink_eq {t : Text} (h : Blank t) : ink t = 0 := (ink_eq_zero_iff t).mpr h

/-! ### Trimming -/

/-- What `trimStart` removes is white space at the front. -/
theorem trimStart_spec (t : Text) : ∃ w, Blank w ∧ t = w ++ trimStart t :=
  ⟨t.takeWhile isWhitespace, fun _ hc => List.mem_takeWhile_imp hc,
    (List.takeWhile_append_dropWhile).symm⟩

/-- What `trimEnd` removes is white space at the back. -/
theorem trimEnd_spec (t : Text) : ∃ w, Blank w ∧ t = trimEnd t ++ w :=
  ⟨t.rtakeWhile isWhitespace, fun _ hc => List.mem_rtakeWhile_imp hc,
    (List.rdropWhile_append_rtakeWhile).symm⟩

theorem trim_spec (t : Text) : ∃ w w', Blank w ∧ Blank w' ∧ t = w ++ trim t ++ w' := by
  obtain ⟨w, hw, h⟩ := trimStart_spec t
  obtain ⟨w', hw', h'⟩ := trimEnd_spec (trimStart t)
  refine ⟨w, w', hw, hw', ?_⟩
  calc t = w ++ trimStart t := h
    _ = w ++ (trim t ++ w') := by rw [trim, ← h']
    _ = w ++ trim t ++ w' := (List.append_assoc _ _ _).symm

theorem ink_trim (t : Text) : ink (trim t) = ink t := by
  obtain ⟨w, w', hw, hw', h⟩ := trim_spec t
  have e := congrArg ink h
  simp only [ink_append, hw.ink_eq, hw'.ink_eq] at e
  omega

theorem ink_trimEnd (t : Text) : ink (trimEnd t) = ink t := by
  obtain ⟨w, hw, h⟩ := trimEnd_spec t
  have e := congrArg ink h
  simp only [ink_append, hw.ink_eq] at e
  omega

/-- **Trimming loses no ink**: texts with one trimmed form have the same ink. -/
theorem ink_eq_of_trim_eq {a b : Text} (h : trim a = trim b) : ink a = ink b := by
  rw [← ink_trim a, ← ink_trim b, h]

theorem trimStart_blank_append {w : Text} (hw : Blank w) (t : Text) :
    trimStart (w ++ t) = trimStart t := List.dropWhile_append_of_pos hw

theorem trimEnd_append_blank {w : Text} (hw : Blank w) (t : Text) :
    trimEnd (t ++ w) = trimEnd t := by
  induction w using List.reverseRecOn with
  | nil => simp
  | append_singleton w c ih =>
      rw [blank_append, blank_cons] at hw
      rw [trimEnd, ← List.append_assoc, List.rdropWhile_concat_pos _ _ _ hw.2.1]
      exact ih hw.1

@[simp] theorem trimEnd_nil : trimEnd [] = [] := rfl

theorem trimStart_eq_nil_iff (t : Text) : trimStart t = [] ↔ Blank t := by
  simp [trimStart, Blank, List.dropWhile_eq_nil_iff]

theorem trimEnd_eq_nil_iff (t : Text) : trimEnd t = [] ↔ Blank t := by
  simp [trimEnd, Blank, List.rdropWhile_eq_nil_iff]

theorem trim_eq_nil_iff (t : Text) : trim t = [] ↔ Blank t := by
  rw [← ink_eq_zero_iff, ← ink_trim t]
  constructor
  · intro h; rw [h]; rfl
  · intro h
    rw [ink_eq_zero_iff] at h
    obtain ⟨w, _, e⟩ := trimEnd_spec (trimStart t)
    have hs : Blank (trimStart t) := by
      rw [← ink_eq_zero_iff] at h ⊢
      rwa [trim, ink_trimEnd] at h
    rw [trim, trimEnd_eq_nil_iff]
    exact hs

theorem Blank.trim_eq {t : Text} (h : Blank t) : trim t = [] := (trim_eq_nil_iff t).mpr h

theorem trimStart_cons_of_not_ws {c : Char} (h : isWhitespace c = false) (t : Text) :
    trimStart (c :: t) = c :: t := by simp [trimStart, h]

theorem trimEnd_concat_of_not_ws {c : Char} (h : isWhitespace c = false) (t : Text) :
    trimEnd (t ++ [c]) = t ++ [c] := by
  rw [trimEnd, List.rdropWhile_concat_neg _ _ _ (by simp [h])]

/-- A trimmed text starts with ink. -/
theorem trimStart_head {t : Text} {c : Char} {u : Text} (h : trimStart t = c :: u) :
    isWhitespace c = false := by
  have := List.head?_dropWhile_not isWhitespace t
  rw [← trimStart, h] at this
  simpa using this

theorem trimStart_append {t : Text} (h : ¬ Blank t) (u : Text) :
    trimStart (t ++ u) = trimStart t ++ u := by
  induction t with
  | nil => exact absurd blank_nil h
  | cons c t ih =>
      by_cases hc : isWhitespace c = true
      · have ht : ¬ Blank t := fun hb => h ((blank_cons c t).mpr ⟨hc, hb⟩)
        have := ih ht
        simpa [trimStart, hc] using this
      · simp [trimStart, hc]

theorem trimEnd_append {u : Text} (h : ¬ Blank u) (t : Text) :
    trimEnd (t ++ u) = t ++ trimEnd u := by
  obtain ⟨w, hw, e⟩ := trimEnd_spec u
  have hne : trimEnd u ≠ [] := fun h0 => h ((trimEnd_eq_nil_iff u).mp h0)
  rw [e, ← List.append_assoc, trimEnd_append_blank hw, trimEnd_append_blank hw]
  obtain ⟨v, c, hv⟩ : ∃ v c, trimEnd u = v ++ [c] :=
    ⟨_, _, (List.dropLast_append_getLast hne).symm⟩
  have hc : isWhitespace c = false := by
    have := List.rdropWhile_last_not isWhitespace u (by simpa [trimEnd] using hne)
    simp only [trimEnd] at hv
    simpa [hv] using this
  rw [hv, ← List.append_assoc, trimEnd_concat_of_not_ws hc, trimEnd_concat_of_not_ws hc,
    List.append_assoc]

theorem trimStart_of_trimEnd (t : Text) : trimStart (trimEnd t) = trim t := by
  by_cases h : Blank t
  · rw [(trimEnd_eq_nil_iff t).mpr h, h.trim_eq]; rfl
  · obtain ⟨w, hw, e⟩ := trimStart_spec t
    have hs : ¬ Blank (trimStart t) := fun hb => h (by rw [e]; simp [hw, hb])
    have hend : trimEnd t = w ++ trim t := by
      conv_lhs => rw [e]
      rw [trimEnd_append hs, trim]
    rw [hend, trimStart_blank_append hw]
    obtain ⟨c, u, hc⟩ : ∃ c u, trim t = c :: u := by
      cases h' : trim t with
      | nil => exact absurd ((trim_eq_nil_iff t).mp h') h
      | cons c u => exact ⟨c, u, rfl⟩
    have hcw : isWhitespace c = false := by
      obtain ⟨w', _, e'⟩ := trimEnd_spec (trimStart t)
      have e2 : trimStart t = c :: (u ++ w') := by
        rw [e', ← trim, hc]; rfl
      exact trimStart_head e2
    rw [hc, trimStart_cons_of_not_ws hcw]

theorem trim_blank_append {w : Text} (hw : Blank w) (t : Text) : trim (w ++ t) = trim t := by
  rw [trim, trimStart_blank_append hw, trim]

theorem trim_append_blank {w : Text} (hw : Blank w) (t : Text) : trim (t ++ w) = trim t := by
  rw [← trimStart_of_trimEnd, trimEnd_append_blank hw, trimStart_of_trimEnd]

theorem trim_trim (t : Text) : trim (trim t) = trim t := by
  obtain ⟨w, w', hw, hw', h⟩ := trim_spec t
  conv_rhs => rw [h]
  rw [trim_append_blank hw', trim_blank_append hw]

/-- A trimmed text has no white space in front. -/
theorem trimStart_of_trim_eq {t : Text} (h : trim t = t) : trimStart t = t := by
  have hsuffix : trimStart t <:+ t := List.dropWhile_suffix _
  refine hsuffix.eq_of_length_le ?_
  conv_lhs => rw [← h]
  exact (List.rdropWhile_prefix _ _).length_le

theorem trim_trimEnd (t : Text) : trim (trimEnd t) = trim t := by
  obtain ⟨w, hw, h⟩ := trimEnd_spec t
  conv_rhs => rw [h]
  rw [trim_append_blank hw]

theorem trimEnd_trimEnd (t : Text) : trimEnd (trimEnd t) = trimEnd t :=
  List.rdropWhile_idempotent _ _

/-- The white space in front, by its length. -/
theorem take_trimStart (t : Text) : Blank (t.take (t.length - (trimStart t).length)) := by
  obtain ⟨w, hw, e⟩ := trimStart_spec t
  have hlen := congrArg List.length e
  rw [List.length_append] at hlen
  have h : t.take (t.length - (trimStart t).length) = w := by
    rw [hlen, Nat.add_sub_cancel]
    conv_lhs => rw [e, List.take_left]
  rwa [h]

/-- The white space at the end, by its length. -/
theorem drop_trimEnd (t : Text) :
    Blank (t.drop (trimEnd t).length) ∧ trimEnd t ++ t.drop (trimEnd t).length = t := by
  obtain ⟨w, hw, e⟩ := trimEnd_spec t
  have h : t.drop (trimEnd t).length = w := by
    conv_lhs => rw [e]
    rw [trimEnd_append_blank hw, trimEnd_trimEnd, List.drop_left]
  rw [h]
  exact ⟨hw, e.symm⟩

/-! ### Splitting -/

/-- Cut at the first occurrence of `c`, which belongs to neither part. -/
def splitOnce (c : Char) : Text → Option (Text × Text)
  | [] => none
  | x :: xs => if x = c then some ([], xs) else (splitOnce c xs).map fun p => (x :: p.1, p.2)

/-- The maximal runs of characters that are not white space. -/
def splitWhitespace (t : Text) : List Text := (t.splitOnP isWhitespace).filter (· ≠ [])

/-- Remove every leading and trailing `c`. -/
def trimMatches (c : Char) (t : Text) : Text := (t.dropWhile (· = c)).rdropWhile (· = c)

/-- Remove every trailing `c`. -/
def trimEndMatches (c : Char) (t : Text) : Text := t.rdropWhile (· = c)

/-- The characters with the letters of the ASCII alphabet in lower case. -/
def toAsciiLowercase (t : Text) : Text := t.map Char.toLower

theorem splitOnce_eq_some {c : Char} {t a b : Text} (h : splitOnce c t = some (a, b)) :
    t = a ++ c :: b ∧ c ∉ a := by
  induction t generalizing a with
  | nil => simp [splitOnce] at h
  | cons x xs ih =>
      simp only [splitOnce] at h
      split at h
      · next hx =>
          simp only [Option.some.injEq, Prod.mk.injEq] at h
          obtain ⟨rfl, rfl⟩ := h
          simp [hx]
      · next hx =>
          simp only [Option.map_eq_some_iff, Prod.exists, Prod.mk.injEq] at h
          obtain ⟨a', b', h', rfl, rfl⟩ := h
          obtain ⟨rfl, hc⟩ := ih h'
          exact ⟨rfl, by simp [Ne.symm hx, hc]⟩

theorem splitOnce_append {c : Char} {a : Text} (h : c ∉ a) (b : Text) :
    splitOnce c (a ++ c :: b) = some (a, b) := by
  induction a with
  | nil => simp [splitOnce]
  | cons x xs ih =>
      rw [List.mem_cons, not_or] at h
      simp [splitOnce, Ne.symm h.1, ih h.2]

/-- The words of a text have no white space. -/
theorem splitWhitespace_inked (t : Text) :
    ∀ word ∈ splitWhitespace t, ∀ c ∈ word, isWhitespace c = false := by
  have pieces : ∀ word ∈ t.splitOnP isWhitespace, ∀ c ∈ word, isWhitespace c = false := by
    induction t with
    | nil => simp
    | cons x t ih =>
        rw [List.splitOnP_cons_eq_if_modifyHead]
        split_ifs with space
        · exact List.forall_mem_cons.mpr ⟨by simp, ih⟩
        · obtain ⟨first, rest, split⟩ := List.exists_cons_of_ne_nil (List.splitOnP_ne_nil isWhitespace t)
          rw [split] at ih ⊢
          obtain ⟨hfirst, hrest⟩ := List.forall_mem_cons.mp ih
          exact List.forall_mem_cons.mpr
            ⟨List.forall_mem_cons.mpr ⟨by simpa using space, hfirst⟩, hrest⟩
  exact fun word hword => pieces word (List.mem_filter.mp hword).1

theorem mem_intercalate {sep : Text} {words : List Text} {c : Char}
    (h : c ∈ sep.intercalate words) : c ∈ sep ∨ ∃ word ∈ words, c ∈ word := by
  induction words with
  | nil => cases h
  | cons word words ih =>
      cases words with
      | nil =>
          rw [List.intercalate_singleton] at h
          exact .inr ⟨word, by simp, h⟩
      | cons next words =>
          rw [List.intercalate_cons_cons, List.append_assoc] at h
          obtain h | h := List.mem_append.mp h
          · exact .inr ⟨word, by simp, h⟩
          · obtain h | h := List.mem_append.mp h
            · exact .inl h
            · obtain h | ⟨other, mem, h⟩ := ih h
              · exact .inl h
              · exact .inr ⟨other, List.mem_cons_of_mem _ mem, h⟩

/-- The number of bytes of the UTF-8 encoding. -/
def byteLen (t : Text) : ℕ := t.foldr (fun c n => c.utf8Size + n) 0

/-! ### Spans -/

/-- A range of positions. -/
structure Span where
  start : ℕ
  stop : ℕ
deriving DecidableEq, Repr

/-- The part of the text in a range. -/
def slice (t : Text) (r : Span) : Text := (t.drop r.start).take (r.stop - r.start)

/-- The text with the part in a range replaced. -/
def replaceRange (t : Text) (r : Span) (u : Text) : Text := t.take r.start ++ u ++ t.drop r.stop

theorem slice_append_three (a b c : Text) :
    slice (a ++ b ++ c) ⟨a.length, a.length + b.length⟩ = b := by
  simp [slice]

theorem replaceRange_append_three (a b c u : Text) :
    replaceRange (a ++ b ++ c) ⟨a.length, a.length + b.length⟩ u = a ++ u ++ c := by
  simp [replaceRange, List.drop_append]

theorem slice_empty (t : Text) (i : ℕ) : slice t ⟨i, i⟩ = [] := by simp [slice]

/-- The ranges follow each other from `start` to `stop`, without gap or overlap. -/
def Adjacent (start stop : ℕ) : List Span → Prop
  | [] => start = stop
  | r :: rs => r.start = start ∧ r.start ≤ r.stop ∧ Adjacent r.stop stop rs

theorem Adjacent.le {start stop : ℕ} {rs : List Span} (h : Adjacent start stop rs) :
    start ≤ stop := by
  induction rs generalizing start with
  | nil => exact le_of_eq h
  | cons r rs ih =>
      obtain ⟨rfl, hle, h⟩ := h
      exact hle.trans (ih h)

theorem Adjacent.append {start mid stop : ℕ} {as bs : List Span} (ha : Adjacent start mid as)
    (hb : Adjacent mid stop bs) : Adjacent start stop (as ++ bs) := by
  induction as generalizing start with
  | nil =>
      obtain rfl : start = mid := ha
      exact hb
  | cons a as ih =>
      obtain ⟨hs, hle, ha⟩ := ha
      exact ⟨hs, hle, ih ha⟩

/-! ### Raw lines -/

/-- The lines of a text, each with its line feed; only the last line may lack one. -/
def rawLines : Text → List Text
  | [] => []
  | c :: cs =>
      if c = '\n' then [c] :: rawLines cs
      else match rawLines cs with
        | [] => [[c]]
        | l :: ls => (c :: l) :: ls

/-- A closed text is empty or ends with a line feed. -/
def Closed (t : Text) : Prop := t = [] ∨ ∃ u, t = u ++ ['\n']

/-- The line without its terminator `\n` or `\r\n`. -/
def content (r : Text) : Text :=
  if r.getLast? = some '\n' then
    if r.dropLast.getLast? = some '\r' then r.dropLast.dropLast else r.dropLast
  else r

/-- `str::lines`. -/
def lines (t : Text) : List Text := (rawLines t).map content

theorem closed_nil : Closed [] := .inl rfl

theorem closed_concat (u : Text) : Closed (u ++ ['\n']) := .inr ⟨u, rfl⟩

theorem Closed.append {a b : Text} (ha : Closed a) (hb : Closed b) : Closed (a ++ b) := by
  rcases hb with rfl | ⟨u, rfl⟩
  · simpa using ha
  · exact .inr ⟨a ++ u, (List.append_assoc _ _ _).symm⟩

theorem Closed.of_append {a b : Text} (h : Closed (a ++ b)) (hb : b ≠ []) : Closed b := by
  rcases h with h | ⟨u, h⟩
  · exact absurd (List.append_eq_nil_iff.mp h).2 hb
  · obtain ⟨v, c, rfl⟩ : ∃ v c, b = v ++ [c] := ⟨_, _, (List.dropLast_append_getLast hb).symm⟩
    rw [← List.append_assoc] at h
    obtain ⟨_, hc⟩ := List.append_inj' h rfl
    rw [hc]
    exact closed_concat v

theorem rawLines_flatten (t : Text) : (rawLines t).flatten = t := by
  induction t with
  | nil => rfl
  | cons c cs ih =>
      simp only [rawLines]
      split
      · simp [ih]
      · split
        · next h => rw [h] at ih; simpa using ih
        · next l ls h => rw [h] at ih; simpa using ih

theorem rawLines_eq_nil_iff (t : Text) : rawLines t = [] ↔ t = [] := by
  constructor
  · intro h
    have := rawLines_flatten t
    rw [h] at this
    exact this.symm
  · rintro rfl; rfl

theorem ne_nil_of_mem_rawLines {t r : Text} (h : r ∈ rawLines t) : r ≠ [] := by
  induction t generalizing r with
  | nil => simp [rawLines] at h
  | cons c cs ih =>
      simp only [rawLines] at h
      split at h
      · rcases List.mem_cons.mp h with rfl | h
        · simp
        · exact ih h
      · split at h
        · simp only [List.mem_singleton] at h; simp [h]
        · next l ls e =>
            rcases List.mem_cons.mp h with rfl | h
            · simp
            · exact ih (by rw [e]; exact List.mem_cons_of_mem _ h)

/-- A line feed ends its line. -/
theorem rawLines_line_append {b : Text} (hb : '\n' ∉ b) (t : Text) :
    rawLines (b ++ '\n' :: t) = (b ++ ['\n']) :: rawLines t := by
  induction b with
  | nil => simp [rawLines]
  | cons c b ih =>
      rw [List.mem_cons, not_or] at hb
      simp [rawLines, Ne.symm hb.1, ih hb.2]

/-- A text without line feed is one line. -/
theorem rawLines_of_no_newline {b : Text} (hb : '\n' ∉ b) (hne : b ≠ []) : rawLines b = [b] := by
  induction b with
  | nil => exact absurd rfl hne
  | cons c b ih =>
      rw [List.mem_cons, not_or] at hb
      by_cases h : b = []
      · subst h; simp [rawLines, Ne.symm hb.1]
      · simp [rawLines, Ne.symm hb.1, ih hb.2 h]

/-- Text without line feed goes in front of the first line. -/
theorem rawLines_glue {b : Text} (hb : '\n' ∉ b) {t l : Text} {ls : List Text}
    (h : rawLines t = l :: ls) : rawLines (b ++ t) = (b ++ l) :: ls := by
  induction b with
  | nil => exact h
  | cons c b ih =>
      rw [List.mem_cons, not_or] at hb
      simp [rawLines, Ne.symm hb.1, ih hb.2]

/-- Every text is a last line without line feed after a closed text. -/
theorem exists_last_line (t : Text) : ∃ a b, t = a ++ b ∧ Closed a ∧ '\n' ∉ b := by
  induction t with
  | nil => exact ⟨[], [], rfl, closed_nil, by simp⟩
  | cons c t ih =>
      obtain ⟨a, b, rfl, ha, hb⟩ := ih
      rcases ha with rfl | ⟨u, rfl⟩
      · by_cases hc : c = '\n'
        · exact ⟨[c], b, rfl, by rw [hc]; exact closed_concat [], hb⟩
        · exact ⟨[], c :: b, rfl, closed_nil, by simp [Ne.symm hc, hb]⟩
      · exact ⟨c :: (u ++ ['\n']), b, rfl, .inr ⟨c :: u, rfl⟩, hb⟩

theorem Closed.tail {c : Char} {a : Text} (h : Closed (c :: a)) : Closed a := by
  by_cases ha : a = []
  · exact .inl ha
  · exact Closed.of_append (a := [c]) h ha

/-- **Lines of a concatenation**: a closed text ends its last line. -/
theorem rawLines_append {a : Text} (ha : Closed a) (b : Text) :
    rawLines (a ++ b) = rawLines a ++ rawLines b := by
  induction a with
  | nil => simp [rawLines]
  | cons c a ih =>
      have ih := ih ha.tail
      by_cases hc : c = '\n'
      · simp [rawLines, hc, ih]
      · -- the text goes on after `c`, so its remainder has a line to put `c` in front of
        have hne : rawLines a ≠ [] := by
          intro h
          rw [rawLines_eq_nil_iff] at h
          subst h
          rcases ha with h | ⟨u, h⟩
          · cases h
          · cases u <;> simp_all
        obtain ⟨l, ls, hl⟩ : ∃ l ls, rawLines a = l :: ls := List.exists_cons_of_ne_nil hne
        simp only [List.cons_append, rawLines, if_neg hc, ih, hl]

/-- A raw line that ends with its line feed. -/
def Terminated (r : Text) : Prop := ∃ b, '\n' ∉ b ∧ r = b ++ ['\n']

theorem Terminated.closed {r : Text} (h : Terminated r) : Closed r := by
  obtain ⟨b, _, rfl⟩ := h
  exact closed_concat b

theorem closed_flatten {ls : List Text} (h : ∀ l ∈ ls, Terminated l) : Closed ls.flatten := by
  induction ls with
  | nil => exact closed_nil
  | cons l ls ih =>
      exact (h l List.mem_cons_self).closed.append
        (ih fun m hm => h m (List.mem_cons_of_mem _ hm))

/-- Terminated lines are the raw lines of the text they make. -/
theorem rawLines_flatten_append {ls : List Text} (h : ∀ l ∈ ls, Terminated l) (t : Text) :
    rawLines (ls.flatten ++ t) = ls ++ rawLines t := by
  induction ls with
  | nil => rfl
  | cons l ls ih =>
      obtain ⟨b, hb, rfl⟩ := h l List.mem_cons_self
      have := ih fun m hm => h m (List.mem_cons_of_mem _ hm)
      rw [List.flatten_cons, List.append_assoc, List.append_assoc, List.singleton_append,
        rawLines_line_append hb, this]
      rfl

theorem terminated_of_closed {t : Text} (h : Closed t) : ∀ l ∈ rawLines t, Terminated l := by
  induction t with
  | nil => simp [rawLines]
  | cons c t ih =>
      have ih := ih h.tail
      intro l hl
      by_cases hc : c = '\n'
      · simp only [rawLines, if_pos hc, List.mem_cons] at hl
        rcases hl with rfl | hl
        · exact ⟨[], by simp, by simp [hc]⟩
        · exact ih l hl
      · simp only [rawLines, if_neg hc] at hl
        split at hl
        · next e =>
            rw [rawLines_eq_nil_iff] at e
            subst e
            rcases h with h | ⟨u, h⟩
            · cases h
            · cases u <;> simp_all
        · next m ms e =>
            rcases List.mem_cons.mp hl with rfl | hl
            · obtain ⟨b, hb, rfl⟩ := ih m (by rw [e]; exact List.mem_cons_self)
              exact ⟨c :: b, by simp [Ne.symm hc, hb], rfl⟩
            · exact ih l (by rw [e]; exact List.mem_cons_of_mem _ hl)

/-- Only the last raw line may lack its line feed. -/
theorem rawLines_split {t : Text} {as bs : List Text} (h : rawLines t = as ++ bs) (hb : bs ≠ []) :
    ∀ l ∈ as, Terminated l := by
  obtain ⟨a, b, rfl, ha, hnl⟩ := exists_last_line t
  rw [rawLines_append ha] at h
  have hterm := terminated_of_closed ha
  by_cases hb0 : b = []
  · subst hb0
    intro l hl
    exact hterm l (by simp [rawLines] at h; rw [h]; exact List.mem_append_left _ hl)
  · rw [rawLines_of_no_newline hnl hb0] at h
    -- the one unterminated line is the last of `bs`
    obtain ⟨bs', m, rfl⟩ : ∃ bs' m, bs = bs' ++ [m] :=
      ⟨_, _, (List.dropLast_append_getLast hb).symm⟩
    rw [← List.append_assoc] at h
    obtain ⟨h, _⟩ := List.append_inj' h rfl
    intro l hl
    exact hterm l (by rw [h]; exact List.mem_append_left _ hl)

/-- The lines from some line on are the lines of a text. -/
theorem rawLines_suffix {t : Text} {as bs : List Text} (h : rawLines t = as ++ bs) :
    rawLines bs.flatten = bs := by
  by_cases hb : bs = []
  · subst hb
    rfl
  · have ht : t = as.flatten ++ bs.flatten := by
      rw [← List.flatten_append, ← h, rawLines_flatten]
    rw [ht, rawLines_flatten_append (rawLines_split h hb)] at h
    exact List.append_cancel_left h

/-- Lines at the front of the lines of a text. -/
theorem rawLines_front {t : Text} {as bs : List Text} (h : rawLines t = as ++ bs) :
    rawLines as.flatten = as ∧ (¬ Closed as.flatten → bs = []) := by
  by_cases hb : bs = []
  · rw [hb, List.append_nil] at h
    exact ⟨by rw [← h, rawLines_flatten], fun _ => hb⟩
  · have hterm := rawLines_split h hb
    have hraw := rawLines_flatten_append hterm []
    rw [List.append_nil] at hraw
    exact ⟨by rw [hraw]; simp [rawLines], fun h0 => absurd (closed_flatten hterm) h0⟩

/-! ### Contents -/

theorem content_of_no_newline {b : Text} (h : '\n' ∉ b) : content b = b := by
  have : b.getLast? ≠ some '\n' := fun e => h (List.mem_of_getLast? e)
  simp [content, this]

theorem content_terminated (b : Text) :
    content (b ++ ['\n']) = if b.getLast? = some '\r' then b.dropLast else b := by
  simp [content]

theorem content_isPrefix (r : Text) : content r <+: r := by
  unfold content
  split_ifs
  · exact (List.dropLast_prefix _).trans (List.dropLast_prefix _)
  · exact List.dropLast_prefix _
  · exact List.prefix_rfl

/-- What is dropped is a line terminator. -/
theorem content_cases (r : Text) :
    ∃ w, r = content r ++ w ∧ (w = [] ∨ w = ['\n'] ∨ w = ['\r', '\n']) := by
  unfold content
  split_ifs with h h'
  · obtain ⟨u, rfl⟩ := List.getLast?_eq_some_iff.mp h
    rw [List.dropLast_concat] at h' ⊢
    obtain ⟨v, rfl⟩ := List.getLast?_eq_some_iff.mp h'
    exact ⟨['\r', '\n'], by simp, by simp⟩
  · obtain ⟨u, rfl⟩ := List.getLast?_eq_some_iff.mp h
    exact ⟨['\n'], by simp, by simp⟩
  · exact ⟨[], by simp, by simp⟩

/-- Only white space is dropped. -/
theorem content_spec (r : Text) : ∃ w, Blank w ∧ r = content r ++ w := by
  obtain ⟨w, h, hw⟩ := content_cases r
  refine ⟨w, ?_, h⟩
  rcases hw with rfl | rfl | rfl <;> decide

/-- A line ends with its only line feed, if it has one. -/
theorem rawLine_cases {t r : Text} (h : r ∈ rawLines t) : '\n' ∉ r ∨ Terminated r := by
  obtain ⟨a, b, rfl, ha, hb⟩ := exists_last_line t
  rw [rawLines_append ha] at h
  rcases List.mem_append.mp h with h | h
  · exact .inr (terminated_of_closed ha r h)
  · by_cases hne : b = []
    · simp [hne, rawLines] at h
    · rw [rawLines_of_no_newline hb hne, List.mem_singleton] at h
      exact .inl (h ▸ hb)

theorem no_newline_content {t r : Text} (h : r ∈ rawLines t) : '\n' ∉ content r := by
  rcases rawLine_cases h with h | ⟨b, hb, rfl⟩
  · exact fun hc => h ((content_isPrefix r).subset hc)
  · rw [content_terminated]
    split_ifs
    · exact fun hc => hb ((List.dropLast_sublist b).subset hc)
    · exact hb

/-- Another content for the first line. -/
theorem rawLines_recontent {t r : Text} {ls : List Text} (h : rawLines t = r :: ls) :
    ∃ w, r = content r ++ w ∧ (w = [] ∨ w = ['\n'] ∨ w = ['\r', '\n']) ∧
      ∀ v, '\n' ∉ v → v ≠ [] → rawLines (v ++ (w ++ ls.flatten)) = (v ++ w) :: ls := by
  obtain ⟨w, hr, hw⟩ := content_cases r
  have hls : rawLines ls.flatten = ls := rawLines_suffix ((List.singleton_append).symm ▸ h)
  refine ⟨w, hr, hw, fun v hv hne => ?_⟩
  rcases hw with rfl | rfl | rfl
  · -- the line has no terminator, so it is the last one
    have hnil : ls = [] := by
      by_contra hne'
      obtain ⟨b, hb, rfl⟩ := rawLines_split ((List.singleton_append).symm ▸ h) hne' r List.mem_cons_self
      rw [content_terminated, List.append_nil] at hr
      have hlen := congrArg List.length hr
      split_ifs at hlen
      · simp at hlen
        omega
      · simp at hlen
    subst hnil
    simpa using rawLines_of_no_newline hv hne
  · have := rawLines_line_append hv ls.flatten
    rw [hls] at this
    simpa using this
  · have hv' : '\n' ∉ v ++ ['\r'] := by simpa using hv
    have := rawLines_line_append hv' ls.flatten
    rw [hls] at this
    simpa using this

@[simp] theorem trimEnd_content (r : Text) : trimEnd (content r) = trimEnd r := by
  obtain ⟨w, hw, e⟩ := content_spec r
  conv_rhs => rw [e, trimEnd_append_blank hw]

@[simp] theorem trim_content (r : Text) : trim (content r) = trim r := by
  obtain ⟨w, hw, e⟩ := content_spec r
  conv_rhs => rw [e, trim_append_blank hw]

@[simp] theorem ink_content (r : Text) : ink (content r) = ink r := by
  rw [← ink_trim, trim_content, ink_trim]

/-- The terminator is taken from the end. -/
theorem content_append {a : Text} {c : Char} (hr : c ≠ '\r') (hn : c ≠ '\n') (b : Text) :
    content (a ++ c :: b) = a ++ c :: content b := by
  rcases List.eq_nil_or_concat b with rfl | ⟨b, x, rfl⟩
  · simp [content, hn]
  · by_cases hx : x = '\n'
    · subst hx
      have e : a ++ c :: (b ++ ['\n']) = (a ++ c :: b) ++ ['\n'] := by simp
      rw [List.concat_eq_append, e, content_terminated, content_terminated]
      rcases List.eq_nil_or_concat b with rfl | ⟨b, y, rfl⟩
      · simp [hr]
      · have e : a ++ c :: b.concat y = (a ++ c :: b) ++ [y] := by simp
        rw [e]
        simp only [List.getLast?_concat, List.concat_eq_append, List.dropLast_concat]
        split_ifs <;> simp
    · have e : a ++ c :: (b ++ [x]) = (a ++ c :: b) ++ [x] := by simp
      have h : ∀ u : Text, content (u ++ [x]) = u ++ [x] := by
        intro u
        simp [content, hx]
      rw [List.concat_eq_append, e, h, h, ← e]

/-! ### Blank lines at the end -/

theorem blank_flatten {ls : List Text} : Blank ls.flatten ↔ ∀ l ∈ ls, Blank l := by
  induction ls with
  | nil => simp
  | cons l ls ih => simp [ih]

/-- The last line with ink. -/
theorem exists_last_ink {ls : List Text} (h : ¬ Blank ls.flatten) :
    ∃ as l bs, ls = as ++ l :: bs ∧ ¬ Blank l ∧ ∀ m ∈ bs, Blank m := by
  induction ls with
  | nil => exact absurd blank_nil h
  | cons l ls ih =>
      by_cases hb : Blank ls.flatten
      · refine ⟨[], l, ls, rfl, fun hl => h ?_, blank_flatten.mp hb⟩
        rw [List.flatten_cons, blank_append]
        exact ⟨hl, hb⟩
      · obtain ⟨as, m, bs, rfl, hm⟩ := ih hb
        exact ⟨l :: as, m, bs, rfl, hm⟩

/-- Trimming the end of a text cuts off its blank lines and the end of the last line with ink. -/
theorem rawLines_trimEnd {t : Text} (h : ¬ Blank t) :
    ∃ as l bs, rawLines t = as ++ l :: bs ∧ ¬ Blank l ∧ (∀ m ∈ bs, Blank m) ∧
      trimEnd t = as.flatten ++ trimEnd l ∧
      ∀ v, rawLines (trimEnd t ++ v) = as ++ rawLines (trimEnd l ++ v) := by
  rw [← rawLines_flatten t] at h
  obtain ⟨as, l, bs, hraw, hl, hbs⟩ := exists_last_ink h
  have htrim : trimEnd t = as.flatten ++ trimEnd l := by
    conv_lhs => rw [← rawLines_flatten t, hraw]
    rw [List.flatten_append, List.flatten_cons, ← List.append_assoc,
      trimEnd_append_blank (blank_flatten.mpr hbs), trimEnd_append hl]
  refine ⟨as, l, bs, hraw, hl, hbs, htrim, fun v => ?_⟩
  rw [htrim, List.append_assoc]
  exact rawLines_flatten_append (rawLines_split hraw (by simp)) _

theorem no_newline_trimEnd {t r : Text} (h : r ∈ rawLines t) : '\n' ∉ trimEnd r := by
  rw [← trimEnd_content]
  exact fun hc => no_newline_content h ((List.rdropWhile_prefix _ _).subset hc)

/-- A line feed after the trimmed text. -/
theorem rawLines_trimEnd_newline {t : Text} (h : ¬ Blank t) :
    ∃ as l bs, rawLines t = as ++ l :: bs ∧ ¬ Blank l ∧ (∀ m ∈ bs, Blank m) ∧
      rawLines (trimEnd t ++ ['\n']) = as ++ [trimEnd l ++ ['\n']] := by
  obtain ⟨as, l, bs, hraw, hl, hbs, -, hlines⟩ := rawLines_trimEnd h
  refine ⟨as, l, bs, hraw, hl, hbs, ?_⟩
  have hnl : '\n' ∉ trimEnd l := no_newline_trimEnd (t := t) (by rw [hraw]; simp)
  rw [hlines]
  have := rawLines_line_append hnl []
  rw [this]
  rfl

end Text
