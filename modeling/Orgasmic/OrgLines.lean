import Orgasmic.OrgParser
import Orgasmic.Segment

/-! # The lines of a document and its chunks

The parser's vectors of lines, computed from the raw lines of the source.

* **Lines.** `lines_new`: the lines of the parser are the raw lines of the source, each with its
  index, its position and its block flag (`layLines`).
* **Chunks.** The raw lines are cut at the heading lines outside blocks (`Segment.cut` with the
  block depth as state): the lines of the prelude, then one chunk for every heading, of whatever
  level.  At a heading line the depth is `0` (`isHead_zero`), so a chunk is read on its own. -/

namespace Orgasmic

open Text

/-! ### Lines with their positions -/

/-- Block depth after a raw line. -/
def lineDepth (d : ℕ) (r : Text) : ℕ := blockDepth d (content r)

/-- Is this raw line a heading line, read at depth `d`? -/
def isHead (d : ℕ) (r : Text) : Bool := !inBlock d (content r) && (headingLevel (content r)).isSome

/-- The heading line and the lines up to the next one. -/
abbrev Chunk := Text × List Text

def Chunk.lines (c : Chunk) : List Text := c.1 :: c.2

def Chunk.text (c : Chunk) : Text := c.lines.flatten

/-- The prelude's lines and the chunks of a text. -/
def chunksOf (source : Text) : List Text × List Chunk :=
  Segment.cut lineDepth isHead 0 (rawLines source)

/-- The span of a raw line that starts at `off`. -/
def spanAt (off : ℕ) (r : Text) : LineSpan := ⟨off, off + (content r).length, off + r.length⟩

def spansFrom (off : ℕ) : List Text → List LineSpan
  | [] => []
  | r :: rs => spanAt off r :: spansFrom (off + r.length) rs

/-- The parser's lines for raw lines that start at index `no`, position `off`, depth `d`. -/
def layLines (no off d : ℕ) : List Text → List Line
  | [] => []
  | r :: rs =>
      ⟨no, spanAt off r, r, content r, inBlock d (content r)⟩ ::
        layLines (no + 1) (off + r.length) (lineDepth d r) rs

theorem splitLinesFrom_eq {l : Text} (hl : '\n' ∉ l) (start : ℕ) (t : Text) :
    splitLinesFrom start (start + l.length) (l.getLast? = some '\r') t =
      spansFrom start (rawLines (l ++ t)) := by
  induction t generalizing l start with
  | nil =>
      by_cases h : l = []
      · simp [h, splitLinesFrom, rawLines, spansFrom]
      · have : 0 < l.length := List.length_pos_iff.mpr h
        simp [splitLinesFrom, rawLines_of_no_newline hl h, spansFrom, spanAt,
          content_of_no_newline hl, h]
  | cons c cs ih =>
      by_cases hc : c = '\n'
      · subst hc
        have hnext : start + (l ++ ['\n']).length = start + l.length + 1 := by simp; omega
        have ih0 := ih (l := []) (by simp) (start + l.length + 1)
        simp only [List.length_nil, Nat.add_zero, List.nil_append, List.getLast?_nil,
          reduceCtorEq, decide_false] at ih0
        rw [rawLines_line_append hl, spansFrom, hnext, ← ih0]
        simp only [splitLinesFrom, if_true, spanAt, content_terminated]
        by_cases hr : l.getLast? = some '\r'
        · have : 0 < l.length := by
            rw [List.length_pos_iff]; rintro rfl; simp at hr
          have e : start + l.length - 1 = start + (l.length - 1) := by omega
          simp [hr, this, e]
          omega
        · simp [hr]
          omega
      · have ih := ih (l := l ++ [c]) (by simp [hl, Ne.symm hc]) start
        have e : l ++ c :: cs = l ++ [c] ++ cs := by simp
        rw [e, ← ih]
        simp [splitLinesFrom, hc, Nat.add_assoc]

theorem splitLines_eq (source : Text) : splitLines source = spansFrom 0 (rawLines source) := by
  have := splitLinesFrom_eq (l := []) (by simp) 0 source
  simpa [splitLines] using this

theorem slice_full {before r after : Text} :
    slice (before ++ r ++ after) (spanAt before.length r).full = r :=
  slice_append_three before r after

theorem slice_content {before r after : Text} :
    slice (before ++ r ++ after) (spanAt before.length r).content = content r := by
  obtain ⟨w, hw⟩ := content_isPrefix r
  have e : before ++ r ++ after = before ++ content r ++ (w ++ after) := by
    simp only [List.append_assoc]
    rw [← List.append_assoc (content r), hw]
  rw [e]
  exact slice_append_three before (content r) (w ++ after)

theorem linesFrom_eq {source before : Text} (no d : ℕ) {rs : List Text}
    (h : source = before ++ rs.flatten) :
    Parser.linesFrom source no (spansFrom before.length rs)
        (orgBlockLineMaskFrom source d (spansFrom before.length rs)) =
      layLines no before.length d rs := by
  induction rs generalizing before no d with
  | nil => rfl
  | cons r rs ih =>
      have h' : source = before ++ r ++ rs.flatten := by simpa using h
      have hlen : before.length + r.length = (before ++ r).length := by simp
      have ih := @ih (before ++ r) (no + 1) (lineDepth d r) h'
      simp only [spansFrom, orgBlockLineMaskFrom, Parser.linesFrom, layLines]
      rw [h', slice_full, slice_content, ← h', hlen]
      rw [lineDepth] at ih
      rw [ih, lineDepth]

/-- **The lines of the parser are the raw lines of the source.** -/
theorem lines_new (source display : Text) :
    (Parser.new source display).lines = layLines 0 0 0 (rawLines source) := by
  have h : source = [] ++ (rawLines source).flatten := (rawLines_flatten source).symm
  have := linesFrom_eq 0 0 h
  simpa [Parser.new, splitLines_eq, orgBlockLineMask] using this

theorem layLines_append (no off d : ℕ) (as bs : List Text) :
    layLines no off d (as ++ bs) =
      layLines no off d as ++
        layLines (no + as.length) (off + as.flatten.length) (Segment.run lineDepth d as) bs := by
  induction as generalizing no off d with
  | nil => simp [layLines]
  | cons a as ih =>
      have e1 : no + 1 + as.length = no + (as.length + 1) := by omega
      simp [layLines, ih, e1, Nat.add_assoc]

theorem length_layLines (no off d : ℕ) (rs : List Text) :
    (layLines no off d rs).length = rs.length := by
  induction rs generalizing no off d with
  | nil => rfl
  | cons r rs ih => simp [layLines, ih]

theorem headingLevelAt_lay (no off d : ℕ) (r : Text) :
    headingLevelAt ⟨no, spanAt off r, r, content r, inBlock d (content r)⟩ =
      if isHead d r then headingLevel (content r) else none := by
  unfold headingLevelAt isHead
  cases h : inBlock d (content r) <;> cases h' : headingLevel (content r) <;> simp

theorem getLast?_lay (no off d : ℕ) {rs : List Text} (h : rs ≠ []) :
    (layLines no off d rs).getLast?.map (fun l => l.span.next) =
      some (off + rs.flatten.length) := by
  obtain ⟨as, r, rfl⟩ : ∃ as r, rs = as ++ [r] := ⟨_, _, (List.dropLast_append_getLast h).symm⟩
  simp [layLines_append, layLines, spanAt, Nat.add_assoc]

theorem startOf_lay (no off d : ℕ) (rs : List Text) (e : ℕ) :
    Parser.startOf (layLines no off d rs) e = if rs = [] then e else off := by
  cases rs <;> simp [Parser.startOf, layLines, spanAt]

/-! ### Headings and blocks -/

theorem headingLevel_eq_some_iff (t : Text) (n : ℕ) :
    headingLevel t = some n ↔ 0 < n ∧ ∃ u, t = List.replicate n '*' ++ ' ' :: u := by
  have hspan : t.takeWhile (· = '*') ++ t.dropWhile (· = '*') = t :=
    List.takeWhile_append_dropWhile
  have hdrop : t.drop (t.takeWhile (· = '*')).length = t.dropWhile (· = '*') := by
    have := @List.drop_left _ (t.takeWhile (· = '*')) (t.dropWhile (· = '*'))
    rwa [hspan] at this
  have hstars : t.takeWhile (· = '*') = List.replicate (t.takeWhile (· = '*')).length '*' :=
    List.eq_replicate_iff.mpr ⟨rfl, fun c hc => by simpa using List.mem_takeWhile_imp hc⟩
  constructor
  · intro h
    simp only [headingLevel] at h
    split_ifs at h with h0
    split at h
    · next u hu =>
        cases h
        refine ⟨by omega, u, ?_⟩
        rw [← hstars, ← hu, hdrop, hspan]
    · cases h
  · rintro ⟨hn, u, rfl⟩
    have e : (List.replicate n '*' ++ ' ' :: u).takeWhile (· = '*') = List.replicate n '*' := by
      rw [List.takeWhile_append_of_pos (by simp)]
      simp
    have hn' : n ≠ 0 := by omega
    simp [headingLevel, e, hn']

theorem headingLevel_replicate {n : ℕ} (hn : 0 < n) (u : Text) :
    headingLevel (List.replicate n '*' ++ ' ' :: u) = some n :=
  (headingLevel_eq_some_iff _ _).mpr ⟨hn, u, rfl⟩

/-- A line whose first ink is not `#` neither opens nor closes a block. -/
theorem not_block_of_trimStart {t : Text} {c : Char} {u : Text} (h : trimStart t = c :: u)
    (hc : c.toLower ≠ '#') : startsBlock t = false ∧ endsBlock t = false := by
  have hb : ('#' == c.toLower) = false := by simpa using Ne.symm hc
  constructor <;> simp [startsBlock, endsBlock, toAsciiLowercase, h, List.isPrefixOf, hb]

theorem blockDepth_of_not_block {t : Text} (h : startsBlock t = false ∧ endsBlock t = false)
    (d : ℕ) : blockDepth d t = d := by simp [blockDepth, h.1, h.2]

theorem blank_trimStart {t : Text} (h : Blank t) : trimStart t = [] :=
  (trimStart_eq_nil_iff t).mpr h

theorem not_block_of_blank {t : Text} (h : Blank t) :
    startsBlock t = false ∧ endsBlock t = false := by
  simp [startsBlock, endsBlock, toAsciiLowercase, blank_trimStart h]

theorem headingLevel_of_head_ne {c : Char} (h : c ≠ '*') (t : Text) :
    headingLevel (c :: t) = none := by simp [headingLevel, h]

@[simp] theorem headingLevel_nil : headingLevel [] = none := rfl

/-- The first characters of a heading line. -/
theorem trimStart_heading {t : Text} {n : ℕ} (h : headingLevel t = some n) :
    ∃ u, t = '*' :: u ∧ trimStart t = '*' :: u := by
  obtain ⟨hn, u, rfl⟩ := (headingLevel_eq_some_iff _ _).mp h
  obtain ⟨m, rfl⟩ : ∃ m, n = m + 1 := ⟨n - 1, by omega⟩
  refine ⟨List.replicate m '*' ++ ' ' :: u, by simp [List.replicate_succ], ?_⟩
  rw [List.replicate_succ, List.cons_append, trimStart_cons_of_not_ws (by decide)]

/-- **At a heading line the block depth is `0`**, before it and after it. -/
theorem isHead_zero {d : ℕ} {r : Text} (h : isHead d r = true) :
    d = 0 ∧ lineDepth d r = 0 ∧ ∃ n, headingLevel (content r) = some n := by
  simp only [isHead, Bool.and_eq_true, Bool.not_eq_eq_eq_not, Bool.not_true, inBlock,
    Bool.or_eq_false_iff, decide_eq_false_iff_not, Option.isSome_iff_exists] at h
  obtain ⟨⟨hd, -⟩, n, hn⟩ := h
  obtain ⟨u, -, hu⟩ := trimStart_heading hn
  have hd : d = 0 := by omega
  subst hd
  exact ⟨rfl, blockDepth_of_not_block (not_block_of_trimStart hu (by decide)) 0, n, hn⟩

theorem isHead_zero_iff (r : Text) : isHead 0 r = true ↔ ∃ n, headingLevel (content r) = some n := by
  constructor
  · intro h
    exact (isHead_zero h).2.2
  · rintro ⟨n, hn⟩
    obtain ⟨u, -, hu⟩ := trimStart_heading hn
    simp [isHead, inBlock, (not_block_of_trimStart hu (by decide)).1, hn]

theorem isHead_eq_false_of_none {r : Text} (h : headingLevel (content r) = none) (d : ℕ) :
    isHead d r = false := by simp [isHead, h]

/-- A deeper block hides headings. -/
theorem isHead_anti {d e : ℕ} (r : Text) (h : d ≤ e) (he : isHead e r = true) :
    isHead d r = true := by
  have := (isHead_zero he).1
  have hd : d = e := by omega
  rwa [hd]

theorem lineDepth_mono {d e : ℕ} (r : Text) (h : d ≤ e) : lineDepth d r ≤ lineDepth e r := by
  simp only [lineDepth, blockDepth]
  split_ifs <;> simp_all
  all_goals omega

/-- No line of the list is a heading line, read from depth `d`. -/
abbrev NoHead (d : ℕ) (rs : List Text) : Prop := Segment.NoHead lineDepth isHead d rs

/-- The chunks are cut at their heading lines, read from depth `d`. -/
abbrev Chunks (d : ℕ) (cs : List Chunk) : Prop := Segment.Chunks lineDepth isHead d cs

/-- Block depth after a list of raw lines. -/
abbrev depthAfter (d : ℕ) (rs : List Text) : ℕ := Segment.run lineDepth d rs

theorem chunks_cons_iff (c : Chunk) (cs : List Chunk) (d : ℕ) :
    Chunks d (c :: cs) ↔
      d = 0 ∧ isHead 0 c.1 = true ∧ NoHead 0 c.2 ∧ Chunks (depthAfter 0 c.2) cs := by
  constructor
  · rintro ⟨h, hb, hc⟩
    obtain ⟨rfl, h0, -⟩ := isHead_zero h
    rw [h0] at hb hc
    exact ⟨rfl, h, hb, hc⟩
  · rintro ⟨rfl, h, hb, hc⟩
    have h0 := (isHead_zero h).2.1
    exact ⟨h, by rw [h0]; exact hb, by rw [h0]; exact hc⟩

theorem Chunks.zero {d : ℕ} {cs : List Chunk} (h : Chunks d cs) : Chunks 0 cs := by
  cases cs with
  | nil => trivial
  | cons c cs =>
      obtain ⟨rfl, -⟩ := (chunks_cons_iff c cs d).mp h
      exact h

theorem Chunks.depth_eq {d : ℕ} {c : Chunk} {cs : List Chunk} (h : Chunks d (c :: cs)) : d = 0 :=
  ((chunks_cons_iff c cs d).mp h).1

theorem chunksOf_spec (source : Text) :
    rawLines source = (chunksOf source).1 ++ Segment.join (chunksOf source).2 ∧
      NoHead 0 (chunksOf source).1 ∧
      Chunks (depthAfter 0 (chunksOf source).1) (chunksOf source).2 :=
  Segment.cut_spec lineDepth isHead 0 (rawLines source)

end Orgasmic
