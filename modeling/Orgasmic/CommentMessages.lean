import Orgasmic.OrgTrim

/-! # Messages of comments

A comment on an artifact is prose of a journal entry, its lines escaped by a comma where the parser
would take them for structure.

* **Escapes.** `escapeCommentMessage` decides by each line of the message;
  `trimAndUnescapeCommentBody` decides again by each line of the trimmed prose.
* **Lines.** `lineInduction` is induction over the lines of a text; on the lines below the first the
  two agree (`unescapeLines_escape`).
* **Messages.** `message_kept_iff`: the first line loses its indentation in between, and which
  messages are read back is decided there. -/

namespace Orgasmic

open Text

/-! ### The functions -/

/-- `comment_line_needs_escape`: without its leading commas the line would be read as a heading or
as a directive, by the parser's own test of these. -/
def commentLineNeedsEscape (line : Text) : Bool :=
  let bare := line.dropWhile (· = ',')
  decide (bare.head? = some '*') || (startsBlock bare || endsBlock bare)

def escapeCommentLine (line : Text) : Text :=
  if commentLineNeedsEscape line then ',' :: line else line

def escapeCommentMessage (message : Text) : Text :=
  ['\n'].intercalate ((message.splitOn '\n').map escapeCommentLine)

/-- `line.strip_prefix(',').unwrap_or(line)` of a line that needs the escape. -/
def unescapeCommentLine (line : Text) : Text :=
  if commentLineNeedsEscape line ∧ line.head? = some ',' then line.tail else line

/-- The lines without the blank ones at both ends. -/
def trimBlankLines (ls : List Text) : List Text :=
  (ls.dropWhile fun l => trim l = []).rdropWhile fun l => trim l = []

def trimAndUnescapeCommentBody (raw : Text) : Text :=
  ['\n'].intercalate ((trimBlankLines (lines raw)).map unescapeCommentLine)

/-! ### What a message reads as -/

/-- CRLF read as LF. -/
def crlfToLf : Text → Text
  | [] => []
  | c :: t => if c = '\r' ∧ t.head? = some '\n' then crlfToLf t else c :: crlfToLf t

/-- The first line of the message that is not blank. -/
def firstInkedLine (message : Text) : Text :=
  ((lines message).find? fun line => trim line ≠ []).getD []

/-- The first line stands at the margin, or is inert there, or is a heading there. -/
def MessageFits (message : Text) : Prop :=
  trimStart (firstInkedLine message) = firstInkedLine message ∨
    commentLineNeedsEscape (trimStart (firstInkedLine message)) = false ∨
    (trimStart (firstInkedLine message)).head? = some '*'

instance (message : Text) : Decidable (MessageFits message) := inferInstanceAs (Decidable (_ ∨ _))

/-! ### Lines that need the escape -/

theorem needsEscape_comma (line : Text) :
    commentLineNeedsEscape (',' :: line) = commentLineNeedsEscape line := by
  rw [commentLineNeedsEscape, List.dropWhile_cons_of_pos (by decide), commentLineNeedsEscape]

theorem needsEscape_eq {line bare : Text} (h : line.dropWhile (· = ',') = bare) :
    commentLineNeedsEscape line =
      (decide (bare.head? = some '*') || (startsBlock bare || endsBlock bare)) := by
  rw [commentLineNeedsEscape, h]

theorem needsEscape_of_blank {line : Text} (h : Blank (line.dropWhile (· = ','))) :
    commentLineNeedsEscape line = false := by
  have hstar : (line.dropWhile (· = ',')).head? ≠ some '*' := fun hhead =>
    absurd (h _ (List.mem_of_head? hhead)) (by decide)
  rw [commentLineNeedsEscape, (not_block_of_blank h).1, (not_block_of_blank h).2,
    decide_eq_false hstar]
  rfl

/-- White space at the end of the line decides nothing. -/
theorem needsEscape_append_blank {w : Text} (hw : Blank w) (line : Text) :
    commentLineNeedsEscape (line ++ w) = commentLineNeedsEscape line := by
  have hdrop : w.dropWhile (· = ',') = w := by
    cases w with
    | nil => rfl
    | cons c w =>
        refine List.dropWhile_cons_of_neg ?_
        rw [decide_eq_true_iff]
        rintro rfl
        exact absurd (hw _ List.mem_cons_self) (by decide)
  cases hbare : line.dropWhile (· = ',') with
  | nil =>
      have hnone : commentLineNeedsEscape line = false :=
        needsEscape_of_blank (by rw [hbare]; exact blank_nil)
      rw [hnone]
      refine needsEscape_of_blank ?_
      rw [List.dropWhile_append, hbare, hdrop]
      exact hw
  | cons c bare =>
      have hwhole : (line ++ w).dropWhile (· = ',') = c :: bare ++ w := by
        rw [List.dropWhile_append, hbare]
        rfl
      have hb : ∀ t, startsBlock t = "#+begin_".toList.isPrefixOf (toAsciiLowercase (trim t)) :=
        fun t => isPrefixOf_lower_trim (inked (by decide)) t
      have he : ∀ t, endsBlock t = "#+end_".toList.isPrefixOf (toAsciiLowercase (trim t)) :=
        fun t => isPrefixOf_lower_trim (inked (by decide)) t
      rw [needsEscape_eq hwhole, needsEscape_eq hbare, hb, hb, he, he, trim_append_blank hw]
      rfl

theorem needsEscape_content (r : Text) :
    commentLineNeedsEscape (content r) = commentLineNeedsEscape r := by
  obtain ⟨w, hw, h⟩ := content_spec r
  conv_rhs => rw [h, needsEscape_append_blank hw]

/-- A line that starts with white space needs the escape for a directive only. -/
theorem needsEscape_indented {b line : Text} (hb : Blank b) (hne : b ≠ []) :
    commentLineNeedsEscape (b ++ line) = (startsBlock line || endsBlock line) := by
  obtain ⟨c, b, rfl⟩ := List.exists_cons_of_ne_nil hne
  have hc := ((blank_cons c b).mp hb).1
  have hdrop : (c :: b ++ line).dropWhile (· = ',') = c :: b ++ line := by
    refine List.dropWhile_cons_of_neg ?_
    rw [decide_eq_true_iff]
    rintro rfl
    exact absurd hc (by decide)
  have hstar : (c :: b ++ line).head? ≠ some '*' := by
    rw [List.cons_append, List.head?_cons, ne_eq, Option.some.injEq]
    rintro rfl
    exact absurd hc (by decide)
  rw [needsEscape_eq hdrop, decide_eq_false hstar, startsBlock, endsBlock,
    trimStart_blank_append hb]
  rfl

/-- A line at the margin that needs the escape starts with a star or a comma, or is a directive. -/
theorem needsEscape_margin {c : Char} {line : Text} (hcomma : c ≠ ',') (hstar : c ≠ '*') :
    commentLineNeedsEscape (c :: line) = (startsBlock (c :: line) || endsBlock (c :: line)) := by
  have hdrop : (c :: line).dropWhile (· = ',') = c :: line :=
    List.dropWhile_cons_of_neg (by simpa using hcomma)
  rw [needsEscape_eq hdrop, decide_eq_false (by simpa using hstar), Bool.false_or]

theorem unescape_comma {line : Text} (h : commentLineNeedsEscape line = true) :
    unescapeCommentLine (',' :: line) = line := by
  rw [unescapeCommentLine, needsEscape_comma, if_pos ⟨h, rfl⟩, List.tail_cons]

theorem unescape_of_not {line : Text} (h : commentLineNeedsEscape line = false) :
    unescapeCommentLine line = line := by
  rw [unescapeCommentLine, h, if_neg (by simp)]

theorem unescape_eq_self_iff (line : Text) : unescapeCommentLine line = line ↔
    commentLineNeedsEscape line = false ∨ line.head? ≠ some ',' := by
  rw [unescapeCommentLine]
  split_ifs with h
  · obtain ⟨rest, rfl⟩ := List.head?_eq_some_iff.mp h.2
    simp [h.1]
  · rw [not_and_or, Bool.not_eq_true] at h
    exact iff_of_true rfl h

/-! ### Lines of a text -/

/-- **Induction over the lines of a text.** -/
theorem lineInduction {motive : Text → Prop} (last : ∀ b, '\n' ∉ b → motive b)
    (line : ∀ b t, '\n' ∉ b → motive t → motive (b ++ '\n' :: t)) (t : Text) : motive t := by
  induction hlen : t.length using Nat.strong_induction_on generalizing t with
  | _ n ih =>
      by_cases hmem : '\n' ∈ t
      · obtain ⟨b, u, rfl, hb⟩ := List.eq_append_cons_of_mem hmem
        rw [List.length_append, List.length_cons] at hlen
        exact line b u hb (ih u.length (by omega) u rfl)
      · exact last t hmem

/-- The lines of a message are escaped one by one. -/
theorem escape_line {b : Text} (hb : '\n' ∉ b) (t : Text) : escapeCommentMessage (b ++ '\n' :: t) =
    escapeCommentLine b ++ '\n' :: escapeCommentMessage t := by
  rw [escapeCommentMessage, List.splitOn_append_cons_self_of_not_mem hb, List.map_cons,
    escapeCommentMessage]
  obtain ⟨l, ls, hl⟩ := List.exists_cons_of_ne_nil (List.splitOn_ne_nil '\n' t)
  rw [hl, List.map_cons, List.intercalate_cons_cons]
  simp

theorem escape_last {b : Text} (hb : '\n' ∉ b) : escapeCommentMessage b = escapeCommentLine b := by
  rw [escapeCommentMessage, List.splitOn_eq_singleton hb, List.map_singleton,
    List.intercalate_singleton]

theorem newline_notMem_escape {b : Text} (hb : '\n' ∉ b) : '\n' ∉ escapeCommentLine b := by
  unfold escapeCommentLine
  split_ifs
  · simpa using hb
  · exact hb

theorem escapeLine_of_not {b : Text} (h : commentLineNeedsEscape b = false) :
    escapeCommentLine b = b := by
  rw [escapeCommentLine, h, if_neg Bool.false_ne_true]

theorem escapeLine_append_blank {w : Text} (hw : Blank w) (b : Text) :
    escapeCommentLine (b ++ w) = escapeCommentLine b ++ w := by
  rw [escapeCommentLine, needsEscape_append_blank hw, escapeCommentLine]
  split_ifs
  · rfl
  · rfl

/-- Blank lines stay as they are. -/
theorem escape_blank {w : Text} (hw : Blank w) : escapeCommentMessage w = w := by
  have hline {b : Text} (h : Blank b) : escapeCommentLine b = b := by
    have hown := escapeLine_append_blank h []
    rwa [escapeLine_of_not (show commentLineNeedsEscape [] = false by decide), List.nil_append]
      at hown
  induction w using lineInduction with
  | last b hb => rw [escape_last hb, hline hw]
  | line b t hb ih =>
      obtain ⟨hblank, hrest⟩ := (blank_append _ _).mp hw
      rw [escape_line hb, hline hblank, ih ((blank_cons _ _).mp hrest).2]

/-- Blank lines in front stay as they are. -/
theorem escape_blank_append {a : Text} (hclosed : Closed a) (ha : Blank a) (x : Text) :
    escapeCommentMessage (a ++ x) = a ++ escapeCommentMessage x := by
  induction a using lineInduction with
  | last b hb =>
      obtain rfl | ⟨u, rfl⟩ := hclosed
      · rfl
      · simp at hb
  | line b t hb ih =>
      obtain ⟨hblank, hrest⟩ := (blank_append _ _).mp ha
      have hclosed' : Closed t := by
        by_cases hnil : t = []
        · exact .inl hnil
        · exact (hclosed.of_append (by simp)).tail
      have hown := escape_blank hblank
      rw [escape_last hb] at hown
      rw [List.append_assoc, List.cons_append, escape_line hb, hown,
        ih hclosed' ((blank_cons _ _).mp hrest).2, List.append_assoc, List.cons_append]

/-- White space behind stays as it is. -/
theorem escape_append_blank {w : Text} (hw : Blank w) (x : Text) :
    escapeCommentMessage (x ++ w) = escapeCommentMessage x ++ w := by
  induction x using lineInduction with
  | last b hb =>
      rw [escape_last hb]
      by_cases hmem : '\n' ∈ w
      · obtain ⟨v, u, rfl, hv⟩ := List.eq_append_cons_of_mem hmem
        obtain ⟨hblank, hrest⟩ := (blank_append _ _).mp hw
        rw [← List.append_assoc, escape_line (by simp [hb, hv]), escapeLine_append_blank hblank,
          escape_blank ((blank_cons _ _).mp hrest).2, List.append_assoc]
      · rw [escape_last (by simp [hb, hmem]), escapeLine_append_blank hw]
  | line b t hb ih =>
      rw [List.append_assoc, List.cons_append, escape_line hb, ih, escape_line hb,
        List.append_assoc, List.cons_append]

theorem escapeLine_getLast? {b : Text} (hb : b ≠ []) :
    (escapeCommentLine b).getLast? = b.getLast? := by
  obtain ⟨y, c, rfl⟩ := (List.eq_nil_or_concat' b).resolve_left hb
  unfold escapeCommentLine
  split_ifs
  · rw [← List.cons_append, List.getLast?_concat, List.getLast?_concat]
  · rfl

/-- The escaped message ends like the message. -/
theorem escape_getLast? (t : Text) : (escapeCommentMessage t).getLast? = t.getLast? := by
  induction t using lineInduction with
  | last b hb =>
      rw [escape_last hb]
      by_cases hnil : b = []
      · rw [hnil]
        rfl
      · exact escapeLine_getLast? hnil
  | line b t hb ih =>
      rw [escape_line hb, List.getLast?_append, List.getLast?_append, List.getLast?_cons,
        List.getLast?_cons, ih]
      simp

theorem escape_ne_nil {t : Text} (h : t ≠ []) : escapeCommentMessage t ≠ [] := by
  intro hnil
  have hlast := escape_getLast? t
  rw [hnil, List.getLast?_nil, eq_comm, List.getLast?_eq_none_iff] at hlast
  exact h hlast

/-! ### Reading the lines back -/

/-- Every line without its escape. -/
def unescapeLines (t : Text) : Text := ['\n'].intercalate ((lines t).map unescapeCommentLine)

theorem unescapeLines_line {b t : Text} (hb : '\n' ∉ b) (ht : t ≠ []) :
    unescapeLines (b ++ '\n' :: t) =
      unescapeCommentLine (content (b ++ ['\n'])) ++ '\n' :: unescapeLines t := by
  obtain ⟨r, rs, hr⟩ := List.exists_cons_of_ne_nil (mt (rawLines_eq_nil_iff t).mp ht)
  simp only [unescapeLines, lines]
  rw [rawLines_line_append hb, hr, List.map_cons, List.map_cons, List.map_cons, List.map_cons,
    List.intercalate_cons_cons, List.append_assoc]
  rfl

theorem unescapeLines_last {b : Text} (hb : '\n' ∉ b) :
    unescapeLines b = unescapeCommentLine b := by
  by_cases hnil : b = []
  · rw [hnil]
    rfl
  · simp only [unescapeLines, lines]
    rw [rawLines_of_no_newline hb hnil, List.map_singleton, List.map_singleton,
      List.intercalate_singleton, content_of_no_newline hb]

theorem crlfToLf_last {b : Text} (hb : '\n' ∉ b) : crlfToLf b = b := by
  induction b with
  | nil => rfl
  | cons c b ih =>
      rw [List.mem_cons, not_or] at hb
      have hhead : b.head? ≠ some '\n' := fun h => hb.2 (List.mem_of_head? h)
      rw [crlfToLf, if_neg fun h => hhead h.2, ih hb.2]

theorem crlfToLf_line {b : Text} (hb : '\n' ∉ b) (t : Text) :
    crlfToLf (b ++ '\n' :: t) = content (b ++ ['\n']) ++ '\n' :: crlfToLf t := by
  induction b with
  | nil =>
      rw [List.nil_append, crlfToLf, if_neg (by simp)]
      rfl
  | cons c b ih =>
      rw [List.mem_cons, not_or] at hb
      rw [List.cons_append, crlfToLf, ih hb.2, content_terminated, content_terminated]
      cases b with
      | nil =>
          by_cases hc : c = '\r'
          · simp [hc]
          · simp [hc]
      | cons d b =>
          have hhead : ¬(c = '\r' ∧ (d :: b ++ '\n' :: t).head? = some '\n') := by
            rintro ⟨-, h⟩
            exact hb.2 (by simp at h; simp [h])
          rw [if_neg hhead, List.getLast?_cons_cons, List.dropLast_cons_cons]
          split_ifs
          · rfl
          · rfl

theorem unescape_escapeLine (b : Text) : unescapeCommentLine (escapeCommentLine b) = b := by
  cases h : commentLineNeedsEscape b with
  | false => rw [escapeLine_of_not h, unescape_of_not h]
  | true => rw [escapeCommentLine, if_pos h, unescape_comma h]

theorem content_comma (b : Text) : content (',' :: b) = ',' :: content b :=
  content_append (by decide) (by decide) (a := []) b

theorem unescape_content (b : Text) :
    unescapeCommentLine (content (escapeCommentLine b ++ ['\n'])) = content (b ++ ['\n']) := by
  have hneeds : commentLineNeedsEscape (content (b ++ ['\n'])) = commentLineNeedsEscape b := by
    rw [needsEscape_content, needsEscape_append_blank (by decide)]
  cases h : commentLineNeedsEscape b with
  | false => rw [escapeLine_of_not h, unescape_of_not (hneeds.trans h)]
  | true =>
      rw [escapeCommentLine, if_pos h, List.cons_append, content_comma,
        unescape_comma (hneeds.trans h)]

/-- **The lines of an escaped text are read back**, CRLF as LF. -/
theorem unescapeLines_escape {t : Text} (ht : t.getLast? ≠ some '\n') :
    unescapeLines (escapeCommentMessage t) = crlfToLf t := by
  induction t using lineInduction with
  | last b hb =>
      rw [escape_last hb, unescapeLines_last (newline_notMem_escape hb), unescape_escapeLine,
        crlfToLf_last hb]
  | line b t hb ih =>
      have hne : t ≠ [] := by
        rintro rfl
        simp at ht
      have hlast : t.getLast? ≠ some '\n' := by
        obtain ⟨y, c, rfl⟩ := (List.eq_nil_or_concat' t).resolve_left hne
        rw [← List.cons_append, ← List.append_assoc, List.getLast?_concat] at ht
        rwa [List.getLast?_concat]
      rw [escape_line hb, unescapeLines_line (newline_notMem_escape hb) (escape_ne_nil hne),
        unescape_content, ih hlast, crlfToLf_line hb]

/-! ### Messages -/

/-- A text between characters that are no white space. -/
theorem trim_of_ends {y : Text} (hhead : ∀ c ∈ y.head?, isWhitespace c = false)
    (hlast : ∀ c ∈ y.getLast?, isWhitespace c = false) : trim y = y := by
  have hstart : trimStart y = y := by
    cases y with
    | nil => rfl
    | cons c y => exact trimStart_cons_of_not_ws (hhead c rfl) y
  rw [trim, hstart]
  obtain rfl | ⟨z, c, rfl⟩ := List.eq_nil_or_concat' y
  · rfl
  · exact trimEnd_concat_of_not_ws (hlast c List.getLast?_concat) z

theorem ends_of_trim {y : Text} (h : trim y = y) : (∀ c ∈ y.head?, isWhitespace c = false) ∧
    ∀ c ∈ y.getLast?, isWhitespace c = false := by
  constructor
  · intro c hc
    obtain ⟨u, rfl⟩ := List.head?_eq_some_iff.mp hc
    exact trimStart_head (trimStart_of_trim_eq h)
  · intro c hc
    obtain ⟨u, rfl⟩ := List.getLast?_eq_some_iff.mp hc
    rw [Bool.eq_false_iff]
    intro hws
    have hend : trimEnd (u ++ [c]) = u ++ [c] := by rw [← h, trim, trimEnd_trimEnd]
    rw [trimEnd_append_blank (by simpa using hws)] at hend
    have hle : (trimEnd u).length ≤ u.length := (List.rdropWhile_prefix isWhitespace u).length_le
    have hlen := congrArg List.length hend
    rw [List.length_append, List.length_singleton] at hlen
    omega

/-- A trimmed text has no blank lines at its ends. -/
theorem trimBlankLines_lines {y : Text} (h : trim y = y) : trimBlankLines (lines y) = lines y := by
  obtain ⟨hhead, hlast⟩ := ends_of_trim h
  by_cases hnil : y = []
  · rw [hnil]
    rfl
  · -- a line with a character that is no white space
    have hinked {r : Text} {c : Char} (hc : c ∈ r) (hws : isWhitespace c = false) :
        ¬decide (trim (content r) = []) = true := by
      rw [decide_eq_true_iff, trim_content, trim_eq_nil_iff]
      intro hblank
      rw [hblank c hc] at hws
      cases hws
    have hfirst : (lines y).dropWhile (fun l => decide (trim l = [])) = lines y := by
      obtain ⟨r, rs, hr⟩ := List.exists_cons_of_ne_nil (mt (rawLines_eq_nil_iff y).mp hnil)
      obtain ⟨c, u, rfl⟩ := List.exists_cons_of_ne_nil
        (ne_nil_of_mem_rawLines (hr ▸ List.mem_cons_self))
      have hy : y = c :: u ++ rs.flatten := by rw [← rawLines_flatten y, hr, List.flatten_cons]
      rw [lines, hr, List.map_cons]
      refine List.dropWhile_cons_of_neg (hinked List.mem_cons_self (hhead c ?_))
      rw [hy]
      rfl
    obtain ⟨a, z, rfl, ha, hz⟩ := exists_last_line y
    have hzne : z ≠ [] := by
      rintro rfl
      rw [List.append_nil] at hlast hnil
      obtain rfl | ⟨u, rfl⟩ := ha
      · exact hnil rfl
      · exact absurd (hlast '\n' List.getLast?_concat) (by decide)
    obtain ⟨v, c, rfl⟩ := (List.eq_nil_or_concat' z).resolve_left hzne
    have hws := hlast c (by rw [← List.append_assoc, List.getLast?_concat]; rfl)
    rw [trimBlankLines, hfirst, lines, rawLines_append ha, rawLines_of_no_newline hz hzne,
      List.map_append, List.map_singleton]
    exact List.rdropWhile_concat_neg _ _ _ (hinked (by simp) hws)

theorem unescape_body {y : Text} (h : trim y = y) :
    trimAndUnescapeCommentBody y = unescapeLines y := by
  rw [trimAndUnescapeCommentBody, trimBlankLines_lines h, unescapeLines]

/-- A message that is not blank: blank lines, the indentation, the line `c :: l` and the rest of the
trimmed message, white space. -/
structure MessageParts (message a b : Text) (c : Char) (l rest w : Text) : Prop where
  split : message = a ++ (b ++ (c :: l ++ rest)) ++ w
  trimmed : trim message = c :: l ++ rest
  closed : Closed a
  front : Blank a
  indent : Blank b
  indent_line : '\n' ∉ b
  inked : isWhitespace c = false
  line : '\n' ∉ c :: l
  rest_eq : rest = [] ∨ ∃ t, rest = '\n' :: t ∧ t ≠ [] ∧ t.getLast? ≠ some '\n'
  behind : Blank w

theorem exists_messageParts {message : Text} (h : trim message ≠ []) :
    ∃ a b c l rest w, MessageParts message a b c l rest w := by
  obtain ⟨w, w', hw, hw', hsplit⟩ := trim_spec message
  obtain ⟨a, b, rfl, ha, hb⟩ := exists_last_line w
  obtain ⟨hfront, hindent⟩ := (blank_append _ _).mp hw
  obtain ⟨c, t, ht⟩ := List.exists_cons_of_ne_nil h
  obtain ⟨hhead, hlast⟩ := ends_of_trim (trim_trim message)
  have hc : isWhitespace c = false := hhead c (by rw [ht]; rfl)
  have hnl : c ≠ '\n' := by
    rintro rfl
    exact absurd hc (by decide)
  have hend : (trim message).getLast? ≠ some '\n' := fun hfeed =>
    absurd (hlast '\n' hfeed) (by decide)
  by_cases hmem : '\n' ∈ t
  · obtain ⟨l, u, rfl, hl⟩ := List.eq_append_cons_of_mem hmem
    rw [ht] at hend
    have hu : u ≠ [] := by
      rintro rfl
      rw [← List.cons_append, List.getLast?_concat] at hend
      exact hend rfl
    obtain ⟨y, d, rfl⟩ := (List.eq_nil_or_concat' u).resolve_left hu
    have hlastu : (y ++ [d]).getLast? ≠ some '\n' := by
      rw [← List.cons_append, ← List.cons_append, ← List.append_assoc, List.getLast?_concat] at hend
      rwa [List.getLast?_concat]
    exact ⟨a, b, c, l, _, w', by rw [hsplit, ht]; simp, by rw [ht]; simp, ha, hfront, hindent, hb, hc,
      by simp [Ne.symm hnl, hl], .inr ⟨_, rfl, hu, hlastu⟩, hw'⟩
  · exact ⟨a, b, c, t, [], w', by rw [hsplit, ht]; simp, by rw [ht]; simp, ha, hfront, hindent, hb, hc,
      by simp [Ne.symm hnl, hmem], .inl rfl, hw'⟩

/-- The first line of what is read, without its line feed. -/
def firstRead (b line : Text) : Text :=
  if commentLineNeedsEscape (b ++ line) then ',' :: (b ++ line) else line

namespace MessageParts

variable {message a b l rest w : Text} {c : Char} (h : MessageParts message a b c l rest w)
include h

theorem ne_newline : c ≠ '\n' := fun hc => h.line (hc ▸ List.mem_cons_self)

theorem ne_return : c ≠ '\r' := by
  rintro rfl
  exact absurd h.inked (by decide)

theorem escape_rest {u : Text} (hu : '\n' ∉ u) :
    escapeCommentMessage (u ++ rest) = escapeCommentLine u ++ escapeCommentMessage rest := by
  obtain rfl | ⟨t, rfl, -, -⟩ := h.rest_eq
  · rw [List.append_nil, escape_last hu, escape_blank blank_nil, List.append_nil]
  · have hfeed := escape_line (b := []) (by simp) t
    rw [escapeLine_of_not (show commentLineNeedsEscape [] = false by decide), List.nil_append,
      List.nil_append] at hfeed
    rw [escape_line hu, hfeed]

/-- The first line loses its indentation if no comma stands in front of it. -/
theorem trim_escape : trim (escapeCommentMessage message) =
    firstRead b (c :: l) ++ escapeCommentMessage rest := by
  have hline : '\n' ∉ b ++ c :: l := by
    rw [List.mem_append, not_or]
    exact ⟨h.indent_line, h.line⟩
  obtain ⟨-, hend⟩ := ends_of_trim (trim_trim message)
  rw [h.trimmed] at hend
  have htrim : trim (firstRead b (c :: l) ++ escapeCommentMessage rest) =
      firstRead b (c :: l) ++ escapeCommentMessage rest := by
    refine trim_of_ends ?_ ?_
    · intro d hd
      unfold firstRead at hd
      split_ifs at hd
      · obtain rfl := Option.some.inj hd
        decide
      · obtain rfl := Option.some.inj hd
        exact h.inked
    · have hfirst : (firstRead b (c :: l)).getLast? = (c :: l).getLast? := by
        unfold firstRead
        split_ifs
        · rw [← List.cons_append, List.getLast?_append, List.getLast?_cons]
          rfl
        · rfl
      rwa [List.getLast?_append, escape_getLast?, hfirst, ← List.getLast?_append]
  rw [h.split, escape_append_blank h.behind, escape_blank_append h.closed h.front,
    ← List.append_assoc b, h.escape_rest hline, trim_append_blank h.behind,
    trim_blank_append h.front]
  unfold firstRead at htrim ⊢
  unfold escapeCommentLine
  split_ifs at htrim ⊢
  · exact htrim
  · rw [List.append_assoc, trim_blank_append h.indent, htrim]

/-- The line feed of the first line, if there is one. -/
theorem read_rest {u : Text} (hu : '\n' ∉ u) : ∃ e, Blank e ∧
    unescapeLines (u ++ escapeCommentMessage rest) =
      unescapeCommentLine (content (u ++ e)) ++ crlfToLf rest ∧
    crlfToLf (c :: l ++ rest) = content (c :: l ++ e) ++ crlfToLf rest := by
  obtain rfl | ⟨t, rfl, hne, hlast⟩ := h.rest_eq
  · refine ⟨[], blank_nil, ?_, ?_⟩
    · rw [escape_blank blank_nil, List.append_nil, unescapeLines_last hu, content_of_no_newline hu,
        crlfToLf, List.append_nil]
    · rw [List.append_nil, content_of_no_newline h.line, crlfToLf_last h.line, crlfToLf,
        List.append_nil]
  · have hfeed := h.escape_rest (u := []) (by simp)
    have hrest := crlfToLf_line (b := []) (by simp) t
    refine ⟨['\n'], by decide, ?_, ?_⟩
    · rw [← List.nil_append ('\n' :: t), escape_line (by simp), escapeLine_of_not (by decide),
        List.nil_append, unescapeLines_line hu (escape_ne_nil hne), unescapeLines_escape hlast, hrest]
      rfl
    · rw [crlfToLf_line h.line, ← List.nil_append ('\n' :: t), hrest]
      rfl

/-- A directive starts with neither a comma nor a star. -/
theorem directive_char (hdir : (startsBlock (c :: l) || endsBlock (c :: l)) = true) :
    c ≠ ',' ∧ c ≠ '*' := by
  have hstart := trimStart_cons_of_not_ws h.inked l
  constructor
  · rintro rfl
    obtain ⟨hb, he⟩ := not_block_of_trimStart hstart (by decide)
    rw [hb, he] at hdir
    cases hdir
  · rintro rfl
    obtain ⟨hb, he⟩ := not_block_of_trimStart hstart (by decide)
    rw [hb, he] at hdir
    cases hdir

theorem content_line (x e : Text) : content (x ++ (c :: l ++ e)) = x ++ content (c :: l ++ e) := by
  have hown := content_append h.ne_return h.ne_newline (a := []) (l ++ e)
  rw [List.cons_append, content_append h.ne_return h.ne_newline]
  rw [List.nil_append, List.nil_append] at hown
  rw [hown]

/-- **Which messages are read back**, by the first line. -/
theorem read_iff : trimAndUnescapeCommentBody (trim (escapeCommentMessage message)) =
      crlfToLf (trim message) ↔
    b = [] ∨ commentLineNeedsEscape (c :: l) = false ∨ c = '*' := by
  have hfirst : '\n' ∉ firstRead b (c :: l) := by
    unfold firstRead
    split_ifs
    · have := h.line
      simp only [List.mem_cons, List.mem_append, not_or] at this ⊢
      exact ⟨by decide, h.indent_line, this⟩
    · exact h.line
  rw [unescape_body (trim_trim _), h.trim_escape, h.trimmed]
  obtain ⟨e, he, hread, hown⟩ := h.read_rest hfirst
  have hneeds (x : Text) : commentLineNeedsEscape (content (x ++ (c :: l ++ e))) =
      commentLineNeedsEscape (x ++ c :: l) := by
    rw [needsEscape_content, ← List.append_assoc, needsEscape_append_blank he]
  have hneeds' : commentLineNeedsEscape (content (c :: l ++ e)) = commentLineNeedsEscape (c :: l) :=
    hneeds []
  rw [hread, hown, List.append_cancel_right_eq]
  unfold firstRead
  split_ifs with hesc
  · -- the comma holds the indentation
    rw [List.cons_append, content_comma, List.append_assoc,
      unescape_comma ((hneeds b).trans hesc), h.content_line, List.append_left_eq_self]
    constructor
    · exact Or.inl
    · intro hor
      by_contra hne
      rw [needsEscape_indented h.indent hne] at hesc
      obtain ⟨hcomma, hstar⟩ := h.directive_char hesc
      rw [needsEscape_margin hcomma hstar, hesc] at hor
      simp [hne, hstar] at hor
  · rw [unescape_eq_self_iff, hneeds']
    have hhead : (content (c :: l ++ e)).head? = some c := by
      have hown := content_append h.ne_return h.ne_newline (a := []) (l ++ e)
      rw [List.cons_append]
      rw [List.nil_append, List.nil_append] at hown
      rw [hown, List.head?_cons]
    rw [hhead, ne_eq, Option.some.injEq]
    constructor
    · rintro (hinert | hcomma)
      · exact .inr (.inl hinert)
      · by_cases hnil : b = []
        · exact .inl hnil
        · by_cases hstar : c = '*'
          · exact .inr (.inr hstar)
          · rw [needsEscape_indented h.indent hnil] at hesc
            rw [needsEscape_margin hcomma hstar]
            exact .inr (.inl (Bool.eq_false_iff.mpr hesc))
    · rintro (rfl | hinert | rfl)
      · exact .inl (Bool.eq_false_iff.mpr hesc)
      · exact .inl hinert
      · exact .inr (by decide)

/-- The first line that is not blank, as it is read of the message. -/
theorem firstInkedLine_eq : ∃ v, Blank v ∧
    firstInkedLine message = b ++ content (c :: l ++ v) := by
  have hline : '\n' ∉ b ++ c :: l := by
    rw [List.mem_append, not_or]
    exact ⟨h.indent_line, h.line⟩
  obtain ⟨v, ls, hv, hraw⟩ : ∃ v ls, Blank v ∧
      rawLines (b ++ c :: l ++ (rest ++ w)) = (b ++ c :: l ++ v) :: ls := by
    obtain hrest | ⟨t, hrest, -, -⟩ := h.rest_eq
    · rw [hrest, List.nil_append]
      by_cases hmem : '\n' ∈ w
      · obtain ⟨v, u, hw, hv⟩ := List.eq_append_cons_of_mem hmem
        have hblank := h.behind
        rw [hw, blank_append, blank_cons] at hblank
        refine ⟨v ++ ['\n'], rawLines u, (blank_append _ _).mpr ⟨hblank.1, by decide⟩, ?_⟩
        rw [hw, ← List.append_assoc, rawLines_line_append, List.append_assoc]
        rw [List.mem_append, not_or]
        exact ⟨hline, hv⟩
      · refine ⟨w, [], h.behind, rawLines_of_no_newline ?_ (by simp)⟩
        rw [List.mem_append, not_or]
        exact ⟨hline, hmem⟩
    · refine ⟨['\n'], rawLines (t ++ w), by decide, ?_⟩
      rw [hrest, List.cons_append, rawLines_line_append hline]
  refine ⟨v, hv, ?_⟩
  have hwhole : message = a ++ (b ++ c :: l ++ (rest ++ w)) := by
    rw [h.split]
    simp only [List.append_assoc]
  have hfront : ∀ x ∈ (rawLines a).map content, ¬(decide (trim x ≠ []) = true) := by
    intro x hx
    obtain ⟨r, hr, rfl⟩ := List.mem_map.mp hx
    have hblank : Blank r := by
      have hall := h.front
      rw [← rawLines_flatten a, blank_flatten] at hall
      exact hall r hr
    rw [decide_eq_true_iff, not_not, trim_content, hblank.trim_eq]
  have hown : trim (content (b ++ c :: l ++ v)) ≠ [] := by
    rw [ne_eq, trim_content, trim_eq_nil_iff]
    intro hblank
    have hc := hblank c (by simp)
    rw [h.inked] at hc
    cases hc
  rw [firstInkedLine, lines, hwhole, rawLines_append h.closed, hraw, List.map_append,
    List.find?_append, List.find?_eq_none.mpr hfront, Option.none_or, List.map_cons,
    List.find?_cons_of_pos (by simpa using hown), Option.getD_some, List.append_assoc,
    h.content_line]

theorem fits_iff : MessageFits message ↔
    b = [] ∨ commentLineNeedsEscape (c :: l) = false ∨ c = '*' := by
  obtain ⟨v, hv, hfirst⟩ := h.firstInkedLine_eq
  obtain ⟨u, hu⟩ : ∃ u, content (c :: l ++ v) = c :: u := by
    have hown := content_append h.ne_return h.ne_newline (a := []) (l ++ v)
    exact ⟨_, hown⟩
  have hstart : trimStart (firstInkedLine message) = content (c :: l ++ v) := by
    rw [hfirst, trimStart_blank_append h.indent, hu, trimStart_cons_of_not_ws h.inked]
  have hneeds : commentLineNeedsEscape (content (c :: l ++ v)) = commentLineNeedsEscape (c :: l) := by
    rw [needsEscape_content, needsEscape_append_blank hv]
  rw [MessageFits, hstart, hneeds, hu, List.head?_cons, Option.some.injEq, hfirst, hu,
    List.self_eq_append_left]

end MessageParts

theorem escape_eq_blank {message : Text} (h : trim message = []) :
    trim (escapeCommentMessage message) = [] := by
  rw [escape_blank ((trim_eq_nil_iff message).mp h), h]

/-- **Which messages are read back** trimmed, CRLF as LF. -/
theorem message_kept_iff (message : Text) :
    trimAndUnescapeCommentBody (trim (escapeCommentMessage message)) = crlfToLf (trim message) ↔
      MessageFits message := by
  by_cases hblank : trim message = []
  · rw [escape_eq_blank hblank, hblank]
    refine iff_of_true rfl (.inl ?_)
    have hnone : (lines message).find? (fun line => decide (trim line ≠ [])) = none := by
      refine List.find?_eq_none.mpr fun x hx => ?_
      obtain ⟨r, hr, rfl⟩ := List.mem_map.mp hx
      have hall := (trim_eq_nil_iff message).mp hblank
      rw [← rawLines_flatten message, blank_flatten] at hall
      rw [decide_eq_true_iff, not_not, trim_content, (hall r hr).trim_eq]
    rw [firstInkedLine, hnone]
    rfl
  · obtain ⟨a, b, c, l, rest, w, h⟩ := exists_messageParts hblank
    rw [h.read_iff, h.fits_iff]

end Orgasmic
