import Orgasmic.OrgBodies

/-! # Raw bodies

`wrap_raw_body` quotes untrusted text for a section body.

* **Wrapping.** Lines that start with `*` or `#+`, after any commas, get one more comma, and the
  whole is put between `#+begin_example` and `#+end_example`.
* **Indented directives.** The parser counts block directives after white space, the wrapper looks
  at the first column only: a line `  #+begin_…` of the payload opens a block that the last line
  of the wrapper does not close (`wrapRawBody_accepted_iff`). -/

namespace Orgasmic

open Text

/-! ### Wrapping -/

def rawBodyLineNeedsCommaEscape (content : Text) : Bool :=
  let afterCommas := content.dropWhile (· = ',')
  "*".toList.isPrefixOf afterCommas || "#+".toList.isPrefixOf afterCommas

/-- `strip_suffix('\n')`, or the line as it is. -/
def stripLineFeed (line : Text) : Text := if line.getLast? = some '\n' then line.dropLast else line

/-- Is the line, with or without its line feed, comma-escaped? -/
def isEscaped (line : Text) : Bool := rawBodyLineNeedsCommaEscape (stripLineFeed line)

def escapeRawLine (line : Text) : Text := if isEscaped line then ',' :: line else line

/-- The text with a line feed at its end. -/
def withLineFeed (t : Text) : Text := if t.getLast? = some '\n' then t else t ++ ['\n']

def wrapRawBody (payload : Text) : Text :=
  "#+begin_example\n".toList ++ withLineFeed ((rawLines payload).flatMap escapeRawLine) ++
    "#+end_example\n".toList

/-! ### The lines of a wrapped text -/

theorem escapeRawLine_ne_nil {line : Text} (h : line ≠ []) : escapeRawLine line ≠ [] := by
  unfold escapeRawLine
  split_ifs
  · simp
  · exact h

theorem newline_notMem_escapeRawLine {line : Text} (h : '\n' ∉ line) :
    '\n' ∉ escapeRawLine line := by
  unfold escapeRawLine
  split_ifs
  · simpa using h
  · exact h

theorem terminated_escapeRawLine {line : Text} (h : Terminated line) :
    Terminated (escapeRawLine line) := by
  obtain ⟨b, hb, rfl⟩ := h
  unfold escapeRawLine
  split_ifs
  · exact ⟨',' :: b, by simpa using hb, rfl⟩
  · exact ⟨b, hb, rfl⟩

theorem isEscaped_star (u : Text) : isEscaped ('*' :: u) = true := by
  have hhead : ∃ v, stripLineFeed ('*' :: u) = '*' :: v := by
    rcases List.eq_nil_or_concat u with rfl | ⟨v, c, rfl⟩
    · exact ⟨[], rfl⟩
    · unfold stripLineFeed
      split_ifs
      · exact ⟨v, by rw [List.concat_eq_append, ← List.cons_append, List.dropLast_concat]⟩
      · exact ⟨_, rfl⟩
  obtain ⟨v, hv⟩ := hhead
  rw [isEscaped, hv]
  simp [rawBodyLineNeedsCommaEscape, List.isPrefixOf]

theorem escapeRawLine_ne_star (line v : Text) : escapeRawLine line ≠ '*' :: v := by
  unfold escapeRawLine
  split_ifs with h
  · simp
  · rintro rfl
    exact h (isEscaped_star v)

/-- Only a star makes a heading line. -/
theorem headingLevel_of_no_star {line : Text} (h : ∀ v, line ≠ '*' :: v) :
    headingLevel (content line) = none := by
  rw [Option.eq_none_iff_forall_ne_some]
  intro n hn
  obtain ⟨u, hu, -⟩ := trimStart_heading hn
  obtain ⟨v, hv⟩ := content_isPrefix line
  exact h (u ++ v) (by rw [← hv, hu]; rfl)

/-- A comma takes the directive away. -/
theorem lineDepth_comma (d : ℕ) (line : Text) : lineDepth d (',' :: line) = d := by
  rw [lineDepth, show ',' :: line = [] ++ ',' :: line from rfl,
    content_append (by decide) (by decide) line]
  exact blockDepth_of_not_block (not_block_of_trimStart
    (trimStart_cons_of_not_ws (by decide) _) (by decide)) d

theorem lineDepth_lineFeed (d : ℕ) (line : Text) :
    lineDepth d (line ++ ['\n']) = lineDepth d line :=
  lineDepth_congr (trim_append_blank (by decide) line) d

/-- The escaped lines of a payload, the last one with its line feed. -/
theorem rawLines_withLineFeed (payload : Text) :
    ∃ ls, rawLines (withLineFeed ((rawLines payload).flatMap escapeRawLine)) = ls ∧
      (∀ l ∈ ls, Terminated l ∧ headingLevel (content l) = none) ∧
      ∀ d, depthAfter d ls = depthAfter d ((rawLines payload).map escapeRawLine) := by
  obtain ⟨a, b, rfl, ha, hb⟩ := exists_last_line payload
  have hterm : ∀ l ∈ (rawLines a).map escapeRawLine, Terminated l := by
    intro l hl
    obtain ⟨r, hr, rfl⟩ := List.mem_map.mp hl
    exact terminated_escapeRawLine (terminated_of_closed ha r hr)
  have hlevel : ∀ l ∈ (rawLines a).map escapeRawLine, headingLevel (content l) = none := by
    intro l hl
    obtain ⟨r, -, rfl⟩ := List.mem_map.mp hl
    exact headingLevel_of_no_star (escapeRawLine_ne_star r)
  rw [rawLines_append ha]
  obtain rfl | hbne := em (b = [])
  · rw [show rawLines ([] : Text) = [] from rfl, List.append_nil]
    have hflat : (rawLines a).flatMap escapeRawLine = ((rawLines a).map escapeRawLine).flatten := rfl
    have hraw := rawLines_flatten_append hterm []
    rw [List.append_nil, show rawLines ([] : Text) = [] from rfl, List.append_nil] at hraw
    rcases closed_flatten hterm with hnil | ⟨u, hu⟩
    · -- nothing but the line feed
      refine ⟨[['\n']], ?_, ?_, fun d => ?_⟩
      · rw [hflat, hnil]
        rfl
      · refine List.forall_mem_singleton.mpr ⟨⟨[], by decide, rfl⟩, by decide⟩
      · have hlines : (rawLines a).map escapeRawLine = [] := by
          rw [← hraw, hnil]
          rfl
        rw [hlines, depthAfter_cons, lineDepth_blank (by decide)]
    · refine ⟨_, ?_, fun l hl => ⟨hterm l hl, hlevel l hl⟩, fun d => rfl⟩
      have hlast : ((rawLines a).flatMap escapeRawLine).getLast? = some '\n' := by
        rw [hflat, hu, List.getLast?_concat]
      rw [withLineFeed, if_pos hlast, hflat, hraw]
  · rw [rawLines_of_no_newline hb hbne]
    have hnl := newline_notMem_escapeRawLine hb
    have hne := escapeRawLine_ne_nil hbne
    have hflat : (rawLines a ++ [b]).flatMap escapeRawLine =
        ((rawLines a).map escapeRawLine).flatten ++ escapeRawLine b := by
      rw [List.flatMap_append, List.flatMap_singleton]
      rfl
    have hlast : ((rawLines a ++ [b]).flatMap escapeRawLine).getLast? ≠ some '\n' := by
      rw [hflat, List.getLast?_append_of_ne_nil _ hne]
      exact fun h => hnl (List.mem_of_getLast? h)
    have hone : Terminated (escapeRawLine b ++ ['\n']) := ⟨_, hnl, rfl⟩
    refine ⟨(rawLines a).map escapeRawLine ++ [escapeRawLine b ++ ['\n']], ?_, ?_, fun d => ?_⟩
    · rw [withLineFeed, if_neg hlast, hflat, List.append_assoc, rawLines_flatten_append hterm]
      congr 1
      have hraw := rawLines_flatten_append (List.forall_mem_singleton.mpr hone) []
      simpa [rawLines] using hraw
    · refine List.forall_mem_append.mpr ⟨fun l hl => ⟨hterm l hl, hlevel l hl⟩,
        List.forall_mem_singleton.mpr ⟨hone, ?_⟩⟩
      refine headingLevel_of_no_star fun v hv => ?_
      obtain ⟨c, x, hx⟩ := List.exists_cons_of_ne_nil hne
      rw [hx, List.cons_append, List.cons.injEq] at hv
      exact escapeRawLine_ne_star b x (by rw [hx, hv.1])
    · rw [List.map_append, depthAfter_append, depthAfter_append, List.map_singleton,
        depthAfter_cons, depthAfter_cons, lineDepth_lineFeed]

/-- The lines of a payload that are not escaped, such as indented ones. -/
def unescapedLines (payload : Text) : List Text := (rawLines payload).filter fun l => !isEscaped l

theorem depthAfter_escaped (d : ℕ) (ls : List Text) :
    depthAfter d (ls.map escapeRawLine) = depthAfter d (ls.filter fun l => !isEscaped l) := by
  induction ls generalizing d with
  | nil => rfl
  | cons l ls ih =>
      rw [List.map_cons, depthAfter_cons, ih]
      unfold escapeRawLine
      cases h : isEscaped l with
      | true => rw [if_pos rfl, lineDepth_comma, List.filter_cons_of_neg (by simp [h])]
      | false =>
          rw [if_neg Bool.false_ne_true, List.filter_cons_of_pos (by simp [h]), depthAfter_cons]

theorem noHead_of_none {ls : List Text} (h : ∀ l ∈ ls, headingLevel (content l) = none) (d : ℕ) :
    NoHead d ls := by
  induction ls generalizing d with
  | nil => trivial
  | cons l ls ih =>
      obtain ⟨hl, hls⟩ := List.forall_mem_cons.mp h
      exact ⟨isHead_eq_false_of_none hl d, ih hls _⟩

/-- **A wrapped text** has no heading line, and its depth is that of its unescaped lines inside the
wrapper. -/
theorem wrapRawBody_spec (payload : Text) :
    Closed (wrapRawBody payload) ∧ NoHead 0 (rawLines (wrapRawBody payload)) ∧
      NoDrawer (rawLines (wrapRawBody payload)) ∧
      depthAfter 0 (rawLines (wrapRawBody payload)) = depthAfter 1 (unescapedLines payload) - 1 := by
  obtain ⟨ls, hls, hlines, hdepth⟩ := rawLines_withLineFeed payload
  have hopen : Closed "#+begin_example\n".toList := .inr ⟨"#+begin_example".toList, by decide⟩
  have hmid : Closed (withLineFeed ((rawLines payload).flatMap escapeRawLine)) := by
    rw [← rawLines_flatten (withLineFeed _), hls]
    exact closed_flatten fun l hl => (hlines l hl).1
  have hraw : rawLines (wrapRawBody payload) =
      "#+begin_example\n".toList :: (ls ++ ["#+end_example\n".toList]) := by
    have h1 : rawLines "#+begin_example\n".toList = ["#+begin_example\n".toList] := by
      decide +kernel
    have h2 : rawLines "#+end_example\n".toList = ["#+end_example\n".toList] := by
      decide +kernel
    have h3 := rawLines_append hopen (withLineFeed ((rawLines payload).flatMap escapeRawLine))
    have h4 := rawLines_append (hopen.append hmid) "#+end_example\n".toList
    rw [h3, hls, h1, h2, List.singleton_append] at h4
    exact h4
  refine ⟨(hopen.append hmid).append (.inr ⟨"#+end_example".toList, by decide⟩), ?_, ?_, ?_⟩
  · rw [hraw]
    refine noHead_of_none (List.forall_mem_cons.mpr ⟨by decide,
      List.forall_mem_append.mpr ⟨fun l hl => (hlines l hl).2, ?_⟩⟩) 0
    exact List.forall_mem_singleton.mpr (by decide)
  · rw [hraw]
    intro l hl
    obtain rfl : "#+begin_example\n".toList = l := by simpa using hl
    decide
  · have h1 : lineDepth 0 "#+begin_example\n".toList = 1 := by decide
    have h2 (d : ℕ) : lineDepth d "#+end_example\n".toList = d - 1 := by
      have hs : startsBlock (content "#+end_example\n".toList) = false := by decide
      have he : endsBlock (content "#+end_example\n".toList) = true := by decide
      rw [lineDepth, blockDepth, hs, he]
      cases d <;> rfl
    rw [hraw, depthAfter_cons, h1, depthAfter_append, hdepth, depthAfter_escaped, depthAfter_cons, h2]
    rfl

/-! ### Writing a wrapped text -/

/-- **A wrapped payload is written, read back and closed** exactly if its unescaped lines leave no
block open.  The body of the section is to start at the start of a line. -/
theorem wrapRawBody_accepted_iff {r : OrgRewriter} {f : OrgFile} {id title : Text} {g s : Heading}
    (hf : r.view = .ok f) (hg : f.findById id = some g) (hs : g.section? title = some s)
    (hline : Closed (r.currentText.take s.body.start)) (payload : Text) :
    (∃ r' f' g' s', (OrgRewriter.setSectionBody id title (wrapRawBody payload)).run r = .ok () r' ∧
      r'.view = .ok f' ∧ f'.findById id = some g' ∧ g'.section? title = some s' ∧
      trim (f'.slice s'.body) = trim (wrapRawBody payload) ∧
      depthAfter 0 (rawLines (wrapRawBody payload)) = 0) ↔
      depthAfter 1 (unescapedLines payload) ≤ 1 := by
  obtain ⟨hclosed, hnohead, hnodrawer, hdepth⟩ := wrapRawBody_spec payload
  constructor
  · rintro ⟨-, -, -, -, -, -, -, -, -, hzero⟩
    omega
  · intro hopen
    have hzero : depthAfter 0 (rawLines (wrapRawBody payload)) = 0 := by omega
    obtain ⟨pre, post, t, haccepted⟩ := OrgRewriter.setSectionBody_accepted hf hg hs
    obtain ⟨r', f', g', s', hrun, hview, hg', hs', hread⟩ := haccepted (wrapRawBody payload)
      (wrapRawBody payload) (t.replaced_closed (t.closed_iff.mp hline) _)
      ⟨hnohead, .inr ⟨hclosed, hzero⟩, fun _ => hnodrawer⟩ rfl
    exact ⟨r', f', g', s', hrun, hview, hg', hs', hread, hzero⟩

/-! ### An indented directive -/

/-- A test of a section of a document whose body starts at the start of a line. -/
theorem testSection_spec (test : OrgFile → Heading → Bool) (source id title : Text)
    (h : testHeading (fun f g => (g.section? title).any fun s =>
      decide ((source.take s.body.start).getLast? = some '\n') && test f s) source id = true) :
    ∃ f g s, OrgFile.parse source [] = .ok f ∧ (OrgRewriter.new f []).view = .ok f ∧
      f.findById id = some g ∧ g.section? title = some s ∧
      Closed ((OrgRewriter.new f []).currentText.take s.body.start) ∧ test f s = true := by
  obtain ⟨f, g, hf, hg, passed⟩ := testHeading_spec _ _ _ h
  have hsource := (readFlat_of_parse hf).1
  cases hs : g.section? title with
  | none => simp [hs] at passed
  | some s =>
      simp only [hs, Option.any_some, Bool.and_eq_true, decide_eq_true_eq] at passed
      obtain ⟨hlast, htest⟩ := passed
      refine ⟨f, g, s, hf, ?_, hg, hs, ?_, htest⟩
      · rw [OrgRewriter.view, OrgRewriter.currentText_new, hsource]
        exact hf
      · rw [OrgRewriter.currentText_new, hsource]
        exact .inr (List.getLast?_eq_some_iff.mp hlast)

namespace RawBody

/-- A heading with two sections. -/
def source : Text := "* A\n:PROPERTIES:\n:ID: a\n:END:\n** S\nold\n** T\n".toList

end RawBody

/-- A heading line and an end directive in the first column. -/
theorem wrapRawBody_accepted_iff_sample : ∃ f g s r' f' g' s',
    OrgFile.parse RawBody.source [] = .ok f ∧ f.findById "a".toList = some g ∧
      g.section? "S".toList = some s ∧
      (OrgRewriter.setSectionBody "a".toList "S".toList
        (wrapRawBody "* x\n#+end_example".toList)).run (OrgRewriter.new f []) = .ok () r' ∧
      r'.view = .ok f' ∧ f'.findById "a".toList = some g' ∧ g'.section? "S".toList = some s' ∧
      trim (f'.slice s'.body) = trim (wrapRawBody "* x\n#+end_example".toList) := by
  obtain ⟨f, g, s, hf, hview, hg, hs, hline, -⟩ := testSection_spec (fun _ _ => true)
    RawBody.source "a".toList "S".toList (by decide +kernel)
  obtain ⟨r', f', g', s', hrun, hview', hg', hs', hread, -⟩ :=
    (wrapRawBody_accepted_iff hview hg hs hline "* x\n#+end_example".toList).mpr (by decide +kernel)
  exact ⟨f, g, s, r', f', g', s', hf, hg, hs, hrun, hview', hg', hs', hread⟩

/-- An indented begin directive is not escaped: the block stays open and the write is refused. -/
theorem wrapRawBody_accepted_fails : ∃ f g s, OrgFile.parse RawBody.source [] = .ok f ∧
    f.findById "a".toList = some g ∧ g.section? "S".toList = some s ∧
      Closed ((OrgRewriter.new f []).currentText.take s.body.start) ∧
      (∃ e r', (OrgRewriter.setSectionBody "a".toList "S".toList
        (wrapRawBody "  #+begin_src\n".toList)).run (OrgRewriter.new f []) = .error e r') ∧
      depthAfter 0 (rawLines (wrapRawBody "  #+begin_src\n".toList)) = 1 := by
  obtain ⟨f, g, s, hf, -, hg, hs, hline, hfailed⟩ := testSection_spec
    (fun f _ => OrgRewriter.failed (OrgRewriter.setSectionBody "a".toList "S".toList
      (wrapRawBody "  #+begin_src\n".toList)) (OrgRewriter.new f []))
    RawBody.source "a".toList "S".toList (by decide +kernel)
  exact ⟨f, g, s, hf, hg, hs, hline, OrgRewriter.exists_of_failed hfailed, by decide +kernel⟩

end Orgasmic
