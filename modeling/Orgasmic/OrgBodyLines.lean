import Orgasmic.OrgBodies

/-! # Heading lines in a body

`body_heading_lines` names the lines of a body that would be headings; a body without them is what
`set_node_body` can store.

* **One reading.** `bodyHeadingLines_eq`: the listed lines are the heading lines that the parser
  sees where the body stands at the start of a line, outside blocks.  Their texts are listed
  without the white space at their ends.
* **The white space around a body** is put back around the new one.  A space in front of the old
  line feed makes a heading line of bare stars (`MakesHeading`); nothing else does
  (`noHead_padded`). -/

namespace Orgasmic

open Text

/-! ### The listed lines -/

/-- The loop of `body_heading_lines`, from line `index` at depth `depth` on. -/
def bodyHeadingLinesFrom (index depth : ℕ) : List Text → List (ℕ × Text)
  | [] => []
  | line :: rest =>
      let found := !inBlock depth line && (headingLevel (trimEndMatches '\r' line)).isSome
      let more := bodyHeadingLinesFrom (index + 1) (blockDepth depth line) rest
      if found then (index + 1, trimEnd line) :: more else more

def bodyHeadingLines (content : Text) : List (ℕ × Text) := bodyHeadingLinesFrom 0 0 (lines content)

theorem headingLevel_trimEndMatches (t : Text) :
    headingLevel (trimEndMatches '\r' t) = headingLevel t := by
  have hspec : t = trimEndMatches '\r' t ++ t.rtakeWhile (· = '\r') :=
    List.rdropWhile_append_rtakeWhile.symm
  have hreturns : ∀ c ∈ t.rtakeWhile (· = '\r'), c = '\r' := fun c hc => by
    simpa using List.mem_rtakeWhile_imp hc
  refine Option.ext fun n => ?_
  rw [headingLevel_eq_some_iff, headingLevel_eq_some_iff]
  refine and_congr_right fun _ => ⟨?_, ?_⟩
  · rintro ⟨u, hu⟩
    refine ⟨u ++ t.rtakeWhile (· = '\r'), ?_⟩
    conv_lhs => rw [hspec, hu]
    simp
  · rintro ⟨u, hu⟩
    -- the carriage returns are behind the space
    generalize trimEndMatches '\r' t = a at hspec ⊢
    generalize t.rtakeWhile (· = '\r') = b at hspec hreturns
    rw [hu, ← List.singleton_append, ← List.append_assoc, eq_comm] at hspec
    rcases List.append_eq_append_iff.mp hspec with ⟨w, hw, hb⟩ | ⟨w, ha, -⟩
    · rcases List.eq_nil_or_concat w with rfl | ⟨w, c, rfl⟩
      · exact ⟨[], by simpa using hw.symm⟩
      · rw [List.concat_eq_append, ← List.append_assoc] at hw
        obtain ⟨-, hc⟩ := List.append_inj' hw rfl
        have hspace : c = '\r' := hreturns c (by rw [hb]; simp)
        rw [hspace] at hc
        exact absurd hc (by decide)
    · exact ⟨w, by rw [ha]; simp⟩

theorem bodyHeadingLinesFrom_lay (no off index depth : ℕ) (rs : List Text) :
    bodyHeadingLinesFrom index depth (rs.map content) =
      (layLines (no + index) off depth rs).filterMap fun l =>
        if (headingLevelAt l).isSome then some (l.no + 1 - no, trimEnd l.text) else none := by
  induction rs generalizing off index depth with
  | nil => rfl
  | cons r rs ih =>
      rw [List.map_cons, bodyHeadingLinesFrom, layLines, List.filterMap_cons,
        ih (off + r.length) (index + 1) (blockDepth depth (content r)), headingLevelAt_lay]
      have hsame : (!inBlock depth (content r) &&
          (headingLevel (trimEndMatches '\r' (content r))).isSome) = isHead depth r := by
        rw [headingLevel_trimEndMatches]
        rfl
      dsimp only
      rw [hsame]
      cases hhead : isHead depth r with
      | false => simp [lineDepth, Nat.add_assoc]
      | true =>
          obtain ⟨n, hn⟩ := (isHead_zero hhead).2.2
          simp [hn, lineDepth, Nat.add_assoc]

/-- **The listed lines are the heading lines of the parser**, where the body stands at the start of
a line and outside blocks. -/
theorem bodyHeadingLines_eq (front content display : Text) (hfront : Closed front)
    (hdepth : depthAfter 0 (rawLines front) = 0) :
    bodyHeadingLines content =
      ((Parser.new (front ++ content) display).lines.drop (rawLines front).length).filterMap
        fun l => if (headingLevelAt l).isSome
          then some (l.no + 1 - (rawLines front).length, trimEnd l.text) else none := by
  have hlay := bodyHeadingLinesFrom_lay (rawLines front).length
    (0 + (rawLines front).flatten.length) 0 0 (rawLines content)
  have hdrop := length_layLines 0 0 0 (rawLines front)
  rw [lines_new, rawLines_append hfront, layLines_append,
    List.drop_append_of_le_length (le_of_eq hdrop.symm), List.drop_of_length_le (le_of_eq hdrop),
    List.nil_append, show Segment.run lineDepth 0 (rawLines front) = 0 from hdepth, Nat.zero_add]
  exact hlay

/-- Nothing is listed iff no line is a heading line. -/
theorem bodyHeadingLines_eq_nil_iff (content : Text) :
    bodyHeadingLines content = [] ↔ NoHead 0 (rawLines content) := by
  have hloop (index depth : ℕ) (rs : List Text) :
      bodyHeadingLinesFrom index depth (rs.map Text.content) = [] ↔ NoHead depth rs := by
    induction rs generalizing index depth with
    | nil => exact iff_of_true rfl trivial
    | cons r rs ih =>
        have hsame : (!inBlock depth (Text.content r) &&
            (headingLevel (trimEndMatches '\r' (Text.content r))).isSome) = isHead depth r := by
          rw [headingLevel_trimEndMatches]
          rfl
        rw [List.map_cons, bodyHeadingLinesFrom, hsame]
        change _ ↔ isHead depth r = false ∧ NoHead (lineDepth depth r) rs
        cases isHead depth r with
        | false =>
            rw [if_neg Bool.false_ne_true]
            exact (ih (index + 1) _).trans (by simp [lineDepth])
        | true => simp
  exact hloop 0 0 (rawLines content)

/-! ### White space around a body -/

/-- The white space `tail` makes a heading line of the stars that `t` ends with. -/
def MakesHeading (t tail : Text) : Prop :=
  (∃ n, 0 < n ∧ (rawLines (trimEnd t)).getLast? = some (List.replicate n '*')) ∧
    tail.head? = some ' '

theorem noHead_trimmed {t w : Text} (hw : Blank w) (hplain : ¬MakesHeading t w)
    (h : NoHead 0 (rawLines t)) : NoHead 0 (rawLines (trimEnd t ++ w)) := by
  have hblank : ∀ {x : Text}, Blank x → ∀ r ∈ rawLines x, Blank r := fun hx =>
    blank_flatten.mp (by rw [rawLines_flatten]; exact hx)
  obtain hb | hb := em (Blank t)
  · rw [(trimEnd_eq_nil_iff t).mpr hb, List.nil_append]
    exact noHead_blank (hblank hw) 0
  obtain ⟨as, l, bs, hraw, hl, -, -, hlines⟩ := rawLines_trimEnd hb
  have hnl : '\n' ∉ trimEnd l := no_newline_trimEnd (t := t) (by rw [hraw]; simp)
  have hlne : trimEnd l ≠ [] := mt (trimEnd_eq_nil_iff l).mp hl
  have hlast := hlines []
  rw [List.append_nil, List.append_nil, rawLines_of_no_newline hnl hlne] at hlast
  rw [hraw, NoHead, Segment.noHead_append] at h
  obtain ⟨has, hhead, -⟩ := h
  rw [hlines, NoHead, Segment.noHead_append]
  refine ⟨has, ?_⟩
  -- the last line with ink and the white space behind it
  obtain ⟨p, ps, hline, hp, hps⟩ : ∃ p ps, rawLines (trimEnd l ++ w) = (trimEnd l ++ p) :: ps ∧
      (∃ q, w = p ++ q) ∧ ∀ r ∈ ps, Blank r := by
    cases hwl : rawLines w with
    | nil =>
        obtain rfl := (rawLines_eq_nil_iff w).mp hwl
        exact ⟨[], [], by simpa using rawLines_of_no_newline hnl hlne, ⟨[], rfl⟩, by simp⟩
    | cons p ps =>
        refine ⟨p, ps, rawLines_glue hnl hwl, ⟨ps.flatten, ?_⟩, fun r hr => hblank hw r (by
          rw [hwl]
          exact List.mem_cons_of_mem _ hr)⟩
        rw [← rawLines_flatten w, hwl, List.flatten_cons]
  rw [hline]
  refine ⟨?_, noHead_blank hps _⟩
  rw [Bool.eq_false_iff]
  intro hnew
  have hzero := (isHead_zero hnew).1
  obtain ⟨n, rest, hpos, hstars⟩ := (isHead_zero_iff_stars _).mp (hzero ▸ hnew)
  obtain ⟨q, rfl⟩ := hp
  rw [blank_append] at hw
  have hcut : trimEnd l ++ p = List.replicate n '*' ++ ' ' :: rest := hstars
  rcases List.append_eq_append_iff.mp hcut with ⟨x, hx, hp⟩ | ⟨x, hx, hrest⟩
  · -- only stars are left of the line
    have hxnil : x = [] := by
      cases x with
      | nil => rfl
      | cons c x =>
          have hstar : c = '*' := List.eq_of_mem_replicate (n := n) (by rw [hx]; simp)
          have hws := hw.1 c (by rw [hp]; simp)
          rw [hstar] at hws
          cases hws
    rw [hxnil, List.append_nil] at hx
    refine hplain ⟨⟨n, hpos, ?_⟩, ?_⟩
    · rw [hlast, List.getLast?_concat, hx]
    · rw [hp, hxnil]
      rfl
  · cases x with
    | nil =>
        rw [List.append_nil] at hx
        refine hplain ⟨⟨n, hpos, ?_⟩, ?_⟩
        · rw [hlast, List.getLast?_concat, hx]
        · rw [List.nil_append] at hrest
          rw [← hrest]
          rfl
    | cons c x =>
        -- the line was a heading line before
        obtain ⟨rfl, -⟩ := List.cons.inj hrest
        obtain ⟨v, -, hv⟩ := trimEnd_spec l
        have hold : isHead 0 l = true := by
          refine (isHead_zero_iff_stars l).mpr ⟨n, x ++ v, hpos, ?_⟩
          rw [hv, hx]
          simp [stars]
        rw [show Segment.run lineDepth 0 as = 0 from hzero, hold] at hhead
        cases hhead

theorem noHead_blank_append {w t : Text} (hw : Blank w) (h : NoHead 0 (rawLines t)) :
    NoHead 0 (rawLines (w ++ t)) := by
  obtain ⟨a, b, rfl, ha, hb⟩ := exists_last_line w
  obtain ⟨hwa, hwb⟩ := (blank_append a b).mp hw
  have hlines : ∀ r ∈ rawLines a, Blank r := blank_flatten.mp (by rw [rawLines_flatten]; exact hwa)
  rw [List.append_assoc, rawLines_append ha, NoHead, Segment.noHead_append]
  refine ⟨noHead_blank hlines 0, ?_⟩
  rw [show Segment.run lineDepth 0 (rawLines a) = 0 from depthAfter_blank hlines 0]
  cases b with
  | nil => exact h
  | cons c b =>
      have hc : isWhitespace c = true := hwb c List.mem_cons_self
      have hfirst (l : Text) : isHead 0 (c :: b ++ l) = false := by
        rw [Bool.eq_false_iff]
        intro hhead
        obtain ⟨n, rest, hpos, hstars⟩ := (isHead_zero_iff_stars _).mp hhead
        obtain ⟨k, rfl⟩ := Nat.exists_eq_succ_of_ne_zero hpos.ne'
        rw [stars, List.replicate_succ] at hstars
        obtain ⟨rfl, -⟩ := List.cons.inj hstars
        cases hc
      cases ht : rawLines t with
      | nil =>
          obtain rfl := (rawLines_eq_nil_iff t).mp ht
          rw [List.append_nil, rawLines_of_no_newline hb (by simp)]
          exact ⟨by simpa using hfirst [], trivial⟩
      | cons l ls =>
          rw [ht] at h
          rw [rawLines_glue hb ht]
          refine ⟨hfirst l, ?_⟩
          rw [lineDepth_congr (trim_blank_append hwb l)]
          exact h.2

/-- **A text without heading lines** has none with other white space around it, but for stars in front
of a space. -/
theorem noHead_padded {w t w' : Text} (hw : Blank w) (hw' : Blank w')
    (hplain : ¬MakesHeading (w ++ t) w') (h : NoHead 0 (rawLines t)) :
    NoHead 0 (rawLines (w ++ (trimEnd t ++ w'))) := by
  obtain hb | hb := em (Blank t)
  · have hall : Blank (w ++ (trimEnd t ++ w')) := by
      rw [(trimEnd_eq_nil_iff t).mpr hb, List.nil_append, blank_append]
      exact ⟨hw, hw'⟩
    exact noHead_blank (blank_flatten.mp (by rw [rawLines_flatten]; exact hall)) 0
  · have hpadded := noHead_trimmed hw' hplain (noHead_blank_append hw h)
    rwa [trimEnd_append hb, List.append_assoc] at hpadded

/-! ### Writing a node body -/

namespace OrgRewriter

/-- The white space in front of a body. -/
def leadingSpace (body : Text) : Text := body.take (body.length - (trimStart body).length)

/-- The white space at the end of a body. -/
def trailingSpace (body : Text) : Text := body.drop (trimEnd body).length

/-- What a nonblank node body becomes. -/
theorem nodeBodyReplacement_inked {body : Text} (h : ¬Blank body) (content : Text) :
    ∃ w, Blank w ∧ nodeBodyReplacement body content = w ++ (trimEnd content ++ trailingSpace body) ∧
      (¬Blank content → w = leadingSpace body) := by
  have hbody : trim body ≠ [] := mt (trim_eq_nil_iff body).mp h
  obtain hc | hc := em (Blank content)
  · have hnil := (trimEnd_eq_nil_iff content).mpr hc
    refine ⟨[], blank_nil, ?_, fun hnot => absurd hc hnot⟩
    simp only [nodeBodyReplacement, if_neg hbody, hnil, if_true, List.nil_append, trailingSpace]
  · have hink := mt (trimEnd_eq_nil_iff content).mp hc
    refine ⟨leadingSpace body, take_trimStart body, ?_, fun _ => rfl⟩
    simp only [nodeBodyReplacement, if_neg hbody, if_neg hink, leadingSpace, trailingSpace,
      List.append_assoc]

/-- What a blank node body becomes. -/
theorem nodeBodyReplacement_blank {body : Text} (h : Blank body) {content : Text}
    (hc : ¬Blank content) :
    nodeBodyReplacement body content = '\n' :: (trimEnd content ++ ['\n', '\n']) := by
  have hbody : trim body = [] := (trim_eq_nil_iff body).mpr h
  have hink := mt (trimEnd_eq_nil_iff content).mp hc
  simp only [nodeBodyReplacement, if_pos hbody, if_neg hink]
  rfl

/-- The trailing white space of a closed body is closed, and keeps its line feed. -/
theorem trailingSpace_closed {body : Text} (h : Closed body) (hb : ¬Blank body) :
    ∃ w, trailingSpace body = w ++ ['\n'] := by
  obtain ⟨-, hspec⟩ := drop_trimEnd body
  rcases List.eq_nil_or_concat (trailingSpace body) with hnil | ⟨w, c, hw⟩
  · rw [show body.drop (trimEnd body).length = [] from hnil, List.append_nil] at hspec
    rcases h with rfl | ⟨u, hu⟩
    · exact absurd blank_nil hb
    · -- the trimmed body does not end in a line feed
      rw [hu, trimEnd_append_blank (by decide)] at hspec
      have hlen := congrArg List.length hspec
      obtain ⟨v, -, hv⟩ := trimEnd_spec u
      have hle := congrArg List.length hv
      rw [List.length_append] at hlen hle
      rw [List.length_singleton] at hlen
      omega
  · rw [List.concat_eq_append] at hw
    rw [show body.drop (trimEnd body).length = w ++ [c] from hw] at hspec
    rcases h with rfl | ⟨u, hu⟩
    · exact absurd blank_nil hb
    · rw [hu, ← List.append_assoc] at hspec
      obtain ⟨-, hc⟩ := List.append_inj' hspec rfl
      exact ⟨w, by rw [hw, hc]⟩

variable {r : OrgRewriter} {f : OrgFile} {id : Text} {g : Heading}

/-- A node body that stays as it is is accepted. -/
theorem setNodeBody_unchanged (hf : r.view = .ok f) (hg : f.findById id = some g) {content : Text}
    (hbody : Blank (f.slice g.body)) (hc : Blank content) :
    ∃ r' f' g', (setNodeBody id content).run r = .ok () r' ∧ r'.view = .ok f' ∧
      f'.findById id = some g' ∧ trim (f'.slice g'.body) = trim content := by
  have hsource : f.source = r.currentText := (readFlat_of_parse hf).1
  have hsame : nodeBodyReplacement (f.slice g.body) content = slice r.currentText g.body := by
    have hnil := (trimEnd_eq_nil_iff content).mpr hc
    have htrim := (trim_eq_nil_iff (f.slice g.body)).mpr hbody
    simp only [nodeBodyReplacement, if_pos htrim, if_pos hnil]
    rw [OrgFile.slice, hsource]
  have hread : trim (f.slice g.body) = trim content := by
    rw [hbody.trim_eq, hc.trim_eq]
  obtain ⟨-, pre, post, hsub, -⟩ := findById_place hf hg
  have hsplit := hsub.split
  rw [flatten_eq, List.append_assoc, List.cons_append] at hsplit
  obtain ⟨t⟩ := exists_bodyPlace hf hsplit
  have htext : replaceRange r.currentText g.body (slice r.currentText g.body) = r.currentText := by
    rw [t.replaced, ← t.text]
  have hview : (r.replaced g.body (nodeBodyReplacement (f.slice g.body) content)).view = .ok f := by
    rw [OrgRewriter.view, currentText_replaced, hsame, htext]
    exact hf
  exact ⟨_, f, g, setNodeBody_of_guards hf hg hview rfl hg hread, hview, hg, hread⟩

/-- **What `body_heading_lines` promises.**  A balanced body for which it lists nothing is written and
reads back, unless the white space around the old body makes a heading line of its last stars.  And
the lines it lists are the heading lines that the parser finds, without the white space at their
ends. -/
theorem setNodeBody_unlisted (hf : r.view = .ok f) (hg : f.findById id = some g) (content : Text) :
    (bodyHeadingLines content = [] → depthAfter 0 (rawLines content) = 0 →
      Blank (f.slice g.body) ∨ ¬MakesHeading (leadingSpace (f.slice g.body) ++ content)
        (trailingSpace (f.slice g.body)) →
      ∃ r' f' g', (setNodeBody id content).run r = .ok () r' ∧ r'.view = .ok f' ∧
        f'.findById id = some g' ∧ trim (f'.slice g'.body) = trim content) ∧
    ∀ front display, Closed front → depthAfter 0 (rawLines front) = 0 →
      bodyHeadingLines content =
        ((Parser.new (front ++ content) display).lines.drop (rawLines front).length).filterMap
          fun l => if (headingLevelAt l).isSome
            then some (l.no + 1 - (rawLines front).length, trimEnd l.text) else none := by
  refine ⟨fun hnone hdepth hplain => ?_, fun front display hfront hbalanced =>
    bodyHeadingLines_eq front content display hfront hbalanced⟩
  rw [bodyHeadingLines_eq_nil_iff] at hnone
  have hsource : f.source = r.currentText := (readFlat_of_parse hf).1
  obtain ⟨hid, -⟩ := findById_place hf hg
  obtain ⟨pre, post, t, haccepted⟩ := setNodeBody_accepted hf hg
  -- a heading with an id has a drawer
  have hdrawer : t.ds ≠ [] := by
    intro hnil
    rw [← HeadingInfo.node_property r.currentText, Node.property, t.drawer hnil] at hid
    cases hid
  have hfits {w w' : Text} (hw : Blank w) (hw' : Blank w')
      (hplain : ¬MakesHeading (w ++ content) w')
      (hclosed : t.bs = [] ∨ Closed (w ++ (trimEnd content ++ w'))) :
      t.Fits (w ++ (trimEnd content ++ w')) ∧ trim (w ++ (trimEnd content ++ w')) = trim content := by
    have htrim : trim (w ++ (trimEnd content ++ w')) = trim content := by
      rw [trim_blank_append hw, trim_append_blank hw', trim_trimEnd]
    refine ⟨⟨noHead_padded hw hw' hplain hnone, hclosed.imp_right fun h => ⟨h, ?_⟩,
      fun hnil => absurd hnil hdrawer⟩, htrim⟩
    rw [← depthAfter_trim, htrim, depthAfter_trim, hdepth]
  have hlineFeeds : Blank ['\n', '\n'] := by decide
  have hnoSpace (u : Text) : ¬MakesHeading u ['\n', '\n'] := fun h => by
    have hhead := h.2
    simp at hhead
  have hended (u : Text) : Closed (u ++ ['\n', '\n']) := .inr ⟨u ++ ['\n'], by simp⟩
  obtain hbody | hbody := em (Blank (f.slice g.body))
  · obtain hc | hc := em (Blank content)
    · exact setNodeBody_unchanged hf hg hbody hc
    have hnew := nodeBodyReplacement_blank hbody hc
    obtain hclosed | hopen := em (Closed t.hdr)
    · obtain ⟨fits, htrim⟩ := hfits (w := ['\n']) (by decide) hlineFeeds (hnoSpace _)
        (.inr (by rw [← List.append_assoc]; exact hended _))
      refine haccepted content _ ?_ fits htrim
      rw [hnew]
      exact t.replaced_closed hclosed _
    · obtain ⟨fits, htrim⟩ := hfits blank_nil hlineFeeds (hnoSpace _) (.inr (hended _))
      refine haccepted content _ ?_ fits htrim
      rw [hnew]
      exact t.replaced_open hopen _
  · obtain ⟨w, hw, hnew, hlead⟩ := nodeBodyReplacement_inked hbody content
    obtain ⟨htrail, -⟩ := drop_trimEnd (f.slice g.body)
    have hheader : Closed t.hdr := by
      rcases t.ended with ⟨hclosed, -⟩ | ⟨-, hnil, -⟩
      · exact hclosed
      · refine absurd ?_ hbody
        rw [OrgFile.slice, hsource, hnil]
        exact blank_nil
    have hmake : ¬MakesHeading (w ++ content) (trailingSpace (f.slice g.body)) := by
      rintro ⟨⟨n, hpos, hstars⟩, hspace⟩
      obtain hc | hc := em (Blank content)
      · have hall : Blank (w ++ content) := (blank_append _ _).mpr ⟨hw, hc⟩
        rw [(trimEnd_eq_nil_iff _).mpr hall] at hstars
        cases hstars
      · rw [hlead hc] at hstars
        exact hplain.elim hbody fun h => h ⟨⟨n, hpos, hstars⟩, hspace⟩
    have hclosed : t.bs = [] ∨ Closed (w ++ (trimEnd content ++ trailingSpace (f.slice g.body))) := by
      obtain hnil | hne := em (t.bs = [])
      · exact .inl hnil
      · have hold := t.bodyClosed hne
        rw [← hsource, ← OrgFile.slice] at hold
        obtain ⟨x, hx⟩ := trailingSpace_closed hold hbody
        exact .inr (.inr ⟨w ++ (trimEnd content ++ x), by rw [hx]; simp⟩)
    obtain ⟨fits, htrim⟩ := hfits hw htrail hmake hclosed
    refine haccepted content _ ?_ fits htrim
    rw [hnew]
    exact t.replaced_closed hheader _

/-- A block whose line looks like a heading, put in front of a heading. -/
theorem setNodeBody_unlisted_sample : ∃ f g r' f' g',
    OrgFile.parse "* A\n:PROPERTIES:\n:ID: a\n:END:\n\nold \n** T\n".toList [] = .ok f ∧
      f.findById "a".toList = some g ∧
      (setNodeBody "a".toList "#+begin_src\n* x\n#+end_src".toList).run (new f []) = .ok () r' ∧
      r'.view = .ok f' ∧ f'.findById "a".toList = some g' ∧
      trim (f'.slice g'.body) = "#+begin_src\n* x\n#+end_src".toList := by
  obtain ⟨f, g, hf, hg, passed⟩ := testHeading_spec
    (fun f g => decide ((rawLines (trimEnd (leadingSpace (f.slice g.body) ++
      "#+begin_src\n* x\n#+end_src".toList))).getLast? = some "#+end_src".toList))
    "* A\n:PROPERTIES:\n:ID: a\n:END:\n\nold \n** T\n".toList "a".toList (by decide +kernel)
  have hview : (new f []).view = .ok f := by
    rw [OrgRewriter.view, currentText_new, (readFlat_of_parse hf).1]
    exact hf
  obtain ⟨r', f', g', hrun, hview', hg', hread⟩ :=
    (setNodeBody_unlisted hview hg "#+begin_src\n* x\n#+end_src".toList).1 (by decide +kernel)
      (by decide +kernel) (.inr (by
        rintro ⟨⟨n, hpos, hstars⟩, -⟩
        rw [of_decide_eq_true passed, Option.some.injEq] at hstars
        obtain ⟨k, rfl⟩ := Nat.exists_eq_succ_of_ne_zero hpos.ne'
        rw [List.replicate_succ] at hstars
        cases hstars))
  exact ⟨f, g, r', f', g', hf, hg, hrun, hview', hg', hread.trans (by decide +kernel)⟩

/-- A body of one star becomes a heading line with the space behind the old body, and a listed line
lacks the space at its end. -/
theorem setNodeBody_unlisted_fails :
    (∃ f g, OrgFile.parse "* A\n:PROPERTIES:\n:ID: a\n:END:\ntext \n".toList [] = .ok f ∧
      f.findById "a".toList = some g ∧ bodyHeadingLines "*".toList = [] ∧
      depthAfter 0 (rawLines "*".toList) = 0 ∧
      ∃ e r', (setNodeBody "a".toList "*".toList).run (new f []) = .error e r') ∧
    bodyHeadingLines "* a ".toList ≠ (Parser.new "* a ".toList []).lines.filterMap fun l =>
      if (headingLevelAt l).isSome then some (l.no + 1, l.text) else none := by
  refine ⟨?_, by decide +kernel⟩
  obtain ⟨f, g, hf, hg, hfailed⟩ := testHeading_spec
    (fun f _ => failed (setNodeBody "a".toList "*".toList) (new f []))
    "* A\n:PROPERTIES:\n:ID: a\n:END:\ntext \n".toList "a".toList (by decide +kernel)
  exact ⟨f, g, hf, hg, by decide +kernel, by decide +kernel, exists_of_failed hfailed⟩

end OrgRewriter

end Orgasmic
