import Orgasmic.OrgSplice

/-! # Trimming the end of a chunk

What is read from lines does not depend on white space at their ends.

* **Blocks.** `lineDepth_congr`: block lines are told by their first ink, so the depth after a
  text is the depth after the trimmed text (`depthAfter_trim`).
* **Chunks.** `trimmed_chunk`: the text of a chunk, trimmed and ended with a line feed, is a chunk
  with the same node; unless there is nothing but stars in it (`bareLine`). -/

namespace Orgasmic

open Text

/-! ### Blocks -/

theorem isPrefixOf_append_right {p w : Text} (h : ∀ c ∈ w, c ∉ p) (a : Text) :
    p.isPrefixOf (a ++ w) = p.isPrefixOf a := by
  induction p generalizing a with
  | nil => simp
  | cons x p ih =>
      have hp : ∀ c ∈ w, c ∉ p := fun c hc hm => h c hc (List.mem_cons_of_mem _ hm)
      cases a with
      | nil =>
          cases w with
          | nil => rfl
          | cons y w =>
              have hxy : (x == y) = false := by
                rw [beq_eq_false_iff_ne]
                rintro rfl
                exact h x List.mem_cons_self List.mem_cons_self
              simp [List.isPrefixOf, hxy]
      | cons b a => simp [List.isPrefixOf, ih hp a]

theorem toLower_of_ws {c : Char} (h : isWhitespace c = true) : c.toLower = c := by
  unfold Char.toLower
  split
  · next hc =>
      exfalso
      simp only [isWhitespace, Char.toNat, Bool.or_eq_true, Bool.and_eq_true, decide_eq_true_eq,
        beq_iff_eq] at h
      have h1 : 65 ≤ c.val.toNat := hc.1
      have h2 : c.val.toNat ≤ 90 := hc.2
      omega
  · rfl

/-- A word is at the front of a text or of the trimmed text. -/
theorem isPrefixOf_lower_trim {p : Text} (hp : ∀ c ∈ p, isWhitespace c = false) (t : Text) :
    p.isPrefixOf (toAsciiLowercase (trimStart t)) = p.isPrefixOf (toAsciiLowercase (trim t)) := by
  obtain ⟨w, hw, h⟩ := trimEnd_spec (trimStart t)
  have hw' : w.map Char.toLower = w := by
    conv_rhs => rw [← List.map_id w]
    exact List.map_congr_left fun c hc => toLower_of_ws (hw c hc)
  have hlower : toAsciiLowercase (trimStart t) = toAsciiLowercase (trim t) ++ w := by
    rw [h, toAsciiLowercase, List.map_append, hw', trim, toAsciiLowercase]
  rw [hlower, isPrefixOf_append_right]
  intro c hc hm
  have := hw c hc
  rw [hp c hm] at this
  cases this

theorem inked {p : Text} (h : (p.all fun c => !isWhitespace c) = true) :
    ∀ c ∈ p, isWhitespace c = false := by
  intro c hc
  rw [← Bool.not_eq_true']
  exact List.all_eq_true.mp h c hc

theorem lineDepth_congr {r s : Text} (h : trim r = trim s) (d : ℕ) : lineDepth d r = lineDepth d s := by
  have hb : ∀ t, startsBlock t = "#+begin_".toList.isPrefixOf (toAsciiLowercase (trim t)) :=
    fun t => isPrefixOf_lower_trim (inked (by decide)) t
  have he : ∀ t, endsBlock t = "#+end_".toList.isPrefixOf (toAsciiLowercase (trim t)) :=
    fun t => isPrefixOf_lower_trim (inked (by decide)) t
  simp only [lineDepth, blockDepth, hb, he, trim_content, h]

theorem lineDepth_blank {r : Text} (h : Blank r) (d : ℕ) : lineDepth d r = d := by
  have hc : Blank (content r) := by
    rw [← ink_eq_zero_iff, ink_content, ink_eq_zero_iff]
    exact h
  exact blockDepth_of_not_block (not_block_of_blank hc) d

theorem depthAfter_blank {rs : List Text} (h : ∀ r ∈ rs, Blank r) (d : ℕ) : depthAfter d rs = d := by
  induction rs generalizing d with
  | nil => rfl
  | cons r rs ih =>
      show depthAfter (lineDepth d r) rs = d
      rw [lineDepth_blank (h r List.mem_cons_self), ih fun m hm => h m (List.mem_cons_of_mem _ hm)]

theorem noHead_blank {rs : List Text} (h : ∀ r ∈ rs, Blank r) (d : ℕ) : NoHead d rs := by
  induction rs generalizing d with
  | nil => trivial
  | cons r rs ih =>
      refine ⟨isHead_eq_false_of_none ?_ d, ih (fun m hm => h m (List.mem_cons_of_mem _ hm)) _⟩
      rw [Option.eq_none_iff_forall_ne_some]
      intro n hn
      obtain ⟨u, hu, -⟩ := trimStart_heading hn
      have hink := ink_content r
      rw [hu, ink_cons_of_not_ws (by decide), (h r List.mem_cons_self).ink_eq] at hink
      omega

theorem depthAfter_append (d : ℕ) (as bs : List Text) :
    depthAfter d (as ++ bs) = depthAfter (depthAfter d as) bs := Segment.run_append lineDepth d as bs

theorem depthAfter_cons (d : ℕ) (r : Text) (rs : List Text) :
    depthAfter d (r :: rs) = depthAfter (lineDepth d r) rs := rfl

/-- White space at the end leaves the depth as it is. -/
theorem depthAfter_trimEnd (d : ℕ) (t : Text) :
    depthAfter d (rawLines (trimEnd t)) = depthAfter d (rawLines t) := by
  by_cases h : Blank t
  · have hb : ∀ r ∈ rawLines t, Blank r := by
      rw [← blank_flatten, rawLines_flatten]
      exact h
    rw [(trimEnd_eq_nil_iff t).mpr h, depthAfter_blank hb]
    rfl
  · obtain ⟨as, l, bs, hraw, hl, hbs, -, hlines⟩ := rawLines_trimEnd h
    have hnl : '\n' ∉ trimEnd l := no_newline_trimEnd (t := t) (by rw [hraw]; simp)
    have hlast := hlines []
    rw [List.append_nil, List.append_nil,
      rawLines_of_no_newline hnl (mt (trimEnd_eq_nil_iff l).mp hl)] at hlast
    rw [hlast, hraw, depthAfter_append, depthAfter_append, depthAfter_cons, depthAfter_cons,
      depthAfter_blank hbs, lineDepth_congr (trim_trimEnd l)]
    rfl

/-- White space in front leaves the depth as it is. -/
theorem depthAfter_blank_append {w : Text} (hw : Blank w) (d : ℕ) (t : Text) :
    depthAfter d (rawLines (w ++ t)) = depthAfter d (rawLines t) := by
  obtain ⟨a, b, rfl, ha, hb⟩ := exists_last_line w
  obtain ⟨hwa, hwb⟩ := (blank_append a b).mp hw
  have hba : ∀ r ∈ rawLines a, Blank r := by
    rw [← blank_flatten, rawLines_flatten]
    exact hwa
  rw [List.append_assoc, rawLines_append ha, depthAfter_append, depthAfter_blank hba]
  cases ht : rawLines t with
  | nil =>
      rw [rawLines_eq_nil_iff] at ht
      subst ht
      have hbb : ∀ r ∈ rawLines b, Blank r := by
        rw [← blank_flatten, rawLines_flatten]
        exact hwb
      rw [List.append_nil, depthAfter_blank hbb]
      rfl
  | cons l ls =>
      rw [rawLines_glue hb ht]
      show depthAfter (lineDepth d (b ++ l)) ls = depthAfter (lineDepth d l) ls
      rw [lineDepth_congr (trim_blank_append hwb l)]

/-- **The depth after a text is the depth after the trimmed text.** -/
theorem depthAfter_trim (d : ℕ) (t : Text) :
    depthAfter d (rawLines (trim t)) = depthAfter d (rawLines t) := by
  obtain ⟨w, hw, h⟩ := trimStart_spec t
  rw [trim, depthAfter_trimEnd]
  conv_rhs => rw [h, depthAfter_blank_append hw]

/-! ### Chunks -/

/-- A line that is no heading line is none without the white space at its end. -/
theorem isHead_trimmed {d : ℕ} {r : Text} (h : isHead d r = false) :
    isHead d (trimEnd r ++ ['\n']) = false := by
  rw [Bool.eq_false_iff] at h ⊢
  intro h'
  obtain ⟨rfl, -, -⟩ := isHead_zero h'
  obtain ⟨n, rest, hn, e⟩ := (isHead_zero_iff_stars _).mp h'
  refine h ((isHead_zero_iff_stars r).mpr ?_)
  obtain ⟨w, -, hw⟩ := trimEnd_spec r
  -- the line feed is the end of the rest
  rcases List.eq_nil_or_concat rest with rfl | ⟨rest, c, rfl⟩
  · have := congrArg List.getLast? e
    simp [stars] at this
  · have e' : trimEnd r ++ ['\n'] = stars n rest ++ [c] := by rw [e]; simp [stars]
    obtain ⟨e', -⟩ := List.append_inj' e' rfl
    exact ⟨n, rest ++ w, hn, by rw [hw, e']; simp [stars]⟩

theorem readPairs_of_no_drawer {rs : List Text}
    (h : ∀ r ∈ rs.head?, trim r ≠ ":PROPERTIES:".toList) : readPairs rs = some ([], rs) := by
  cases rs with
  | nil => rfl
  | cons r rs =>
      have hr := h r rfl
      rw [← trim_content] at hr
      simp only [readPairs, readProperties, if_neg hr, Option.map_some, drawerPairs]

/-- The lines below a title line, with the last ink at the end. -/
theorem readPairs_trimmed {as bs body : List Text} {l : Text} {ps : List (Text × Text)}
    (hl : ¬ Blank l) (hbs : ∀ m ∈ bs, Blank m) (h : readPairs (as ++ l :: bs) = some (ps, body)) :
    ∃ body', readPairs (as ++ [trimEnd l ++ ['\n']]) = some (ps, body') ∧
      trimEnd body'.flatten = trimEnd body.flatten := by
  have htrim : trim (trimEnd l ++ ['\n']) = trim l := by
    rw [trim_append_blank (by decide), trim_trimEnd]
  have hflat : ∀ ms : List Text, trimEnd (ms ++ [trimEnd l ++ ['\n']]).flatten =
      trimEnd (ms ++ l :: bs).flatten := by
    intro ms
    have e : (ms ++ [trimEnd l ++ ['\n']]).flatten = ms.flatten ++ trimEnd l ++ ['\n'] := by simp
    have hl' : ¬ Blank (trimEnd l) := by
      rw [← ink_eq_zero_iff, ink_trimEnd, ink_eq_zero_iff]
      exact hl
    rw [e, trimEnd_append_blank (by decide), trimEnd_append hl', trimEnd_trimEnd,
      List.flatten_append, List.flatten_cons, ← List.append_assoc,
      trimEnd_append_blank (blank_flatten.mpr hbs), trimEnd_append hl]
  rcases readPairs_shape h with ⟨rfl, rfl, hfirst⟩ | ⟨ds, e, hsplit, -, hend, -, hsame, -⟩
  · refine ⟨_, ?_, hflat as⟩
    have hnot : ∀ r ∈ (as ++ [trimEnd l ++ ['\n']]).head?, trim r ≠ ":PROPERTIES:".toList := by
      cases as with
      | nil =>
          intro r hr
          obtain rfl : trimEnd l ++ ['\n'] = r := by simpa using hr
          rw [htrim]
          exact hfirst l rfl
      | cons a as => exact hfirst
    exact readPairs_of_no_drawer hnot
  · rcases List.append_eq_append_iff.mp hsplit with ⟨ms, rfl, hms⟩ | ⟨ms, rfl, hms⟩
    · -- the drawer ends at `l` or below it
      cases ms with
      | nil =>
          obtain ⟨rfl, rfl⟩ := List.cons.inj hms
          refine ⟨[], ?_, ?_⟩
          · rw [List.append_nil] at hsame
            exact hsame _ [] (htrim.trans hend)
          · rw [(trimEnd_eq_nil_iff _).mpr (blank_flatten.mpr hbs)]
            rfl
      | cons m ms =>
          obtain ⟨rfl, rfl⟩ := List.cons.inj hms
          have hb := hbs e (by simp)
          rw [hb.trim_eq] at hend
          cases hend
    · cases ms with
      | nil =>
          obtain ⟨rfl, rfl⟩ := List.cons.inj hms
          refine ⟨[], ?_, ?_⟩
          · rw [List.append_nil]
            exact hsame _ [] (htrim.trans hend)
          · rw [(trimEnd_eq_nil_iff _).mpr (blank_flatten.mpr hbs)]
            rfl
      | cons m ms =>
          obtain ⟨rfl, rfl⟩ := List.cons.inj hms
          refine ⟨ms ++ [trimEnd l ++ ['\n']], ?_, hflat ms⟩
          rw [List.append_assoc, List.cons_append]
          exact hsame e _ hend

/-- **A chunk without the white space at its end** is a chunk with the same node, unless it has no
ink but its stars. -/
theorem trimmed_chunk {declared : List Text} (hd : [] ∉ declared) {z : Text} {c : Chunk}
    {bs : List Chunk} (h : chunksOf (c.text ++ z) = ([], c :: bs)) {n : Node}
    (hn : c.node declared = some n) (hbare : trimEnd c.text ≠ List.replicate n.level '*') :
    ∃ c' : Chunk, rawLines (trimEnd c.text ++ ['\n']) = c'.lines ∧ isHead 0 c'.1 = true ∧
      NoHead 0 c'.2 ∧ depthAfter 0 c'.2 = depthAfter 0 c.2 ∧ c'.node declared = some n := by
  obtain ⟨hraw, -, hc⟩ := (chunksOf_eq_iff _ _ _).mp h
  obtain ⟨-, hhead, hno, -⟩ := (chunks_cons_iff _ _ _).mp hc
  have hrawc : rawLines c.text = c.lines := by
    rw [List.nil_append, Segment.join_cons, ← List.cons_append] at hraw
    exact (rawLines_front hraw).1
  obtain ⟨level, parsed, ps, body, hlevel, hp, hr, rfl⟩ := Chunk.node_eq_some_iff.mp hn
  obtain ⟨m, rest, hm, htitle⟩ := (isHead_zero_iff_stars c.1).mp hhead
  have hmlevel : m = level := by
    rw [htitle, content_stars, headingLevel_stars hm, Option.some.injEq] at hlevel
    exact hlevel
  subst hmlevel
  have hb : ¬ Blank c.text := by
    rw [Chunk.text, Chunk.lines, List.flatten_cons, blank_append, htitle, ← ink_eq_zero_iff, stars,
      ink_append, ink_replicate_star]
    omega
  obtain ⟨as, l, ms, hsplit, hl, hms, hlines⟩ := rawLines_trimEnd_newline hb
  rw [hrawc] at hsplit
  cases as with
  | nil =>
      -- all ink is in the title line
      obtain ⟨rfl, hc2⟩ := List.cons.inj hsplit
      have hblank2 : Blank c.2.flatten := by
        rw [hc2]
        exact blank_flatten.mpr hms
      have hrest : ¬ Blank rest := by
        intro hrest
        refine hbare ?_
        rw [Chunk.text, Chunk.lines, List.flatten_cons, trimEnd_append_blank hblank2, htitle]
        exact trimEnd_stars_blank hrest
      have htrim : trimEnd c.1 ++ ['\n'] = stars m (trimEnd rest ++ ['\n']) := by
        rw [htitle, trimEnd_stars m hrest]
        simp [stars]
      refine ⟨(trimEnd c.1 ++ ['\n'], []), hlines, ?_, trivial, ?_, ?_⟩
      · rw [htrim]
        exact isHead_stars hm _
      · rw [depthAfter_blank (blank_flatten.mp hblank2)]
        rfl
      · have hfirst : ∀ r ∈ c.2.head?, trim r ≠ ":PROPERTIES:".toList := by
          intro r hr
          rw [(blank_flatten.mp hblank2 r (List.mem_of_mem_head? hr)).trim_eq]
          decide
        rw [readPairs_of_no_drawer hfirst, Option.some.injEq, Prod.mk.injEq] at hr
        have hlevel' : headingLevel (content (trimEnd c.1 ++ ['\n'])) = some m := by
          rw [htrim, content_stars, headingLevel_stars hm]
        have htrims : trimEnd (trimEnd c.1 ++ ['\n']) = trimEnd c.1 := by
          rw [trimEnd_append_blank (by decide), trimEnd_trimEnd]
        obtain ⟨-, e⟩ := parseHeadingLine_congr htrims hlevel' hlevel hd
        refine Chunk.node_eq_some_iff.mpr ⟨m, parsed, [], [], hlevel', e.trans hp, rfl, ?_⟩
        rw [← hr.1, ← hr.2, (trimEnd_eq_nil_iff _).mpr hblank2]
        rfl
  | cons a as =>
      obtain ⟨rfl, hrest⟩ := List.cons.inj hsplit
      have hc2 : c.2 = as ++ l :: ms := hrest
      rw [hc2] at hno hr
      obtain ⟨hnoas, hnol, -⟩ := (Segment.noHead_append lineDepth isHead 0 as (l :: ms)).mp hno
      obtain ⟨body', hr', hbody⟩ := readPairs_trimmed hl hms hr
      refine ⟨(c.1, as ++ [trimEnd l ++ ['\n']]), hlines, hhead, ?_, ?_, ?_⟩
      · exact (Segment.noHead_append lineDepth isHead 0 as _).mpr ⟨hnoas, isHead_trimmed hnol, trivial⟩
      · have htrim : trim (trimEnd l ++ ['\n']) = trim l := by
          rw [trim_append_blank (by decide), trim_trimEnd]
        rw [hc2, depthAfter_append, depthAfter_append, depthAfter_cons, depthAfter_cons,
          depthAfter_blank hms, lineDepth_congr htrim]
        rfl
      · exact Chunk.node_eq_some_iff.mpr ⟨m, parsed, ps, body', hlevel, hp, hr', by rw [hbody]⟩

end Orgasmic
