import Orgasmic.OrgRetitle
import Orgasmic.OrgTrim

/-! # An appended section

`appendSection` writes a header line and a body after the last ink of a subtree.

* **Where.** `subtree_cut`: this is after the last ink of the last chunk of the subtree.
* **How many.** `header_count`: with the header alone there is one more heading than before, unless
  the subtree ends inside a block or with a heading line of bare stars.
* **The edit.** `GuardedEdit.run_done_iff`: an edit that passed its guards has done what it was
  asked for exactly if it is safe. -/

namespace Orgasmic

open Text

/-! ### The end of a subtree -/

theorem title_no_newline {source display : Text} {f : OrgFile}
    (h : OrgFile.parse source display = .ok f) : ∀ i ∈ f.infos, '\n' ∉ i.title := by
  intro i hi hnl
  obtain ⟨pre, post, hsplit⟩ := List.append_of_mem hi
  obtain ⟨P, as, c, bs, hc, -, hread, -⟩ := exists_chunk h hsplit
  have hnode := readHeading_node (Segment.join bs).flatten hread
  obtain ⟨u, -, -, hu, hp, -⟩ := Chunk.node_stars f.declared_ne_nil hnode
  have hmem : c.1 ∈ rawLines source := by
    rw [((chunksOf_eq_iff _ _ _).mp hc).1]
    simp
  refine no_newline_content hmem ?_
  have hnl : '\n' ∈ (parseHeadingRest u f.declared).title := by
    rw [hp]
    exact hnl
  have := mem_of_mem_title hnl
  rw [hu]
  simp [stars, this]

theorem frontText_length (P : List Text) (as bs : List Chunk) :
    (frontText P (as ++ bs)).length =
      (frontText P as).length + (Segment.join bs).flatten.length := by
  simp [frontText, Nat.add_assoc]

/-- The last chunk of a subtree, the chunks before and after it, and the text of the subtree. -/
theorem subtree_cut {source display : Text} {f : OrgFile}
    (h : OrgFile.parse source display = .ok f) {pre post : List HeadingInfo} {g : Heading}
    (hsub : Subtree f.infos pre post source.length g) :
    ∃ P as as' c bs init j, g.flatten = init ++ [j] ∧ chunksOf source = (P, as ++ as' ++ c :: bs) ∧
      (as ++ as').map (Chunk.node f.declared) = (pre ++ init).map (fun i => some (i.node source)) ∧
      readHeading f.declared (frontText P (as ++ as')).length c = some j ∧
      bs.map (Chunk.node f.declared) = post.map (fun i => some (i.node source)) ∧
      g.span.start = (frontText P as).length ∧ Front P as ∧
      Text.slice source g.span = (Segment.join as').flatten ++ c.text := by
  obtain ⟨init, j, hj⟩ : ∃ init j, g.flatten = init ++ [j] :=
    ⟨_, _, (List.dropLast_append_getLast (by rw [flatten_eq]; simp)).symm⟩
  have hsplit : f.infos = (pre ++ init) ++ j :: post := by
    rw [hsub.split, hj]
    simp
  obtain ⟨P, cs, c, bs, hc, hcs, hread, hbs⟩ := exists_chunk h hsplit
  rw [List.map_append] at hcs
  obtain ⟨as, as', rfl, has, has'⟩ := List.map_eq_append_iff.mp hcs
  -- the chunk of `g` itself
  have hsplit' := hsub.split
  rw [flatten_eq, List.append_assoc, List.cons_append] at hsplit'
  obtain ⟨P', cs', c', bs', hc', hcs', hread', -⟩ := exists_chunk h hsplit'
  have hfront := front_of_chunksOf hc'
  have hlen : cs'.length = as.length := by
    have h1 := congrArg List.length has
    have h2 := congrArg List.length hcs'
    simp only [List.length_map] at h1 h2
    omega
  rw [hc, Prod.mk.injEq, List.append_assoc] at hc'
  obtain ⟨rfl, hcs''⟩ := hc'
  obtain ⟨rfl, -⟩ := List.append_inj hcs'' hlen.symm
  have hstart : g.span.start = (frontText P as).length := by
    obtain ⟨-, h1, h2, -⟩ := (laid_iff g).mp hsub.laid
    rw [h2, readHeading_titleLine hread']
  have hstop : g.span.stop = (frontText P as).length +
      ((Segment.join as').flatten ++ c.text).length := by
    have hc1 : chunksOf source = (P, (as ++ as' ++ [c]) ++ bs) := by simpa using hc
    have hlen1 : (frontText P (as ++ as' ++ [c])).length = (frontText P as).length +
        ((Segment.join as').flatten ++ c.text).length := by
      rw [List.append_assoc, frontText_length]
      simp [Chunk.text, Chunk.lines]
    rw [← hlen1]
    cases post with
    | nil =>
        rw [hsub.last rfl]
        obtain rfl : bs = [] := List.map_eq_nil_iff.mp hbs
        rw [List.append_nil] at hc1
        rw [frontText, List.flatten_append, flatten_of_chunksOf hc1]
    | cons p post =>
        have hsplit₂ : f.infos = (pre ++ g.flatten) ++ p :: post := by rw [hsub.split]
        obtain ⟨P₂, as₂, c₂, bs₂, hc₂, has₂, hread₂, -⟩ := exists_chunk h hsplit₂
        have hlen₂ : as₂.length = (as ++ as' ++ [c]).length := by
          have h1 := congrArg List.length has₂
          have h2 := congrArg List.length hcs
          rw [hj] at h1
          simp only [List.length_map, List.length_append, List.length_singleton] at h1 h2 ⊢
          omega
        rw [hc1, Prod.mk.injEq] at hc₂
        obtain ⟨rfl, hcs₂⟩ := hc₂
        obtain ⟨rfl, -⟩ := List.append_inj hcs₂ hlen₂.symm
        rw [← (hsub.next p rfl).2, readHeading_titleLine hread₂]
  refine ⟨P, as, as', c, bs, init, j, hj, hc, by rw [hcs, List.map_append], hread, hbs, hstart,
    hfront, ?_⟩
  have e : source = frontText P as ++ ((Segment.join as').flatten ++ c.text) ++
      (Segment.join bs).flatten := by
    rw [text_of_chunksOf hc, frontText, frontText]
    simp
  rw [show g.span = ⟨g.span.start, g.span.stop⟩ from rfl, hstart, hstop, e]
  exact slice_append_three _ _ _

/-! ### The header -/

theorem not_blank_chunk {t : Text} {P : List Text} {as bs : List Chunk} {c : Chunk}
    (h : chunksOf t = (P, as ++ c :: bs)) : ¬ Blank c.text := by
  obtain ⟨n, rest, hn, ht⟩ := (isHead_zero_iff_stars c.1).mp
    ((chunks_cons_iff _ _ _).mp ((chunksOf_eq_iff _ _ _).mp (chunksOf_tail h)).2.2).2.1
  rw [Chunk.text, Chunk.lines, List.flatten_cons, blank_append, ht, ← ink_eq_zero_iff, stars,
    ink_append, ink_replicate_star]
  omega

/-- The white space at the end of a chunk; a heading after it starts on a new line. -/
theorem tail_spec {source : Text} {P : List Text} {as bs : List Chunk} {c : Chunk}
    (h : chunksOf source = (P, as ++ c :: bs)) :
    ∃ w, Blank w ∧ c.text = trimEnd c.text ++ w ∧ (bs = [] ∨ w ≠ [] ∧ Closed w) := by
  obtain ⟨w, hw, e⟩ := trimEnd_spec c.text
  refine ⟨w, hw, e, ?_⟩
  by_cases hbs : bs = []
  · exact .inl hbs
  · right
    obtain ⟨hraw, -, -⟩ := (chunksOf_eq_iff _ _ _).mp (chunksOf_tail h)
    rw [List.nil_append, Segment.join_cons, ← List.cons_append] at hraw
    have hclosed : Closed c.text :=
      closed_flatten (rawLines_split hraw (mt (Segment.join_eq_nil_iff bs).mp hbs))
    have hne : w ≠ [] := by
      rintro rfl
      rw [List.append_nil] at e
      rcases hclosed with h0 | ⟨u, hu⟩
      · exact not_blank_chunk h (h0 ▸ blank_nil)
      · have hlen := congrArg List.length e
        have hle := (List.rdropWhile_prefix isWhitespace (l := u)).length_le
        rw [hu, trimEnd_append_blank (by decide), List.length_append] at hlen
        unfold trimEnd at hlen
        simp only [List.length_singleton] at hlen
        omega
    exact ⟨hne, Closed.of_append (e ▸ hclosed) hne⟩

/-- A header line, white space and the headings after it. -/
theorem header_lines {n : ℕ} {title w z : Text} {bs : List Chunk} (hnl : '\n' ∉ title)
    (hw : Blank w) (hz : chunksOf z = ([], bs)) (hwz : bs = [] ∨ w ≠ [] ∧ Closed w) :
    ∃ v ls, Blank v ∧ (∀ l ∈ ls, Blank l) ∧
      rawLines (stars n title ++ (w ++ z)) = stars n (title ++ v) :: (ls ++ Segment.join bs) := by
  have hzraw := ((chunksOf_eq_iff _ _ _).mp hz).1
  have hznil : bs = [] → z = [] := by
    rintro rfl
    exact (rawLines_eq_nil_iff z).mp hzraw
  by_cases hwnl : '\n' ∈ w
  · obtain ⟨b, w₂, rfl, hb⟩ := List.eq_append_cons_of_mem hwnl
    obtain ⟨hbb, hb2⟩ := (blank_append _ _).mp hw
    have hb2 : Blank w₂ := ((blank_cons _ _).mp hb2).2
    have hline : '\n' ∉ stars n (title ++ b) := by simp [stars, hnl, hb]
    refine ⟨b ++ ['\n'], rawLines w₂, (blank_append _ _).mpr ⟨hbb, by decide⟩, ?_, ?_⟩
    · rw [← blank_flatten, rawLines_flatten]
      exact hb2
    · have e : stars n title ++ (b ++ '\n' :: w₂ ++ z) =
          stars n (title ++ b) ++ '\n' :: (w₂ ++ z) := by simp [stars]
      rw [e, rawLines_line_append hline]
      have hlines : rawLines (w₂ ++ z) = rawLines w₂ ++ Segment.join bs := by
        rcases hwz with rfl | ⟨-, hclosed⟩
        · rw [hznil rfl]
          simp
        · have hclosed₂ : Closed w₂ := by
            by_cases h0 : w₂ = []
            · exact .inl h0
            · have e' : b ++ '\n' :: w₂ = (b ++ ['\n']) ++ w₂ := by simp
              exact Closed.of_append (e' ▸ hclosed) h0
          rw [rawLines_append hclosed₂, hzraw]
          rfl
      rw [hlines]
      simp [stars]
  · have hbs : bs = [] := by
      rcases hwz with h | ⟨hne, h | ⟨u, rfl⟩⟩
      · exact h
      · exact absurd h hne
      · simp at hwnl
    subst hbs
    refine ⟨w, [], hw, by simp, ?_⟩
    have hline : '\n' ∉ stars n (title ++ w) := by simp [stars, hnl, hwnl]
    rw [hznil rfl, List.append_nil]
    have e : stars n title ++ w = stars n (title ++ w) := by simp [stars]
    rw [e, rawLines_of_no_newline hline (by simp [stars])]
    rfl

theorem chunksOf_header {n : ℕ} (hn : 0 < n) {title w z : Text} {bs : List Chunk}
    (hnl : '\n' ∉ title) (hw : Blank w) (hz : chunksOf z = ([], bs))
    (hwz : bs = [] ∨ w ≠ [] ∧ Closed w) :
    ∃ v ls, Blank v ∧ (∀ l ∈ ls, Blank l) ∧
      chunksOf (stars n title ++ (w ++ z)) = ([], (stars n (title ++ v), ls) :: bs) := by
  obtain ⟨v, ls, hv, hls, hraw⟩ := header_lines (n := n) hnl hw hz hwz
  obtain ⟨-, -, hc⟩ := (chunksOf_eq_iff _ _ _).mp hz
  refine ⟨v, ls, hv, hls, (chunksOf_eq_iff _ _ _).mpr ⟨by rw [hraw]; simp, trivial, ?_⟩⟩
  refine (chunks_cons_iff _ _ _).mpr ⟨rfl, isHead_stars hn _, noHead_blank hls 0, ?_⟩
  rw [depthAfter_blank hls]
  exact hc

/-- Inside a block there are no headings. -/
theorem headCount_header_block {n d : ℕ} (hd : 0 < d) {title w : Text} (hnl : '\n' ∉ title)
    (hw : Blank w) : headCount d (stars n title ++ w) = 0 := by
  obtain ⟨v, ls, hv, hls, hraw⟩ :=
    header_lines (n := n) (z := []) hnl hw (rfl : chunksOf [] = ([], [])) (.inl rfl)
  rw [List.append_nil] at hraw
  rw [headCount, hraw, Segment.heads_eq_zero_iff]
  refine ⟨?_, ?_⟩
  · rw [Bool.eq_false_iff]
    intro h
    have := (isHead_zero h).1
    omega
  · simpa using noHead_blank hls _

/-- A chunk more in front. -/
theorem Front.concat {P : List Text} {as : List Chunk} (h : Front P as) {u : Text} {c : Chunk}
    (hu : Closed u) (hraw : Text.rawLines u = c.lines) (hhead : isHead 0 c.1 = true)
    (hno : NoHead 0 c.2) (hdepth : depthAfter 0 c.2 = 0) :
    Front P (as ++ [c]) ∧ frontText P (as ++ [c]) = frontText P as ++ u := by
  have hjoin : Segment.join (as ++ [c]) = Segment.join as ++ c.lines := by simp [Chunk.lines]
  have hd := h.depth
  have hc : Chunks 0 [c] := (chunks_cons_iff _ _ _).mpr ⟨rfl, hhead, hno, trivial⟩
  refine ⟨⟨?_, h.noHead, ?_, ?_⟩, ?_⟩
  · rw [hjoin, ← List.append_assoc, ← hraw]
    intro l hl
    rcases List.mem_append.mp hl with hl | hl
    · exact h.terminated l hl
    · exact terminated_of_closed hu l hl
  · rw [Chunks, Segment.chunks_append]
    rw [depthAfter, Segment.run_append] at hd
    rw [hd]
    exact ⟨h.chunks, hc⟩
  · rw [hjoin, ← List.append_assoc, depthAfter_append, hd, Chunk.lines, depthAfter_cons,
      (isHead_zero hhead).2.1, hdepth]
  · rw [frontText, hjoin, ← List.append_assoc, List.flatten_append, ← hraw, rawLines_flatten]
    rfl

section
variable {source : Text} {P : List Text} {as bs : List Chunk} {c : Chunk}
  (h : chunksOf source = (P, as ++ c :: bs)) {n : ℕ} (hn : 0 < n) {title w : Text}
  (hnl : '\n' ∉ title) (hw : Blank w) (hwz : bs = [] ∨ w ≠ [] ∧ Closed w)
include h hn hnl hw hwz

/-- A heading line of bare stars is no heading line once it is trimmed. -/
theorem count_bare {m : ℕ} (hm : 0 < m) (hbare : trimEnd c.text = List.replicate m '*') :
    headCount 0 (frontText P as ++ ((trimEnd c.text ++ ['\n']) ++
      (stars n title ++ (w ++ (Segment.join bs).flatten)))) = (as ++ c :: bs).length := by
  have hz := chunksOf_after h
  obtain ⟨v, ls, -, -, hx⟩ := chunksOf_header hn hnl hw hz hwz
  obtain ⟨hhead, hdepth⟩ := bareLine hm (.inr (.inl rfl))
  have hraw : rawLines (List.replicate m '*' ++ ['\n']) = [List.replicate m '*' ++ ['\n']] :=
    rawLines_line_append (by simp) []
  have hcount : headCount 0 (List.replicate m '*' ++ ['\n']) = 0 := by
    rw [headCount, hraw, Segment.heads_eq_zero_iff]
    exact ⟨hhead, trivial⟩
  rw [headCount_front (front_of_chunksOf h), hbare, headCount_append (closed_concat _), hcount, hraw,
    depthAfter_cons, hdepth]
  have := headCount_eq_length hx
  unfold depthAfter
  rw [Segment.run_nil, this]
  simp only [List.length_append, List.length_cons]
  omega

omit hn in
/-- A header in a block is no heading. -/
theorem count_block {c' : Chunk} (hraw : rawLines (trimEnd c.text ++ ['\n']) = c'.lines)
    (hhead : isHead 0 c'.1 = true) (hno : NoHead 0 c'.2)
    (hdepth : depthAfter 0 c'.2 = depthAfter 0 c.2) (hpos : depthAfter 0 c.2 ≠ 0) :
    headCount 0 (frontText P as ++ ((trimEnd c.text ++ ['\n']) ++
      (stars n title ++ (w ++ (Segment.join bs).flatten)))) = (as ++ c :: bs).length := by
  have hbs : bs = [] := by
    obtain ⟨-, -, hc⟩ := (chunksOf_eq_iff _ _ _).mp (chunksOf_tail h)
    obtain ⟨-, -, -, hc⟩ := (chunks_cons_iff _ _ _).mp hc
    cases bs with
    | nil => rfl
    | cons b bs => exact absurd hc.depth_eq hpos
  subst hbs
  have hdepth' : lineDepth 0 c'.1 = 0 := (isHead_zero hhead).2.1
  have hcount : headCount 0 (trimEnd c.text ++ ['\n']) = 1 := by
    rw [headCount, hraw, Chunk.lines]
    simp only [Segment.heads, hhead, if_true, hdepth']
    rw [(Segment.heads_eq_zero_iff lineDepth isHead 0 c'.2).mpr hno]
  rw [headCount_front (front_of_chunksOf h), headCount_append (closed_concat _), hcount, hraw,
    Chunk.lines, depthAfter_cons, hdepth', hdepth, Segment.join_nil, List.flatten_nil,
    List.append_nil, headCount_header_block (Nat.pos_of_ne_zero hpos) hnl hw]
  simp

end

/-! ### The headings of the new text -/

/-- The headings up to the header, the header, and the headings after it. -/
theorem infos_of_header {s d s' d' : Text} {f f' : OrgFile} (h : OrgFile.parse s d = .ok f)
    (h' : OrgFile.parse s' d' = .ok f') {P : List Text} {as bs rest : List Chunk} {c c' e : Chunk}
    (hc : chunksOf s = (P, as ++ c :: bs)) (hc' : chunksOf s' = (P, (as ++ [c']) ++ e :: rest))
    {is : List HeadingInfo} {j : HeadingInfo}
    (has : as.map (Chunk.node f.declared) = is.map fun i => some (i.node s))
    (hj : c'.node f.declared = some (j.node s)) :
    ∃ pre i post, f'.infos = pre ++ i :: post ∧
      pre.map (HeadingInfo.node s') = (is ++ [j]).map (HeadingInfo.node s) ∧
      e.node f.declared = some (i.node s') ∧
      rest.map (Chunk.node f.declared) = post.map fun i => some (i.node s') := by
  obtain ⟨pre, i, post, hsplit, hpre, hi, hpost⟩ := infos_of_chunks h' hc'
  rw [← declared_of_prelude h h' (by rw [hc, hc'])] at hpre hi hpost
  refine ⟨pre, i, post, hsplit, map_node_inj (hpre.symm.trans ?_), hi, hpost⟩
  simp [has, hj]

/-- What is read from a header line. -/
theorem header_node {declared : List Text} (hd : [] ∉ declared) {n : ℕ} (hn : 0 < n)
    {title v : Text} (hv : Blank v) {ls : List Text} {node : Node}
    (h : Chunk.node declared (stars n (title ++ v), ls) = some node) :
    node.level = n ∧ node.title = (parseHeadingRest title declared).title ∧
      ∃ body, readPairs ls = some (node.properties, body) ∧ node.body = trimEnd body.flatten := by
  obtain ⟨level, parsed, ps, body, hl, hp, hr, rfl⟩ := Chunk.node_eq_some_iff.mp h
  rw [content_stars, headingLevel_stars hn, Option.some.injEq] at hl
  subst hl
  rw [content_stars, parseHeadingLine_stars n _ hd, Option.some.injEq] at hp
  have htrim : trimEnd (content (title ++ v)) = trimEnd title := by
    rw [trimEnd_content, trimEnd_append_blank hv]
  refine ⟨rfl, ?_, body, hr, rfl⟩
  rw [← parseHeadingRest_congr htrim, hp]

theorem first_of_blank {ls : List Text} (h : ∀ l ∈ ls, Blank l) :
    ∀ r ∈ ls.head?, trim r ≠ ":PROPERTIES:".toList := by
  intro r hr
  rw [(h r (List.mem_of_mem_head? hr)).trim_eq]
  decide

/-- Among sections of one level, a last heading of that level is the last section. -/
theorem last_section {level start stop : ℕ} {hs : List Heading} (h : LaidAll level start stop hs)
    {is : List HeadingInfo} {i : HeadingInfo} (hsplit : Heading.flattenAll hs = is ++ [i])
    (hi : i.level = level) :
    ∃ s, hs.getLast? = some s ∧ s.toHeadingInfo = i ∧ s.sections = [] := by
  induction hs generalizing start is with
  | nil => simp [Heading.flattenAll] at hsplit
  | cons g hs ih =>
      obtain ⟨hg, hhs⟩ := h
      cases hs with
      | nil =>
          have hflat : g.toHeadingInfo :: Heading.flattenAll g.sections = is ++ [i] := by
            rw [← flatten_eq, ← hsplit]
            simp [Heading.flattenAll]
          have hlaid := ((laid_iff g).mp hg).2.2.2
          have hnil : Heading.flattenAll g.sections = [] := by
            cases is with
            | nil => exact (List.cons.inj hflat).2
            | cons i' is =>
                have hmem : i ∈ Heading.flattenAll g.sections := by
                  rw [(List.cons.inj hflat).2]
                  simp
                have := LaidAll.levels g.sections hlaid i hmem
                omega
          rw [hnil] at hflat
          cases is with
          | nil => exact ⟨g, rfl, (List.cons.inj hflat).1, flattenAll_eq_nil hnil⟩
          | cons i' is => simp at hflat
      | cons g' hs =>
          have hne : Heading.flattenAll (g' :: hs) ≠ [] := fun h0 =>
            absurd (flattenAll_eq_nil h0) (by simp)
          obtain ⟨is', i', hlast⟩ : ∃ is' i', Heading.flattenAll (g' :: hs) = is' ++ [i'] :=
            ⟨_, _, (List.dropLast_append_getLast hne).symm⟩
          rw [Heading.flattenAll, hlast, ← List.append_assoc] at hsplit
          obtain ⟨-, hii⟩ := List.append_inj' hsplit rfl
          obtain rfl : i' = i := by simpa using hii
          obtain ⟨s, hs', hsi, hnil⟩ := ih hhs hlast
          exact ⟨s, by rw [List.getLast?_cons_cons, hs'], hsi, hnil⟩

/-! ### The body of the new section -/

/-- What follows the header: a line feed and the body, if there is one. -/
def bodyText (body : Text) : Text := if trimEnd body = [] then [] else '\n' :: trimEnd body

theorem renderSection_eq (title body : Text) (level : ℕ) :
    renderSection title body level = '\n' :: (stars level title ++ bodyText body) := by
  unfold renderSection bodyText
  split_ifs <;> simp [stars]

theorem chunksOf_section {n : ℕ} (hn : 0 < n) {title w z : Text} {bs : List Chunk}
    (hnl : '\n' ∉ title) (hw : Blank w) (hz : chunksOf z = ([], bs))
    (hwz : bs = [] ∨ w ≠ [] ∧ Closed w) (body : Text) :
    ∃ v y rest, Blank v ∧
      chunksOf (stars n title ++ (bodyText body ++ (w ++ z))) =
        ([], (stars n (title ++ v), y) :: rest) ∧
      (trimEnd body = [] → rest = bs ∧ ∀ l ∈ y, Blank l) ∧
      (trimEnd body ≠ [] → chunksOf (trimEnd body ++ (w ++ z)) = (y, rest)) := by
  unfold bodyText
  split_ifs with hb
  · obtain ⟨v, ls, hv, hls, hx⟩ := chunksOf_header hn hnl hw hz hwz
    exact ⟨v, ls, bs, hv, hx, fun _ => ⟨rfl, hls⟩, fun h => absurd hb h⟩
  · obtain ⟨⟨y, rest⟩, hy⟩ : ∃ x, chunksOf (trimEnd body ++ (w ++ z)) = x := ⟨_, rfl⟩
    have hraw : rawLines (stars n title ++ ('\n' :: trimEnd body ++ (w ++ z))) =
        stars n (title ++ ['\n']) :: ([] ++ rawLines (trimEnd body ++ (w ++ z))) := by
      have hline : '\n' ∉ stars n title := by simp [stars, hnl]
      have := rawLines_line_append hline (trimEnd body ++ (w ++ z))
      simpa [stars] using this
    exact ⟨['\n'], [] ++ y, rest, by decide,
      chunksOf_cons hraw (isHead_stars hn _) trivial rfl hy, fun h => absurd h hb, fun _ => hy⟩

/-- **The body stays in its section** if it is read back, or if it leaves no block open. -/
theorem body_kept {b w z : Text} {bs rest : List Chunk} {y : List Text} (hw : Blank w)
    (hz : chunksOf z = ([], bs)) (hwz : bs = [] ∨ w ≠ [] ∧ Closed w)
    (hy : chunksOf (b ++ (w ++ z)) = (y, rest)) (hlen : rest.length = bs.length)
    (hb : ink b ≤ ink y.flatten ∨ depthAfter 0 (rawLines b) = 0) :
    rest = bs ∧ y = rawLines (b ++ w) := by
  rw [← List.append_assoc] at hy
  obtain ⟨hraw, -, -⟩ := (chunksOf_eq_iff _ _ _).mp hy
  have hlines : y.flatten = b ++ w → y = rawLines (b ++ w) := fun e => by
    rw [← e, (rawLines_front hraw).1]
  rcases hb with hink | hdepth
  · obtain ⟨h1, h2⟩ := body_eq_of_counts hz hy hlen (by rw [ink_append, hw.ink_eq]; omega)
    exact ⟨h2, hlines h1⟩
  · rcases hwz with rfl | ⟨hne, hclosed⟩
    · rw [List.length_nil, List.length_eq_zero_iff] at hlen
      subst hlen
      have hznil : z = [] := (rawLines_eq_nil_iff z).mp ((chunksOf_eq_iff _ _ _).mp hz).1
      refine ⟨rfl, hlines ?_⟩
      have := flatten_of_chunksOf hy
      rw [hznil] at this
      simpa using this
    · have hbw : Closed (b ++ w) := by
        rcases hclosed with h0 | ⟨u, rfl⟩
        · exact absurd h0 hne
        · exact .inr ⟨b ++ u, (List.append_assoc _ _ _).symm⟩
      have hdepth' : depthAfter 0 (rawLines (b ++ w)) = 0 := by
        rw [← depthAfter_trim, trim_append_blank hw, depthAfter_trim, hdepth]
      have hcount := headCount_append hbw 0 z
      rw [hdepth', headCount_eq_length hy, headCount_eq_length hz] at hcount
      have hno : NoHead 0 (rawLines (b ++ w)) := by
        rw [NoHead, ← Segment.heads_eq_zero_iff]
        have : headCount 0 (b ++ w) = 0 := by omega
        exact this
      obtain ⟨hzraw, -, hzc⟩ := (chunksOf_eq_iff _ _ _).mp hz
      have hthis : chunksOf (b ++ w ++ z) = (rawLines (b ++ w), bs) := by
        refine (chunksOf_eq_iff _ _ _).mpr ⟨by rw [rawLines_append hbw, hzraw]; rfl, hno, ?_⟩
        rw [hdepth']
        exact hzc
      rw [hy, Prod.mk.injEq] at hthis
      exact ⟨hthis.2, hthis.1⟩

/-- White space at the end changes the first line in its white space only. -/
theorem first_line {b w : Text} (hb : b ≠ []) (hw : Blank w) :
    ∃ l l', (rawLines b).head? = some l ∧ (rawLines (b ++ w)).head? = some l' ∧
      trim l' = trim l := by
  by_cases hnl : '\n' ∈ b
  · obtain ⟨x, y, rfl, hx⟩ := List.eq_append_cons_of_mem hnl
    refine ⟨x ++ ['\n'], x ++ ['\n'], ?_, ?_, rfl⟩
    · rw [rawLines_line_append hx]
      rfl
    · rw [List.append_assoc, List.cons_append, rawLines_line_append hx]
      rfl
  · rw [rawLines_of_no_newline hnl hb]
    cases hwl : rawLines w with
    | nil =>
        rw [(rawLines_eq_nil_iff w).mp hwl, List.append_nil, rawLines_of_no_newline hnl hb]
        exact ⟨b, b, rfl, rfl, rfl⟩
    | cons v vs =>
        rw [rawLines_glue hnl hwl]
        have hv : Blank v := by
          have := blank_flatten.mp (by rw [rawLines_flatten]; exact hw) v (by rw [hwl]; simp)
          exact this
        exact ⟨b, b ++ v, rfl, rfl, trim_append_blank hv b⟩

/-- The body of a heading that another heading follows leaves no block open. -/
theorem depth_of_body {s d : Text} {f : OrgFile} (h : OrgFile.parse s d = .ok f)
    {pre post : List HeadingInfo} {i : HeadingInfo} (hsplit : f.infos = pre ++ i :: post)
    (hpost : post ≠ []) : depthAfter 0 (rawLines (slice s i.body)) = 0 := by
  obtain ⟨P, as, c, bs, hc, -, hread, hbs⟩ := exists_chunk h hsplit
  obtain ⟨ds, body, hds, hdepth, hspan, -⟩ := readHeading_body hread
  obtain ⟨hraw, -, hchunks⟩ := (chunksOf_eq_iff _ _ _).mp (chunksOf_tail hc)
  obtain ⟨-, -, -, hrest⟩ := (chunks_cons_iff _ _ _).mp hchunks
  have hslice : slice s i.body = body.flatten := by
    have e : s = (frontText P as ++ c.1 ++ ds.flatten) ++ body.flatten ++
        (Segment.join bs).flatten := by
      rw [text_of_chunksOf hc, Chunk.text, Chunk.lines, hds]
      simp
    have h1 : (frontText P as).length + c.1.length + ds.flatten.length =
        (frontText P as ++ c.1 ++ ds.flatten).length := by simp [Nat.add_assoc]
    have h2 : (frontText P as).length + c.text.length =
        (frontText P as ++ c.1 ++ ds.flatten).length + body.flatten.length := by
      simp [Chunk.text, Chunk.lines, hds, Nat.add_assoc]
    rw [hspan, h1, h2, e]
    exact slice_append_three _ _ _
  have hlines : rawLines body.flatten = body := by
    rw [List.nil_append, Segment.join_cons, hds, List.append_assoc, ← List.cons_append,
      ← List.append_assoc] at hraw
    exact rawLines_suffix (rawLines_front hraw).1
  rw [hslice, hlines]
  have hne : bs ≠ [] := by
    rintro rfl
    exact hpost (List.map_eq_nil_iff.mp hbs.symm)
  obtain ⟨b, bs, rfl⟩ := List.exists_cons_of_ne_nil hne
  have := hrest.depth_eq
  rwa [hds, depthAfter_append, hdepth] at this

/-! ### The edit -/

section
variable {s d s' d' sh dh : Text} {f f' fh : OrgFile} (hf : OrgFile.parse s d = .ok f)
  (hf' : OrgFile.parse s' d' = .ok f') (hfh : OrgFile.parse sh dh = .ok fh) {P : List Text}
  {as bs : List Chunk} {c : Chunk} (hc : chunksOf s = (P, as ++ c :: bs))
  {is post : List HeadingInfo} {j : HeadingInfo}
  (has : as.map (Chunk.node f.declared) = is.map fun i => some (i.node s))
  (hj : c.node f.declared = some (j.node s))
  (hbs : bs.map (Chunk.node f.declared) = post.map fun i => some (i.node s)) {n : ℕ} (hn : 0 < n)
  {title body w : Text} (hnl : '\n' ∉ title) (hw : Blank w)
  (hwz : bs = [] ∨ w ≠ [] ∧ Closed w)
  (hs' : s' = frontText P as ++ ((trimEnd c.text ++ ['\n']) ++
    (stars n title ++ (bodyText body ++ (w ++ (Segment.join bs).flatten)))))
  (hsh : sh = frontText P as ++ ((trimEnd c.text ++ ['\n']) ++
    (stars n title ++ (w ++ (Segment.join bs).flatten))))
  (hkeys : f'.infos.map HeadingInfo.key = fh.infos.map HeadingInfo.key)

include hf hfh hc hj hn hnl hw hwz hsh hkeys in
/-- An open block or a heading of bare stars at the end: there are no more headings than before. -/
theorem append_lost (hlost : trimEnd c.text = List.replicate j.level '*' ∨ depthAfter 0 c.2 ≠ 0) :
    f'.infos.length = f.infos.length := by
  have hz : chunksOf (c.text ++ (Segment.join bs).flatten) = ([], c :: bs) := by
    have := chunksOf_tail hc
    rwa [Segment.join_cons, ← List.cons_append, List.flatten_append] at this
  have hcount : headCount 0 sh = (as ++ c :: bs).length := by
    rw [hsh]
    by_cases hbare : trimEnd c.text = List.replicate j.level '*'
    · obtain ⟨u, -, hlevel, -⟩ := Chunk.node_stars f.declared_ne_nil hj
      exact count_bare hc hn hnl hw hwz hlevel hbare
    · obtain ⟨c', hraw, hhead, hno, hdepth, -⟩ :=
        trimmed_chunk f.declared_ne_nil hz hj hbare
      exact count_block hc hnl hw hwz hraw hhead hno hdepth (hlost.resolve_left hbare)
  have h0 : headCount 0 sh = (chunksOf sh).2.length := headCount_eq_length rfl
  have h1 := congrArg List.length (nodes_of_parse hfh)
  have h2 := congrArg List.length (nodes_of_parse hf)
  have h3 := congrArg List.length hkeys
  rw [hc] at h2
  simp only [List.length_map] at h1 h2 h3
  omega

include hf hf' hfh hc has hj hbs hn hnl hw hwz hs' hsh hkeys in
/-- Otherwise the header is one more heading, in front of the ones that follow the subtree. -/
theorem append_shape (hbare : trimEnd c.text ≠ List.replicate j.level '*')
    (hblock : depthAfter 0 c.2 = 0) :
    ∃ pre i post' v y rest, f'.infos = pre ++ i :: post' ∧
      pre.map (HeadingInfo.node s') = (is ++ [j]).map (HeadingInfo.node s) ∧
      Blank v ∧ Chunk.node f.declared (stars n (title ++ v), y) = some (i.node s') ∧
      rest.map (Chunk.node f.declared) = post'.map (fun i => some (i.node s')) ∧
      rest.length = bs.length ∧ i.level = n ∧
      f'.infos.map HeadingInfo.key =
        (is ++ [j]).map HeadingInfo.key ++ (n, none) :: post.map HeadingInfo.key ∧
      (trimEnd body = [] → rest = bs ∧ ∀ l ∈ y, Blank l) ∧
      (trimEnd body ≠ [] →
        chunksOf (trimEnd body ++ (w ++ (Segment.join bs).flatten)) = (y, rest)) := by
  have hd := f.declared_ne_nil
  have hz : chunksOf (c.text ++ (Segment.join bs).flatten) = ([], c :: bs) := by
    have := chunksOf_tail hc
    rwa [Segment.join_cons, ← List.cons_append, List.flatten_append] at this
  have hzb := chunksOf_after hc
  obtain ⟨c', hraw, hhead, hno, hdepth, hnode⟩ := trimmed_chunk hd hz hj hbare
  obtain ⟨hfront, htext⟩ := (front_of_chunksOf hc).concat (closed_concat _) hraw hhead hno
    (hdepth.trans hblock)
  -- the text with the header alone
  obtain ⟨vh, ls, hvh, hls, hxh⟩ := chunksOf_header hn hnl hw hzb hwz
  have hch := hfront.chunksOf_append hxh
  rw [htext, List.append_assoc, ← hsh] at hch
  obtain ⟨preh, ih, posth, hsplith, hpreh, hih, hposth⟩ := infos_of_header hf hfh hc hch has hnode
  obtain ⟨hlevelh, -, bodyh, hrh, -⟩ := header_node hd hn hvh hih
  rw [readPairs_of_no_drawer (first_of_blank hls), Option.some.injEq, Prod.mk.injEq] at hrh
  have hkeyh : ih.key = (n, none) := by
    rw [← HeadingInfo.node_key sh, Node.key, hlevelh, Node.property, ← hrh.1]
    rfl
  -- the text with the body
  obtain ⟨v, y, rest, hv, hx, hempty, hbody⟩ := chunksOf_section hn hnl hw hzb hwz body
  have hc' := hfront.chunksOf_append hx
  rw [htext, List.append_assoc, ← hs'] at hc'
  obtain ⟨pre, i, post', hsplit, hpre, hi, hpost⟩ := infos_of_header hf hf' hc hc' has hnode
  have hkeys' : f'.infos.map HeadingInfo.key =
      (is ++ [j]).map HeadingInfo.key ++ (n, none) :: post.map HeadingInfo.key := by
    rw [hkeys, hsplith, List.map_append, List.map_cons, hkeyh, keys_of_nodes hpreh,
      keys_of_nodes (map_node_inj (hposth.symm.trans hbs))]
  have hlen : rest.length = bs.length := by
    have h1 := congrArg List.length hkeys'
    have h2 := congrArg List.length hpre
    have h3 := congrArg List.length hpost
    have h4 := congrArg List.length hbs
    rw [hsplit] at h1
    simp only [List.length_map, List.length_append, List.length_cons] at h1 h2 h3 h4
    omega
  exact ⟨pre, i, post', v, y, rest, hsplit, hpre, hv, hi, hpost, hlen, (header_node hd hn hv hi).1,
    hkeys', hempty, hbody⟩

end

/-- The new heading is the last section of the heading that is found again. -/
theorem new_section {s s' d' id : Text} {f f' : OrgFile} (h' : OrgFile.parse s' d' = .ok f')
    {pre post : List HeadingInfo} {g g' : Heading} {stop : ℕ} (hsub : Subtree f.infos pre post stop g)
    (hid : g.property "ID".toList = some id)
    (hpre : ∀ i ∈ pre, i.property "ID".toList ≠ some id) (hg' : f'.findById id = some g')
    {pre₁ post₁ : List HeadingInfo} {i : HeadingInfo} (hsplit : f'.infos = pre₁ ++ i :: post₁)
    (hnodes : pre₁.map (HeadingInfo.node s') = (pre ++ g.flatten).map (HeadingInfo.node s))
    (hlevel : i.level = g.level + 1)
    (hkeys : f'.infos.map HeadingInfo.key = (pre ++ g.flatten).map HeadingInfo.key ++
      (g.level + 1, none) :: post.map HeadingInfo.key) :
    g'.node s' = g.node s ∧ (∃ pre' post', Subtree f'.infos pre' post' s'.length g') ∧
      ∃ is s₁, Heading.flattenAll g'.sections = is ++ [i] ∧ g'.sections.getLast? = some s₁ ∧
        s₁.toHeadingInfo = i ∧ s₁.sections = [] := by
  have hkeys₁ : f'.infos.map HeadingInfo.key = pre.map HeadingInfo.key ++ g.key ::
      ((Heading.flattenAll g.sections).map HeadingInfo.key ++ [(g.level + 1, none)]) ++
        post.map HeadingInfo.key := by
    rw [hkeys, flatten_eq]
    simp
  obtain ⟨g₂, pre', post', hg₂, hsub', hpre', hkey, hms, hls⟩ := findById_of_keys h' hkeys₁
    (by simpa [HeadingInfo.key] using hpre) hid
    (by
      intro x hx
      rcases List.mem_append.mp hx with hx | hx
      · obtain ⟨k, hk, rfl⟩ := List.mem_map.mp hx
        exact hsub.level_lt k hk
      · rw [List.mem_singleton.mp hx]
        exact Nat.lt_succ_self g.level)
    (by
      intro x hx
      rw [List.head?_map] at hx
      obtain ⟨k, hk, rfl⟩ := Option.mem_map.mp hx
      exact (hsub.next k hk).1)
  obtain rfl : g₂ = g' := by
    rw [hg', Option.some.injEq] at hg₂
    exact hg₂.symm
  obtain ⟨is, is', hsecs, his, his'⟩ := List.map_eq_append_iff.mp hms
  obtain ⟨i', rfl, -⟩ := List.map_eq_singleton_iff.mp his'
  -- the two ways to cut the headings agree
  have hsplit' := hsub'.split
  rw [flatten_eq, hsecs, hsplit] at hsplit'
  have hcut : pre₁ ++ i :: post₁ = (pre' ++ g₂.toHeadingInfo :: is) ++ i' :: post' := by
    rw [hsplit']
    simp
  have hlen : pre₁.length = (pre' ++ g₂.toHeadingInfo :: is).length := by
    have h1 := congrArg List.length hnodes
    have h2 := congrArg List.length hpre'
    have h3 := congrArg List.length his
    rw [flatten_eq] at h1
    simp only [List.length_map, List.length_append, List.length_cons] at h1 h2 h3 ⊢
    omega
  obtain ⟨rfl, hrest⟩ := List.append_inj hcut hlen
  obtain ⟨rfl, rfl⟩ := List.cons.inj hrest
  have hnode : g₂.node s' = g.node s := by
    rw [flatten_eq, List.map_append, List.map_append, List.map_cons, List.map_cons] at hnodes
    have := List.append_inj_right hnodes (by simpa using congrArg List.length hpre')
    exact (List.cons.inj this).1
  have hglevel : g₂.level = g.level := congrArg Prod.fst hkey
  obtain ⟨s₁, hlast, hinfo, hnil⟩ := last_section ((laid_iff g₂).mp hsub'.laid).2.2.2 hsecs
    (by rw [hlevel, hglevel])
  exact ⟨hnode, ⟨pre', post₁, hsub'⟩, is, s₁, hsecs, hlast, hinfo, hnil⟩

/-- A body without a drawer in front stays in the new section, and nothing else does. -/
theorem new_body {s' d' : Text} {f' : OrgFile} (h' : OrgFile.parse s' d' = .ok f')
    {body w z : Text} (hw : Blank w) {bs rest : List Chunk} {y : List Text}
    (hz : chunksOf z = ([], bs)) (hwz : bs = [] ∨ w ≠ [] ∧ Closed w) (hlen : rest.length = bs.length)
    (hempty : trimEnd body = [] → rest = bs ∧ ∀ l ∈ y, Blank l)
    (hbody : trimEnd body ≠ [] → chunksOf (trimEnd body ++ (w ++ z)) = (y, rest))
    {pre post is : List HeadingInfo} {stop : ℕ} {g s₁ : Heading} {i : HeadingInfo} {title : Text}
    (hsub : Subtree f'.infos pre post stop g) (hsecs : Heading.flattenAll g.sections = is ++ [i])
    (hs₁ : g.section? title = some s₁) (hread : trim (slice s' s₁.body) = trim body)
    {ps : List (Text × Text)} {yb : List Text} (hr : readPairs y = some (ps, yb))
    (hib : trimEnd (slice s' i.body) = trimEnd yb.flatten)
    (hdrawer : ∀ l ∈ (rawLines (trimEnd body)).head?, trim l ≠ ":PROPERTIES:".toList) :
    rest = bs ∧ trim (slice s' i.body) = trim body := by
  have htrim : trim (slice s' i.body) = trim yb.flatten := by
    rw [← trim_trimEnd, hib, trim_trimEnd]
  by_cases hb : trimEnd body = []
  · obtain ⟨hrest, hblank⟩ := hempty hb
    rw [readPairs_of_no_drawer (first_of_blank hblank), Option.some.injEq, Prod.mk.injEq] at hr
    rw [htrim, ← hr.2, (blank_flatten.mpr hblank).trim_eq, ← trim_trimEnd body, hb]
    exact ⟨hrest, rfl⟩
  · have hcond : ink (trimEnd body) ≤ ink y.flatten ∨ depthAfter 0 (rawLines (trimEnd body)) = 0 := by
      obtain ⟨-, ps', qs', hsubs, -⟩ := section_place hsub hs₁
      have hsplit := hsubs.split
      rw [flatten_eq, List.append_assoc, List.cons_append, hsecs] at hsplit
      rcases List.eq_nil_or_concat (Heading.flattenAll s₁.sections ++ qs') with h0 | ⟨ms, m, h0⟩
      · -- the section that is read back is the new one
        left
        rw [h0] at hsplit
        obtain ⟨-, hi⟩ := List.append_inj' hsplit rfl
        obtain rfl := List.singleton_inj.mp hi
        have hink := ink_eq_of_trim_eq (hread.symm.trans htrim)
        have hle := (ink_readPairs hr).1
        rw [ink_trimEnd]
        omega
      · -- it is another one of the same title, with headings after it
        right
        have hsplit' := hsub.split
        rw [flatten_eq, hsubs.split, flatten_eq] at hsplit'
        have hcut : f'.infos = (pre ++ g.toHeadingInfo :: ps') ++ s₁.toHeadingInfo ::
            (Heading.flattenAll s₁.sections ++ qs' ++ post) := by
          rw [hsplit']
          simp
        have := depth_of_body h' hcut (by rw [h0]; simp)
        rw [← depthAfter_trim, hread, depthAfter_trim] at this
        rw [depthAfter_trimEnd, this]
    obtain ⟨hrest, hy⟩ := body_kept hw hz hwz (hbody hb) hlen hcond
    obtain ⟨l, l', hl, hl', hll⟩ := first_line hb hw
    have hfirst : ∀ r ∈ y.head?, trim r ≠ ":PROPERTIES:".toList := by
      intro r hr'
      rw [hy, hl', Option.mem_some_iff] at hr'
      rw [← hr', hll]
      exact hdrawer l hl
    rw [readPairs_of_no_drawer hfirst, Option.some.injEq, Prod.mk.injEq] at hr
    refine ⟨hrest, ?_⟩
    rw [htrim, ← hr.2, hy, rawLines_flatten, trim_append_blank hw, trim_trimEnd]

/-- A drawer in front of the body is not read back as body. -/
theorem body_drawer {body w z : Text} (hw : Blank w) {bs rest : List Chunk} {y : List Text}
    (hz : chunksOf z = ([], bs)) (hwz : bs = [] ∨ w ≠ [] ∧ Closed w) (hlen : rest.length = bs.length)
    (hbody : trimEnd body ≠ [] → chunksOf (trimEnd body ++ (w ++ z)) = (y, rest))
    {ps : List (Text × Text)} {yb : List Text} (hr : readPairs y = some (ps, yb))
    (hread : trim yb.flatten = trim body) :
    ∀ l ∈ (rawLines (trimEnd body)).head?, trim l ≠ ":PROPERTIES:".toList := by
  intro l hl hdrawer
  have hb : trimEnd body ≠ [] := by
    intro hb
    rw [hb] at hl
    cases hl
  have hink : ink yb.flatten = ink (trimEnd body) := by
    rw [ink_trimEnd]
    exact ink_eq_of_trim_eq hread
  obtain ⟨-, hy⟩ := body_kept hw hz hwz (hbody hb) hlen (.inl (hink ▸ (ink_readPairs hr).1))
  have hyink : ink y.flatten = ink (trimEnd body) := by
    rw [hy, rawLines_flatten, ink_append, hw.ink_eq, Nat.add_zero]
  obtain ⟨m, m', hm, hm', hmm⟩ := first_line hb hw
  rw [hl, Option.some.injEq] at hm
  subst hm
  rcases readPairs_shape hr with ⟨-, -, hfirst⟩ | ⟨ds, e, hds, hfirst, -⟩
  · exact hfirst m' (by rw [hy]; exact hm') (hmm.trans hdrawer)
  · have hpos := ink_pos_of_properties hfirst
    have := congrArg (fun t => ink t.flatten) hds
    simp only [List.flatten_append, List.flatten_cons, ink_append] at this
    omega

theorem append_text (a u w z x : Text) :
    replaceRange (a ++ (u ++ w ++ z)) ⟨a.length + u.length, a.length + u.length⟩ ('\n' :: x) =
      a ++ ((u ++ ['\n']) ++ (x ++ (w ++ z))) := by
  have h := replaceRange_append_three (a ++ u) [] (w ++ z) ('\n' :: x)
  simpa using h

/-- The depth after a subtree is the depth after its last chunk. -/
theorem subtree_depth {s : Text} {P : List Text} {as as' bs : List Chunk} {c : Chunk}
    (h : chunksOf s = (P, as ++ as' ++ c :: bs)) :
    depthAfter 0 (rawLines ((Segment.join as').flatten ++ c.text)) = depthAfter 0 c.2 := by
  rw [List.append_assoc] at h
  obtain ⟨hraw, -, hc⟩ := (chunksOf_eq_iff _ _ _).mp (chunksOf_tail h)
  rw [Chunks, Segment.chunks_append] at hc
  have hdepth : depthAfter 0 (Segment.join as') = 0 := Chunks.depth_eq hc.2
  obtain ⟨-, hhead, -, -⟩ := (chunks_cons_iff _ _ _).mp hc.2
  have hraw' : rawLines (Segment.join (as' ++ c :: bs)).flatten =
      (Segment.join as' ++ c.lines) ++ Segment.join bs := by
    rw [hraw, Segment.join_append, Segment.join_cons, Chunk.lines]
    simp
  have hlines := (rawLines_front hraw').1
  rw [List.flatten_append] at hlines
  rw [Chunk.text, hlines, depthAfter_append, hdepth, Chunk.lines, depthAfter_cons,
    (isHead_zero hhead).2.1]

section
variable {s d id : Text} {f : OrgFile} (h : OrgFile.parse s d = .ok f) {g : Heading}
  {P : List Text} {as as' bs : List Chunk} {c : Chunk}
  (hc : chunksOf s = (P, as ++ as' ++ c :: bs)) (hstart : g.span.start = (frontText P as).length)
  (hslice : slice s g.span = (Segment.join as').flatten ++ c.text)
include h hc hslice

include hstart in
/-- The text with something put in where a section is appended. -/
theorem replace_appendAt {w : Text} (hwe : c.text = trimEnd c.text ++ w) (x : Text) :
    replaceRange s (OrgRewriter.appendAt f g) ('\n' :: x) =
      frontText P (as ++ as') ++ ((trimEnd c.text ++ ['\n']) ++
        (x ++ (w ++ (Segment.join bs).flatten))) := by
  have hsource := (readFlat_of_parse h).1
  have hat : OrgRewriter.appendAt f g =
      ⟨(frontText P (as ++ as')).length + (trimEnd c.text).length,
        (frontText P (as ++ as')).length + (trimEnd c.text).length⟩ := by
    unfold OrgRewriter.appendAt OrgFile.slice
    rw [hsource, hslice, trimEnd_append (not_blank_chunk hc), hstart, frontText_length,
      List.length_append, Nat.add_assoc]
  have hcut : s = frontText P (as ++ as') ++
      (trimEnd c.text ++ w ++ (Segment.join bs).flatten) := by
    rw [text_of_chunksOf hc, ← hwe]
  rw [hat]
  conv_lhs => rw [hcut]
  exact append_text _ _ _ _ _

/-- What safety says about the last chunk of the subtree. -/
theorem safe_append_iff {title body : Text} (hg : f.findById id = some g) {init : List HeadingInfo}
    {j : HeadingInfo} (hj : g.flatten = init ++ [j])
    (hread : readHeading f.declared (frontText P (as ++ as')).length c = some j) :
    GuardedEdit.Safe f (.appendSection id title body) ↔ depthAfter 0 c.2 = 0 ∧
      trimEnd c.text ≠ List.replicate j.level '*' ∧
      (parseHeadingRest title f.declared).title = title ∧
      ∀ l ∈ (rawLines (trimEnd body)).head?, trim l ≠ ":PROPERTIES:".toList := by
  have hsource := (readFlat_of_parse h).1
  have hlast : g.flatten.getLast? = some j := by rw [hj, List.getLast?_concat]
  have hchunk : slice s ⟨j.titleLine.start, j.body.stop⟩ = c.text := by
    obtain ⟨ds, yb, -, -, hspan, -⟩ := readHeading_body hread
    rw [readHeading_titleLine hread, hspan, text_of_chunksOf hc, ← List.append_assoc]
    exact slice_append_three _ _ _
  unfold GuardedEdit.Safe OrgFile.slice
  simp only [hg, Option.some.injEq, forall_eq', hlast, hsource]
  rw [hslice, subtree_depth hc, hchunk, parseHeadingLine_stars _ _ f.declared_ne_nil,
    Option.map_some, Option.some.injEq]

end

theorem appendSection_done_iff {id title body : Text} {r r₁ : OrgRewriter} {f : OrgFile}
    (hf : r.view = .ok f) (h : (OrgRewriter.appendSection id title body).run r = .ok () r₁) :
    (∃ f', r₁.view = .ok f' ∧ GuardedEdit.Done f f' (.appendSection id title body)) ↔
      GuardedEdit.Safe f (.appendSection id title body) := by
  obtain ⟨f₁, g, fh, f', g', s', hv, hg, hh, hv', htext, hkeys, hg', hs', hread⟩ :=
    OrgRewriter.appendSection_ok h
  obtain rfl : f₁ = f := by
    rw [hf, Except.ok.injEq] at hv
    exact hv.symm
  have hsource := (readFlat_of_parse hf).1
  have hsource' := (readFlat_of_parse hv').1
  obtain ⟨hid, pre, post, hsub, hpre⟩ := findById_place hf hg
  obtain ⟨P, as, as', c, bs, init, j, hj, hc, has, hreadc, hbs, hstart, -, hslice⟩ :=
    subtree_cut hf hsub
  obtain ⟨w, hw, hwe, hwz⟩ := tail_spec hc
  have hcnode : c.node f₁.declared = some (j.node r.currentText) := by
    rw [readHeading_node ((Segment.join bs).flatten) hreadc, List.append_assoc,
      ← text_of_chunksOf hc]
  -- the title that is looked up has no line feed
  have hnl : '\n' ∉ title := by
    obtain ⟨-, pre', post', hsub', -⟩ := findById_place hv' hg'
    obtain ⟨⟨-, ht⟩, ps, qs, hsubs, -⟩ := section_place hsub' hs'
    rw [← ht]
    refine title_no_newline hv' _ ?_
    rw [hsub'.split, flatten_eq, hsubs.split, flatten_eq]
    simp
  -- the text with the new section, and with its header alone
  rw [renderSection_eq, replace_appendAt hf hc hstart hslice hwe,
    List.append_assoc (stars _ _)] at htext
  have hhtext : (r.replaced (OrgRewriter.appendAt f₁ g)
      (renderSection title [] (g.level + 1))).currentText =
      frontText P (as ++ as') ++ ((trimEnd c.text ++ ['\n']) ++
        (stars (g.level + 1) title ++ (w ++ (Segment.join bs).flatten))) := by
    rw [OrgRewriter.currentText_replaced, renderSection_eq,
      replace_appendAt hf hc hstart hslice hwe]
    simp [bodyText]
  rw [safe_append_iff hf hc hslice hg hj hreadc]
  have hlevel : 0 < g.level + 1 := Nat.succ_pos _
  by_cases hlost : trimEnd c.text = List.replicate j.level '*' ∨ depthAfter 0 c.2 ≠ 0
  · -- there is no heading more
    have hcount := append_lost hf hh hc hcnode hlevel hnl hw hwz hhtext hkeys hlost
    constructor
    · rintro ⟨f₂, hv₂, _, _, _, -, -, -, -, -, -, -, pre', post', hsplit, hnodes⟩
      obtain rfl : f₂ = f' := by
        rw [hv', Except.ok.injEq] at hv₂
        exact hv₂.symm
      have h1 := congrArg List.length hnodes
      rw [OrgFile.nodes, List.length_map, List.length_map] at h1
      rw [hsplit] at hcount
      simp only [List.length_append, List.length_cons] at h1 hcount
      omega
    · rintro ⟨hdepth, hbare, -⟩
      exact absurd hlost (by simp [hdepth, hbare])
  · rw [not_or, not_not] at hlost
    obtain ⟨pre₁, i, post₁, v, y, rest, hsplit, hpre₁, hv₁, hi, hpost₁, hlen, hil, hkeys₁, hempty,
      hbody⟩ := append_shape hf hv' hh hc has hcnode hbs hlevel hnl hw hwz htext hhtext hkeys
        hlost.1 hlost.2
    rw [List.append_assoc, ← hj] at hpre₁ hkeys₁
    obtain ⟨hnode, ⟨pre', post', hsub'⟩, is, s₁, hsecs, hlast, rfl, hnil⟩ :=
      new_section hv' hsub hid hpre hg' hsplit hpre₁ hil hkeys₁
    obtain ⟨-, htitle, yb, hyb, hib⟩ := header_node f₁.declared_ne_nil hlevel hv₁ hi
    have hz := chunksOf_after hc
    have htitle : s₁.title = (parseHeadingRest title f₁.declared).title := htitle
    have hib : trimEnd (slice r₁.currentText s₁.body) = trimEnd yb.flatten := hib
    constructor
    · rintro ⟨f₂, hv₂, g₁, g₂, s₂, hg₁, hg₂, -, hlast₂, -, ht₂, hb₂, -⟩
      obtain rfl : f₂ = f' := by
        rw [hv', Except.ok.injEq] at hv₂
        exact hv₂.symm
      obtain rfl : g₂ = g' := by
        rw [hg', Option.some.injEq] at hg₂
        exact hg₂.symm
      obtain rfl : s₂ = s₁ := by
        rw [hlast, Option.some.injEq] at hlast₂
        exact hlast₂.symm
      refine ⟨hlost.2, hlost.1, htitle.symm.trans ht₂, ?_⟩
      refine body_drawer hw hz hwz hlen hbody hyb ?_
      rw [← trim_trimEnd, ← hib, trim_trimEnd, ← hb₂, OrgFile.slice, hsource']
    · rintro ⟨-, -, ht, hdrawer⟩
      rw [OrgFile.slice, hsource'] at hread
      obtain ⟨rfl, hbody'⟩ := new_body hv' hw hz hwz hlen hempty hbody hsub' hsecs hs' hread hyb hib
        hdrawer
      refine ⟨f', hv', g, g', s₁, hg, hg', by rw [hsource, hsource', hnode], hlast, hnil,
        htitle.trans ht, by rw [OrgFile.slice, hsource', hbody'], pre₁, post₁, hsplit, ?_⟩
      rw [List.map_append, hsource', hpre₁, map_node_inj (hpost₁.symm.trans hbs), OrgFile.nodes,
        hsource, hsub.split, List.map_append, List.map_append, List.map_append]

/-- **A guarded edit that passed its guards did what it was asked for exactly if it is safe.** -/
theorem GuardedEdit.run_done_iff (e : GuardedEdit) (r r₁ : OrgRewriter) (f : OrgFile)
    (hf : r.view = .ok f) (h : e.run.run r = .ok () r₁) :
    (∃ f', r₁.view = .ok f' ∧ e.Done f f') ↔ e.Safe f := by
  cases e with
  | setNodeBody id content => exact iff_of_true (setNodeBody_done hf h) trivial
  | setSectionBody id title body => exact iff_of_true (setSectionBody_done hf h) trivial
  | appendSection id title body => exact appendSection_done_iff hf h
  | editHeadingLine id edit => exact editHeadingLine_done_iff hf h

/-- The number of headings before and after an edit that succeeds. -/
def GuardedEdit.counts (e : GuardedEdit) (r : OrgRewriter) : Option (ℕ × ℕ) :=
  match r.view, e.run.run r with
  | .ok f, .ok () r₁ =>
      match r₁.view with
      | .ok f' => some (f.infos.length, f'.infos.length)
      | .error _ => none
  | _, _ => none

theorem GuardedEdit.counts_spec {e : GuardedEdit} {r : OrgRewriter} {a b : ℕ}
    (h : e.counts r = some (a, b)) : ∃ f r₁ f', r.view = .ok f ∧ e.run.run r = .ok () r₁ ∧
      r₁.view = .ok f' ∧ f.infos.length = a ∧ f'.infos.length = b := by
  unfold GuardedEdit.counts at h
  split at h
  · next f r₁ hf hr =>
      split at h
      · next f' hf' =>
          rw [Option.some.injEq, Prod.mk.injEq] at h
          exact ⟨f, r₁, f', hf, hr, hf', h⟩
      · cases h
  · cases h

/-- A body with a block in it, in a document with two headings. -/
theorem GuardedEdit.run_done_iff_sample : ∃ f r₁ f',
    (GuardedEdit.setNodeBody "a".toList "x\n#+begin_src\n* y\n#+end_src".toList).run.run
      ⟨"* A\n:PROPERTIES:\n:ID: a\n:END:\n** B\n* C\n".toList, [], []⟩ = .ok () r₁ ∧
    r₁.view = .ok f' ∧ GuardedEdit.Done f f'
      (.setNodeBody "a".toList "x\n#+begin_src\n* y\n#+end_src".toList) := by
  obtain ⟨f, r₁, -, hf, hr, -⟩ := GuardedEdit.counts_spec (e := .setNodeBody "a".toList
    "x\n#+begin_src\n* y\n#+end_src".toList) (r := ⟨"* A\n:PROPERTIES:\n:ID: a\n:END:\n** B\n* C\n".toList,
      [], []⟩) (a := 3) (b := 3) (by decide +kernel)
  obtain ⟨f', hf', hdone⟩ := (GuardedEdit.run_done_iff _ _ r₁ f hf hr).mpr trivial
  exact ⟨f, r₁, f', hr, hf', hdone⟩

/-- A section is appended after a heading of bare stars, and that heading is gone. -/
theorem GuardedEdit.appendSection_loses : ∃ f r₁,
    OrgRewriter.view ⟨"* A\n:PROPERTIES:\n:ID: a\n:END:\n** \n".toList, [], []⟩ = .ok f ∧
    (GuardedEdit.appendSection "a".toList "Foo".toList []).run.run
      ⟨"* A\n:PROPERTIES:\n:ID: a\n:END:\n** \n".toList, [], []⟩ = .ok () r₁ ∧
    ¬ ∃ f', r₁.view = .ok f' ∧
      GuardedEdit.Done f f' (.appendSection "a".toList "Foo".toList []) := by
  obtain ⟨f, r₁, f', hf, hr, hf', ha, hb⟩ := GuardedEdit.counts_spec
    (e := .appendSection "a".toList "Foo".toList [])
    (r := ⟨"* A\n:PROPERTIES:\n:ID: a\n:END:\n** \n".toList, [], []⟩)
    (a := 2) (b := 2) (by decide +kernel)
  refine ⟨f, r₁, hf, hr, ?_⟩
  rintro ⟨f₂, hf₂, _, _, _, -, -, -, -, -, -, -, pre, post, hsplit, hnodes⟩
  obtain rfl : f₂ = f' := by
    rw [hf', Except.ok.injEq] at hf₂
    exact hf₂.symm
  have h1 := congrArg List.length hnodes
  rw [OrgFile.nodes, List.length_map, List.length_map] at h1
  rw [hsplit] at hb
  simp only [List.length_append, List.length_cons] at h1 hb
  omega

end Orgasmic
