import Orgasmic.OrgEdits

/-! # Another title line

`editHeadingLine` puts a rendered line in the place of a title line.

* **One line.** `retitle_chunk`: a rendered line without a line feed replaces the title line of
  its chunk and nothing else.
* **No more.** A line that is not a heading line would be missing among the headings
  (`retitle_bare`), and a line with a line feed in it reads back with less ink than it has
  (`retitle_short`). -/

namespace Orgasmic

open Text

/-! ### Rendered lines -/

theorem render_cases (l : HeadingLine) :
    l.render = List.replicate l.level '*' ∨ ∃ v, l.render = stars l.level v := by
  unfold HeadingLine.render
  dsimp only
  cases h : ([l.todo, some l.title].filterMap id).filter (· ≠ []) with
  | nil =>
      split_ifs
      · exact .inl (by simp)
      · exact .inr ⟨"   :".toList ++ [':'].intercalate l.tags ++ ":".toList, by simp [stars]⟩
  | cons t ts =>
      split_ifs
      · exact .inr ⟨t ++ ts.flatMap (' ' :: ·), by simp [stars]⟩
      · exact .inr ⟨t ++ ts.flatMap (' ' :: ·) ++ "    :".toList ++ [':'].intercalate l.tags ++
          ":".toList, by simp [stars]⟩

/-- A rendered line with a line feed in its title ends with ink. -/
theorem trimEnd_render {l : HeadingLine} (htitle : trim l.title = l.title)
    (htodo : ∀ t ∈ l.todo, '\n' ∉ t) (hnl : '\n' ∈ l.render) : trimEnd l.render = l.render := by
  unfold HeadingLine.render at hnl ⊢
  dsimp only at hnl ⊢
  split_ifs at hnl ⊢ with htags
  · have ht : l.title ≠ [] := by
      intro h0
      rw [List.mem_append] at hnl
      rcases hnl with hnl | hnl
      · exact absurd (List.eq_of_mem_replicate hnl) (by decide)
      · cases htd : l.todo with
        | none => simp [htd, h0] at hnl
        | some t =>
            have := htodo t htd
            by_cases htn : t = []
            · simp [htd, h0, htn] at hnl
            · simp [htd, h0, htn] at hnl
              exact this hnl
    have hb : ¬ Blank l.title := by
      intro hb
      rw [hb.trim_eq] at htitle
      exact ht htitle.symm
    have hlast : ∃ a, ([l.todo, some l.title].filterMap id).filter (· ≠ []) = a ++ [l.title] := by
      refine ⟨([l.todo].filterMap id).filter (· ≠ []), ?_⟩
      have e : [l.todo, some l.title] = [l.todo] ++ [some l.title] := rfl
      rw [e, List.filterMap_append, List.filter_append]
      simp [ht]
    obtain ⟨a, ha⟩ := hlast
    rw [ha, List.flatMap_append, List.flatMap_singleton, ← List.append_assoc,
      show (' ' :: l.title) = [' '] ++ l.title from rfl, ← List.append_assoc, trimEnd_append hb]
    rw [← htitle, trim, trimEnd_trimEnd]
  · exact trimEnd_concat_of_not_ws (by decide) _

/-- Without a keyword the title comes first. -/
theorem render_title {l : HeadingLine} (htodo : l.todo = none) (ht : l.title ≠ []) :
    ∃ x, l.render = stars l.level (l.title ++ x) := by
  unfold HeadingLine.render
  dsimp only
  split_ifs
  · exact ⟨[], by simp [htodo, ht, stars]⟩
  · exact ⟨"    :".toList ++ [':'].intercalate l.tags ++ ":".toList, by simp [htodo, ht, stars]⟩

theorem stars_inj {n : ℕ} {v v' : Text} (h : stars n v = stars n v') : v = v' :=
  (List.cons.inj (List.append_cancel_left h)).2

/-! ### The chunk of the heading -/

/-- Stars alone make no heading, but they are no block line either. -/
theorem bareLine {n : ℕ} (hn : 0 < n) {w : Text} (hw : w = [] ∨ w = ['\n'] ∨ w = ['\r', '\n']) :
    isHead 0 (List.replicate n '*' ++ w) = false ∧ lineDepth 0 (List.replicate n '*' ++ w) = 0 := by
  have hhead : w.head? ≠ some '*' ∧ w.head? ≠ some ' ' := by
    rcases hw with rfl | rfl | rfl <;> decide
  constructor
  · rw [Bool.eq_false_iff]
    intro h
    obtain ⟨m, rest, -, e⟩ := (isHead_zero_iff_stars _).mp h
    have hdrop := congrArg (List.dropWhile (· = '*')) e
    rw [(takeWhile_stars m rest).2, List.dropWhile_append_of_pos (by simp)] at hdrop
    cases w with
    | nil => cases hdrop
    | cons c w =>
        have hc : c ≠ '*' := fun hc => hhead.1 (by rw [hc]; rfl)
        rw [List.dropWhile_cons_of_neg (by simpa using hc), List.cons.injEq] at hdrop
        exact hhead.2 (by rw [hdrop.1]; rfl)
  · have hstart : trimStart (List.replicate n '*' ++ w) =
        '*' :: (List.replicate (n - 1) '*' ++ w) := by
      obtain ⟨m, rfl⟩ : ∃ m, n = m + 1 := ⟨n - 1, by omega⟩
      rw [List.replicate_succ, List.cons_append, trimStart_cons_of_not_ws (by decide)]
      rfl
    obtain ⟨v, hv⟩ := trimStart_content hstart
    exact blockDepth_of_not_block (not_block_of_trimStart hv (by decide)) 0

/-- A title line replaced by another line: by a heading line, or by bare stars. -/
theorem retitle_chunk {t : Text} {c : Chunk} {bs : List Chunk} (h : chunksOf t = ([], c :: bs)) :
    ∃ w, c.1 = content c.1 ++ w ∧ Blank w ∧
      (∀ n v, 0 < n → '\n' ∉ v →
        chunksOf (stars n v ++ (w ++ (c.2 ++ Segment.join bs).flatten)) =
          ([], (stars n (v ++ w), c.2) :: bs)) ∧
      ∀ n, 0 < n → headCount 0 (List.replicate n '*' ++ (w ++ (c.2 ++ Segment.join bs).flatten)) =
        bs.length := by
  obtain ⟨hraw, -, hc⟩ := (chunksOf_eq_iff _ _ _).mp h
  obtain ⟨-, -, hn, hbs⟩ := (chunks_cons_iff _ _ _).mp hc
  rw [List.nil_append, Segment.join_cons] at hraw
  obtain ⟨w, hw, hcases, hlines⟩ := rawLines_recontent hraw
  have hblank : Blank w := by rcases hcases with rfl | rfl | rfl <;> decide
  refine ⟨w, hw, hblank, fun n v hpos hv => ?_, fun n hpos => ?_⟩
  · refine (chunksOf_eq_iff _ _ _).mpr ⟨?_, trivial, ?_⟩
    · have hnl : '\n' ∉ stars n v := by simp [stars, hv]
      rw [hlines (stars n v) hnl (by simp [stars])]
      simp [stars]
    · exact (chunks_cons_iff _ _ _).mpr ⟨rfl, isHead_stars hpos _, hn, hbs⟩
  · have hnl : '\n' ∉ List.replicate n '*' := by simp
    obtain ⟨hhead, hdepth⟩ := bareLine hpos hcases
    refine headCount_eq_length (p := (List.replicate n '*' ++ w) :: c.2)
      ((chunksOf_eq_iff _ _ _).mpr ⟨?_, ⟨hhead, ?_⟩, ?_⟩)
    · rw [hlines _ hnl (by simp; omega)]
      rfl
    · rw [hdepth]
      exact hn
    · show Chunks (depthAfter (lineDepth 0 _) c.2) bs
      rw [hdepth]
      exact hbs

/-- A line feed ends the title line. -/
theorem retitle_short {n : ℕ} (hn : 0 < n) {v₁ : Text} (hv : '\n' ∉ v₁) (z : Text) :
    ∃ y rest, chunksOf (stars n (v₁ ++ ['\n']) ++ z) = ([], (stars n (v₁ ++ ['\n']), y) :: rest) := by
  obtain ⟨⟨y, rest⟩, hy⟩ : ∃ x, chunksOf z = x := ⟨_, rfl⟩
  have hraw : rawLines (stars n (v₁ ++ ['\n']) ++ z) =
      stars n (v₁ ++ ['\n']) :: ([] ++ rawLines z) := by
    have hnl : '\n' ∉ stars n v₁ := by simp [stars, hv]
    have := rawLines_line_append hnl z
    simpa [stars] using this
  exact ⟨[] ++ y, rest, chunksOf_cons hraw (isHead_stars hn _) trivial rfl hy⟩

theorem ink_stars (n : ℕ) (v : Text) : ink (stars n v) = n + ink v := by
  have e : ink (' ' :: v) = ink v := by simp [ink, isWhitespace]
  rw [stars, ink_append, ink_replicate_star, e]

/-- What is read back from a line has no more ink than the line. -/
theorem ink_readBack {declared : List Text} (hd : [] ∉ declared) {n : ℕ} (hn : 0 < n) {v : Text}
    {ls : List Text} {node : Node} (h : Chunk.node declared (stars n v, ls) = some node)
    {l : HeadingLine} (hl : ⟨node.level, node.todo, trim node.title, node.tags⟩ = l) :
    ink l.render ≤ ink (stars n v) := by
  obtain ⟨level, parsed, ps, body, hlevel, hp, -, rfl⟩ := Chunk.node_eq_some_iff.mp h
  rw [content_stars, headingLevel_stars hn, Option.some.injEq] at hlevel
  subst hlevel
  rw [content_stars, parseHeadingLine_stars n _ hd, Option.some.injEq] at hp
  subst hp
  have hink := parseHeadingRest_ink (content v) declared
  rw [ink_content] at hink
  rw [ink_render, ← hl, ink_stars]
  simp only [ink_trim]
  omega

/-- A line that reads back as it was meant changes the fields it was meant to change. -/
theorem retitled_node {declared : List Text} (hd : [] ∉ declared) {c : Chunk} {n n' : Node}
    {v w : Text} {l : HeadingLine} (h : c.node declared = some n)
    (h' : Chunk.node declared (stars n.level (v ++ w), c.2) = some n')
    (hread : ⟨n'.level, n'.todo, trim n'.title, n'.tags⟩ = l) (hlevel : l.level = n.level)
    (hrender : l.render = stars l.level v) (htitle : trim l.title = l.title) :
    n' = { n with todo := l.todo, title := l.title, tags := l.tags } := by
  obtain ⟨u, body, -, -, -, hr, hbody⟩ := Chunk.node_stars hd h
  obtain ⟨u', body', -, hu', hp', hr', hbody'⟩ := Chunk.node_stars hd h'
  have hlevel' : n'.level = n.level := by rw [← hlevel, ← hread]
  have hu' : u' = content (v ++ w) := by
    rw [content_stars, hlevel'] at hu'
    exact (stars_inj hu').symm
  rw [hr, Option.some.injEq, Prod.mk.injEq] at hr'
  have ht : n'.title = l.title := by
    have htrim := trimEnd_title u' declared
    by_cases h0 : l.title = []
    · have hb : Blank n'.title := by
        rw [← trim_eq_nil_iff, ← h0, ← hread]
      rw [hp'] at htrim
      exact htrim.symm.trans (((trimEnd_eq_nil_iff _).mpr hb).trans h0.symm)
    · have : trim (parseHeadingRest u' declared).title = (parseHeadingRest u' declared).title := by
        refine trim_title fun htodo => ?_
        rw [hp'] at htodo
        obtain ⟨x, hx⟩ := render_title (l := l) (by rw [← hread]; exact htodo) h0
        rw [hrender] at hx
        obtain ⟨a, as, has⟩ := List.exists_cons_of_ne_nil h0
        obtain ⟨z, hz⟩ := content_isPrefix (v ++ w)
        intro c hc
        rw [← hu', stars_inj hx, has] at hz
        have hca : c = a := by
          cases u' with
          | nil => cases hc
          | cons b u' =>
              have hb : b = a := (List.cons.inj hz).1
              have hc : b = c := by simpa using hc
              rw [← hc, hb]
        rw [hca]
        exact trimStart_head ((trimStart_of_trim_eq htitle).trans has)
      rw [hp'] at this
      exact this.symm.trans (congrArg HeadingLine.title hread)
  obtain ⟨level, todo, title, tags, ps, b⟩ := n'
  rw [Node.mk.injEq]
  refine ⟨hlevel', congrArg HeadingLine.todo hread, ht, congrArg HeadingLine.tags hread,
    hr'.1.symm, ?_⟩
  rw [hbody, hr'.2]
  exact hbody'

/-! ### The edit -/

/-- The chunks of the text with another title line. -/
theorem retitle_cut {source : Text} {P : List Text} {as bs : List Chunk} {c : Chunk} {w : Text}
    (h : chunksOf source = (P, as ++ c :: bs)) (hw : c.1 = content c.1 ++ w) (u : Text) :
    replaceRange source ⟨(frontText P as).length,
        (frontText P as).length + (content c.1).length⟩ u =
      frontText P as ++ (u ++ (w ++ (c.2 ++ Segment.join bs).flatten)) := by
  have e : source = frontText P as ++ content c.1 ++ (w ++ (c.2 ++ Segment.join bs).flatten) := by
    rw [text_of_chunksOf h, Chunk.text, Chunk.lines, List.flatten_cons]
    conv_lhs => rw [hw]
    simp
  rw [e, replaceRange_append_three]
  simp

/-- The chunk in the place of a heading that is found by its id holds the heading that is found. -/
theorem found_chunk {s d s' d' id : Text} {f f' : OrgFile} (h : OrgFile.parse s d = .ok f)
    (h' : OrgFile.parse s' d' = .ok f') {P : List Text} {as bs rest : List Chunk} {c c' : Chunk}
    (hc : chunksOf s = (P, as ++ c :: bs)) (hc' : chunksOf s' = (P, as ++ c' :: rest))
    {pre post : List HeadingInfo} {i : HeadingInfo} (hsplit : f.infos = pre ++ i :: post)
    (has : as.map (Chunk.node f.declared) = pre.map fun j => some (j.node s))
    (hpre : ∀ i ∈ pre, i.property "ID".toList ≠ some id) (hi : i.property "ID".toList = some id)
    (hkeys : f'.infos.map HeadingInfo.key = f.infos.map HeadingInfo.key) {g' : Heading}
    (hg' : f'.findById id = some g') :
    ∃ pre' post', f'.infos = pre' ++ g'.toHeadingInfo :: post' ∧
      pre'.map (HeadingInfo.node s') = pre.map (HeadingInfo.node s) ∧
      c'.node f.declared = some (g'.node s') ∧
      rest.map (Chunk.node f.declared) = post'.map fun j => some (j.node s') := by
  obtain ⟨pre', i', post', hsplit', hpre', hi', hpost'⟩ := infos_of_chunks h' hc'
  rw [← declared_of_prelude h h' (by rw [hc, hc'])] at hpre' hi' hpost'
  have hnodes := map_node_inj (hpre'.symm.trans has)
  obtain ⟨hkey, -⟩ := keys_split hkeys hsplit hsplit' (by simpa using congrArg List.length hnodes)
  obtain rfl := found_at h' hg' hsplit' (no_id_of_nodes hnodes hpre)
    ((congrArg Prod.snd hkey).trans hi)
  exact ⟨pre', post', hsplit', hnodes, hi', hpost'⟩

theorem editHeadingLine_nodes {id : Text} {edit : HeadingLineEdit} {r r₁ : OrgRewriter}
    {f : OrgFile} (hf : r.view = .ok f)
    (h : (OrgRewriter.editHeadingLine id edit).run r = .ok () r₁) :
    ∃ f' g g', r₁.view = .ok f' ∧ f.findById id = some g ∧ f'.findById id = some g' ∧
      Replaces f f' g.toHeadingInfo g'.toHeadingInfo ∧
      g'.node f'.source = { g.node f.source with
        title := (edit.title.map trim).getD (trim g.title), tags := edit.tags.getD g.tags } := by
  obtain ⟨f₁, g, f', g', hv, hg, hv', htext, hkeys, hg', hread⟩ := OrgRewriter.editHeadingLine_ok h
  obtain rfl : f₁ = f := by
    rw [hf, Except.ok.injEq] at hv
    exact hv.symm
  obtain ⟨hid, pre, post, hsub, hpre⟩ := findById_place hf hg
  have hsplit := hsub.split
  rw [flatten_eq, List.append_assoc, List.cons_append] at hsplit
  obtain ⟨P, as, c, bs, hc, has, hi, hbs⟩ := exists_chunk hf hsplit
  have hz : chunksOf (c.text ++ (Segment.join bs).flatten) = ([], c :: bs) := by
    have := chunksOf_tail hc
    rwa [Segment.join_cons, ← List.cons_append, List.flatten_append] at this
  obtain ⟨w, hw, hblank, hline, hbare⟩ := retitle_chunk hz
  have hfront := front_of_chunksOf hc
  rw [readHeading_titleLine hi, retitle_cut hc hw] at htext
  have hcnode : c.node f₁.declared = some (g.node r.currentText) := by
    rw [readHeading_node ((Segment.join bs).flatten) hi, List.append_assoc, ← text_of_chunksOf hc]
  have hhead := ((chunks_cons_iff _ _ _).mp ((chunksOf_eq_iff _ _ _).mp hz).2.2).2.1
  have hlevel : 0 < g.level := by
    rw [readHeading_level hi]
    exact level_pos_of_isHead hhead
  have hd := f₁.declared_ne_nil
  generalize hl : OrgRewriter.HeadingLineEdit.expected edit (HeadingLine.of g) = l at htext hread
  have hlevel' : l.level = g.level := by
    rw [← hl]
    rfl
  have htitle : trim l.title = l.title := by
    rw [← hl]
    unfold OrgRewriter.HeadingLineEdit.expected
    cases edit.title with
    | none => exact trim_trim g.title
    | some t => exact trim_trim t
  have htodo : ∀ t ∈ l.todo, '\n' ∉ t := by
    intro t ht hnl
    obtain ⟨u, -, -, hu, hp, -⟩ := Chunk.node_stars hd hcnode
    have ht : (parseHeadingRest u f₁.declared).todo = some t := by
      rw [hp]
      rw [← hl] at ht
      exact ht
    have hmem : c.1 ∈ rawLines (c.text ++ (Segment.join bs).flatten) := by
      rw [((chunksOf_eq_iff _ _ _).mp hz).1]
      simp
    refine no_newline_content hmem ?_
    rw [hu]
    have := mem_of_mem_todo ht hnl
    simp [stars, this]
  -- the line is a heading line, or there is a heading less
  rcases render_cases l with hrender | ⟨v, hrender⟩
  · rw [hrender, hlevel'] at htext
    have hcount := headCount_front hfront
      (List.replicate g.level '*' ++ (w ++ (c.2 ++ Segment.join bs).flatten))
    rw [hbare _ hlevel, ← htext] at hcount
    have h0 : headCount 0 r₁.currentText = (chunksOf r₁.currentText).2.length :=
      headCount_eq_length rfl
    have h1 := congrArg List.length (nodes_of_parse hv')
    have h2 := congrArg List.length hkeys
    have h3 := congrArg List.length (nodes_of_parse hf)
    rw [hc] at h3
    simp only [List.length_map, List.length_append, List.length_cons] at h1 h2 h3
    omega
  · rw [hrender, hlevel'] at htext
    by_cases hnl : '\n' ∈ v
    · -- only a part of the line is read back, and the rest of it is not blank
      obtain ⟨v₁, v₂, rfl, hv₁⟩ := List.eq_append_cons_of_mem hnl
      obtain ⟨y, rest, hx⟩ := retitle_short hlevel hv₁
        (v₂ ++ (w ++ (c.2 ++ Segment.join bs).flatten))
      have hc' : chunksOf r₁.currentText =
          (P, as ++ (stars g.level (v₁ ++ ['\n']), y) :: rest) := by
        rw [htext, ← hfront.chunksOf_append hx]
        simp [stars]
      obtain ⟨-, -, -, -, hnode', -⟩ :=
        found_chunk hf hv' hc hc' hsplit has hpre hid hkeys hg'
      have hink := ink_readBack hd hlevel hnode' hread
      have htrim := trimEnd_render htitle htodo (by rw [hrender]; simp [stars])
      rw [hrender, hlevel', ink_stars, ink_stars] at hink
      rw [hrender] at htrim
      have hb : Blank ('\n' :: v₂) := by
        rw [← ink_eq_zero_iff]
        have e : v₁ ++ '\n' :: v₂ = v₁ ++ ['\n'] ++ v₂ := by simp
        rw [e, ink_append] at hink
        have hnl : ink ('\n' :: v₂) = ink v₂ := by simp [ink, isWhitespace]
        omega
      have e : stars l.level (v₁ ++ '\n' :: v₂) = stars l.level v₁ ++ '\n' :: v₂ := by simp [stars]
      rw [e, trimEnd_append_blank hb] at htrim
      have hlen := congrArg List.length htrim
      have hle := (List.rdropWhile_prefix isWhitespace (l := stars l.level v₁)).length_le
      rw [List.length_append, List.length_cons] at hlen
      unfold trimEnd at hlen
      omega
    · have hc' : chunksOf r₁.currentText = (P, as ++ (stars g.level (v ++ w), c.2) :: bs) := by
        rw [htext]
        exact hfront.chunksOf_append (hline _ v hlevel hnl)
      obtain ⟨pre', post', hsplit', hpre', hnode', hpost'⟩ :=
        found_chunk hf hv' hc hc' hsplit has hpre hid hkeys hg'
      have hsource := (readFlat_of_parse hf).1
      have hsource' := (readFlat_of_parse hv').1
      refine ⟨f', g, g', hv', hg, hg', ⟨pre, _, pre', post', hsplit, hsplit', ?_, ?_⟩, ?_⟩
      · rw [hsource, hsource', hpre']
      · rw [hsource, hsource']
        exact map_node_inj (hpost'.symm.trans hbs)
      · rw [hsource, hsource', retitled_node hd hcnode hnode' hread hlevel' hrender htitle, ← hl]
        rfl

theorem editHeadingLine_done_iff {id : Text} {edit : HeadingLineEdit} {r r₁ : OrgRewriter}
    {f : OrgFile} (hf : r.view = .ok f)
    (h : (OrgRewriter.editHeadingLine id edit).run r = .ok () r₁) :
    (∃ f', r₁.view = .ok f' ∧ GuardedEdit.Done f f' (.editHeadingLine id edit)) ↔
      GuardedEdit.Safe f (.editHeadingLine id edit) := by
  obtain ⟨f', g, g', hv', hg, hg', hrep, hnode⟩ := editHeadingLine_nodes hf h
  constructor
  · rintro ⟨f₂, hv₂, g₁, g₂, hg₁, hg₂, -, hnode₂⟩ g₀ hg₀ hnone
    obtain rfl : f₂ = f' := by
      rw [hv', Except.ok.injEq] at hv₂
      exact hv₂.symm
    obtain rfl : g₂ = g' := by
      rw [hg', Option.some.injEq] at hg₂
      exact hg₂.symm
    obtain rfl : g₁ = g := by
      rw [hg, Option.some.injEq] at hg₁
      exact hg₁.symm
    obtain rfl : g₁ = g₀ := by
      rw [hg, Option.some.injEq] at hg₀
      exact hg₀
    have ht := congrArg Node.title (hnode.symm.trans hnode₂)
    simpa [hnone] using ht
  · intro hsafe
    refine ⟨f', hv', g, g', hg, hg', hrep, ?_⟩
    rw [hnode]
    cases ht : edit.title with
    | none => rw [Option.map_none, Option.getD_none, Option.getD_none, hsafe g hg ht]
    | some t => rfl

end Orgasmic
