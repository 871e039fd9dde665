import Orgasmic.OrgReadBack
import Orgasmic.OrgTrim

/-! # Bodies that are accepted

When a body may be replaced, and what the document is afterwards.

* **Headers.** `Header`: the lines of a heading up to its body, each with its line feed.  Whatever
  lines follow are its body.
* **Places.** `BodyPlace` cuts the source at the body of a heading.  A text without heading lines
  that leaves no block open, or that nothing follows, takes the place of the body and leaves every
  other heading as it was (`BodyPlace.reparse`).
* **Lookups.** The heading and the section that were found before are found again
  (`node_found`, `section_found`), so both guards of a body write pass. -/

namespace Orgasmic

open Text

/-! ### Headers -/

/-- The first line opens no drawer. -/
def NoDrawer (rs : List Text) : Prop := ∀ r ∈ rs.head?, trim r ≠ ":PROPERTIES:".toList

/-- A heading line and its drawer, if there is one, in front of any body. -/
structure Header (declared : List Text) (n : Node) (title : Text) (ds : List Text) : Prop where
  terminated : ∀ l ∈ title :: ds, Terminated l
  head : isHead 0 title = true
  noHead : NoHead 0 ds
  depth : depthAfter 0 ds = 0
  node : ∀ y, (ds = [] → NoDrawer y) →
    Chunk.node declared (title, ds ++ y) = some { n with body := trimEnd y.flatten }

variable {declared : List Text}

/-- A node with another body, from what is read of the title line and of the lines below it. -/
theorem node_with_body {c : Chunk} {n : Node} {title : Text} {ds y : List Text}
    (hn : c.node declared = some n) (hlevel : headingLevel (content title) = some n.level)
    (hparsed : parseHeadingLine (content title) n.level declared = some ⟨n.todo, n.title, n.tags⟩)
    (hr : readPairs (ds ++ y) = some (n.properties, y)) :
    Chunk.node declared (title, ds ++ y) = some { n with body := trimEnd y.flatten } := by
  obtain ⟨level, parsed, ps, body, -, -, -, rfl⟩ := Chunk.node_eq_some_iff.mp hn
  exact Chunk.node_eq_some_iff.mpr ⟨level, _, ps, y, hlevel, hparsed, hr, rfl⟩

/-- What is read of the title line of a chunk, also with a line feed added to it. -/
theorem title_read (hd : [] ∉ declared) {c : Chunk} {n : Node} (hn : c.node declared = some n)
    {w : Text} (hw : w = [] ∨ '\n' ∉ c.1 ∧ w = ['\n']) :
    isHead 0 (c.1 ++ w) = true ∧ headingLevel (content (c.1 ++ w)) = some n.level ∧
      parseHeadingLine (content (c.1 ++ w)) n.level declared = some ⟨n.todo, n.title, n.tags⟩ := by
  obtain ⟨u, -, hpos, hu, hp, -⟩ := Chunk.node_stars hd hn
  obtain ⟨v, hv⟩ := content_isPrefix c.1
  have hline : c.1 ++ w = stars n.level (u ++ (v ++ w)) := by
    rw [← hv, hu]
    simp [stars]
  have hrest : parseHeadingRest (content (u ++ (v ++ w))) declared = parseHeadingRest u declared := by
    refine parseHeadingRest_congr ?_ declared
    obtain ⟨x, hx, hc⟩ := content_spec c.1
    have hvx : v = x := List.append_cancel_left (hv.trans hc)
    have hblank : Blank (v ++ w) := by
      rw [hvx, blank_append]
      refine ⟨hx, ?_⟩
      rcases hw with rfl | ⟨-, rfl⟩
      · exact blank_nil
      · decide
    rw [trimEnd_content, trimEnd_append_blank hblank]
  rw [hline]
  refine ⟨isHead_stars hpos _, by rw [content_stars, headingLevel_stars hpos], ?_⟩
  rw [content_stars, parseHeadingLine_stars _ _ hd, hrest, hp]

/-- **The header of a chunk.**  If its last line has no line feed there is no body below it, and
with a line feed it is a header. -/
theorem exists_header (hd : [] ∉ declared) {c : Chunk} {n : Node} (hn : c.node declared = some n)
    (hno : NoHead 0 c.2) {ps : List (Text × Text)} {hdr body : List Text}
    (hpairs : readPairs c.2 = some (ps, body)) (hhdr : c.lines = hdr ++ body)
    (hraw : rawLines hdr.flatten = hdr) (hopen : ¬Closed hdr.flatten → body = []) :
    ∃ title ds, Header declared n title ds ∧ (ds = [] → n.properties = []) ∧
      (Closed hdr.flatten ∧ hdr = title :: ds ∨
        ¬Closed hdr.flatten ∧ (title :: ds).flatten = hdr.flatten ++ ['\n']) := by
  obtain ⟨level, parsed, ps', body', hlevel, hparsed, hr, hnode⟩ := Chunk.node_eq_some_iff.mp hn
  rw [hpairs, Option.some.injEq, Prod.mk.injEq] at hr
  obtain ⟨rfl, rfl⟩ := hr
  have hps : n.properties = ps := by rw [hnode]
  -- the lines of the header, and what its last line becomes
  have hdrawn {ds : List Text} {e : Text} (hc : c.2 = ds ++ e :: body) (hend : trim e = ":END:".toList)
      (hdepth : ∀ k, depthAfter k ds = k) (hsame : ∀ e' body', trim e' = ":END:".toList →
        readPairs (ds ++ e' :: body') = some (ps, body')) {e' : Text} (he' : trim e' = ":END:".toList)
      (hterm : ∀ l ∈ c.1 :: (ds ++ [e']), Terminated l) :
      Header declared n c.1 (ds ++ [e']) := by
    obtain ⟨hhead, hl, hp⟩ := title_read hd hn (.inl rfl)
    rw [List.append_nil] at hhead hl hp
    have hdepth₀ : Segment.run lineDepth 0 ds = 0 := hdepth 0
    have hnl := endLine he' []
    rw [List.append_nil] at hnl
    rw [hc, NoHead, Segment.noHead_append] at hno
    refine ⟨hterm, hhead, ?_, ?_, fun y _ => node_with_body hn hl hp ?_⟩
    · rw [NoHead, Segment.noHead_append, hdepth₀]
      exact ⟨hno.1, hnl.1⟩
    · rw [depthAfter_append, hdepth]
      exact hnl.2
    · rw [hps, List.append_assoc]
      exact hsame e' y he'
  have hbare {w : Text} (hw : w = [] ∨ '\n' ∉ c.1 ∧ w = ['\n']) (hnil : ps = [])
      (hterm : Terminated (c.1 ++ w)) : Header declared n (c.1 ++ w) [] := by
    obtain ⟨hhead, hl, hp⟩ := title_read hd hn hw
    refine ⟨List.forall_mem_singleton.mpr hterm, hhead, trivial, rfl, fun y hy => ?_⟩
    refine node_with_body hn hl hp ?_
    rw [List.nil_append, hps, hnil]
    exact readPairs_of_no_drawer (hy rfl)
  have hshape := readPairs_shape hpairs
  obtain hclosed | hnot := em (Closed hdr.flatten)
  · have hterm : ∀ l ∈ hdr, Terminated l := hraw ▸ terminated_of_closed hclosed
    rcases hshape with ⟨hnil, hb, -⟩ | ⟨ds, e, hc, -, hend, hdepth, hsame, -⟩
    · obtain rfl : hdr = [c.1] := by
        rw [hb] at hhdr
        exact (List.append_cancel_right (show [c.1] ++ c.2 = hdr ++ c.2 from hhdr)).symm
      have hone := hbare (.inl rfl) hnil (by rw [List.append_nil]; exact hterm c.1 (by simp))
      rw [List.append_nil] at hone
      exact ⟨c.1, [], hone, fun _ => hps.trans hnil, .inl ⟨hclosed, rfl⟩⟩
    · obtain rfl : hdr = c.1 :: (ds ++ [e]) := by
        rw [Chunk.lines, hc] at hhdr
        have hsame : (c.1 :: (ds ++ [e])) ++ body = hdr ++ body := by simpa using hhdr
        exact (List.append_cancel_right hsame).symm
      exact ⟨c.1, ds ++ [e], hdrawn hc hend hdepth hsame hend hterm, fun h => by simp at h,
        .inl ⟨hclosed, rfl⟩⟩
  · have hbody := hopen hnot
    rw [hbody, List.append_nil] at hhdr
    obtain ⟨a, b, hab, ha, hb⟩ := exists_last_line hdr.flatten
    have hbne : b ≠ [] := by
      rintro rfl
      rw [List.append_nil] at hab
      exact hnot (hab ▸ ha)
    have hlines : rawLines a ++ [b] = hdr := by
      rw [← hraw, hab, rawLines_append ha, rawLines_of_no_newline hb hbne]
    have hfront : ∀ l ∈ rawLines a, Terminated l := terminated_of_closed ha
    have hlast : Terminated (b ++ ['\n']) := ⟨b, hb, rfl⟩
    rcases hshape with ⟨hnil, hb', -⟩ | ⟨ds, e, hc, -, hend, hdepth, hsame, -⟩
    · rw [hbody] at hb'
      rw [Chunk.lines, ← hb'] at hhdr
      rw [← hhdr] at hlines
      obtain ⟨-, hone⟩ := List.append_inj' (show rawLines a ++ [b] = [] ++ [c.1] from hlines) rfl
      obtain rfl : b = c.1 := (List.cons.inj hone).1
      exact ⟨c.1 ++ ['\n'], [], hbare (.inr ⟨hb, rfl⟩) hnil hlast, fun _ => hps.trans hnil,
        .inr ⟨hnot, by rw [← hhdr]; simp⟩⟩
    · rw [hbody] at hc
      rw [Chunk.lines, hc] at hhdr
      rw [← hhdr] at hlines
      obtain ⟨hinit, hone⟩ := List.append_inj'
        (show rawLines a ++ [b] = (c.1 :: ds) ++ [e] from hlines) rfl
      obtain rfl : b = e := (List.cons.inj hone).1
      have hend' : trim (b ++ ['\n']) = ":END:".toList := by
        rw [trim_append_blank (by decide), hend]
      refine ⟨c.1, ds ++ [b ++ ['\n']], hdrawn (hbody ▸ hc) hend hdepth hsame hend' ?_,
        fun h => by simp at h, .inr ⟨hnot, by rw [← hhdr]; simp⟩⟩
      rw [← List.cons_append, ← hinit]
      exact List.forall_mem_append.mpr ⟨hfront, List.forall_mem_singleton.mpr hlast⟩

/-! ### The place of a body -/

/-- The source cut at the body of the heading `i`: the text before its chunk, its header, its body
and the chunks after it.  A header that ends the source may lack its last line feed. -/
structure BodyPlace (f : OrgFile) (source : Text) (pre : List HeadingInfo) (i : HeadingInfo)
    (post : List HeadingInfo) where
  P : List Text
  as : List Chunk
  bs : List Chunk
  hdr : Text
  title : Text
  ds : List Text
  front : Front P as
  prelude : (chunksOf source).1 = P
  header : Header f.declared (i.node source) title ds
  ended : Closed hdr ∧ hdr = (title :: ds).flatten ∨
    ¬Closed hdr ∧ slice source i.body = [] ∧ bs = [] ∧ (title :: ds).flatten = hdr ++ ['\n']
  text : source = frontText P as ++ (hdr ++ (slice source i.body ++ (Segment.join bs).flatten))
  replaced : ∀ u, replaceRange source i.body u =
    frontText P as ++ (hdr ++ (u ++ (Segment.join bs).flatten))
  start : source.take i.body.start = frontText P as ++ hdr
  bodyClosed : bs ≠ [] → Closed (slice source i.body)
  tail : chunksOf (Segment.join bs).flatten = ([], bs)
  split : f.infos = pre ++ i :: post
  before : as.map (Chunk.node f.declared) = pre.map fun j => some (j.node source)
  after : bs.map (Chunk.node f.declared) = post.map fun j => some (j.node source)
  drawer : ds = [] → (i.node source).properties = []

theorem exists_bodyPlace {source display : Text} {f : OrgFile}
    (hf : OrgFile.parse source display = .ok f) {pre post : List HeadingInfo} {i : HeadingInfo}
    (hsplit : f.infos = pre ++ i :: post) : Nonempty (BodyPlace f source pre i post) := by
  obtain ⟨P, as, c, bs, hc, has, hi, hbs⟩ := exists_chunk hf hsplit
  obtain ⟨ps, hdr, body, hhdr, hpairs, -, hbody⟩ := readHeading_parts hi
  have hcnode : c.node f.declared = some (i.node source) := by
    rw [readHeading_node ((Segment.join bs).flatten) hi, List.append_assoc, ← text_of_chunksOf hc]
  have hz : chunksOf (c.text ++ (Segment.join bs).flatten) = ([], c :: bs) := by
    have := chunksOf_tail hc
    rwa [Segment.join_cons, ← List.cons_append, List.flatten_append] at this
  obtain ⟨hrawc, -, hchunks⟩ := (chunksOf_eq_iff _ _ _).mp hz
  obtain ⟨-, -, hn, -⟩ := (chunks_cons_iff _ _ _).mp hchunks
  have hrawh : rawLines (c.text ++ (Segment.join bs).flatten) = hdr ++ (body ++ Segment.join bs) := by
    rw [hrawc, List.nil_append, Segment.join_cons, ← List.cons_append, ← List.append_assoc,
      ← hhdr, Chunk.lines]
  obtain ⟨hraw, hopen⟩ := rawLines_front hrawh
  have hnil (hnot : ¬Closed hdr.flatten) : body = [] ∧ bs = [] := by
    obtain ⟨hb, hj⟩ := List.append_eq_nil_iff.mp (hopen hnot)
    exact ⟨hb, (Segment.join_eq_nil_iff bs).mp hj⟩
  obtain ⟨title, ds, header, hdrawer, hended⟩ := exists_header f.declared_ne_nil hcnode hn hpairs
    hhdr hraw fun hnot => (hnil hnot).1
  have htext : source = frontText P as ++
      (hdr.flatten ++ (body.flatten ++ (Segment.join bs).flatten)) := by
    rw [text_of_chunksOf hc, Chunk.text, hhdr]
    simp
  have hslice : slice source i.body = body.flatten := by
    have e : source = (frontText P as ++ hdr.flatten) ++ body.flatten ++
        (Segment.join bs).flatten := by
      rw [htext]
      simp
    have hlen : (frontText P as).length + hdr.flatten.length =
        (frontText P as ++ hdr.flatten).length := by simp
    rw [hbody, hlen, e]
    exact slice_append_three _ _ _
  refine ⟨⟨P, as, bs, hdr.flatten, title, ds, front_of_chunksOf hc, by rw [hc], header, ?_, ?_,
    fun u => ?_, ?_, fun hne => ?_, chunksOf_after hc, hsplit, has, hbs, hdrawer⟩⟩
  · refine hended.imp (fun h => ⟨h.1, by rw [h.2]⟩) fun h => ?_
    obtain ⟨hb, hbs⟩ := hnil h.1
    exact ⟨h.1, by rw [hslice, hb]; rfl, hbs, h.2⟩
  · rw [hslice]
    exact htext
  · rw [hbody]
    exact body_cut hc hhdr u
  · rw [hbody, htext, ← List.append_assoc, ← List.length_append, List.take_left]
  · rw [hslice]
    obtain hnil | hbne := em (body.flatten = [])
    · exact .inl hnil
    · rw [List.nil_append, Segment.join_cons, ← List.cons_append] at hrawc
      have hclosed : Closed c.lines.flatten :=
        closed_flatten (rawLines_split hrawc (mt (Segment.join_eq_nil_iff bs).mp hne))
      rw [hhdr, List.flatten_append] at hclosed
      exact hclosed.of_append hbne

namespace BodyPlace

variable {f : OrgFile} {source : Text} {pre post : List HeadingInfo} {i : HeadingInfo}
  (t : BodyPlace f source pre i post)

/-- A text that may stand below the header: no heading line, no open block in front of a heading,
and no drawer below a bare title line. -/
structure Fits (u : Text) : Prop where
  noHead : NoHead 0 (rawLines u)
  followed : t.bs = [] ∨ Closed u ∧ depthAfter 0 (rawLines u) = 0
  noDrawer : t.ds = [] → NoDrawer (rawLines u)

/-- The chunks of the text with another body. -/
theorem chunksOf_fitting {u : Text} (h : t.Fits u) :
    chunksOf (frontText t.P t.as ++
        ((t.title :: t.ds).flatten ++ (u ++ (Segment.join t.bs).flatten))) =
      (t.P, t.as ++ (t.title, t.ds ++ rawLines u) :: t.bs) := by
  refine t.front.chunksOf_append ?_
  have hraw : rawLines ((t.title :: t.ds).flatten ++ (u ++ (Segment.join t.bs).flatten)) =
      t.title :: (t.ds ++ rawLines (u ++ (Segment.join t.bs).flatten)) :=
    rawLines_flatten_append t.header.terminated _
  refine chunksOf_cons hraw t.header.head t.header.noHead t.header.depth ?_
  obtain ⟨htail, -, hchunks⟩ := (chunksOf_eq_iff _ _ _).mp t.tail
  rcases h.followed with hnil | ⟨hclosed, hdepth⟩
  · rw [hnil, Segment.join_nil, List.flatten_nil, List.append_nil]
    exact (chunksOf_eq_iff _ _ _).mpr ⟨by simp, h.noHead, trivial⟩
  · refine (chunksOf_eq_iff _ _ _).mpr ⟨?_, h.noHead, ?_⟩
    · rw [rawLines_append hclosed, htail, List.nil_append]
    · rw [hdepth]
      exact hchunks.zero

/-- **The document with another body** has the headings it had, and the new text as this body. -/
theorem reparse {display display' source' : Text} (hf : OrgFile.parse source display = .ok f)
    {u : Text} (h : t.Fits u) (hsource' : source' = frontText t.P t.as ++
      ((t.title :: t.ds).flatten ++ (u ++ (Segment.join t.bs).flatten))) :
    ∃ f' pre' i' post', OrgFile.parse source' display' = .ok f' ∧ f'.infos = pre' ++ i' :: post' ∧
      pre'.map (HeadingInfo.node source') = pre.map (HeadingInfo.node source) ∧
      i'.node source' = { i.node source with body := trimEnd u } ∧
      post'.map (HeadingInfo.node source') = post.map (HeadingInfo.node source) := by
  have hc' := t.chunksOf_fitting h
  rw [← hsource'] at hc'
  have hnode := t.header.node (rawLines u) h.noDrawer
  rw [rawLines_flatten] at hnode
  obtain ⟨-, hflat, -, -⟩ := readFlat_of_parse hf
  obtain ⟨declared, hkeywords, -, hstepped⟩ := (readFlat_eq_some_iff _ _ _).mp hflat
  obtain rfl : declared = f.declared := readKeywords_declared rfl hkeywords
  rw [t.prelude] at hkeywords
  have hlevel {cs : List Chunk} {infos : List HeadingInfo}
      (hcs : cs.map (Chunk.node f.declared) = infos.map fun j => some (j.node source)) :
      cs.map Chunk.level = infos.map fun j => j.level := by
    have hmap := congrArg (List.map fun n : Option Node => (n.map Node.level).getD 0) hcs
    rw [List.map_map, List.map_map] at hmap
    refine Eq.trans (List.map_congr_left fun c hc => ?_) hmap
    obtain ⟨n, hn⟩ := exists_node_of_mem hcs c hc
    rw [Function.comp_apply, hn]
    exact Chunk.node_level hn
  have hlevels : (t.as ++ (t.title, t.ds ++ rawLines u) :: t.bs).map Chunk.level =
      (chunksOf source).2.map Chunk.level := by
    rw [hlevel (nodes_of_parse hf), t.split, List.map_append, List.map_append, List.map_cons,
      List.map_cons, hlevel t.before, hlevel t.after, Chunk.node_level hnode]
    rfl
  obtain ⟨f', hf', -, -⟩ := parse_chunks display' hc' hkeywords (fun c hc => by
    rcases List.mem_append.mp hc with hc | hc
    · exact exists_node_of_mem t.before c hc
    · rcases List.mem_cons.mp hc with rfl | hc
      · exact ⟨_, hnode⟩
      · exact exists_node_of_mem t.after c hc) (hlevels ▸ hstepped)
  obtain ⟨pre', i', post', hsplit', hpre', hi', hpost'⟩ := infos_of_chunks hf' hc'
  rw [← declared_of_prelude hf hf' (by rw [t.prelude, hc'])] at hpre' hi' hpost'
  rw [hnode, Option.some.injEq] at hi'
  exact ⟨f', pre', i', post', hf', hsplit', map_node_inj (hpre'.symm.trans t.before), hi'.symm,
    map_node_inj (hpost'.symm.trans t.after)⟩

theorem closed_iff : Closed (source.take i.body.start) ↔ Closed t.hdr := by
  rw [t.start]
  refine ⟨fun h => h.of_append ?_, fun h => t.front.closed.append h⟩
  have hne : (t.title :: t.ds).flatten ≠ [] ∧ (t.title :: t.ds).flatten ≠ ['\n'] := by
    obtain ⟨n, rest, hpos, hline⟩ := (isHead_zero_iff_stars _).mp t.header.head
    obtain ⟨k, rfl⟩ := Nat.exists_eq_succ_of_ne_zero hpos.ne'
    rw [List.flatten_cons, hline, stars, List.replicate_succ]
    simp
  rcases t.ended with ⟨-, heq⟩ | ⟨-, -, -, heq⟩
  · exact heq ▸ hne.1
  · rintro hnil
    exact hne.2 (by rw [heq, hnil]; rfl)

theorem replaced_closed (h : Closed t.hdr) (u : Text) :
    replaceRange source i.body u = frontText t.P t.as ++
      ((t.title :: t.ds).flatten ++ (u ++ (Segment.join t.bs).flatten)) := by
  rcases t.ended with ⟨-, heq⟩ | ⟨hnot, -⟩
  · rw [t.replaced u, heq]
  · exact absurd h hnot

/-- A line feed ends the header that ends the source. -/
theorem replaced_open (h : ¬Closed t.hdr) (u : Text) :
    replaceRange source i.body ('\n' :: u) = frontText t.P t.as ++
      ((t.title :: t.ds).flatten ++ (u ++ (Segment.join t.bs).flatten)) := by
  rcases t.ended with ⟨hclosed, -⟩ | ⟨-, -, -, heq⟩
  · exact absurd hclosed h
  · rw [t.replaced, heq]
    simp

end BodyPlace

/-! ### Lookups -/

section lookups
variable {source source' display display' id : Text} {f f' : OrgFile} {pre' post' : List HeadingInfo}
  {i' : HeadingInfo} {u : Text}

/-- With the levels and ids as they were, the heading is found in the place where it was. -/
theorem found_again (hf : OrgFile.parse source display = .ok f)
    (hf' : OrgFile.parse source' display' = .ok f') {g : Heading} (hg : f.findById id = some g)
    (hkeys : f'.infos.map HeadingInfo.key = f.infos.map HeadingInfo.key)
    {pre post : List HeadingInfo} (hsub : Subtree f.infos pre post source.length g)
    (hpre : ∀ i ∈ pre, i.property "ID".toList ≠ some id) :
    ∃ g' pre' post', f'.findById id = some g' ∧
      Subtree f'.infos pre' post' source'.length g' ∧ pre'.length = pre.length ∧
      (Heading.flattenAll g'.sections).length = (Heading.flattenAll g.sections).length := by
  have hid := (findById_place hf hg).1
  have hsplit := hsub.split
  rw [flatten_eq, List.append_assoc, List.cons_append] at hsplit
  rw [hsplit, List.map_append, List.map_cons, List.map_append, ← List.cons_append,
    ← List.append_assoc] at hkeys
  obtain ⟨g', pre', post', hg', hsub', hpre', -, hms, -⟩ := findById_of_keys hf' hkeys
    (by
      intro x hx
      obtain ⟨i, hi, rfl⟩ := List.mem_map.mp hx
      exact hpre i hi) hid
    (by
      intro x hx
      obtain ⟨i, hi, rfl⟩ := List.mem_map.mp hx
      exact hsub.level_lt i hi)
    (by
      intro x hx
      rw [List.head?_map] at hx
      obtain ⟨i, hi, rfl⟩ := Option.mem_map.mp hx
      exact (hsub.next i hi).1)
  exact ⟨g', pre', post', hg', hsub', by simpa using congrArg List.length hpre',
    by simpa using congrArg List.length hms⟩

/-- The nodes around a body say what the levels and ids are. -/
theorem keys_with_body {pre post : List HeadingInfo} {i : HeadingInfo} (hsplit : f.infos = pre ++ i :: post)
    (hsplit' : f'.infos = pre' ++ i' :: post')
    (hpre' : pre'.map (HeadingInfo.node source') = pre.map (HeadingInfo.node source))
    (hi' : i'.node source' = { i.node source with body := trimEnd u })
    (hpost' : post'.map (HeadingInfo.node source') = post.map (HeadingInfo.node source)) :
    f'.infos.map HeadingInfo.key = f.infos.map HeadingInfo.key := by
  have hkey : i'.key = i.key := by
    rw [← HeadingInfo.node_key source', hi', ← HeadingInfo.node_key source]
    rfl
  rw [hsplit, hsplit', List.map_append, List.map_append, List.map_cons, List.map_cons, hkey,
    keys_of_nodes hpre', keys_of_nodes hpost']

/-- The heading whose body was replaced is found by its id. -/
theorem node_found (hf : OrgFile.parse source display = .ok f)
    (hf' : OrgFile.parse source' display' = .ok f') {g : Heading} (hg : f.findById id = some g)
    {pre post : List HeadingInfo} (hsplit : f.infos = pre ++ g.toHeadingInfo :: post)
    (hpre : ∀ i ∈ pre, i.property "ID".toList ≠ some id)
    (hsplit' : f'.infos = pre' ++ i' :: post')
    (hpre' : pre'.map (HeadingInfo.node source') = pre.map (HeadingInfo.node source))
    (hi' : i'.node source' = { g.node source with body := trimEnd u })
    (hpost' : post'.map (HeadingInfo.node source') = post.map (HeadingInfo.node source)) :
    ∃ g', f'.findById id = some g' ∧ g'.toHeadingInfo = i' := by
  obtain ⟨hid, pre₀, post₀, hsub, hpre₀⟩ := findById_place hf hg
  obtain ⟨g', -, -, hg', -⟩ := found_again hf hf' hg
    (keys_with_body hsplit hsplit' hpre' hi' hpost') hsub hpre₀
  refine ⟨g', hg', found_at hf' hg' hsplit' (no_id_of_nodes hpre' hpre) ?_⟩
  rw [← HeadingInfo.node_property source', hi']
  exact (HeadingInfo.node_property source g.toHeadingInfo _).trans hid

/-- The section whose body was replaced is found by its title. -/
theorem section_found (hf : OrgFile.parse source display = .ok f)
    (hf' : OrgFile.parse source' display' = .ok f') {g s : Heading} {title : Text}
    (hg : f.findById id = some g) (hs : g.section? title = some s)
    {pre post ps qs : List HeadingInfo} (hsub : Subtree f.infos pre post source.length g)
    (hpre : ∀ i ∈ pre, i.property "ID".toList ≠ some id)
    (hsubs : Subtree (Heading.flattenAll g.sections) ps qs g.span.stop s)
    (hps : ∀ i ∈ ps, ¬(i.level = g.level + 1 ∧ i.title = title))
    (hkeys : f'.infos.map HeadingInfo.key = f.infos.map HeadingInfo.key)
    (hsplit' : f'.infos = pre' ++ i' :: post')
    (hpre' : pre'.map (HeadingInfo.node source') =
      (pre ++ g.toHeadingInfo :: ps).map (HeadingInfo.node source))
    (hi' : i'.node source' = { s.node source with body := trimEnd u }) :
    ∃ g' s', f'.findById id = some g' ∧ g'.section? title = some s' ∧ s'.toHeadingInfo = i' := by
  obtain ⟨⟨hlevel, htitle⟩, -⟩ := section_place hsub hs
  obtain ⟨g', pre₁, post₁, hg', hsub', hlen, hlens⟩ := found_again hf hf' hg hkeys hsub hpre
  -- the headings before the section are those before `g`, `g` itself and those between
  rw [List.map_append, List.map_cons] at hpre'
  obtain ⟨pre₂, ps₀, rfl, hpre₂, hps₀⟩ := List.map_eq_append_iff.mp hpre'
  obtain ⟨g₂, ps₂, rfl, hg₂, hps₂⟩ := List.map_eq_cons_iff.mp hps₀
  have hsplit₁ := hsub'.split
  rw [flatten_eq, List.append_assoc, List.cons_append, hsplit', List.append_assoc,
    List.cons_append] at hsplit₁
  obtain ⟨-, hfrom⟩ := List.append_inj hsplit₁ (by
    rw [hlen]
    simpa using congrArg List.length hpre₂)
  obtain ⟨rfl, hrest⟩ := List.cons.inj hfrom
  have hlenps : ps₂.length = ps.length := by simpa using congrArg List.length hps₂
  have hlensub := congrArg List.length hsubs.split
  rw [flatten_eq] at hlensub
  simp only [List.length_append, List.length_cons] at hlensub
  have hglevel : g'.level = g.level := congrArg Node.level hg₂
  have hps' : ∀ j ∈ ps₂, ¬(j.level = g'.level + 1 ∧ j.title = title) := by
    rw [hglevel]
    exact forall_node hps₂ (p := fun n => ¬(n.level = g.level + 1 ∧ n.title = title)) hps
  have hown : i'.level = g'.level + 1 ∧ i'.title = title := by
    rw [hglevel, ← hlevel, ← htitle]
    exact ⟨congrArg Node.level hi', congrArg Node.title hi'⟩
  have hmem : i' ∈ Heading.flattenAll g'.sections := by
    have hat : (Heading.flattenAll g'.sections ++ post₁)[ps₂.length]? = some i' := by
      rw [← hrest, List.getElem?_append_right le_rfl, Nat.sub_self]
      rfl
    rw [List.getElem?_append_left (by omega)] at hat
    exact List.mem_of_getElem? hat
  have hspec := find_section_spec title g'.sections ((laid_iff g').mp hsub'.laid).2.2.2
  cases hfind : g'.section? title with
  | none =>
      rw [show g'.sections.find? (fun s => s.title = title) = none from hfind] at hspec
      exact absurd hown.2 (hspec i' hmem hown.1)
  | some s' =>
      exact ⟨g', s', hg', hfind, section_of_candidate hsub' hfind hrest.symm hps' (.inl hown)⟩

end lookups

namespace OrgRewriter

variable {r : OrgRewriter} {id : Text}

theorem run_assertBodyRoundTrip {f' : OrgFile} (hf' : r.view = .ok f') {g' : Heading}
    (hg' : f'.findById id = some g') {target : BodyTarget} {submitted : Text}
    (hread : target.read f' g' = some (trim submitted)) :
    (assertBodyRoundTrip id target submitted).run r = .ok () r := by
  simp only [assertBodyRoundTrip, EStateM.run, hf', hg', Option.bind_some, hread, if_true]

end OrgRewriter

/-- What a body reads back as. -/
theorem trim_of_node_body {source' : Text} {i' : HeadingInfo} {n : Node} {u : Text}
    (h : i'.node source' = { n with body := trimEnd u }) : trim (slice source' i'.body) = trim u := by
  have hbody : trimEnd (slice source' i'.body) = trimEnd u := congrArg Node.body h
  rw [← trim_trimEnd, hbody, trim_trimEnd]

/-! ### Writes that pass their guards -/

namespace OrgRewriter

variable {r : OrgRewriter} {f : OrgFile} {id : Text} {g : Heading}

theorem setSectionBody_of_guards (hf : r.view = .ok f) (hg : f.findById id = some g) {title : Text}
    {s : Heading} (hs : g.section? title = some s) {u : Text} {f' : OrgFile} {g' s' : Heading}
    (hview : (r.replaced s.body u).view = .ok f')
    (hkeys : f'.infos.map HeadingInfo.key = f.infos.map HeadingInfo.key)
    (hg' : f'.findById id = some g') (hs' : g'.section? title = some s')
    (hread : trim (f'.slice s'.body) = trim u) :
    (setSectionBody id title u).run r = .ok () (r.replaced s.body u) := by
  have view : parseView.run r = .ok f r := by simp only [parseView, EStateM.run, hf]
  have find : (headingOrErr f id).run r = .ok g r := by simp only [headingOrErr, EStateM.run, hg]
  have found : (sectionOrErr g id title).run r = .ok s r := by
    simp only [sectionOrErr, EStateM.run, hs]
  have structure_ok := run_assertStructuralInvariant hview hkeys
  have body_ok : (assertBodyRoundTrip id (.ofSection title) u).run (r.replaced s.body u) =
      .ok () (r.replaced s.body u) := run_assertBodyRoundTrip hview hg' (by
    rw [BodyTarget.read, hs', Option.map_some, hread])
  simp only [setSectionBody, EStateM.run_bind, view, find, found, run_replaceWithView, snapshot_eq,
    structure_ok, body_ok]

theorem setNodeBody_of_guards (hf : r.view = .ok f) (hg : f.findById id = some g) {content : Text}
    {f' : OrgFile} {g' : Heading}
    (hview : (r.replaced g.body (nodeBodyReplacement (f.slice g.body) content)).view = .ok f')
    (hkeys : f'.infos.map HeadingInfo.key = f.infos.map HeadingInfo.key)
    (hg' : f'.findById id = some g') (hread : trim (f'.slice g'.body) = trim content) :
    (setNodeBody id content).run r =
      .ok () (r.replaced g.body (nodeBodyReplacement (f.slice g.body) content)) := by
  have view : parseView.run r = .ok f r := by simp only [parseView, EStateM.run, hf]
  have find : (headingOrErr f id).run r = .ok g r := by simp only [headingOrErr, EStateM.run, hg]
  have structure_ok := run_assertStructuralInvariant hview hkeys
  have body_ok : (assertBodyRoundTrip id .node (trimEnd content)).run
      (r.replaced g.body (nodeBodyReplacement (f.slice g.body) content)) =
        .ok () (r.replaced g.body (nodeBodyReplacement (f.slice g.body) content)) :=
    run_assertBodyRoundTrip hview hg' (by rw [BodyTarget.read, hread, trim_trimEnd])
  simp only [setNodeBody, EStateM.run_bind, view, find, run_replaceWithView, snapshot_eq,
    structure_ok, body_ok]

/-- **A section body that fits is accepted** and reads back. -/
theorem setSectionBody_accepted (hf : r.view = .ok f) (hg : f.findById id = some g) {title : Text}
    {s : Heading} (hs : g.section? title = some s) :
    ∃ pre post, ∃ t : BodyPlace f r.currentText pre s.toHeadingInfo post, ∀ u v,
      replaceRange r.currentText s.body u = frontText t.P t.as ++
        ((t.title :: t.ds).flatten ++ (v ++ (Segment.join t.bs).flatten)) →
      t.Fits v → trim v = trim u →
      ∃ r' f' g' s', (setSectionBody id title u).run r = .ok () r' ∧ r'.view = .ok f' ∧
        f'.findById id = some g' ∧ g'.section? title = some s' ∧
        trim (f'.slice s'.body) = trim u := by
  obtain ⟨-, pre, post, hsub, hpre⟩ := findById_place hf hg
  obtain ⟨-, ps, qs, hsubs, hps⟩ := section_place hsub hs
  have hsplit : f.infos = (pre ++ g.toHeadingInfo :: ps) ++ s.toHeadingInfo ::
      (Heading.flattenAll s.sections ++ qs ++ post) := by
    rw [hsub.split, flatten_eq, hsubs.split, flatten_eq]
    simp
  obtain ⟨t⟩ := exists_bodyPlace hf hsplit
  refine ⟨_, _, t, fun u v hreplaced hfits htrim => ?_⟩
  obtain ⟨f', pre', i', post', hf', hsplit', hpre', hi', hpost'⟩ := t.reparse hf hfits hreplaced
  have hkeys := keys_with_body hsplit hsplit' hpre' hi' hpost'
  obtain ⟨g', s', hg', hs', rfl⟩ :=
    section_found hf hf' hg hs hsub hpre hsubs hps hkeys hsplit' hpre' hi'
  have hview : (r.replaced s.body u).view = .ok f' := by
    rw [OrgRewriter.view, currentText_replaced]
    exact hf'
  have hread : trim (f'.slice s'.body) = trim u := by
    rw [OrgFile.slice, (readFlat_of_parse hf').1, trim_of_node_body hi', htrim]
  exact ⟨_, f', g', s', setSectionBody_of_guards hf hg hs hview hkeys hg' hs' hread, hview, hg', hs',
    hread⟩

/-- **A node body that fits is accepted** and reads back. -/
theorem setNodeBody_accepted (hf : r.view = .ok f) (hg : f.findById id = some g) :
    ∃ pre post, ∃ t : BodyPlace f r.currentText pre g.toHeadingInfo post, ∀ content v,
      replaceRange r.currentText g.body (nodeBodyReplacement (f.slice g.body) content) =
        frontText t.P t.as ++ ((t.title :: t.ds).flatten ++ (v ++ (Segment.join t.bs).flatten)) →
      t.Fits v → trim v = trim content →
      ∃ r' f' g', (setNodeBody id content).run r = .ok () r' ∧ r'.view = .ok f' ∧
        f'.findById id = some g' ∧ trim (f'.slice g'.body) = trim content := by
  obtain ⟨-, pre, post, hsub, hpre⟩ := findById_place hf hg
  have hsplit := hsub.split
  rw [flatten_eq, List.append_assoc, List.cons_append] at hsplit
  obtain ⟨t⟩ := exists_bodyPlace hf hsplit
  refine ⟨_, _, t, fun content v hreplaced hfits htrim => ?_⟩
  obtain ⟨f', pre', i', post', hf', hsplit', hpre', hi', hpost'⟩ := t.reparse hf hfits hreplaced
  have hkeys := keys_with_body hsplit hsplit' hpre' hi' hpost'
  obtain ⟨g', hg', rfl⟩ := node_found hf hf' hg hsplit hpre hsplit' hpre' hi' hpost'
  have hview : (r.replaced g.body (nodeBodyReplacement (f.slice g.body) content)).view = .ok f' := by
    rw [OrgRewriter.view, currentText_replaced]
    exact hf'
  have hread : trim (f'.slice g'.body) = trim content := by
    rw [OrgFile.slice, (readFlat_of_parse hf').1, trim_of_node_body hi', htrim]
  exact ⟨_, f', g', setNodeBody_of_guards hf hg hview hkeys hg' hread, hview, hg', hread⟩

end OrgRewriter

end Orgasmic
