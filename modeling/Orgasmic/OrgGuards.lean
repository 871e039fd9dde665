import Orgasmic.OrgRewriter
import Orgasmic.OrgSplice

/-! # Guarded edits

What an edit that passed its guards has done to the document.

* **The chunk of a heading.** `exists_chunk` cuts the source at a heading: the lines before its
  chunk, its chunk and the lines after it.
* **Lookups.** The guards compare the levels and ids of the headings (`HeadingInfo.key`).  Keys
  alone decide where `findById` looks (`findById_of_keys`), and with the titles of the headings
  up to the edited one where `section?` does (`section_of_keys`).
* **Bodies.** `body_edit`: a body that reads back with the ink that was put in leaves every other
  heading as it was. -/

namespace Orgasmic

open Text

/-! ### The chunk of a heading -/

def OrgFile.nodes (f : OrgFile) : List Node := f.infos.map (HeadingInfo.node f.source)

/-- The chunks from some chunk on are the chunks of a text. -/
theorem chunksOf_tail {t : Text} {P : List Text} {as bs : List Chunk}
    (h : chunksOf t = (P, as ++ bs)) : chunksOf (Segment.join bs).flatten = ([], bs) := by
  obtain ⟨hraw, -, hc⟩ := (chunksOf_eq_iff _ _ _).mp h
  rw [Chunks, Segment.chunks_append] at hc
  rw [Segment.join_append, ← List.append_assoc] at hraw
  exact (chunksOf_eq_iff _ _ _).mpr ⟨rawLines_suffix hraw, trivial, Chunks.zero hc.2⟩

/-- The chunks after some chunk are the chunks of a text. -/
theorem chunksOf_after {t : Text} {P : List Text} {as bs : List Chunk} {c : Chunk}
    (h : chunksOf t = (P, as ++ c :: bs)) : chunksOf (Segment.join bs).flatten = ([], bs) := by
  rw [← List.singleton_append, ← List.append_assoc] at h
  exact chunksOf_tail h

theorem exists_chunk {source display : Text} {f : OrgFile}
    (h : OrgFile.parse source display = .ok f) {pre post : List HeadingInfo} {i : HeadingInfo}
    (hsplit : f.infos = pre ++ i :: post) :
    ∃ P as c bs, chunksOf source = (P, as ++ c :: bs) ∧
      as.map (Chunk.node f.declared) = pre.map (fun j => some (j.node source)) ∧
      readHeading f.declared (frontText P as).length c = some i ∧
      bs.map (Chunk.node f.declared) = post.map fun j => some (j.node source) := by
  obtain ⟨-, hr, -, -⟩ := readFlat_of_parse h
  obtain ⟨declared, hk, hread, -⟩ := (readFlat_eq_some_iff _ _ _).mp hr
  have hd : declared = f.declared := readKeywords_declared rfl hk
  subst hd
  have hnodes := nodes_of_parse h
  rw [hsplit, List.map_append, List.map_cons] at hnodes
  obtain ⟨as, cs, hcs, has, hrest⟩ := List.map_eq_append_iff.mp hnodes
  obtain ⟨c, bs, rfl, hc, hbs⟩ := List.map_eq_cons_iff.mp hrest
  refine ⟨(chunksOf source).1, as, c, bs, by rw [← hcs], has, ?_, hbs⟩
  rw [hcs, hsplit, place_append] at hread
  obtain ⟨qs, qs', hq, hpre, hpost⟩ := Outline.forall₂_append_right_iff.mp hread
  have hlen : (place (chunksOf source).1.flatten.length as).length = qs.length := by
    have h1 := congrArg List.length has
    have h2 := hpre.length_eq
    rw [← List.length_map Prod.snd, place_map_snd]
    simpa [h2] using h1
  obtain ⟨-, hq'⟩ := List.append_inj hq hlen
  rw [← hq', place] at hpost
  obtain ⟨hi, -⟩ := List.forall₂_cons.mp hpost
  rw [frontText, List.flatten_append, List.length_append]
  exact hi

/-- The keywords are read from the prelude. -/
theorem declared_of_prelude {s s' display display' : Text} {f f' : OrgFile}
    (h : OrgFile.parse s display = .ok f) (h' : OrgFile.parse s' display' = .ok f')
    (hp : (chunksOf s).1 = (chunksOf s').1) : f.declared = f'.declared := by
  obtain ⟨-, hr, -, -⟩ := readFlat_of_parse h
  obtain ⟨-, hr', -, -⟩ := readFlat_of_parse h'
  obtain ⟨declared, hk, -, -⟩ := (readFlat_eq_some_iff _ _ _).mp hr
  obtain ⟨declared', hk', -, -⟩ := (readFlat_eq_some_iff _ _ _).mp hr'
  rw [hp, hk', Option.some.injEq, Prod.mk.injEq] at hk
  rw [OrgFile.declared, OrgFile.declared, ← hk.1]

/-! ### Lookups -/

/-- What the structural guard compares. -/
def HeadingInfo.key (i : HeadingInfo) : ℕ × Option Text := (i.level, i.property "ID".toList)

theorem snapshot_eq (f : OrgFile) :
    headingStructureSnapshot f.headings = f.infos.map HeadingInfo.key := rfl

def Node.key (n : Node) : ℕ × Option Text := (n.level, n.property "ID".toList)

theorem HeadingInfo.node_key (source : Text) (i : HeadingInfo) : (i.node source).key = i.key := by
  rw [Node.key, HeadingInfo.node_property]
  rfl

/-- The heading that a lookup by id finds, and its place. -/
theorem findById_place {source display id : Text} {f : OrgFile}
    (h : OrgFile.parse source display = .ok f) {g : Heading} (hg : f.findById id = some g) :
    g.property "ID".toList = some id ∧ ∃ pre post, Subtree f.infos pre post source.length g ∧
      ∀ i ∈ pre, i.property "ID".toList ≠ some id := by
  obtain ⟨-, -, -, hlaid⟩ := readFlat_of_parse h
  have hs := findByIdIn_spec id f.headings hlaid
  rw [show Heading.findByIdIn id f.headings = some g from hg] at hs
  exact ⟨hs.2.1, hs.2.2⟩

theorem Subtree.level_lt {infos pre post : List HeadingInfo} {stop : ℕ} {g : Heading}
    (h : Subtree infos pre post stop g) :
    ∀ i ∈ Heading.flattenAll g.sections, g.level < i.level :=
  LaidAll.levels g.sections ((laid_iff g).mp h.laid).2.2.2

/-- **Levels and ids decide what a lookup finds.** -/
theorem findById_of_keys {source display id : Text} {f : OrgFile}
    (h : OrgFile.parse source display = .ok f) {ks ms ls : List (ℕ × Option Text)}
    {k : ℕ × Option Text} (hkeys : f.infos.map HeadingInfo.key = ks ++ k :: ms ++ ls)
    (hks : ∀ x ∈ ks, x.2 ≠ some id) (hk : k.2 = some id) (hms : ∀ x ∈ ms, k.1 < x.1)
    (hls : ∀ x ∈ ls.head?, x.1 ≤ k.1) :
    ∃ g pre post, f.findById id = some g ∧ Subtree f.infos pre post source.length g ∧
      pre.map HeadingInfo.key = ks ∧ g.key = k ∧
      (Heading.flattenAll g.sections).map HeadingInfo.key = ms ∧ post.map HeadingInfo.key = ls := by
  cases hf : f.findById id with
  | none =>
      obtain ⟨-, -, -, hlaid⟩ := readFlat_of_parse h
      have hs := findByIdIn_spec id f.headings hlaid
      rw [show Heading.findByIdIn id f.headings = none from hf] at hs
      have hmem : k ∈ f.infos.map HeadingInfo.key := by
        rw [hkeys]
        simp
      obtain ⟨i, hi, rfl⟩ := List.mem_map.mp hmem
      exact absurd hk (hs i hi)
  | some g =>
      obtain ⟨hid, pre, post, hsub, hpre⟩ := findById_place h hf
      refine ⟨g, pre, post, rfl, hsub, ?_⟩
      have e := hsub.split
      rw [flatten_eq, List.append_assoc, List.cons_append] at e
      rw [e, List.map_append, List.map_cons, List.map_append, List.append_assoc,
        List.cons_append] at hkeys
      obtain ⟨h1, h2, h3⟩ := Outline.split_unique (p := fun x => x.2 = some id) hkeys
        (by simpa [HeadingInfo.key] using hpre) hid hks hk
      have hnext : ∀ x ∈ (post.map HeadingInfo.key).head?, ¬ k.1 < x.1 := by
        intro x hx
        rw [List.head?_map] at hx
        obtain ⟨i, hi, rfl⟩ := Option.mem_map.mp hx
        have := (hsub.next i hi).1
        rw [← h2]
        exact Nat.not_lt.mpr this
      obtain ⟨h4, h5⟩ := Outline.span_unique (p := fun x => k.1 < x.1) h3
        (by
          rw [← h2]
          simpa [HeadingInfo.key] using hsub.level_lt)
        hnext hms (fun x hx => Nat.not_lt.mpr (hls x hx))
      exact ⟨h1, h2, h4, h5⟩

/-- The section that a lookup by title finds, and its place. -/
theorem section_place {infos pre post : List HeadingInfo} {stop : ℕ} {g s : Heading}
    (h : Subtree infos pre post stop g) {title : Text} (hs : g.section? title = some s) :
    (s.level = g.level + 1 ∧ s.title = title) ∧
      ∃ ps qs, Subtree (Heading.flattenAll g.sections) ps qs g.span.stop s ∧
        ∀ i ∈ ps, ¬ (i.level = g.level + 1 ∧ i.title = title) := by
  have hlaid := ((laid_iff g).mp h.laid).2.2.2
  have hf := find_section_spec title g.sections hlaid
  rw [show g.sections.find? (fun s => s.title = title) = some s from hs] at hf
  obtain ⟨hl, ht, ps, qs, hsub, hps⟩ := hf
  exact ⟨⟨hl, ht⟩, ps, qs, hsub, fun i hi hq => hps i hi hq.1 hq.2⟩

/-- A lookup by title finds the first candidate, or the last heading of all. -/
theorem section_of_candidate {infos pre post : List HeadingInfo} {stop : ℕ} {g s : Heading}
    (h : Subtree infos pre post stop g) {title : Text} (hs : g.section? title = some s)
    {ps qs : List HeadingInfo} {i : HeadingInfo}
    (hsplit : Heading.flattenAll g.sections ++ post = ps ++ i :: qs)
    (hps : ∀ j ∈ ps, ¬ (j.level = g.level + 1 ∧ j.title = title))
    (hi : (i.level = g.level + 1 ∧ i.title = title) ∨ qs = []) : s.toHeadingInfo = i := by
  obtain ⟨hq, ps', qs', hsub, hps'⟩ := section_place h hs
  rw [hsub.split, flatten_eq, List.append_assoc, List.append_assoc, List.cons_append] at hsplit
  rcases hi with hi | rfl
  · exact (Outline.split_unique (p := fun j : HeadingInfo => j.level = g.level + 1 ∧ j.title = title)
      hsplit hps' hq hps hi).2.1
  · have hmem : s.toHeadingInfo ∈ ps ++ [i] := by
      rw [← hsplit]
      simp
    rcases List.mem_append.mp hmem with hmem | hmem
    · exact absurd hq (hps _ hmem)
    · exact List.mem_singleton.mp hmem

/-! ### Bodies -/

/-- A node apart from its body. -/
def Node.withoutBody (n : Node) : Node := { n with body := [] }

/-- The text of a heading up to its body, and the body. -/
theorem readHeading_parts {declared : List Text} {off : ℕ} {c : Chunk} {info : HeadingInfo}
    (h : readHeading declared off c = some info) :
    ∃ ps hdr body, c.lines = hdr ++ body ∧ readPairs c.2 = some (ps, body) ∧ hdr ≠ [] ∧
      info.body = ⟨off + hdr.flatten.length, off + hdr.flatten.length + body.flatten.length⟩ := by
  obtain ⟨level, parsed, properties, b, body, -, -, hr, rfl⟩ := readHeading_eq_some_iff.mp h
  obtain ⟨ds, hds, rfl, -, -⟩ := readProperties_spec hr
  refine ⟨_, c.1 :: ds, body, by rw [Chunk.lines, hds, List.cons_append],
    readPairs_of_readProperties hr, by simp, ?_⟩
  simp [Nat.add_assoc]

theorem infos_of_chunks {source display : Text} {f : OrgFile}
    (h : OrgFile.parse source display = .ok f) {P : List Text} {as rest : List Chunk} {c : Chunk}
    (hc : chunksOf source = (P, as ++ c :: rest)) :
    ∃ pre i post, f.infos = pre ++ i :: post ∧
      as.map (Chunk.node f.declared) = pre.map (fun j => some (j.node source)) ∧
      c.node f.declared = some (i.node source) ∧
      rest.map (Chunk.node f.declared) = post.map fun j => some (j.node source) := by
  have hnodes := (nodes_of_parse h).symm
  rw [hc, List.map_append, List.map_cons] at hnodes
  obtain ⟨pre, is, hsplit, hpre, his⟩ := List.map_eq_append_iff.mp hnodes
  obtain ⟨i, post, rfl, hi, hpost⟩ := List.map_eq_cons_iff.mp his
  exact ⟨pre, i, post, hsplit, hpre.symm, hi.symm, hpost.symm⟩

theorem map_node_inj {source source' : Text} {is js : List HeadingInfo}
    (h : is.map (fun j => some (j.node source)) = js.map fun j => some (j.node source')) :
    is.map (HeadingInfo.node source) = js.map (HeadingInfo.node source') := by
  have := congrArg (List.filterMap id) h
  simpa [List.filterMap_map, Function.comp_def] using this

/-- The front, the heading up to its body, its body, and the headings after it. -/
theorem body_cut {source : Text} {P : List Text} {as bs : List Chunk} {c : Chunk}
    (h : chunksOf source = (P, as ++ c :: bs)) {hdr body : List Text}
    (hhdr : c.lines = hdr ++ body) (u : Text) :
    replaceRange source ⟨(frontText P as).length + hdr.flatten.length,
        (frontText P as).length + hdr.flatten.length + body.flatten.length⟩ u =
      frontText P as ++ (hdr.flatten ++ (u ++ (Segment.join bs).flatten)) := by
  have e : source = (frontText P as ++ hdr.flatten) ++ body.flatten ++
      (Segment.join bs).flatten := by
    rw [text_of_chunksOf h, Chunk.text, hhdr]
    simp
  have hlen : (frontText P as).length + hdr.flatten.length =
      (frontText P as ++ hdr.flatten).length := by simp
  rw [hlen, e, replaceRange_append_three]
  simp

section
variable {source display source' display' u : Text} {f f' : OrgFile}
  {pre post : List HeadingInfo} {i : HeadingInfo}

/-- **A new body.**  With as many headings as before, the ones before the edited heading are what
they were; and so are the ones after it if no ink of the new body is lost. -/
theorem body_edit (h : OrgFile.parse source display = .ok f) (hsplit : f.infos = pre ++ i :: post)
    (hs : source' = replaceRange source i.body u) (h' : OrgFile.parse source' display' = .ok f')
    (hlen : f'.infos.length = f.infos.length) :
    ∃ pre' i' post', f'.infos = pre' ++ i' :: post' ∧
      pre'.map (HeadingInfo.node source') = pre.map (HeadingInfo.node source) ∧
      (i'.title = i.title ∨ post' = []) ∧
      (ink (slice source' i'.body) = ink u →
        post'.map (HeadingInfo.node source') = post.map (HeadingInfo.node source) ∧
        (i'.node source').withoutBody = (i.node source).withoutBody) := by
  obtain ⟨P, as, c, bs, hc, has, hi, hbs⟩ := exists_chunk h hsplit
  obtain ⟨ps, hdr, body, hhdr, hpairs, -, hbody⟩ := readHeading_parts hi
  have hfront := front_of_chunksOf hc
  have hd := f.declared_ne_nil
  have hcnode : c.node f.declared = some (i.node source) := by
    rw [readHeading_node ((Segment.join bs).flatten) hi, List.append_assoc, ← text_of_chunksOf hc]
  have hz : chunksOf (c.text ++ (Segment.join bs).flatten) = ([], c :: bs) := by
    have := chunksOf_tail hc
    rwa [Segment.join_cons, ← List.cons_append, List.flatten_append] at this
  obtain ⟨hrawc, -, hchunks⟩ := (chunksOf_eq_iff _ _ _).mp hz
  obtain ⟨-, hhead, hn, -⟩ := (chunks_cons_iff _ _ _).mp hchunks
  have hrawh : rawLines (c.text ++ (Segment.join bs).flatten) = hdr ++ (body ++ Segment.join bs) := by
    rw [hrawc, List.nil_append, Segment.join_cons, ← List.cons_append, ← List.append_assoc,
      ← hhdr, Chunk.lines]
  obtain ⟨hraw, hopen⟩ := rawLines_front hrawh
  rw [hbody, body_cut hc hhdr] at hs
  -- the chunk with the new body, by the line that the header ends with
  obtain ⟨c', rest, hx, htitle, hsame⟩ : ∃ c' rest,
      chunksOf (hdr.flatten ++ (u ++ (Segment.join bs).flatten)) = ([], c' :: rest) ∧
      (c'.1 = c.1 ∨ bs = []) ∧
      ∀ ps' body', rest.length = bs.length → readPairs c'.2 = some (ps', body') →
        ink body'.flatten = ink u → rest = bs ∧ ps' = ps ∧ trimEnd c'.1 = trimEnd c.1 := by
    by_cases hclosed : Closed hdr.flatten
    · obtain ⟨c', rest, hx, ht, hsame⟩ := body_edit_closed hhead hn hpairs hhdr hraw
        (chunksOf_after hc) hclosed u
      refine ⟨c', rest, hx, .inl ht, fun ps' body' hl hr hink => ?_⟩
      obtain ⟨h1, h2⟩ := hsame ps' body' hl hr hink
      exact ⟨h1, h2, by rw [ht]⟩
    · obtain ⟨hb, hj⟩ := List.append_eq_nil_iff.mp (hopen hclosed)
      obtain rfl := (Segment.join_eq_nil_iff bs).mp hj
      obtain ⟨c', rest, hx, hsame⟩ := body_edit_open hhead hn hpairs hhdr hraw hb hclosed u
      refine ⟨c', rest, by simpa using hx, .inr rfl, fun ps' body' _ hr hink => ?_⟩
      exact hsame ps' body' hr hink
  have hc' : chunksOf source' = (P, as ++ c' :: rest) := by
    rw [hs]
    exact hfront.chunksOf_append hx
  have hdecl : f'.declared = f.declared := (declared_of_prelude h h' (by rw [hc, hc'])).symm
  obtain ⟨pre', i', post', hsplit', hpre', hi', hpost'⟩ := infos_of_chunks h' hc'
  rw [hdecl] at hpre' hi' hpost'
  have hrest : rest.length = bs.length := by
    have h1 := congrArg List.length has
    have h2 := congrArg List.length hbs
    have h3 := congrArg List.length hpre'
    have h4 := congrArg List.length hpost'
    simp only [List.length_map] at h1 h2 h3 h4
    rw [hsplit, hsplit', List.length_append, List.length_append, List.length_cons,
      List.length_cons] at hlen
    omega
  refine ⟨pre', i', post', hsplit', map_node_inj (hpre'.symm.trans has), ?_, ?_⟩
  · rcases htitle with ht | rfl
    · exact .inl (Chunk.node_congr hd hcnode hi' (by rw [ht])).2.2.1
    · rw [List.length_nil, List.length_eq_zero_iff] at hrest
      subst hrest
      exact .inr (List.map_eq_nil_iff.mp hpost'.symm)
  · intro hink
    obtain ⟨level, parsed, ps', body', -, -, hr, hnode⟩ := Chunk.node_eq_some_iff.mp hi'
    obtain ⟨level₀, parsed₀, ps₀, body₀, -, -, hr₀, hnode₀⟩ := Chunk.node_eq_some_iff.mp hcnode
    have hinkb : ink body'.flatten = ink u := by
      have := congrArg (fun n => ink n.body) hnode
      simp only [HeadingInfo.node, ink_trimEnd] at this
      omega
    obtain ⟨rfl, rfl, ht⟩ := hsame ps' body' hrest hr hinkb
    obtain ⟨h1, h2, h3, h4⟩ := Chunk.node_congr hd hcnode hi' ht
    refine ⟨map_node_inj (hpost'.symm.trans hbs), ?_⟩
    rw [hpairs, Option.some.injEq, Prod.mk.injEq] at hr₀
    have h5 := congrArg Node.properties hnode
    have h6 := congrArg Node.properties hnode₀
    simp only [Node.withoutBody, Node.mk.injEq]
    exact ⟨h1, h2, h3, h4, by rw [h5, h6, ← hr₀.1], trivial⟩

end

/-! ### Operations that succeed -/

namespace OrgRewriter

theorem bind_ok {α β : Type} {m : Rewrite α} {k : α → Rewrite β} {r r' : OrgRewriter} {b : β}
    (h : (m >>= k).run r = .ok b r') : ∃ a r₁, m.run r = .ok a r₁ ∧ (k a).run r₁ = .ok b r' := by
  rw [EStateM.run_bind] at h
  cases hm : m.run r with
  | ok a r₁ =>
      rw [hm] at h
      exact ⟨a, r₁, rfl, h⟩
  | error e r₁ =>
      rw [hm] at h
      cases h

section
variable {r r₁ : OrgRewriter} {f : OrgFile}

theorem parseView_ok (h : parseView.run r = .ok f r₁) : r₁ = r ∧ r.view = .ok f := by
  simp only [parseView, EStateM.run] at h
  split at h
  · next view hv =>
      cases h
      exact ⟨rfl, hv⟩
  · cases h

theorem headingOrErr_ok {id : Text} {g : Heading} (h : (headingOrErr f id).run r = .ok g r₁) :
    r₁ = r ∧ f.findById id = some g := by
  simp only [headingOrErr, EStateM.run] at h
  split at h
  · next heading hg =>
      cases h
      exact ⟨rfl, hg⟩
  · cases h

theorem sectionOrErr_ok {id title : Text} {g s : Heading}
    (h : (sectionOrErr g id title).run r = .ok s r₁) : r₁ = r ∧ g.section? title = some s := by
  simp only [sectionOrErr, EStateM.run] at h
  split at h
  · next s' hs =>
      cases h
      exact ⟨rfl, hs⟩
  · cases h

theorem assertStructuralInvariant_ok {before : List (ℕ × Option Text)}
    (h : (assertStructuralInvariant before).run r = .ok () r₁) :
    r₁ = r ∧ ∃ f, r.view = .ok f ∧ f.infos.map HeadingInfo.key = before := by
  simp only [assertStructuralInvariant, EStateM.run] at h
  split at h
  · next after hv =>
      split_ifs at h with hs
      cases h
      exact ⟨rfl, after, hv, hs⟩
  · cases h

theorem assertBodyRoundTrip_ok {id submitted : Text} {target : BodyTarget} (hv : r.view = .ok f)
    (h : (assertBodyRoundTrip id target submitted).run r = .ok () r₁) :
    r₁ = r ∧ ∃ g, f.findById id = some g ∧ target.read f g = some (trim submitted) := by
  simp only [assertBodyRoundTrip, EStateM.run, hv] at h
  split_ifs at h with hs
  cases h
  exact ⟨rfl, Option.bind_eq_some_iff.mp hs⟩

theorem assertHeadingReadBack_ok {id : Text} {expected : HeadingLine} (hv : r.view = .ok f)
    (h : (assertHeadingReadBack id expected).run r = .ok () r₁) :
    r₁ = r ∧ ∃ g, f.findById id = some g ∧ HeadingLine.of g = expected := by
  simp only [assertHeadingReadBack, EStateM.run, hv] at h
  split_ifs at h with hs
  cases h
  exact ⟨rfl, Option.map_eq_some_iff.mp hs⟩

/-- An operation that first finds a heading by its id. -/
theorem heading_ok {α : Type} {id : Text} {k : OrgFile → Heading → Rewrite α} {a : α}
    (h : (do let view ← parseView; let heading ← headingOrErr view id; k view heading).run r =
      .ok a r₁) : ∃ f g, r.view = .ok f ∧ f.findById id = some g ∧ (k f g).run r = .ok a r₁ := by
  obtain ⟨f, r₂, hf, h₂⟩ := bind_ok h
  obtain ⟨rfl, hv⟩ := parseView_ok hf
  obtain ⟨g, r₃, hfind, h₃⟩ := bind_ok h₂
  obtain ⟨rfl, hg⟩ := headingOrErr_ok hfind
  exact ⟨f, g, hv, hg, h₃⟩

/-- The two guards of a body write. -/
theorem bodyGuards_ok {id submitted : Text} {target : BodyTarget}
    {before : List (ℕ × Option Text)}
    (h : (do assertStructuralInvariant before; assertBodyRoundTrip id target submitted).run r =
      .ok () r₁) :
    r₁ = r ∧ ∃ f g, r.view = .ok f ∧ f.infos.map HeadingInfo.key = before ∧
      f.findById id = some g ∧ target.read f g = some (trim submitted) := by
  obtain ⟨_, r₂, hs, h₂⟩ := bind_ok h
  obtain ⟨rfl, f, hv, hkeys⟩ := assertStructuralInvariant_ok hs
  obtain ⟨rfl, g, hg, hread⟩ := assertBodyRoundTrip_ok hv h₂
  exact ⟨rfl, f, g, hv, hkeys, hg, hread⟩

theorem setNodeBody_ok {id content : Text} (h : (setNodeBody id content).run r = .ok () r₁) :
    ∃ f g f' g', r.view = .ok f ∧ f.findById id = some g ∧ r₁.view = .ok f' ∧
      r₁.currentText =
        replaceRange r.currentText g.body (nodeBodyReplacement (f.slice g.body) content) ∧
      f'.infos.map HeadingInfo.key = f.infos.map HeadingInfo.key ∧ f'.findById id = some g' ∧
      trim (f'.slice g'.body) = trim content := by
  obtain ⟨f, g, hv, hg, h⟩ := heading_ok h
  obtain ⟨rfl, f', g', hv', hkeys, hg', hread⟩ := bodyGuards_ok h
  refine ⟨f, g, f', g', hv, hg, hv', by simp, hkeys, hg', ?_⟩
  rw [BodyTarget.read, Option.some.injEq, trim_trimEnd] at hread
  exact hread

theorem setSectionBody_ok {id title body : Text}
    (h : (setSectionBody id title body).run r = .ok () r₁) :
    ∃ f g s f' g' s', r.view = .ok f ∧ f.findById id = some g ∧ g.section? title = some s ∧
      r₁.view = .ok f' ∧ r₁.currentText = replaceRange r.currentText s.body body ∧
      f'.infos.map HeadingInfo.key = f.infos.map HeadingInfo.key ∧ f'.findById id = some g' ∧
      g'.section? title = some s' ∧ trim (f'.slice s'.body) = trim body := by
  obtain ⟨f, g, hv, hg, h⟩ := heading_ok h
  obtain ⟨s, r₂, hfind, h₂⟩ := bind_ok h
  obtain ⟨rfl, hs⟩ := sectionOrErr_ok hfind
  obtain ⟨rfl, f', g', hv', hkeys, hg', hread⟩ := bodyGuards_ok h₂
  obtain ⟨s', hs', hread⟩ := Option.map_eq_some_iff.mp hread
  exact ⟨f, g, s, f', g', s', hv, hg, hs, hv', by simp, hkeys, hg', hs', hread⟩

theorem editHeadingLine_ok {id : Text} {edit : HeadingLineEdit}
    (h : (editHeadingLine id edit).run r = .ok () r₁) :
    ∃ f g f' g', r.view = .ok f ∧ f.findById id = some g ∧ r₁.view = .ok f' ∧
      r₁.currentText = replaceRange r.currentText g.titleLine
        (HeadingLineEdit.expected edit (HeadingLine.of g)).render ∧
      f'.infos.map HeadingInfo.key = f.infos.map HeadingInfo.key ∧ f'.findById id = some g' ∧
      HeadingLine.of g' = HeadingLineEdit.expected edit (HeadingLine.of g) := by
  obtain ⟨f, g, hv, hg, h⟩ := heading_ok h
  obtain ⟨_, r₂, ht, h⟩ := bind_ok h
  obtain ⟨f₁, g₁, hv₁, hg₁, ht⟩ := heading_ok ht
  obtain rfl : f₁ = f := by
    rw [hv, Except.ok.injEq] at hv₁
    exact hv₁.symm
  obtain rfl : g₁ = g := by
    rw [hg, Option.some.injEq] at hg₁
    exact hg₁.symm
  rw [run_replaceWithView] at ht
  cases ht
  obtain ⟨r₃, r₄, hget, h₃⟩ := bind_ok h
  cases hget
  obtain ⟨_, r₅, hs, h₅⟩ := bind_ok h₃
  rw [EStateM.run_adaptExcept] at hs
  split at hs
  · next a r₆ hs' =>
      cases hs
      obtain ⟨rfl, f', hv', hkeys⟩ := assertStructuralInvariant_ok hs'
      obtain ⟨rfl, g', hg', hread⟩ := assertHeadingReadBack_ok hv' h₅
      exact ⟨_, _, f', g', hv, hg, hv', by simp, hkeys, hg', hread⟩
  · cases hs

theorem expectedStructure_ok {at_ : ℕ} {header : Text} {expected : List (ℕ × Option Text)}
    (h : (expectedStructure at_ header).run r = .ok expected r₁) :
    r₁ = (r.replaced ⟨at_, at_⟩ header).popped ∧ ∃ fh, (r.replaced ⟨at_, at_⟩ header).view = .ok fh ∧
      fh.infos.map HeadingInfo.key = expected := by
  simp only [expectedStructure, EStateM.run_bind, run_replaceWithView, EStateM.run_get] at h
  cases hv : (r.replaced ⟨at_, at_⟩ header).view with
  | ok fh =>
      rw [hv] at h
      cases h
      exact ⟨rfl, fh, rfl, rfl⟩
  | error e =>
      rw [hv] at h
      cases h

/-- Where an appended section is put: after the last ink of the subtree. -/
def appendAt (f : OrgFile) (g : Heading) : Span :=
  ⟨g.span.start + (trimEnd (f.slice g.span)).length,
    g.span.start + (trimEnd (f.slice g.span)).length⟩

theorem appendSection_ok {id title body : Text}
    (h : (appendSection id title body).run r = .ok () r₁) :
    ∃ f g fh f' g' s', r.view = .ok f ∧ f.findById id = some g ∧
      (r.replaced (appendAt f g) (renderSection title [] (g.level + 1))).view = .ok fh ∧
      r₁.view = .ok f' ∧
      r₁.currentText = replaceRange r.currentText (appendAt f g)
        (renderSection title body (g.level + 1)) ∧
      f'.infos.map HeadingInfo.key = fh.infos.map HeadingInfo.key ∧ f'.findById id = some g' ∧
      g'.section? title = some s' ∧ trim (f'.slice s'.body) = trim body := by
  obtain ⟨f, g, hv, hg, h⟩ := heading_ok h
  obtain ⟨expected, r₂, hx, h₂⟩ := bind_ok h
  obtain ⟨rfl, fh, hh, rfl⟩ := expectedStructure_ok hx
  obtain ⟨rfl, f', g', hv', hkeys, hg', hread⟩ := bodyGuards_ok h₂
  obtain ⟨s', hs', hread⟩ := Option.map_eq_some_iff.mp hread
  refine ⟨f, g, fh, f', g', s', hv, hg, hh, hv', ?_, hkeys, hg', hs', hread⟩
  rw [currentText_replaced, currentText_popped_replaced]
  rfl

end

end OrgRewriter

end Orgasmic
