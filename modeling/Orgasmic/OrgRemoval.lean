import Orgasmic.OrgAppend
import Orgasmic.OrgExact
import Orgasmic.OrgReadBack

/-! # Removing headings

`remove_heading` and `remove_section` cut a subtree out of the text.

* **Where a subtree stands.** `SubtreePlace`: a subtree is a run of whole chunks, so the text
  around it falls into the chunks it had.
* **Removal.** `SubtreePlace.removed`: without the subtree, every other heading says what it said,
  byte for byte, but for a blank line that may stay behind the text in front of it. -/

namespace Orgasmic

open Text Forest

/-! ### The place of a subtree -/

/-- The chunks of a subtree, those before and after it, and where it starts and ends. -/
structure SubtreePlace (f : OrgFile) (source : Text) (pre : List HeadingInfo) (g : Heading)
    (post : List HeadingInfo) where
  as : List Chunk
  m : Chunk
  ms : List Chunk
  bs : List Chunk
  chunks : (chunksOf source).2 = as ++ (m :: ms) ++ bs
  before : as.map (Chunk.exact f.declared) = pre.map fun i => some (i.exact source)
  inside : (m :: ms).map (Chunk.exact f.declared) = g.flatten.map fun i => some (i.exact source)
  after : bs.map (Chunk.exact f.declared) = post.map fun i => some (i.exact source)
  span : g.span = ⟨(frontText (chunksOf source).1 as).length,
    (frontText (chunksOf source).1 as).length + (Segment.join (m :: ms)).flatten.length⟩
  shallow : ∀ b ∈ (bs.map Chunk.level).head?, b ≤ m.level

section place
variable {source display : Text} {f : OrgFile}

/-- A heading starts where its chunk starts. -/
theorem start_of_chunk (hf : OrgFile.parse source display = .ok f) {pre post : List HeadingInfo}
    {i : HeadingInfo} (hsplit : f.infos = pre ++ i :: post) {as cs : List Chunk}
    (hcs : (chunksOf source).2 = as ++ cs) (hlen : as.length = pre.length) :
    i.titleLine.start = (frontText (chunksOf source).1 as).length := by
  obtain ⟨P, as', c, bs, hc, has, hi, -⟩ := exists_chunk hf hsplit
  have hlen' : as'.length = pre.length := by simpa using congrArg List.length has
  rw [hc] at hcs
  obtain ⟨rfl, -⟩ := List.append_inj hcs (hlen'.trans hlen.symm)
  rw [readHeading_titleLine hi, hc]

theorem exists_subtreePlace (hf : OrgFile.parse source display = .ok f)
    {pre post : List HeadingInfo} {g : Heading} (hsub : Subtree f.infos pre post source.length g) :
    Nonempty (SubtreePlace f source pre g post) := by
  obtain ⟨as, ms, bs, hchunks, hpre, hmid, hpost⟩ := exists_chunks hf hsub.split
  have hlen : as.length = pre.length := by simpa using congrArg List.length hpre
  have hlenm : ms.length = g.flatten.length := by simpa using congrArg List.length hmid
  have hroot := hmid
  rw [flatten_eq, List.map_cons] at hroot
  obtain ⟨m, ms, rfl, hm, -⟩ := List.map_eq_cons_iff.mp hroot
  have hsplit := hsub.split
  rw [flatten_eq, List.append_assoc, List.cons_append] at hsplit
  have hstart : g.span.start = (frontText (chunksOf source).1 as).length := by
    obtain ⟨-, -, hspan, -⟩ := (laid_iff g).mp hsub.laid
    rw [hspan]
    exact start_of_chunk hf hsplit (hchunks.trans (List.append_assoc _ _ _)) hlen
  have htext : source = frontText (chunksOf source).1 (as ++ (m :: ms)) ++
      (Segment.join bs).flatten := by
    conv_lhs => rw [← rawLines_flatten source, (chunksOf_spec source).1, hchunks]
    rw [Segment.join_append, ← List.append_assoc, List.flatten_append]
    rfl
  have hstop : g.span.stop = (frontText (chunksOf source).1 (as ++ (m :: ms))).length := by
    cases post with
    | nil =>
        obtain rfl : bs = [] := by simpa using hpost
        rw [hsub.last rfl]
        conv_lhs => rw [htext]
        simp
    | cons i post =>
        obtain ⟨-, hnext⟩ := hsub.next i rfl
        rw [← hnext]
        exact start_of_chunk hf hsub.split hchunks (by
          rw [List.length_append, List.length_append, hlen, hlenm])
  refine ⟨⟨as, m, ms, bs, hchunks, hpre, hmid, hpost, ?_, ?_⟩⟩
  · rw [frontText_length] at hstop
    rw [show g.span = ⟨g.span.start, g.span.stop⟩ from rfl, hstart, hstop]
  · intro b hb
    rw [levels_of_exacts hpost, List.head?_map] at hb
    obtain ⟨i, hi, rfl⟩ := Option.mem_map.mp hb
    rw [← Chunk.exact_level hm]
    exact (hsub.next i hi).1

end place

/-! ### A blank line -/

/-- A blank line below a chunk. -/
def Chunk.withBlank (c : Chunk) : Chunk := (c.1, c.2 ++ [['\n']])

theorem Chunk.exact_withBlank {declared : List Text} {c : Chunk} {n : Node}
    (h : c.exact declared = some n) :
    c.withBlank.exact declared = some { n with body := n.body ++ ['\n'] } := by
  obtain ⟨level, parsed, ps, body, hlevel, hparsed, hr, rfl⟩ := Chunk.exact_eq_some_iff.mp h
  have hpairs : readPairs (c.2 ++ [['\n']]) = some (ps, body ++ [['\n']]) := by
    rcases readPairs_shape hr with ⟨rfl, rfl, hfirst⟩ | ⟨ds, e, hds, -, hend, -, hsame, -⟩
    · refine readPairs_of_no_drawer ?_
      intro r hr
      cases hrest : c.2 with
      | nil =>
          rw [hrest, List.nil_append, List.head?_cons, Option.mem_some_iff] at hr
          rw [← hr]
          decide
      | cons l ls =>
          rw [hrest] at hr hfirst
          exact hfirst r hr
    · rw [hds, List.append_assoc, List.cons_append]
      exact hsame e (body ++ [['\n']]) hend
  refine Chunk.exact_eq_some_iff.mpr ⟨level, parsed, ps, body ++ [['\n']], hlevel, hparsed, hpairs, ?_⟩
  simp

theorem Front.withBlank {P : List Text} {as : List Chunk} {c : Chunk} (h : Front P (as ++ [c])) :
    Front P (as ++ [c.withBlank]) := by
  have hjoin : Segment.join (as ++ [c.withBlank]) = Segment.join (as ++ [c]) ++ [['\n']] := by
    simp [Chunk.withBlank, Segment.join]
  have hblank (d : ℕ) : depthAfter d [['\n']] = d := depthAfter_blank (by decide) d
  obtain ⟨has, hc⟩ := (Segment.chunks_append _ _ _ _ _).mp h.chunks
  obtain ⟨hd, hhead, hno, hlast⟩ := (chunks_cons_iff _ _ _).mp hc
  refine ⟨?_, h.noHead, ?_, ?_⟩
  · rw [hjoin, ← List.append_assoc]
    exact List.forall_mem_append.mpr
      ⟨h.terminated, List.forall_mem_singleton.mpr ⟨[], by decide, rfl⟩⟩
  · refine (Segment.chunks_append _ _ _ _ _).mpr ⟨has, (chunks_cons_iff _ _ _).mpr
      ⟨hd, hhead, ?_, trivial⟩⟩
    rw [Chunk.withBlank, NoHead, Segment.noHead_append]
    exact ⟨hno, noHead_blank (by decide) _⟩
  · rw [hjoin, ← List.append_assoc, depthAfter_append, h.depth, hblank]

/-- White space added to the body of the last node. -/
def addSpace (w : Text) (ns : List Node) : List Node :=
  match ns.getLast? with
  | none => ns
  | some n => ns.dropLast ++ [{ n with body := n.body ++ w }]

theorem addSpace_concat (w : Text) (ns : List Node) (n : Node) :
    addSpace w (ns ++ [n]) = ns ++ [{ n with body := n.body ++ w }] := by
  simp [addSpace]

theorem addSpace_nil (ns : List Node) : addSpace [] ns = ns := by
  rcases List.eq_nil_or_concat ns with rfl | ⟨ns, n, rfl⟩
  · rfl
  · rw [List.concat_eq_append, addSpace_concat, List.append_nil]

/-- White space at the end of a body is not seen in the trimmed nodes. -/
theorem map_addSpace {w : Text} (hw : Blank w) (ns : List Node) :
    (addSpace w ns).map (fun n => { n with body := trimEnd n.body }) =
      ns.map fun n => { n with body := trimEnd n.body } := by
  rcases List.eq_nil_or_concat ns with rfl | ⟨ns, n, rfl⟩
  · rfl
  · rw [List.concat_eq_append, addSpace_concat]
    simp [trimEnd_append_blank hw]

/-! ### Removal -/

namespace SubtreePlace

variable {source display : Text} {f : OrgFile} {pre post : List HeadingInfo} {g : Heading}
  (t : SubtreePlace f source pre g post)

theorem chunksOf_eq : chunksOf source = ((chunksOf source).1, t.as ++ t.m :: (t.ms ++ t.bs)) := by
  have h := t.chunks
  rw [List.append_assoc, List.cons_append] at h
  rw [← h]

theorem front : Front (chunksOf source).1 t.as := front_of_chunksOf t.chunksOf_eq

theorem text : source = frontText (chunksOf source).1 t.as ++
    ((Segment.join (t.m :: t.ms)).flatten ++ (Segment.join t.bs).flatten) := by
  conv_lhs => rw [← rawLines_flatten source, (chunksOf_spec source).1, t.chunks]
  simp only [Segment.join_append, frontText, List.flatten_append, List.append_assoc]

theorem slice_span : slice source g.span = (Segment.join (t.m :: t.ms)).flatten := by
  have h := slice_append_three (frontText (chunksOf source).1 t.as)
    (Segment.join (t.m :: t.ms)).flatten (Segment.join t.bs).flatten
  rw [List.append_assoc, ← t.text, ← t.span] at h
  exact h

theorem tail : chunksOf (Segment.join t.bs).flatten = ([], t.bs) := by
  have hchunks : chunksOf source = ((chunksOf source).1, (t.as ++ t.m :: t.ms) ++ t.bs) := by
    rw [← t.chunks]
  exact chunksOf_tail hchunks

/-- **The document without the subtree** says what it said, but for a blank line below the text in
front of it. -/
theorem removed (hf : OrgFile.parse source display = .ok f) {w source' : Text} (display' : Text)
    (hw : w = [] ∨ w = ['\n'] ∧ pre ≠ [])
    (hsource' : source' = frontText (chunksOf source).1 t.as ++ (w ++ (Segment.join t.bs).flatten)) :
    ∃ f', OrgFile.parse source' display' = .ok f' ∧ f'.keywords = f.keywords ∧
      f'.exacts = addSpace w (pre.map (HeadingInfo.exact source)) ++
        post.map (HeadingInfo.exact source) := by
  -- the chunks in front of the subtree, the last one with its blank line
  obtain ⟨as', has', hlevels, hchunks⟩ : ∃ as',
      as'.map (Chunk.exact f.declared) =
        (addSpace w (pre.map (HeadingInfo.exact source))).map some ∧
      as'.map Chunk.level = t.as.map Chunk.level ∧
      chunksOf source' = ((chunksOf source).1, as' ++ t.bs) := by
    rcases hw with rfl | ⟨rfl, hpre⟩
    · refine ⟨t.as, ?_, rfl, ?_⟩
      · rw [addSpace_nil, t.before, List.map_map]
        rfl
      · rw [hsource', List.nil_append]
        exact t.front.chunksOf_append t.tail
    · obtain ⟨ps, i, rfl⟩ : ∃ ps i, pre = ps ++ [i] :=
        ⟨_, _, (List.dropLast_append_getLast hpre).symm⟩
      have hbefore := t.before
      rw [List.map_append, List.map_singleton] at hbefore
      obtain ⟨as, cs, has, hps, hcs⟩ := List.map_eq_append_iff.mp hbefore
      obtain ⟨c, rfl, hc⟩ := List.map_eq_singleton_iff.mp hcs
      refine ⟨as ++ [c.withBlank], ?_, by rw [has]; simp [Chunk.withBlank, Chunk.level], ?_⟩
      · rw [List.map_append, List.map_singleton, Chunk.exact_withBlank hc, hps,
          List.map_append, List.map_singleton, addSpace_concat]
        simp
      · have hfront := t.front
        rw [has] at hfront
        rw [hsource', has]
        have htext := hfront.withBlank.chunksOf_append t.tail
        rw [frontText, Segment.join_append] at htext
        rw [frontText, Segment.join_append]
        simpa [Chunk.withBlank, Segment.join] using htext
  have hnodes : (as' ++ t.bs).map (Chunk.exact f.declared) =
      (addSpace w (pre.map (HeadingInfo.exact source)) ++
        post.map (HeadingInfo.exact source)).map some := by
    rw [List.map_append, has', t.after, List.map_append, List.map_map]
    rfl
  obtain ⟨-, hflat, -, -⟩ := readFlat_of_parse hf
  obtain ⟨-, -, -, hstepped⟩ := (readFlat_eq_some_iff _ _ _).mp hflat
  have hstep : Outline.Stepped 0 ((as' ++ t.bs).map Chunk.level) := by
    rw [t.chunks, List.map_append, List.map_append, List.map_cons] at hstepped
    rw [List.map_append, hlevels]
    exact hstepped.removed t.shallow
  obtain ⟨f', hf', hsource, hkeywords, -, hmap⟩ := reparse_chunks display' hf hchunks
    (fun c hc => by
      have hmem := List.mem_map_of_mem (f := Chunk.exact f.declared) hc
      rw [hnodes] at hmem
      obtain ⟨n, -, hn⟩ := List.mem_map.mp hmem
      exact ⟨n, hn.symm⟩) hstep
  refine ⟨f', hf', hkeywords, ?_⟩
  rw [hnodes] at hmap
  have hlist := congrArg (List.filterMap id) hmap
  rw [OrgFile.exacts, hsource]
  simpa [List.filterMap_map, Function.comp_def] using hlist.symm

end SubtreePlace

/-! ### Sections -/

theorem laidAll_append {level start stop : ℕ} {as bs : List Heading}
    (h : LaidAll level start stop (as ++ bs)) :
    ∃ mid, LaidAll level start mid as ∧ LaidAll level mid stop bs := by
  induction as generalizing start with
  | nil => exact ⟨start, rfl, h⟩
  | cons a as ih =>
      obtain ⟨mid, has, hbs⟩ := ih h.2
      exact ⟨mid, ⟨h.1, has⟩, hbs⟩

theorem flattenAll_headings_append (as bs : List Heading) :
    Heading.flattenAll (as ++ bs) = Heading.flattenAll as ++ Heading.flattenAll bs := by
  induction as with
  | nil => rfl
  | cons a as ih => rw [List.cons_append, Heading.flattenAll, Heading.flattenAll, ih,
      List.append_assoc]

/-- A subtree below a subtree. -/
theorem Subtree.within {infos pre post ps qs : List HeadingInfo} {stop : ℕ} {g s : Heading}
    (hsub : Subtree infos pre post stop g)
    (hsubs : Subtree (Heading.flattenAll g.sections) ps qs g.span.stop s)
    (hlevel : s.level = g.level + 1) :
    Subtree infos (pre ++ g.toHeadingInfo :: ps) (qs ++ post) stop s := by
  refine ⟨?_, hsubs.laid, fun i hi => ?_, fun hnil => ?_⟩
  · rw [hsub.split, flatten_eq, hsubs.split]
    simp
  · cases qs with
    | nil =>
        obtain ⟨hle, hstart⟩ := hsub.next i hi
        exact ⟨by omega, by rw [hstart, hsubs.last rfl]⟩
    | cons q qs => exact hsubs.next i hi
  · obtain ⟨rfl, rfl⟩ := List.append_eq_nil_iff.mp hnil
    rw [hsubs.last rfl, hsub.last rfl]

/-- The sections without the first one of a title. -/
def withoutSection (title : Text) (n : Node) (sections : List (Forest.Tree Node)) :
    List (Forest.Tree Node) :=
  [.node n (sections.eraseP fun s => s.item.title = title)]

/-- The first section of a title, taken out of the list of headings and out of the tree. -/
theorem section_erased {value : HeadingInfo → Node} (htitle : ∀ i, (value i).title = i.title)
    {g s : Heading} {title : Text} (hs : g.section? title = some s) {start stop : ℕ}
    (hlaid : LaidAll (g.level + 1) start stop g.sections) {ps qs : List HeadingInfo}
    (hsplit : Heading.flattenAll g.sections = ps ++ s.flatten ++ qs)
    (hps : ∀ i ∈ ps, ¬(i.level = g.level + 1 ∧ i.title = title)) (hlevel : s.level = g.level + 1)
    (hstitle : s.title = title) :
    flattenAll ((Heading.trees value g.sections).eraseP fun t => t.item.title = title) =
      (ps ++ qs).map value := by
  obtain ⟨-, as, bs, hsections, has⟩ := List.find?_eq_some_iff_append.mp
    (show g.sections.find? (fun s => s.title = title) = some s from hs)
  rw [hsections] at hlaid hsplit
  obtain ⟨mid, hlaidas, -⟩ := laidAll_append hlaid
  -- no heading before the section is one
  have hno := find_section_spec title as hlaidas
  rw [List.find?_eq_none.mpr (fun a ha => by simpa using has a ha)] at hno
  rw [flattenAll_headings_append, Heading.flattenAll, flatten_eq, List.cons_append, List.append_assoc,
    List.cons_append] at hsplit
  obtain ⟨rfl, -, hrest⟩ := Outline.split_unique
    (p := fun i : HeadingInfo => i.level = g.level + 1 ∧ i.title = title) hsplit
    (fun i hi hq => hno i hi hq.1 hq.2) ⟨hlevel, hstitle⟩ hps ⟨hlevel, hstitle⟩
  obtain rfl := List.append_cancel_left hrest
  have herase : (Heading.trees value g.sections).eraseP (fun t => t.item.title = title) =
      Heading.trees value (as ++ bs) := by
    rw [trees_eq_map, trees_eq_map, hsections, List.map_append, List.map_cons,
      List.eraseP_append_right]
    · rw [List.eraseP_cons_of_pos, List.map_append]
      rw [tree_eq]
      simp [Forest.Tree.item, htitle, hstitle]
    · intro t ht
      obtain ⟨a, ha, rfl⟩ := List.mem_map.mp ht
      rw [tree_eq]
      simpa [Forest.Tree.item, htitle] using has a ha
  rw [herase, flatten_trees, flattenAll_headings_append]

/-! ### The edits -/

theorem nodes_of_exact_list {source : Text} (is : List HeadingInfo) :
    (is.map (HeadingInfo.exact source)).map (fun n => { n with body := trimEnd n.body }) =
      is.map (HeadingInfo.node source) := by
  rw [List.map_map]
  exact List.map_congr_left fun i _ => i.exact_node

namespace OrgRewriter

variable {r : OrgRewriter} {f : OrgFile} {id : Text} {g : Heading}

/-- **The heading is gone with its subtree**, and nothing else. -/
theorem removeHeading_forest (hf : r.view = .ok f) (hg : f.findById id = some g) :
    ∃ r' f', (removeHeading id).run r = .ok () r' ∧ r'.view = .ok f' ∧ f'.keywords = f.keywords ∧
      editFirstIn (HasId id) (fun _ _ => []) f.forest = some f'.forest := by
  obtain ⟨-, pre, post, hsub, hpre⟩ := findById_place hf hg
  obtain ⟨t⟩ := exists_subtreePlace hf hsub
  have hsource : f.source = r.currentText := (readFlat_of_parse hf).1
  have htext : replaceRange r.currentText g.span [] =
      frontText (chunksOf r.currentText).1 t.as ++ ([] ++ (Segment.join t.bs).flatten) := by
    have hcut := replaceRange_append_three (frontText (chunksOf r.currentText).1 t.as)
      (Segment.join (t.m :: t.ms)).flatten (Segment.join t.bs).flatten []
    rw [List.append_assoc, ← t.text, ← t.span, List.append_assoc] at hcut
    exact hcut
  obtain ⟨f', hf', hkeywords, hexacts⟩ := t.removed hf r.fileName (.inl rfl) htext
  obtain ⟨ts, hedit, hgraded, hflat⟩ := forest_edited hf hg (HeadingInfo.exact r.currentText)
    (fun _ => rfl) (fun i => HeadingInfo.node_property r.currentText i _) hsub hpre (fun _ _ => [])
    trivial
  have hitems : flattenAll ts = f'.infos.map (HeadingInfo.exact f'.source) := by
    rw [hflat, ← OrgFile.exacts, hexacts, addSpace_nil]
    rfl
  refine ⟨r.replaced g.span [], f', ?_, ?_, hkeywords, ?_⟩
  · have view : parseView.run r = .ok f r := by simp only [parseView, EStateM.run, hf]
    have find : (headingOrErr f id).run r = .ok g r := by simp only [headingOrErr, EStateM.run, hg]
    simp only [removeHeading, EStateM.run_bind, view, find, run_replaceWithView]
  · rw [OrgRewriter.view, currentText_replaced]
    exact hf'
  · rw [OrgFile.forest, OrgFile.forest, hsource, hedit]
    exact congrArg some (forest_eq hf' _ (fun _ => rfl) hgraded hitems)

/-- A cut that keeps one of two line feeds at the end. -/
theorem cut_section (front inside rest : Text) : ∃ stop w, (w = [] ∨ w = ['\n']) ∧
    stop = (if ['\n', '\n'].isSuffixOf inside then front.length + inside.length - 1
      else front.length + inside.length) ∧
    replaceRange (front ++ (inside ++ rest)) ⟨front.length, stop⟩ [] = front ++ (w ++ rest) := by
  split_ifs with hblank
  · obtain ⟨u, rfl⟩ := List.isSuffixOf_iff_suffix.mp hblank
    refine ⟨_, ['\n'], .inr rfl, rfl, ?_⟩
    have h := replaceRange_append_three front (u ++ ['\n']) ('\n' :: rest) []
    have hlen : front.length + (u ++ ['\n', '\n']).length - 1 =
        front.length + (u ++ ['\n']).length := by
      simp
    rw [hlen]
    simpa using h
  · refine ⟨_, [], .inl rfl, rfl, ?_⟩
    have h := replaceRange_append_three front inside rest []
    simpa using h

/-- **The section is gone with its subtree**; the text in front of it may keep a blank line. -/
theorem removeSection_forest (hf : r.view = .ok f) (hg : f.findById id = some g) {title : Text}
    {s : Heading} (hs : g.section? title = some s) :
    ∃ r' f', (removeSection id title).run r = .ok () r' ∧ r'.view = .ok f' ∧
      f'.keywords = f.keywords ∧
      editFirstIn (HasId id) (withoutSection title) f.trimmedForest = some f'.trimmedForest ∧
      ∃ pre post w, f.infos = pre ++ s.flatten ++ post ∧ (w = [] ∨ w = ['\n']) ∧
        f'.exacts = addSpace w (pre.map (HeadingInfo.exact f.source)) ++
          post.map (HeadingInfo.exact f.source) := by
  obtain ⟨-, pre, post, hsub, hpre⟩ := findById_place hf hg
  obtain ⟨⟨hlevel, htitle⟩, ps, qs, hsubs, hps⟩ := section_place hsub hs
  have hwithin := hsub.within hsubs hlevel
  obtain ⟨t⟩ := exists_subtreePlace hf hwithin
  have hsource : f.source = r.currentText := (readFlat_of_parse hf).1
  -- what is cut out, and the blank line that stays
  obtain ⟨stop, w, hw, hstop, htext⟩ : ∃ stop w, (w = [] ∨ w = ['\n']) ∧
      stop = (if ['\n', '\n'].isSuffixOf (f.slice s.span) then s.span.stop - 1 else s.span.stop) ∧
      replaceRange r.currentText ⟨s.span.start, stop⟩ [] =
        frontText (chunksOf r.currentText).1 t.as ++ (w ++ (Segment.join t.bs).flatten) := by
    obtain ⟨stop, w, hw, hstop, htext⟩ := cut_section (frontText (chunksOf r.currentText).1 t.as)
      (Segment.join (t.m :: t.ms)).flatten (Segment.join t.bs).flatten
    rw [← t.text] at htext
    refine ⟨stop, w, hw, ?_, ?_⟩
    · rw [hstop, OrgFile.slice, hsource, t.slice_span, t.span]
    · rw [t.span]
      exact htext
  obtain ⟨f', hf', hkeywords, hexacts⟩ := t.removed hf r.fileName
    (hw.imp_right fun h => ⟨h, by simp⟩) htext
  obtain ⟨ts, hedit, hgraded, hflat⟩ := forest_edited hf hg (HeadingInfo.node r.currentText)
    (fun _ => rfl) (fun i => HeadingInfo.node_property r.currentText i _) hsub hpre
    (withoutSection title) (by
      have hsections := graded_trees (HeadingInfo.node r.currentText) (fun _ => rfl) g.sections ((laid_iff g).mp hsub.laid).2.2.2
      refine ⟨⟨rfl, gradedAll_iff.mpr fun u hu => ?_⟩, trivial⟩
      exact gradedAll_iff.mp hsections u (List.mem_of_mem_eraseP hu))
  have hblank : Blank w := by
    rcases hw with rfl | rfl
    · exact blank_nil
    · decide
  have hitems : flattenAll ts = f'.infos.map (HeadingInfo.node f'.source) := by
    rw [← nodes_of_exact_list, ← OrgFile.exacts, hexacts, List.map_append, map_addSpace hblank,
      nodes_of_exact_list, nodes_of_exact_list, hflat, withoutSection, flattenAll_singleton,
      Forest.Tree.flatten, section_erased (fun _ => rfl) hs ((laid_iff g).mp hsub.laid).2.2.2 hsubs.split
        hps hlevel htitle]
    simp
  refine ⟨r.replaced ⟨s.span.start, stop⟩ [], f', ?_, ?_, hkeywords, ?_, _, _, w, hwithin.split, hw,
    ?_⟩
  · have view : parseView.run r = .ok f r := by simp only [parseView, EStateM.run, hf]
    have find : (headingOrErr f id).run r = .ok g r := by simp only [headingOrErr, EStateM.run, hg]
    have found : (sectionOrErr g id title).run r = .ok s r := by
      simp only [sectionOrErr, EStateM.run, hs]
    simp only [removeSection, EStateM.run_bind, view, find, found, run_replaceWithView, hstop]
  · rw [OrgRewriter.view, currentText_replaced]
    exact hf'
  · rw [OrgFile.trimmedForest, OrgFile.trimmedForest, hsource, hedit]
    exact congrArg some (forest_eq hf' _ (fun _ => rfl) hgraded hitems)
  · rw [hexacts, hsource]

/-- **Removing a heading or one of its sections** takes exactly this subtree out of the tree; every
other heading keeps its body byte for byte, but for a line feed below the text in front of a removed
section. -/
theorem headings_removed (hf : r.view = .ok f) (hg : f.findById id = some g) :
    (∃ r' f', (removeHeading id).run r = .ok () r' ∧ r'.view = .ok f' ∧ f'.keywords = f.keywords ∧
      editFirstIn (HasId id) (fun _ _ => []) f.forest = some f'.forest) ∧
    ∀ title s, g.section? title = some s → ∃ r' f', (removeSection id title).run r = .ok () r' ∧
      r'.view = .ok f' ∧ f'.keywords = f.keywords ∧
      editFirstIn (HasId id) (withoutSection title) f.trimmedForest = some f'.trimmedForest ∧
      ∃ pre post w, f.infos = pre ++ s.flatten ++ post ∧ (w = [] ∨ w = ['\n']) ∧
        f'.exacts = addSpace w (pre.map (HeadingInfo.exact f.source)) ++
          post.map (HeadingInfo.exact f.source) :=
  ⟨removeHeading_forest hf hg, fun _ _ hs => removeSection_forest hf hg hs⟩

/-- Two sections and a heading after them. -/
theorem headings_removed_sample : ∃ f f₁ f₂ r₁ r₂,
    OrgFile.parse "* A\n:PROPERTIES:\n:ID: a\n:END:\n** S\nx\n\n** T\n* B\n".toList [] = .ok f ∧
      (removeHeading "a".toList).run (new f []) = .ok () r₁ ∧ r₁.view = .ok f₁ ∧
      editFirstIn (HasId "a".toList) (fun _ _ => []) f.forest = some f₁.forest ∧
      (removeSection "a".toList "S".toList).run (new f []) = .ok () r₂ ∧ r₂.view = .ok f₂ ∧
      editFirstIn (HasId "a".toList) (withoutSection "S".toList) f.trimmedForest =
        some f₂.trimmedForest := by
  obtain ⟨f, g, hf, hg, passed⟩ := testHeading_spec (fun _ g => (g.section? "S".toList).isSome)
    "* A\n:PROPERTIES:\n:ID: a\n:END:\n** S\nx\n\n** T\n* B\n".toList "a".toList (by decide +kernel)
  obtain ⟨s, hs⟩ := Option.isSome_iff_exists.mp passed
  have hview : (new f []).view = .ok f := by
    rw [OrgRewriter.view, currentText_new, (readFlat_of_parse hf).1]
    exact hf
  obtain ⟨⟨r₁, f₁, hrun₁, hview₁, -, hforest₁⟩, hsections⟩ := headings_removed hview hg
  obtain ⟨r₂, f₂, hrun₂, hview₂, -, hforest₂, -⟩ := hsections "S".toList s hs
  exact ⟨f, f₁, f₂, r₁, r₂, hf, hrun₁, hview₁, hforest₁, hrun₂, hview₂, hforest₂⟩

end OrgRewriter

end Orgasmic
