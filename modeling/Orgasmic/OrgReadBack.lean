import Orgasmic.OrgRendered
import Orgasmic.OrgRetitle

/-! # Title lines that read back

`HeadingLine.of` followed by `render` is how the rewriter composes the title line of an edit.

* **Headings.** The line of a heading reads back as the same line exactly if it is `Storable`
  (`readLine_of`).
* **Edits.** `editHeadingLine` is accepted exactly if the line it asks for reads back
  (`editHeadingLine_accepted_iff`): a title line replaced by a storable one leaves every other
  chunk, every level and every id as they were. -/

namespace Orgasmic

open Text

/-! ### The line of a heading -/

theorem OrgFile.declared_words (f : OrgFile) : Words f.declared := by
  intro word mem
  simp only [OrgFile.declared, List.mem_flatMap] at mem
  obtain ⟨keyword, -, own⟩ := mem
  refine ⟨fun empty => declaredBy_ne_nil keyword.key keyword.value (empty ▸ own), ?_⟩
  rw [declaredBy] at own
  split_ifs at own
  · exact splitWhitespace_inked keyword.value word (List.mem_filter.mp own).1
  · cases own

theorem read_of_parse {declared : List Text} (words : Words declared) (u : Text) (level : ℕ) :
    HeadingLine.Read declared ⟨level, (parseHeadingRest u declared).todo,
      trim (parseHeadingRest u declared).title, (parseHeadingRest u declared).tags⟩ := by
  refine ⟨?_, trim_trim _, ?_⟩
  · intro word own
    simp only [parseHeadingRest_eq words u] at own
    split_ifs at own with key
    · obtain rfl := Option.some.inj own
      exact key
    · cases own
  · have same : (parseHeadingRest u declared).tags = (splitTrailingTags u).2 := by
      rw [parseHeadingRest_eq words u]
      split_ifs <;> rfl
    simp only [same]
    exact isTag_of_splitTrailingTags u

section document

variable {source display : Text} {f : OrgFile}

/-- What is known of the line of every heading of a document. -/
theorem read_of_heading (hf : OrgFile.parse source display = .ok f) {g : Heading}
    (hg : g.toHeadingInfo ∈ f.infos) :
    (HeadingLine.of g).Read f.declared ∧ 0 < g.level := by
  have mem : some (g.node source) ∈ (chunksOf source).2.map (Chunk.node f.declared) := by
    rw [nodes_of_parse hf]
    exact List.mem_map.mpr ⟨g.toHeadingInfo, hg, rfl⟩
  obtain ⟨c, -, hc⟩ := List.mem_map.mp mem
  obtain ⟨u, -, pos, -, hp, -⟩ := Chunk.node_stars f.declared_ne_nil hc
  have read := read_of_parse f.declared_words u g.level
  rw [hp] at read
  exact ⟨read, pos⟩

/-- **The line of a heading** reads back as itself exactly if it is storable. -/
theorem readLine_of (hf : OrgFile.parse source display = .ok f) {g : Heading}
    (hg : g.toHeadingInfo ∈ f.infos) :
    readLine f.declared (HeadingLine.of g).render = some (HeadingLine.of g) ↔
      (HeadingLine.of g).Storable f.declared := by
  obtain ⟨read, pos⟩ := read_of_heading hf hg
  exact HeadingLine.readLine_render f.declared_words read pos

end document

/-! ### The place of a title line -/

/-- The chunk of a heading that is found by its id, and the text with another title line. -/
structure TitlePlace (f : OrgFile) (source id : Text) (g : Heading) where
  P : List Text
  as : List Chunk
  c : Chunk
  bs : List Chunk
  w : Text
  pre : List HeadingInfo
  post : List HeadingInfo
  chunks : chunksOf source = (P, as ++ c :: bs)
  split : f.infos = pre ++ g.toHeadingInfo :: post
  before : as.map (Chunk.node f.declared) = pre.map fun j => some (j.node source)
  node : c.node f.declared = some (g.node source)
  after : bs.map (Chunk.node f.declared) = post.map fun j => some (j.node source)
  pos : 0 < g.level
  blank : Blank w
  other : ∀ i ∈ pre, i.property "ID".toList ≠ some id
  own : g.property "ID".toList = some id
  /-- Another heading line takes the place of the title line. -/
  lined : ∀ v, '\n' ∉ v → chunksOf (replaceRange source g.titleLine (stars g.level v)) =
    (P, as ++ (stars g.level (v ++ w), c.2) :: bs)
  /-- Bare stars are a heading less. -/
  bare : headCount 0 (replaceRange source g.titleLine (List.replicate g.level '*')) =
    as.length + bs.length

theorem exists_titlePlace {source display id : Text} {f : OrgFile}
    (hf : OrgFile.parse source display = .ok f) {g : Heading} (hg : f.findById id = some g) :
    Nonempty (TitlePlace f source id g) := by
  obtain ⟨hid, pre, post, hsub, hpre⟩ := findById_place hf hg
  have hsplit := hsub.split
  rw [flatten_eq, List.append_assoc, List.cons_append] at hsplit
  obtain ⟨P, as, c, bs, hc, has, hi, hbs⟩ := exists_chunk hf hsplit
  have hz : chunksOf (c.text ++ (Segment.join bs).flatten) = ([], c :: bs) := by
    have := chunksOf_tail hc
    rwa [Segment.join_cons, ← List.cons_append, List.flatten_append] at this
  obtain ⟨w, hw, hblank, hline, hbare⟩ := retitle_chunk hz
  have hfront := front_of_chunksOf hc
  have hcnode : c.node f.declared = some (g.node source) := by
    rw [readHeading_node ((Segment.join bs).flatten) hi, List.append_assoc, ← text_of_chunksOf hc]
  have hhead := ((chunks_cons_iff _ _ _).mp ((chunksOf_eq_iff _ _ _).mp hz).2.2).2.1
  have hlevel : 0 < g.level := by
    rw [readHeading_level hi]
    exact level_pos_of_isHead hhead
  refine ⟨⟨P, as, c, bs, w, pre, _, hc, hsplit, has, hcnode, hbs, hlevel, hblank, hpre, hid, ?_, ?_⟩⟩
  · intro v hv
    rw [readHeading_titleLine hi, retitle_cut hc hw]
    exact hfront.chunksOf_append (hline _ v hlevel hv)
  · rw [readHeading_titleLine hi, retitle_cut hc hw, headCount_front hfront, hbare _ hlevel]

theorem exists_node_of_mem {declared : List Text} {cs : List Chunk} {source : Text}
    {infos : List HeadingInfo}
    (h : cs.map (Chunk.node declared) = infos.map fun i => some (i.node source)) :
    ∀ c ∈ cs, ∃ n, c.node declared = some n := by
  intro c mem
  have node : c.node declared ∈ cs.map (Chunk.node declared) := List.mem_map_of_mem mem
  rw [h] at node
  obtain ⟨i, -, hi⟩ := List.mem_map.mp node
  exact ⟨_, hi.symm⟩

/-- Levels and ids can be read off the chunks. -/
theorem keys_of_chunks {declared : List Text} {cs : List Chunk} {source : Text}
    {infos : List HeadingInfo}
    (h : cs.map (Chunk.node declared) = infos.map fun i => some (i.node source)) :
    cs.map (fun c => (c.node declared).map Node.key) =
      (infos.map HeadingInfo.key).map some := by
  have mapped := congrArg (List.map (Option.map Node.key)) h
  rw [List.map_map, List.map_map] at mapped
  rw [List.map_map]
  refine mapped.trans (List.map_congr_left fun i _ => ?_)
  rw [Function.comp_apply, Option.map_some, HeadingInfo.node_key, Function.comp_apply]

namespace TitlePlace

variable {f : OrgFile} {source id : Text} {g : Heading} (t : TitlePlace f source id g)

/-- The rest of a title line with its line ending reads as the rest alone. -/
theorem parse_lined (v : Text) :
    parseHeadingRest (content (v ++ t.w)) f.declared = parseHeadingRest v f.declared :=
  parseHeadingRest_congr (by rw [trimEnd_content, trimEnd_append_blank t.blank]) f.declared

/-- The chunk of another heading line reads as that line, and keeps everything below it. -/
theorem node_of_line {v : Text} {l : HeadingLine}
    (read : readLine f.declared (stars g.level v) = some l) :
    ∃ n, Chunk.node f.declared (stars g.level (v ++ t.w), t.c.2) = some n ∧
      (⟨n.level, n.todo, trim n.title, n.tags⟩ : HeadingLine) = l ∧
      n.key = (g.node source).key := by
  obtain ⟨-, body, -, -, -, hr, -⟩ := Chunk.node_stars f.declared_ne_nil t.node
  rw [readLine_stars f.declared_words t.pos, Option.some.injEq] at read
  refine ⟨⟨g.level, (parseHeadingRest v f.declared).todo, (parseHeadingRest v f.declared).title,
    (parseHeadingRest v f.declared).tags, (g.node source).properties, trimEnd body.flatten⟩,
    Chunk.node_eq_some_iff.mpr ⟨g.level, _, _, body, ?_, ?_, hr, rfl⟩, read, rfl⟩
  · rw [content_stars, headingLevel_stars t.pos]
  · rw [content_stars, parseHeadingLine_stars _ _ f.declared_ne_nil, t.parse_lined]

/-- The chunk reads as the line that its title line spells. -/
theorem line_of_node {v : Text} {n : Node}
    (node : Chunk.node f.declared (stars g.level (v ++ t.w), t.c.2) = some n) :
    readLine f.declared (stars g.level v) = some ⟨n.level, n.todo, trim n.title, n.tags⟩ := by
  obtain ⟨level, parsed, ps, body, hl, hp, -, rfl⟩ := Chunk.node_eq_some_iff.mp node
  rw [content_stars, headingLevel_stars t.pos, Option.some.injEq] at hl
  subst hl
  rw [content_stars, parseHeadingLine_stars _ _ f.declared_ne_nil, t.parse_lined,
    Option.some.injEq] at hp
  subst hp
  exact readLine_stars f.declared_words t.pos v

include t in
/-- A line that is read in the place of the title line changes no level and no id. -/
theorem reparse {display : Text} (hf : OrgFile.parse source display = .ok f) {v : Text}
    (hv : '\n' ∉ v) {l : HeadingLine} (read : readLine f.declared (stars g.level v) = some l)
    (display' : Text) :
    ∃ f' g', OrgFile.parse (replaceRange source g.titleLine (stars g.level v)) display' = .ok f' ∧
      f'.infos.map HeadingInfo.key = f.infos.map HeadingInfo.key ∧ f'.findById id = some g' ∧
      HeadingLine.of g' = l := by
  obtain ⟨n, hn, hline, hkey⟩ := t.node_of_line read
  obtain ⟨-, hflat, -, -⟩ := readFlat_of_parse hf
  obtain ⟨declared, hkeywords, -, hstepped⟩ := (readFlat_eq_some_iff _ _ _).mp hflat
  obtain rfl : declared = f.declared := readKeywords_declared rfl hkeywords
  have hc := t.chunks
  have hnodes : ∀ c ∈ t.as ++ (stars g.level (v ++ t.w), t.c.2) :: t.bs,
      ∃ n, c.node f.declared = some n := by
    intro c mem
    obtain mem | mem := List.mem_append.mp mem
    · exact exists_node_of_mem t.before c mem
    · obtain rfl | mem := List.mem_cons.mp mem
      · exact ⟨n, hn⟩
      · exact exists_node_of_mem t.after c mem
  have hlevels : (t.as ++ (stars g.level (v ++ t.w), t.c.2) :: t.bs).map Chunk.level =
      (t.as ++ t.c :: t.bs).map Chunk.level := by
    rw [List.map_append, List.map_append, List.map_cons, List.map_cons, Chunk.node_level hn,
      Chunk.node_level t.node]
    rw [show n.level = (g.node source).level from congrArg Prod.fst hkey]
  rw [hc] at hkeywords hstepped
  obtain ⟨f', hf', -, hmap, -⟩ := parse_chunks display' (t.lined v hv) hkeywords hnodes
    (by rw [hlevels]; exact hstepped)
  have hkeys : f'.infos.map HeadingInfo.key = f.infos.map HeadingInfo.key := by
    have new := keys_of_chunks hmap
    have old := keys_of_chunks (nodes_of_parse hf)
    rw [List.map_append, List.map_cons, hn, Option.map_some, hkey] at new
    rw [hc, List.map_append, List.map_cons, t.node, Option.map_some] at old
    exact List.map_injective_iff.mpr (Option.some_injective _) (new.symm.trans old)
  obtain ⟨g', hg'⟩ : ∃ g', f'.findById id = some g' := by
    cases found : f'.findById id with
    | some g' => exact ⟨g', rfl⟩
    | none =>
        obtain ⟨-, -, -, hlaid⟩ := readFlat_of_parse hf'
        have absent := findByIdIn_spec id f'.headings hlaid
        rw [show Heading.findByIdIn id f'.headings = none from found] at absent
        have mem : g.toHeadingInfo.key ∈ f'.infos.map HeadingInfo.key := by
          rw [hkeys, t.split]
          exact List.mem_map_of_mem (List.mem_append_right _ List.mem_cons_self)
        obtain ⟨i, hi, same⟩ := List.mem_map.mp mem
        exact absurd ((congrArg Prod.snd same).trans t.own) (absent i hi)
  refine ⟨f', g', hf', hkeys, hg', ?_⟩
  obtain ⟨-, -, -, -, hnode, -⟩ :=
    found_chunk hf hf' hc (t.lined v hv) t.split t.before t.other t.own hkeys hg'
  rw [hn, Option.some.injEq] at hnode
  subst hnode
  exact hline

end TitlePlace

theorem readLine_bare (declared : List Text) (n : ℕ) :
    readLine declared (List.replicate n '*') = none := by
  have bare : headingLevel (List.replicate n '*') = none := by
    simp only [headingLevel, List.takeWhile_replicate, decide_true, if_true,
      List.length_replicate, List.drop_replicate, Nat.sub_self, List.replicate_zero, ite_self]
  simp only [readLine, bare, Option.bind_eq_bind, Option.bind_none]

namespace OrgRewriter

variable {r : OrgRewriter} {f : OrgFile} {id : Text} {g : Heading} {edit : HeadingLineEdit}

theorem run_assertStructuralInvariant {f' : OrgFile} (hf' : r.view = .ok f')
    {before : List (ℕ × Option Text)} (hkeys : f'.infos.map HeadingInfo.key = before) :
    (assertStructuralInvariant before).run r = .ok () r := by
  simp only [assertStructuralInvariant, EStateM.run, hf', snapshot_eq, hkeys, if_true]

theorem run_assertHeadingReadBack {f' : OrgFile} (hf' : r.view = .ok f') {g' : Heading}
    (hg' : f'.findById id = some g') {expected : HeadingLine} (hread : HeadingLine.of g' = expected) :
    (assertHeadingReadBack id expected).run r = .ok () r := by
  simp only [assertHeadingReadBack, EStateM.run, hf', hg', Option.map_some, hread, if_true]

/-- The steps of an edit that passes its guards. -/
theorem editHeadingLine_of_guards (hf : r.view = .ok f) (hg : f.findById id = some g) {f' : OrgFile}
    {g' : Heading}
    (hf' : (r.replaced g.titleLine (HeadingLineEdit.expected edit (HeadingLine.of g)).render).view =
      .ok f')
    (hkeys : f'.infos.map HeadingInfo.key = f.infos.map HeadingInfo.key)
    (hg' : f'.findById id = some g')
    (hread : HeadingLine.of g' = HeadingLineEdit.expected edit (HeadingLine.of g)) :
    (editHeadingLine id edit).run r =
      .ok () (r.replaced g.titleLine (HeadingLineEdit.expected edit (HeadingLine.of g)).render) := by
  have view : parseView.run r = .ok f r := by
    simp only [parseView, EStateM.run, hf]
  have find : (headingOrErr f id).run r = .ok g r := by
    simp only [headingOrErr, EStateM.run, hg]
  have structure_ok := run_assertStructuralInvariant hf' hkeys
  have line_ok := run_assertHeadingReadBack hf' hg' hread
  simp only [editHeadingLine, setTitleLine, EStateM.run_bind, view, find, run_replaceWithView,
    EStateM.run_get, EStateM.run_adaptExcept, snapshot_eq, structure_ok, line_ok]

/-- **An edit is accepted exactly if its line reads back.** -/
theorem editHeadingLine_accepted_iff (hf : r.view = .ok f) (hg : f.findById id = some g)
    (hnl : '\n' ∉ (HeadingLineEdit.expected edit (HeadingLine.of g)).render) :
    (∃ r₁, (editHeadingLine id edit).run r = .ok () r₁) ↔
      readLine f.declared (HeadingLineEdit.expected edit (HeadingLine.of g)).render =
        some (HeadingLineEdit.expected edit (HeadingLine.of g)) := by
  obtain ⟨t⟩ := exists_titlePlace hf hg
  have hlevel : (HeadingLineEdit.expected edit (HeadingLine.of g)).level = g.level := rfl
  constructor
  · rintro ⟨r₁, h⟩
    obtain ⟨f₁, g₁, f', g', hv, hg₁, hv', htext, hkeys, hg', hread⟩ := editHeadingLine_ok h
    obtain rfl : f₁ = f := by
      rw [hf, Except.ok.injEq] at hv
      exact hv.symm
    obtain rfl : g₁ = g := by
      rw [hg, Option.some.injEq] at hg₁
      exact hg₁.symm
    obtain bare | ⟨v, hrender⟩ :=
      render_cases (HeadingLineEdit.expected edit (HeadingLine.of g₁))
    · -- there would be a heading less
      rw [bare, hlevel] at htext
      have hcount := t.bare
      have hchunks : headCount 0 r₁.currentText = (chunksOf r₁.currentText).2.length :=
        headCount_eq_length rfl
      rw [← htext, hchunks] at hcount
      have h1 := congrArg List.length (nodes_of_parse hv')
      have h2 := congrArg List.length hkeys
      have h3 := congrArg List.length (nodes_of_parse hf)
      rw [t.chunks] at h3
      simp only [List.length_map, List.length_append, List.length_cons] at h1 h2 h3
      omega
    · rw [hlevel] at hrender
      rw [hrender] at hnl htext ⊢
      have hv : '\n' ∉ v := fun mem => hnl (List.mem_append_right _ (List.mem_cons_of_mem _ mem))
      have hc' := t.lined v hv
      rw [← htext] at hc'
      obtain ⟨-, -, -, -, hnode, -⟩ :=
        found_chunk hf hv' t.chunks hc' t.split t.before t.other t.own hkeys hg'
      rw [t.line_of_node hnode, ← hread]
      rfl
  · intro read
    obtain bare | ⟨v, hrender⟩ :=
      render_cases (HeadingLineEdit.expected edit (HeadingLine.of g))
    · rw [bare, hlevel, readLine_bare] at read
      cases read
    · rw [hlevel] at hrender
      have hv : '\n' ∉ v := fun mem => hnl (by
        rw [hrender]
        exact List.mem_append_right _ (List.mem_cons_of_mem _ mem))
      obtain ⟨f', g', hf', hkeys, hg', hread⟩ := t.reparse hf hv (hrender ▸ read) r.fileName
      have view : (r.replaced g.titleLine
          (HeadingLineEdit.expected edit (HeadingLine.of g)).render).view = .ok f' := by
        rw [OrgRewriter.view, currentText_replaced, hrender]
        exact hf'
      exact ⟨_, editHeadingLine_of_guards hf hg view hkeys hg' hread⟩

end OrgRewriter

/-! ### Every heading and every edit that keeps the title -/

/-- The title of a heading stands on one line. -/
theorem newline_notMem_title {source display : Text} {f : OrgFile}
    (hf : OrgFile.parse source display = .ok f) {g : Heading} (hg : g.toHeadingInfo ∈ f.infos) :
    '\n' ∉ (HeadingLine.of g).title := by
  have mem : some (g.node source) ∈ (chunksOf source).2.map (Chunk.node f.declared) := by
    rw [nodes_of_parse hf]
    exact List.mem_map.mpr ⟨g.toHeadingInfo, hg, rfl⟩
  obtain ⟨c, hmem, hc⟩ := List.mem_map.mp mem
  obtain ⟨u, -, -, hu, hp, -⟩ := Chunk.node_stars f.declared_ne_nil hc
  have line : c.1 ∈ rawLines source := by
    obtain ⟨as, bs, cut⟩ := List.append_of_mem hmem
    rw [(chunksOf_spec source).1, cut, Segment.join_append, Segment.join_cons]
    exact List.mem_append_right _ (List.mem_append_right _ List.mem_cons_self)
  intro feed
  obtain ⟨front, back, -, -, eq⟩ := trim_spec g.title
  have inside : '\n' ∈ g.title := by
    rw [eq]
    exact List.mem_append_left _ (List.mem_append_right _ feed)
  have read : '\n' ∈ (parseHeadingRest u f.declared).title := by
    rw [hp]
    exact inside
  have rest : '\n' ∈ u := mem_of_mem_title read
  refine no_newline_content line ?_
  rw [hu]
  exact List.mem_append_right _ (List.mem_cons_of_mem _ rest)

/-- The edit names only the tags, or only the title that is there. -/
def HeadingLineEdit.KeepsTitle (edit : HeadingLineEdit) (g : Heading) : Prop :=
  (edit.title = none ∧ ∀ tags ∈ edit.tags, ∀ tag ∈ tags, IsTag tag) ∨
    edit.title.map trim = some (trim g.title) ∧ edit.tags = none

theorem HeadingLineEdit.KeepsTitle.expected_read {edit : HeadingLineEdit} {g : Heading}
    (keeps : edit.KeepsTitle g) {declared : List Text}
    (read : (HeadingLine.of g).Read declared) :
    (OrgRewriter.HeadingLineEdit.expected edit (HeadingLine.of g)).Read declared ∧
      (OrgRewriter.HeadingLineEdit.expected edit (HeadingLine.of g)).title =
        (HeadingLine.of g).title := by
  have title : (OrgRewriter.HeadingLineEdit.expected edit (HeadingLine.of g)).title =
      (HeadingLine.of g).title := by
    obtain ⟨none, -⟩ | ⟨same, -⟩ := keeps
    · rw [OrgRewriter.HeadingLineEdit.expected, none]
      rfl
    · rw [OrgRewriter.HeadingLineEdit.expected, same]
      rfl
  refine ⟨⟨read.keyword, by rw [title]; exact read.title, ?_⟩, title⟩
  obtain ⟨-, words⟩ | ⟨-, none⟩ := keeps
  · cases named : edit.tags with
    | none =>
        rw [OrgRewriter.HeadingLineEdit.expected, named]
        exact read.tags
    | some tags =>
        rw [OrgRewriter.HeadingLineEdit.expected, named]
        exact words tags named
  · rw [OrgRewriter.HeadingLineEdit.expected, none]
    exact read.tags

/-- **Title lines are restored exactly if they are storable**: the line of every heading, and the
line that an edit of the tags, or of nothing, asks for. -/
theorem headingLine_restored_iff {source display : Text} {f : OrgFile}
    (hf : OrgFile.parse source display = .ok f) :
    (∀ g : Heading, g.toHeadingInfo ∈ f.infos →
      (readLine f.declared (HeadingLine.of g).render = some (HeadingLine.of g) ↔
        (HeadingLine.of g).Storable f.declared)) ∧
    ∀ (r : OrgRewriter) (id : Text) (g : Heading) (edit : HeadingLineEdit), r.view = .ok f →
      f.findById id = some g → edit.KeepsTitle g →
      ((∃ r', (OrgRewriter.editHeadingLine id edit).run r = .ok () r') ↔
        (OrgRewriter.HeadingLineEdit.expected edit (HeadingLine.of g)).Storable f.declared) := by
  refine ⟨fun g hg => readLine_of hf hg, ?_⟩
  intro r id g edit view found keeps
  obtain ⟨-, pre, post, place, -⟩ := findById_place view found
  have mem : g.toHeadingInfo ∈ f.infos := by
    rw [place.split, flatten_eq]
    exact List.mem_append_left _ (List.mem_append_right _ List.mem_cons_self)
  obtain ⟨read, pos⟩ := read_of_heading view mem
  obtain ⟨expected, title⟩ := keeps.expected_read read
  have feed : '\n' ∉
      (OrgRewriter.HeadingLineEdit.expected edit (HeadingLine.of g)).render := by
    refine HeadingLine.newline_notMem_render f.declared_words expected ?_
    rw [title]
    exact newline_notMem_title view mem
  rw [OrgRewriter.editHeadingLine_accepted_iff view found feed]
  exact HeadingLine.readLine_render f.declared_words expected pos

/-- A test of a heading of a document. -/
def testHeading (test : OrgFile → Heading → Bool) (source id : Text) : Bool :=
  match OrgFile.parse source [] with
  | .error _ => false
  | .ok f => (f.findById id).any (test f)

theorem testHeading_spec (test : OrgFile → Heading → Bool) (source id : Text)
    (h : testHeading test source id = true) :
    ∃ f g, OrgFile.parse source [] = .ok f ∧ f.findById id = some g ∧ test f g = true := by
  rw [testHeading] at h
  cases parsed : OrgFile.parse source [] with
  | error e =>
      rw [parsed] at h
      cases h
  | ok f =>
      rw [parsed] at h
      cases found : f.findById id with
      | none =>
          simp only [found, Option.any_none, Bool.false_eq_true] at h
      | some g =>
          simp only [found, Option.any_some] at h
          exact ⟨f, g, rfl, found, h⟩

/-- A heading with a keyword and tags, whose tags are edited. -/
theorem headingLine_restored_iff_sample : ∃ f g r',
    OrgFile.parse "* TODO A  :x:\n:PROPERTIES:\n:ID: a\n:END:\n".toList [] = .ok f ∧
      f.findById "a".toList = some g ∧
      readLine f.declared (HeadingLine.of g).render = some (HeadingLine.of g) ∧
      (OrgRewriter.editHeadingLine "a".toList ⟨none, some ["y".toList]⟩).run
        (OrgRewriter.new f []) = .ok () r' := by
  obtain ⟨f, g, hf, found, passed⟩ := testHeading_spec
    (fun f g => decide (g.toHeadingInfo ∈ f.infos ∧ (HeadingLine.of g).Storable f.declared ∧
      (OrgRewriter.HeadingLineEdit.expected ⟨none, some ["y".toList]⟩
        (HeadingLine.of g)).Storable f.declared))
    "* TODO A  :x:\n:PROPERTIES:\n:ID: a\n:END:\n".toList "a".toList (by decide +kernel)
  obtain ⟨mem, line, edited⟩ := of_decide_eq_true passed
  obtain ⟨lines, edits⟩ := headingLine_restored_iff hf
  have view : (OrgRewriter.new f []).view = .ok f := by
    rw [OrgRewriter.view, OrgRewriter.currentText_new, (readFlat_of_parse hf).1]
    exact hf
  have tags : ∀ tags ∈ some ["y".toList], ∀ tag ∈ tags, IsTag tag := by
    rintro _ ⟨⟩ tag mem
    rw [List.mem_singleton.mp mem]
    refine ⟨by decide, fun c hc => ?_⟩
    rw [List.mem_singleton.mp hc]
    rfl
  obtain ⟨r', accepted⟩ :=
    (edits _ _ g ⟨none, some ["y".toList]⟩ view found (.inl ⟨rfl, tags⟩)).mpr edited
  exact ⟨f, g, r', hf, found, (lines g mem).mpr line, accepted⟩

/-- The line of the heading `a` does not read back, and its own title cannot be stored. -/
def NotRestored (source : Text) : Prop :=
  ∃ f g, OrgFile.parse source [] = .ok f ∧ f.findById "a".toList = some g ∧
    readLine f.declared (HeadingLine.of g).render ≠ some (HeadingLine.of g) ∧
    ∃ e r', (OrgRewriter.editHeadingLine "a".toList
      ⟨some (HeadingLine.of g).title, none⟩).run (OrgRewriter.new f []) = .error e r'

theorem notRestored_of_test {source : Text}
    (test : testHeading (fun f g =>
      decide (readLine f.declared (HeadingLine.of g).render ≠ some (HeadingLine.of g)) &&
        OrgRewriter.failed
          (OrgRewriter.editHeadingLine "a".toList ⟨some (HeadingLine.of g).title, none⟩)
          (OrgRewriter.new f [])) source "a".toList = true) : NotRestored source := by
  obtain ⟨f, g, hf, found, passed⟩ := testHeading_spec _ _ _ test
  obtain ⟨lost, refused⟩ := Bool.and_eq_true_iff.mp passed
  exact ⟨f, g, hf, found, of_decide_eq_true lost, OrgRewriter.exists_of_failed refused⟩

/-- Two spaces before a keyword, nothing on the line, and a space that is no tag separator. -/
theorem headingLine_restored_fails :
    NotRestored "*  TODO x\n:PROPERTIES:\n:ID: a\n:END:\n".toList ∧
      NotRestored "* \n:PROPERTIES:\n:ID: a\n:END:\n".toList ∧
      NotRestored "* TODO \u00A0:a:\n:PROPERTIES:\n:ID: a\n:END:\n".toList := by
  refine ⟨?_, ?_, ?_⟩ <;>
    exact notRestored_of_test (by decide +kernel)

end Orgasmic
