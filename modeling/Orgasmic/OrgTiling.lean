import Orgasmic.OrgDescent

/-! # The parse tiles the source

Every rewriter edit cuts the source at spans of the parse, so the spans must fit together.

* **Headings.** `Heading.Tiled`: the title line with its terminator, the drawer, the body and the
  sections of a heading adjoin, in this order, and fill its span.
* **Documents.** `OrgFile.Tiled`: the prelude and the top-level headings adjoin and fill the text.
* The pieces of one heading come from its chunk (`readHeading`), the order of the headings from
  the descent (`LaidAll`); `tiled_of_laid` puts the two together along the tree. -/

namespace Orgasmic

open Text

/-! ### Tilings -/

/-- The lines of a source, with their block flags. -/
def sourceLines (source : Text) : List Line := (Parser.new source []).lines

/-- The pieces of a heading's own text: the title line with its terminator, the drawer if there
is one, and the body. -/
def HeadingInfo.pieces (i : HeadingInfo) (title : Line) : List Span :=
  title.span.full :: (i.properties.toList.map PropertyDrawer.span ++ [i.body])

/-- No line of the body is a heading line outside a block. -/
def HeadingInfo.NoHeadingInBody (source : Text) (i : HeadingInfo) : Prop :=
  ∀ line ∈ sourceLines source, i.body.start ≤ line.span.start → line.span.start < i.body.stop →
    headingLevelAt line = none

/-- Every property's value stands at its value span. -/
def HeadingInfo.ValuesSliced (source : Text) (i : HeadingInfo) : Prop :=
  ∀ e ∈ i.propertyEntries, slice source e.valueSpan = e.value

/-- What a heading read from its chunk contributes to the tiling. -/
def HeadingInfo.Tiled (source : Text) (i : HeadingInfo) : Prop :=
  (∃ title ∈ sourceLines source, i.titleLine = title.span.content ∧
    Adjacent i.titleLine.start i.body.stop (i.pieces title)) ∧
  i.NoHeadingInBody source ∧ i.ValuesSliced source

mutual

/-- The heading has this level, its own text and its sections fill its span, and so for every
section, one level deeper. -/
def Heading.Tiled (source : Text) (level : ℕ) : Heading → Prop
  | ⟨info, span, sections⟩ => info.level = level ∧
      (∃ title ∈ sourceLines source, info.titleLine = title.span.content ∧
        Adjacent span.start span.stop (info.pieces title ++ sections.map Heading.span)) ∧
      info.NoHeadingInBody source ∧ info.ValuesSliced source ∧
      Heading.TiledAll source (level + 1) sections

def Heading.TiledAll (source : Text) (level : ℕ) : List Heading → Prop
  | [] => True
  | h :: hs => Heading.Tiled source level h ∧ Heading.TiledAll source level hs

end

/-- The prelude runs to the first heading or to the end of the text, and the top-level headings
fill the rest. -/
structure OrgFile.Tiled (f : OrgFile) : Prop where
  prelude_start : f.prelude.start = 0
  prelude_stop : f.prelude.stop = (f.headings.head?.map fun h => h.span.start).getD f.source.length
  headings : Adjacent f.prelude.stop f.source.length (f.headings.map Heading.span)
  tiled : Heading.TiledAll f.source 1 f.headings

/-! ### The pieces of one chunk -/

theorem slice_valueSpan {before r : Text} {e : PropertyEntry} (after : Text)
    (h : parsePropertyLine (content r) (spanAt before.length r) = some e) :
    slice (before ++ r ++ after) e.valueSpan = e.value := by
  dsimp only [parsePropertyLine] at h
  rw [drop_leadingWs] at h
  split at h
  · next rest hrest =>
      split at h
      · cases h
      · next key rawValue hkey =>
          split_ifs at h with h0
          simp only [Option.some.injEq] at h
          subst h
          obtain ⟨w, hw⟩ := (List.rdropWhile_prefix (· = '\r') (content r)).trans (content_isPrefix r)
          obtain ⟨ws, -, hws⟩ := trimStart_spec (trimEndMatches '\r' (content r))
          obtain ⟨hsplit, -⟩ := splitOnce_eq_some hkey
          obtain ⟨vs, -, hvs⟩ := trimStart_spec rawValue
          obtain ⟨vs', -, hvs'⟩ := trimEnd_spec (trimStart rawValue)
          rw [hrest, hsplit] at hws
          have hraw : rawValue = vs ++ (trim rawValue ++ vs') := by
            rw [trim, ← hvs', ← hvs]
          have hlead : rawValue.length - (trimStart rawValue).length = vs.length := by
            conv_lhs => rw [hvs, List.length_append, ← hvs]
            omega
          have hleadWs : (trimEndMatches '\r' (content r)).length -
              (trimStart (trimEndMatches '\r' (content r))).length = ws.length := by
            rw [hrest, hsplit, hws, List.length_append]
            omega
          have hsource : before ++ r ++ after = before ++ ws ++ ':' :: key ++ ':' :: vs ++
              trim rawValue ++ (vs' ++ w ++ after) := by
            have hr : r = ws ++ ':' :: (key ++ ':' :: rawValue) ++ w := by rw [← hws]; exact hw.symm
            conv_lhs => rw [hr, hraw]
            simp
          rw [hsource, hlead, hleadWs]
          convert slice_append_three (before ++ ws ++ ':' :: key ++ ':' :: vs) (trim rawValue)
            (vs' ++ w ++ after) using 2
          simp [spanAt]
          omega
  · cases h

theorem valuesSliced_of_readDrawer {start : ℕ} {es : List PropertyEntry} {rs : List Text}
    {before after source : Text} {drawer : PropertyDrawer} {b : ℕ} {body : List Text}
    (hsource : source = before ++ rs.flatten ++ after)
    (hes : ∀ e ∈ es, slice source e.valueSpan = e.value)
    (h : readDrawer start before.length es rs = some (drawer, b, body)) :
    ∀ e ∈ drawer.entries, slice source e.valueSpan = e.value := by
  induction rs generalizing before es with
  | nil => simp [readDrawer] at h
  | cons r rs ih =>
      simp only [readDrawer] at h
      split_ifs at h with h1 h2
      · simp only [Option.some.injEq, Prod.mk.injEq] at h
        obtain ⟨rfl, -⟩ := h
        exact hes
      · obtain ⟨e, he, h⟩ := Option.bind_eq_some_iff.mp h
        have hsource' : source = (before ++ r) ++ rs.flatten ++ after := by simp [hsource]
        have hlen : before.length + r.length = (before ++ r).length := by simp
        rw [hlen] at h
        refine ih hsource' ?_ h
        intro e' he'
        rcases List.mem_append.mp he' with he' | he'
        · exact hes e' he'
        · rw [List.mem_singleton.mp he', hsource']
          simpa using slice_valueSpan (rs.flatten ++ after) he

theorem valuesSliced {declared : List Text} {c : Chunk} {info : HeadingInfo}
    {before : Text} (after : Text) (h : readHeading declared before.length c = some info) :
    info.ValuesSliced (before ++ c.text ++ after) := by
  obtain ⟨level, parsed, properties, b, body, -, -, hr, rfl⟩ := readHeading_eq_some_iff.mp h
  intro e he
  obtain ⟨title, rs⟩ := c
  cases rs with
  | nil =>
      simp only [readProperties, Option.some.injEq, Prod.mk.injEq] at hr
      obtain ⟨rfl, -⟩ := hr
      simp [HeadingInfo.propertyEntries] at he
  | cons r rs =>
      simp only [readProperties] at hr
      split_ifs at hr with h1
      · obtain ⟨⟨drawer, b', body'⟩, hd, hr⟩ := Option.map_eq_some_iff.mp hr
        simp only [Prod.mk.injEq] at hr
        obtain ⟨rfl, rfl, rfl⟩ := hr
        have hlen : before.length + title.length + r.length = (before ++ title ++ r).length := by
          simp [Nat.add_assoc]
        simp only [hlen] at hd
        have hsource : before ++ Chunk.text (title, r :: rs) ++ after =
            (before ++ title ++ r) ++ rs.flatten ++ after := by simp [Chunk.text, Chunk.lines]
        exact valuesSliced_of_readDrawer hsource (by simp) hd e he
      · simp only [Option.some.injEq, Prod.mk.injEq] at hr
        obtain ⟨rfl, -⟩ := hr
        simp [HeadingInfo.propertyEntries] at he

theorem adjacent_pieces {declared : List Text} {off : ℕ} {c : Chunk} {info : HeadingInfo}
    (h : readHeading declared off c = some info) (no : ℕ) :
    Adjacent info.titleLine.start info.body.stop (info.pieces (titleAt no off c)) := by
  obtain ⟨ds, body, hc, -, hbody, hprops⟩ := readHeading_body h
  have htext : c.text.length = c.1.length + ds.flatten.length + body.flatten.length := by
    simp [Chunk.text, Chunk.lines, hc, Nat.add_assoc]
  rw [readHeading_titleLine h, hbody]
  simp only [HeadingInfo.pieces, hbody, titleAt, spanAt, LineSpan.full]
  rcases hprops with ⟨hnone, rfl⟩ | ⟨drawer, hsome, hspan⟩
  · simp only [hnone, Option.toList_none, List.map_nil, List.nil_append, Adjacent]
    simp [htext]
  · simp only [hsome, Option.toList_some, List.map_cons, List.map_nil, hspan, Adjacent,
      List.cons_append, List.nil_append]
    simp [htext, Nat.add_assoc]

/-! ### The lines of a body -/

theorem layLines_bounds {no off d : ℕ} {rs : List Text} (hne : ∀ r ∈ rs, r ≠ []) {l : Line}
    (hl : l ∈ layLines no off d rs) :
    off ≤ l.span.start ∧ l.span.start < off + rs.flatten.length := by
  induction rs generalizing no off d with
  | nil => simp [layLines] at hl
  | cons r rs ih =>
      have hr : 0 < r.length := List.length_pos_iff.mpr (hne r List.mem_cons_self)
      simp only [layLines, List.mem_cons] at hl
      rcases hl with rfl | hl
      · simp [spanAt]
        omega
      · have := ih (fun r hr => hne r (List.mem_cons_of_mem _ hr)) hl
        simp only [List.flatten_cons, List.length_append]
        omega

theorem headingLevelAt_of_noHead {no off d : ℕ} {rs : List Text} (hn : NoHead d rs) {l : Line}
    (hl : l ∈ layLines no off d rs) : headingLevelAt l = none := by
  induction rs generalizing no off d with
  | nil => simp [layLines] at hl
  | cons r rs ih =>
      obtain ⟨h, hn⟩ := hn
      simp only [layLines, List.mem_cons] at hl
      rcases hl with rfl | hl
      · rw [headingLevelAt_lay, h]
        rfl
      · exact ih hn hl

/-- The lines of one chunk among the lines of the source. -/
theorem sourceLines_chunk {source : Text} {pre post : List Chunk} {c : Chunk}
    (h : (chunksOf source).2 = pre ++ c :: post) :
    ∃ before after : List Line, ∃ no,
      sourceLines source = before ++ layLines no
        ((chunksOf source).1 ++ Segment.join pre).flatten.length 0 c.lines ++ after ∧
      (∀ l ∈ before, l.span.start < ((chunksOf source).1 ++ Segment.join pre).flatten.length) ∧
      ∀ l ∈ after,
        ((chunksOf source).1 ++ Segment.join pre).flatten.length + c.text.length ≤ l.span.start := by
  obtain ⟨hlines, -, hc⟩ := chunksOf_spec source
  rw [h] at hlines hc
  have hdepth : depthAfter 0 ((chunksOf source).1 ++ Segment.join pre) = 0 := by
    rw [Chunks, Segment.chunks_append] at hc
    rw [depthAfter, Segment.run_append]
    exact Chunks.depth_eq hc.2
  have hraw : rawLines source =
      ((chunksOf source).1 ++ Segment.join pre) ++ (c.lines ++ Segment.join post) := by
    rw [hlines]
    simp [Chunk.lines]
  have hne : ∀ r ∈ rawLines source, r ≠ [] := fun r hr => ne_nil_of_mem_rawLines hr
  rw [hraw] at hne
  refine ⟨layLines 0 0 0 ((chunksOf source).1 ++ Segment.join pre),
    layLines (((chunksOf source).1 ++ Segment.join pre).length + c.lines.length)
      (((chunksOf source).1 ++ Segment.join pre).flatten.length + c.text.length)
      (depthAfter 0 c.lines) (Segment.join post),
    ((chunksOf source).1 ++ Segment.join pre).length, ?_, ?_, ?_⟩
  · rw [sourceLines, lines_new, hraw]
    generalize (chunksOf source).1 ++ Segment.join pre = front at hdepth
    rw [layLines_append, show Segment.run lineDepth 0 front = 0 from hdepth, layLines_append,
      Nat.zero_add, Nat.zero_add, ← List.append_assoc]
    rfl
  · intro l hl
    have := layLines_bounds (fun r hr => hne r (List.mem_append_left _ hr)) hl
    omega
  · intro l hl
    exact (layLines_bounds (fun r hr =>
      hne r (List.mem_append_right _ (List.mem_append_right _ hr))) hl).1

theorem tiled_chunk {source : Text} {pre post : List Chunk} {c : Chunk} {declared : List Text}
    {info : HeadingInfo} (h : (chunksOf source).2 = pre ++ c :: post)
    (hread : readHeading declared ((chunksOf source).1 ++ Segment.join pre).flatten.length c =
      some info) :
    info.Tiled source := by
  obtain ⟨before, after, no, hlines, hbefore, hafter⟩ := sourceLines_chunk h
  obtain ⟨hraw, -, hc⟩ := chunksOf_spec source
  have hsource : source = ((chunksOf source).1 ++ Segment.join pre).flatten ++ c.text ++
      (Segment.join post).flatten := by
    conv_lhs => rw [← rawLines_flatten source, hraw, h]
    simp [Chunk.text, Chunk.lines]
  rw [h, Chunks, Segment.chunks_append] at hc
  obtain ⟨-, hhead, hn, -⟩ := (chunks_cons_iff _ _ _).mp hc.2
  refine ⟨⟨_, ?_, ?_, adjacent_pieces hread no⟩, ?_, ?_⟩
  · rw [hlines, Chunk.lines, layLines]
    exact List.mem_append_left _ (List.mem_append_right _ List.mem_cons_self)
  · rw [readHeading_titleLine hread]
    rfl
  · -- a line that starts inside the body is a line of the body
    obtain ⟨ds, body, hcs, hds, hbody, -⟩ := readHeading_body hread
    intro l hl hstart hstop
    rw [hbody] at hstart hstop
    dsimp only at hstart hstop
    rw [hlines, List.mem_append, List.mem_append] at hl
    rcases hl with (hl | hl) | hl
    · have := hbefore l hl
      omega
    · have hsplit : c.lines = (c.1 :: ds) ++ body := by rw [Chunk.lines, hcs]; rfl
      have hdepth : depthAfter 0 (c.1 :: ds) = 0 := by
        show depthAfter (lineDepth 0 c.1) ds = 0
        rw [(isHead_zero hhead).2.1, hds]
      have hn : NoHead 0 body := by
        rw [hcs, NoHead, Segment.noHead_append] at hn
        rw [show Segment.run lineDepth 0 ds = 0 from hds 0] at hn
        exact hn.2
      rw [hsplit, layLines_append, List.mem_append] at hl
      rcases hl with hl | hl
      · have := (layLines_bounds (fun r hr => ?_) hl).2
        · simp only [List.flatten_cons, List.length_append] at this
          omega
        · exact ne_nil_of_mem_rawLines (t := source) (by
            rw [hraw, h, Segment.join_append, Segment.join_cons, hcs]
            simp only [List.mem_append, List.mem_cons] at hr ⊢
            tauto)
      · rw [show Segment.run lineDepth 0 (c.1 :: ds) = 0 from hdepth] at hl
        exact headingLevelAt_of_noHead hn hl
    · have := hafter l hl
      omega
  · have := valuesSliced (Segment.join post).flatten hread
    rwa [← hsource] at this

/-! ### The tree -/

theorem exists_of_mem_place {off : ℕ} {cs : List Chunk} {q : ℕ × Chunk} (h : q ∈ place off cs) :
    ∃ pre post, cs = pre ++ q.2 :: post ∧ q.1 = off + (Segment.join pre).flatten.length := by
  induction cs generalizing off with
  | nil => simp [place] at h
  | cons c cs ih =>
      rcases List.mem_cons.mp h with rfl | h
      · exact ⟨[], cs, rfl, rfl⟩
      · obtain ⟨pre, post, rfl, hq⟩ := ih h
        refine ⟨c :: pre, post, rfl, ?_⟩
        rw [hq]
        simp [Chunk.text, Chunk.lines, Nat.add_assoc]

theorem tiled_of_readFlat {source : Text} {keywords : List Keyword} {infos : List HeadingInfo}
    (h : readFlat source = some (keywords, infos)) : ∀ i ∈ infos, i.Tiled source := by
  obtain ⟨declared, -, hread, -⟩ := (readFlat_eq_some_iff _ _ _).mp h
  intro i hi
  obtain ⟨as, bs, rfl⟩ := List.append_of_mem hi
  obtain ⟨qs, qs', hsplit, -, hqs⟩ := Outline.forall₂_append_right_iff.mp hread
  obtain ⟨q, qs', hq, -, rfl⟩ := List.forall₂_cons_right_iff.mp hqs
  obtain ⟨pre, post, hcs, hoff⟩ := exists_of_mem_place (q := q)
    (hsplit ▸ List.mem_append_right qs List.mem_cons_self)
  rw [hoff, ← List.length_append, ← List.flatten_append] at hq
  exact tiled_chunk hcs hq

mutual

theorem tiled_of_laid {source : Text} : ∀ {level start : ℕ} (h : Heading), Laid level start h →
    (∀ i ∈ h.flatten, i.Tiled source) →
      Heading.Tiled source level h ∧ h.span.start = start ∧ start ≤ h.span.stop
  | level, start, ⟨info, span, sections⟩, hlaid, hlocal => by
      obtain ⟨hlevel, hstart, rfl, hsections⟩ := hlaid
      obtain ⟨hinfo, hbelow⟩ := List.forall_mem_cons.mp hlocal
      obtain ⟨⟨title, htitle, hline, hadj⟩, hbody, hvalues⟩ := hinfo
      obtain ⟨hall, hadj'⟩ := tiledAll_of_laid sections hsections hbelow
      rw [hstart] at hadj
      have hadj := hadj.append hadj'
      exact ⟨⟨hlevel, ⟨title, htitle, hline, hadj⟩, hbody, hvalues, hall⟩, rfl, hadj.le⟩

theorem tiledAll_of_laid {source : Text} : ∀ {level start stop : ℕ} (hs : List Heading),
    LaidAll level start stop hs → (∀ i ∈ Heading.flattenAll hs, i.Tiled source) →
      Heading.TiledAll source level hs ∧ Adjacent start stop (hs.map Heading.span)
  | _, _, _, [], hlaid, _ => ⟨trivial, hlaid⟩
  | level, start, stop, h :: hs, hlaid, hlocal => by
      obtain ⟨hhead, htail⟩ := hlaid
      obtain ⟨h1, h2⟩ := List.forall_mem_append.mp hlocal
      obtain ⟨htiled, hstart, hle⟩ := tiled_of_laid h hhead h1
      obtain ⟨hall, hadj⟩ := tiledAll_of_laid hs htail h2
      exact ⟨⟨htiled, hall⟩, hstart, hstart ▸ hle, hadj⟩

end

/-- **The parse tiles the source.** -/
theorem parse_tiles (source display : Text) (f : OrgFile)
    (h : OrgFile.parse source display = .ok f) : f.source = source ∧ f.Tiled := by
  have hp := parse_flat source display
  cases hr : readFlat source with
  | none =>
      rw [hr] at hp
      obtain ⟨e, he⟩ := hp
      rw [he] at h
      cases h
  | some x =>
      obtain ⟨keywords, infos⟩ := x
      rw [hr] at hp
      obtain ⟨hs, hok, hinfos, hlaid⟩ := hp
      rw [hok, Except.ok.injEq] at h
      subst h
      have hlocal := tiled_of_readFlat hr
      rw [← hinfos] at hlocal
      obtain ⟨hall, hadj⟩ := tiledAll_of_laid hs hlaid hlocal
      refine ⟨rfl, rfl, ?_, hadj, hall⟩
      cases hs with
      | nil => exact hlaid
      | cons h hs => exact hadj.1.symm

/-- A file with a keyword, a drawer, a block that hides a heading, and no final newline. -/
theorem parse_tiles_sample : ∃ f, OrgFile.parse
    "#+title: t\n\n* A\n:PROPERTIES:\n:ID: a\n:END:\n#+begin_src\n* x\n#+end_src\n** B".toList [] =
      .ok f ∧ f.Tiled := by
  obtain ⟨f, hf⟩ := exists_of_isOk (show (OrgFile.parse
    "#+title: t\n\n* A\n:PROPERTIES:\n:ID: a\n:END:\n#+begin_src\n* x\n#+end_src\n** B".toList
      []).isOk = true by decide +kernel)
  exact ⟨f, hf, (parse_tiles _ _ f hf).2⟩

end Orgasmic
