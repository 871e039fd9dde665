import Orgasmic.OrgLines
import Orgasmic.Outline

/-! # Reading a document without the tree

The flat reading of a document: its directives and its headings in the order they are written.

* **One heading.** `readHeading` reads the title line, the drawer and the body of one chunk that
  starts at a given position; it is a function of the chunk alone.
* **Documents.** `readFlat` reads the prelude and the chunks.  `readFlat_eq_some_iff` says when it
  succeeds: every chunk can be read and no heading is more than one level deeper than the heading
  before it. -/

namespace Orgasmic

open Text

/-! ### Reading one chunk -/

/-- The drawer that opened at `start`: the entries, the position after it and the raw lines
after it.  The next raw line starts at `off`. -/
def readDrawer (start off : ℕ) (entries : List PropertyEntry) :
    List Text → Option (PropertyDrawer × ℕ × List Text)
  | [] => none
  | r :: rs =>
      let next := off + r.length
      if trim (content r) = ":END:".toList then some (⟨entries, ⟨start, next⟩⟩, next, rs)
      else if trim (content r) = [] then none
      else (parsePropertyLine (content r) (spanAt off r)).bind fun e =>
        readDrawer start next (entries ++ [e]) rs

/-- The optional drawer, where the body starts, and the raw lines of the body. -/
def readProperties (off : ℕ) : List Text → Option (Option PropertyDrawer × ℕ × List Text)
  | [] => some (none, off, [])
  | r :: rs =>
      if trim (content r) = ":PROPERTIES:".toList then
        (readDrawer off (off + r.length) [] rs).map fun x => (some x.1, x.2)
      else some (none, off, r :: rs)

/-- The heading of a chunk that starts at `off`. -/
def readHeading (declared : List Text) (off : ℕ) (c : Chunk) : Option HeadingInfo := do
  let level ← headingLevel (content c.1)
  let parsed ← parseHeadingLine (content c.1) level declared
  let (properties, bodyStart, body) ← readProperties (off + c.1.length) c.2
  some ⟨level, parsed.todo, parsed.title, parsed.tags, properties,
    ⟨off, off + (content c.1).length⟩, ⟨bodyStart, bodyStart + body.flatten.length⟩⟩

/-- The level of a chunk. -/
def Chunk.level (c : Chunk) : ℕ := (headingLevel (content c.1)).getD 0

/-- The chunks with their positions, the first one at `off`. -/
def place (off : ℕ) : List Chunk → List (ℕ × Chunk)
  | [] => []
  | c :: cs => (off, c) :: place (off + c.text.length) cs

/-! ### Drawers -/

theorem drop_leadingWs (t : Text) : t.drop (t.length - (trimStart t).length) = trimStart t := by
  obtain ⟨w, -, h⟩ := trimStart_spec t
  have hlen : t.length = w.length + (trimStart t).length := by
    conv_lhs => rw [h, List.length_append]
  have e : t.length - (trimStart t).length = w.length := by omega
  rw [e]
  conv_lhs => rw [h, List.drop_left]

theorem trimStart_of_trim {t : Text} {c : Char} {u : Text} (h : trim t = c :: u) :
    ∃ v, trimStart t = c :: v := by
  obtain ⟨w, -, e⟩ := trimEnd_spec (trimStart t)
  rw [← trim, h] at e
  exact ⟨u ++ w, e⟩

/-- A property line starts with a colon. -/
theorem trimStart_of_property {t : Text} {s : LineSpan} {e : PropertyEntry}
    (h : parsePropertyLine t s = some e) : ∃ u, trimStart t = ':' :: u := by
  dsimp only [parsePropertyLine] at h
  rw [drop_leadingWs] at h
  split at h
  · next u hu =>
      have hpre : trimEndMatches '\r' t <+: t := List.rdropWhile_prefix _ _
      obtain ⟨w, hw⟩ := hpre
      have hnb : ¬ Blank (trimEndMatches '\r' t) := by
        intro hb
        rw [blank_trimStart hb] at hu
        cases hu
      refine ⟨u ++ w, ?_⟩
      rw [← hw, trimStart_append hnb, hu]
      rfl
  · cases h

theorem drawerLine_depth {r : Text} {u : Text} (h : trimStart (content r) = ':' :: u) (d : ℕ) :
    lineDepth d r = d :=
  blockDepth_of_not_block (not_block_of_trimStart h (by decide)) d

/-- A heading line is no line of a drawer. -/
theorem not_drawer_of_heading {t : Text} {n : ℕ} (h : headingLevel t = some n) (s : LineSpan) :
    trim t ≠ ":END:".toList ∧ trim t ≠ [] ∧ trim t ≠ ":PROPERTIES:".toList ∧
      parsePropertyLine t s = none := by
  obtain ⟨u, -, hu⟩ := trimStart_heading h
  have hne : ∀ {c : Char} {v : Text}, trim t = c :: v → c = '*' := by
    intro c v hv
    obtain ⟨v', hv'⟩ := trimStart_of_trim hv
    rw [hu] at hv'
    exact (List.cons.inj hv').1.symm
  refine ⟨fun h0 => absurd (hne h0) (by decide), ?_, fun h0 => absurd (hne h0) (by decide), ?_⟩
  · intro h0
    have := blank_trimStart ((trim_eq_nil_iff t).mp h0)
    rw [hu] at this
    cases this
  · rw [Option.eq_none_iff_forall_ne_some]
    intro e he
    obtain ⟨v, hv⟩ := trimStart_of_property he
    rw [hu] at hv
    exact absurd (List.cons.inj hv).1 (by decide)

/-- The lines of a drawer leave the block depth as it is; they end where the body starts. -/
theorem readDrawer_spec {start off : ℕ} {es : List PropertyEntry} {rs : List Text}
    {drawer : PropertyDrawer} {b : ℕ} {body : List Text}
    (h : readDrawer start off es rs = some (drawer, b, body)) :
    ∃ ds, rs = ds ++ body ∧ ds ≠ [] ∧ b = off + ds.flatten.length ∧ drawer.span = ⟨start, b⟩ ∧
      ∀ d, depthAfter d ds = d := by
  induction rs generalizing off es with
  | nil => simp [readDrawer] at h
  | cons r rs ih =>
      simp only [readDrawer] at h
      split_ifs at h with h1 h2
      · simp only [Option.some.injEq, Prod.mk.injEq] at h
        obtain ⟨rfl, rfl, rfl⟩ := h
        obtain ⟨u, hu⟩ := trimStart_of_trim h1
        exact ⟨[r], by simp, by simp, by simp, rfl, fun d => drawerLine_depth hu d⟩
      · obtain ⟨e, he, h⟩ := Option.bind_eq_some_iff.mp h
        obtain ⟨ds, rfl, -, hb, hspan, hd⟩ := ih h
        obtain ⟨u, hu⟩ := trimStart_of_property he
        refine ⟨r :: ds, rfl, by simp, ?_, hspan, fun d => ?_⟩
        · rw [hb]
          simp [Nat.add_assoc]
        · show depthAfter (lineDepth d r) ds = d
          rw [drawerLine_depth hu, hd]

theorem readProperties_spec {off : ℕ} {rs : List Text} {properties : Option PropertyDrawer} {b : ℕ}
    {body : List Text} (h : readProperties off rs = some (properties, b, body)) :
    ∃ ds, rs = ds ++ body ∧ b = off + ds.flatten.length ∧
      (properties = none ∧ ds = [] ∨ ∃ drawer, properties = some drawer ∧ drawer.span = ⟨off, b⟩) ∧
      ∀ d, depthAfter d ds = d := by
  cases rs with
  | nil =>
      simp only [readProperties, Option.some.injEq, Prod.mk.injEq] at h
      obtain ⟨rfl, rfl, rfl⟩ := h
      exact ⟨[], by simp⟩
  | cons r rs =>
      simp only [readProperties] at h
      split_ifs at h with h1
      · obtain ⟨⟨drawer, b', body'⟩, hd, h⟩ := Option.map_eq_some_iff.mp h
        simp only [Prod.mk.injEq] at h
        obtain ⟨rfl, rfl, rfl⟩ := h
        obtain ⟨ds, rfl, -, rfl, hspan, hdep⟩ := readDrawer_spec hd
        obtain ⟨u, hu⟩ := trimStart_of_trim h1
        refine ⟨r :: ds, rfl, by simp [Nat.add_assoc], .inr ⟨drawer, rfl, hspan⟩, fun d => ?_⟩
        show depthAfter (lineDepth d r) ds = d
        rw [drawerLine_depth hu, hdep]
      · simp only [Option.some.injEq, Prod.mk.injEq] at h
        obtain ⟨rfl, rfl, rfl⟩ := h
        exact ⟨[], by simp⟩

theorem readHeading_eq_some_iff {declared : List Text} {off : ℕ} {c : Chunk} {info : HeadingInfo} :
    readHeading declared off c = some info ↔
      ∃ level parsed properties b body, headingLevel (content c.1) = some level ∧
        parseHeadingLine (content c.1) level declared = some parsed ∧
        readProperties (off + c.1.length) c.2 = some (properties, b, body) ∧
        info = ⟨level, parsed.todo, parsed.title, parsed.tags, properties,
          ⟨off, off + (content c.1).length⟩, ⟨b, b + body.flatten.length⟩⟩ := by
  simp only [readHeading, Option.bind_eq_bind, Option.bind_eq_some_iff, Option.some.injEq,
    Prod.exists]
  constructor
  · rintro ⟨level, hl, parsed, hp, properties, b, body, hr, rfl⟩
    exact ⟨level, parsed, properties, b, body, hl, hp, hr, rfl⟩
  · rintro ⟨level, parsed, properties, b, body, hl, hp, hr, rfl⟩
    exact ⟨level, hl, parsed, hp, properties, b, body, hr, rfl⟩

theorem readHeading_level {declared : List Text} {off : ℕ} {c : Chunk} {info : HeadingInfo}
    (h : readHeading declared off c = some info) : info.level = c.level := by
  obtain ⟨level, parsed, properties, b, body, hl, -, -, rfl⟩ := readHeading_eq_some_iff.mp h
  simp [Chunk.level, hl]

theorem readHeading_titleLine {declared : List Text} {off : ℕ} {c : Chunk} {info : HeadingInfo}
    (h : readHeading declared off c = some info) :
    info.titleLine = ⟨off, off + (content c.1).length⟩ := by
  obtain ⟨level, parsed, properties, b, body, -, -, -, rfl⟩ := readHeading_eq_some_iff.mp h
  rfl

theorem readHeading_body {declared : List Text} {off : ℕ} {c : Chunk} {info : HeadingInfo}
    (h : readHeading declared off c = some info) :
    ∃ ds body, c.2 = ds ++ body ∧ (∀ d, depthAfter d ds = d) ∧
      info.body = ⟨off + c.1.length + ds.flatten.length, off + c.text.length⟩ ∧
      (info.properties = none ∧ ds = [] ∨ ∃ drawer, info.properties = some drawer ∧
        drawer.span = ⟨off + c.1.length, off + c.1.length + ds.flatten.length⟩) := by
  obtain ⟨level, parsed, properties, b, body, -, -, hr, rfl⟩ := readHeading_eq_some_iff.mp h
  obtain ⟨ds, hds, rfl, hprops, hdepth⟩ := readProperties_spec hr
  refine ⟨ds, body, hds, hdepth, ?_, hprops⟩
  simp [Chunk.text, Chunk.lines, hds, Nat.add_assoc]

/-! ### Documents -/

/-- The directives at the top of the prelude, whose next raw line starts at `off`, and the TODO
keywords they declare. -/
def readKeywords (off : ℕ) (keywords : List Keyword) (declared : List Text) :
    List Text → Option (List Keyword × List Text)
  | [] => some (keywords, declared)
  | r :: rs =>
      match "#+".toList.isPrefixOf? (trimStart (content r)) with
      | some directive =>
          (parseKeywordLine directive).bind fun x =>
            readKeywords (off + r.length) (keywords ++ [⟨x.1, x.2, (spanAt off r).full⟩])
              (declared ++ declaredBy x.1 x.2) rs
      | none =>
          if trim (content r) = [] then readKeywords (off + r.length) keywords declared rs
          else some (keywords, declared)

/-- The chunks of a document, read by their levels. -/
def belowChunks (declared : List Text) (floor prev : ℕ) (cs : List (ℕ × Chunk)) :
    Option (List HeadingInfo × List (ℕ × Chunk)) :=
  Outline.below (fun q => q.2.level) (fun q => readHeading declared q.1 q.2) floor prev cs

/-- The directives and headings of a document, read without the tree. -/
def readFlat (source : Text) : Option (List Keyword × List HeadingInfo) :=
  let (prelude, cs) := chunksOf source
  (readKeywords 0 [] [] prelude).bind fun x =>
    (belowChunks x.2 0 0 (place prelude.flatten.length cs)).map fun r => (x.1, r.1)

theorem place_map_snd (off : ℕ) (cs : List Chunk) : (place off cs).map Prod.snd = cs := by
  induction cs generalizing off with
  | nil => rfl
  | cons c cs ih => simp [place, ih]

theorem place_append (off : ℕ) (cs ds : List Chunk) :
    place off (cs ++ ds) = place off cs ++ place (off + (Segment.join cs).flatten.length) ds := by
  induction cs generalizing off with
  | nil => simp [place]
  | cons c cs ih => simp [place, ih, Chunk.text, Chunk.lines, Nat.add_assoc]

theorem headingLevel_chunk {c : Chunk} (h : isHead 0 c.1 = true) :
    headingLevel (content c.1) = some c.level := by
  obtain ⟨l, hl⟩ := (isHead_zero_iff c.1).mp h
  simp [Chunk.level, hl]

theorem level_pos_of_isHead {c : Chunk} (h : isHead 0 c.1 = true) : 0 < c.level :=
  ((headingLevel_eq_some_iff _ _).mp (headingLevel_chunk h)).1

theorem Chunks.level_pos {d : ℕ} {cs : List Chunk} (h : Chunks d cs) : ∀ c ∈ cs, 0 < c.level := by
  induction cs generalizing d with
  | nil => simp
  | cons c cs ih =>
      obtain ⟨-, hhead, -, h⟩ := (chunks_cons_iff _ _ _).mp h
      exact List.forall_mem_cons.mpr ⟨level_pos_of_isHead hhead, ih h⟩

/-- **What a document needs to be read**: its directives, every chunk, and no heading more than
one level deeper than the heading before it. -/
theorem readFlat_eq_some_iff (source : Text) (keywords : List Keyword)
    (infos : List HeadingInfo) :
    readFlat source = some (keywords, infos) ↔
      ∃ declared, readKeywords 0 [] [] (chunksOf source).1 = some (keywords, declared) ∧
        List.Forall₂ (fun q i => readHeading declared q.1 q.2 = some i)
          (place (chunksOf source).1.flatten.length (chunksOf source).2) infos ∧
        Outline.Stepped 0 ((chunksOf source).2.map Chunk.level) := by
  have hpos := (chunksOf_spec source).2.2.level_pos
  simp only [readFlat, belowChunks, Option.bind_eq_some_iff, Option.map_eq_some_iff, Prod.exists,
    Prod.mk.injEq, Outline.below_eq_some_iff]
  have hlevels : ∀ off, (place off (chunksOf source).2).map (fun q => q.2.level) =
      (chunksOf source).2.map Chunk.level := by
    intro off
    conv_rhs => rw [← place_map_snd off (chunksOf source).2, List.map_map]
    rfl
  constructor
  · rintro ⟨keywords', declared, hk, infos', rest, ⟨taken, htaken, hread, -, hs, hrest⟩, rfl, rfl⟩
    have hnil : rest = [] := by
      cases rest with
      | nil => rfl
      | cons q rest =>
          have hq : q.2 ∈ (place (chunksOf source).1.flatten.length
              (chunksOf source).2).map Prod.snd :=
            List.mem_map_of_mem (by rw [htaken]; simp)
          rw [place_map_snd] at hq
          have h0 := hrest q rfl
          have h1 := hpos q.2 hq
          omega
    subst hnil
    rw [List.append_nil] at htaken
    rw [← htaken, hlevels] at hs
    rw [← htaken] at hread
    exact ⟨declared, hk, hread, hs⟩
  · rintro ⟨declared, hk, hread, hs⟩
    refine ⟨keywords, declared, hk, infos, [], ⟨_, (List.append_nil _).symm, hread, ?_, ?_,
      by simp⟩, rfl, rfl⟩
    · intro q hq
      have hq := List.mem_map_of_mem (f := Prod.snd) hq
      rw [place_map_snd] at hq
      exact hpos _ hq
    · rw [hlevels]
      exact hs

end Orgasmic
