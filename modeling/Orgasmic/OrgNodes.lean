import Orgasmic.OrgDescent

/-! # Headings without positions

What a heading says, apart from where it stands.

* **Nodes.** `HeadingInfo.node` is a heading with its property list and its body text (up to
  trailing white space).  `Chunk.node` reads a node from the lines of a chunk alone, and
  `readHeading_node` says that it is the node of the heading read there; so an edit that leaves
  the lines of a chunk as they are leaves its node as it is.
* **Documents.** `nodes_of_readFlat`: the nodes of a document are the nodes of its chunks.
* **Lookups.** `findByIdIn_spec` and `find_section_spec` describe the heading that `findById` and
  `section?` return by its place among the headings in document order. -/

namespace Orgasmic

open Text

/-! ### Nodes -/

structure Node where
  level : ℕ
  todo : Option Text
  title : Text
  tags : List Text
  properties : List (Text × Text)
  /-- The body text, up to trailing white space. -/
  body : Text
deriving DecidableEq, Repr

def PropertyEntry.pair (e : PropertyEntry) : Text × Text := (e.key, e.value)

def HeadingInfo.node (source : Text) (i : HeadingInfo) : Node :=
  ⟨i.level, i.todo, i.title, i.tags, i.propertyEntries.map PropertyEntry.pair,
    trimEnd (slice source i.body)⟩

/-- The entries of an optional drawer. -/
def drawerPairs (d : Option PropertyDrawer) : List (Text × Text) :=
  match d with
  | none => []
  | some drawer => drawer.entries.map PropertyEntry.pair

/-- The properties and the body lines below a title line. -/
def readPairs (rs : List Text) : Option (List (Text × Text) × List Text) :=
  (readProperties 0 rs).map fun x => (drawerPairs x.1, x.2.2)

def Chunk.node (declared : List Text) (c : Chunk) : Option Node := do
  let level ← headingLevel (content c.1)
  let parsed ← parseHeadingLine (content c.1) level declared
  let (properties, body) ← readPairs c.2
  some ⟨level, parsed.todo, parsed.title, parsed.tags, properties, trimEnd body.flatten⟩

/-- The value of property `key`. -/
def Node.property (n : Node) (key : Text) : Option Text :=
  (n.properties.find? fun e => e.1 = key).map Prod.snd

theorem HeadingInfo.node_property (source : Text) (i : HeadingInfo) (key : Text) :
    (i.node source).property key = i.property key := by
  simp only [Node.property, HeadingInfo.node, HeadingInfo.property, List.find?_map,
    Option.map_map]
  rfl

/-! ### Positions do not matter -/

theorem parsePropertyLine_pair (t : Text) (s s' : LineSpan) :
    (parsePropertyLine t s).map PropertyEntry.pair =
      (parsePropertyLine t s').map PropertyEntry.pair := by
  dsimp only [parsePropertyLine]
  split
  · split
    · rfl
    · split_ifs <;> rfl
  · rfl

theorem readDrawer_pairs (start start' off off' : ℕ) (es es' : List PropertyEntry)
    (hes : es.map PropertyEntry.pair = es'.map PropertyEntry.pair) (rs : List Text) :
    (readDrawer start off es rs).map (fun x => (x.1.entries.map PropertyEntry.pair, x.2.2)) =
      (readDrawer start' off' es' rs).map
        (fun x => (x.1.entries.map PropertyEntry.pair, x.2.2)) := by
  induction rs generalizing off off' es es' with
  | nil => rfl
  | cons r rs ih =>
      simp only [readDrawer]
      split_ifs
      · simp [hes]
      · rfl
      · have hp := parsePropertyLine_pair (content r) (spanAt off r) (spanAt off' r)
        cases h : parsePropertyLine (content r) (spanAt off r) with
        | none =>
            rw [h] at hp
            have h' : parsePropertyLine (content r) (spanAt off' r) = none := by
              simpa using hp.symm
            rw [h']
            rfl
        | some e =>
            rw [h] at hp
            obtain ⟨e', h', hee⟩ := Option.map_eq_some_iff.mp hp.symm
            rw [h', Option.bind_some, Option.bind_some]
            exact ih _ _ _ _ (by simp [hes, hee])

theorem readProperties_pairs (off : ℕ) (rs : List Text) :
    (readProperties off rs).map (fun x => (drawerPairs x.1, x.2.2)) = readPairs rs := by
  cases rs with
  | nil => rfl
  | cons r rs =>
      simp only [readPairs, readProperties]
      split_ifs
      · have h := readDrawer_pairs off 0 (off + r.length) (0 + r.length) [] [] rfl rs
        rw [Option.map_map, Option.map_map]
        exact h
      · rfl

theorem readPairs_of_readProperties {off b : ℕ} {rs body : List Text}
    {d : Option PropertyDrawer} (h : readProperties off rs = some (d, b, body)) :
    readPairs rs = some (drawerPairs d, body) := by
  rw [← readProperties_pairs off rs, h]
  rfl

theorem propertyEntries_pairs (i : HeadingInfo) :
    i.propertyEntries.map PropertyEntry.pair = drawerPairs i.properties := by
  cases h : i.properties <;> simp [HeadingInfo.propertyEntries, drawerPairs, h]

/-- **The node of a heading is read from its chunk.** -/
theorem readHeading_node {declared : List Text} {before : Text} {c : Chunk} {info : HeadingInfo}
    (after : Text) (h : readHeading declared before.length c = some info) :
    c.node declared = some (info.node (before ++ c.text ++ after)) := by
  obtain ⟨level, parsed, properties, b, body, hl, hp, hr, rfl⟩ := readHeading_eq_some_iff.mp h
  obtain ⟨ds, hds, rfl, -, -⟩ := readProperties_spec hr
  have hslice : slice (before ++ c.text ++ after)
      ⟨before.length + c.1.length + ds.flatten.length,
        before.length + c.1.length + ds.flatten.length + body.flatten.length⟩ = body.flatten := by
    have e : before ++ c.text ++ after =
        (before ++ c.1 ++ ds.flatten) ++ body.flatten ++ after := by
      simp [Chunk.text, Chunk.lines, hds]
    have hlen : before.length + c.1.length + ds.flatten.length =
        (before ++ c.1 ++ ds.flatten).length := by simp [Nat.add_assoc]
    rw [e, hlen]
    exact slice_append_three _ _ _
  simp only [Chunk.node, hl, hp, readPairs_of_readProperties hr, Option.bind_eq_bind,
    Option.bind_some, HeadingInfo.node, propertyEntries_pairs, hslice]

theorem Chunk.node_eq_some_iff {declared : List Text} {c : Chunk} {n : Node} :
    c.node declared = some n ↔ ∃ level parsed ps body, headingLevel (content c.1) = some level ∧
      parseHeadingLine (content c.1) level declared = some parsed ∧
      readPairs c.2 = some (ps, body) ∧
      n = ⟨level, parsed.todo, parsed.title, parsed.tags, ps, trimEnd body.flatten⟩ := by
  simp only [Chunk.node, Option.bind_eq_bind, Option.bind_eq_some_iff, Option.some.injEq,
    Prod.exists]
  constructor
  · rintro ⟨level, hl, parsed, hp, ps, body, hr, rfl⟩
    exact ⟨level, parsed, ps, body, hl, hp, hr, rfl⟩
  · rintro ⟨level, parsed, ps, body, hl, hp, hr, rfl⟩
    exact ⟨level, hl, parsed, hp, ps, body, hr, rfl⟩

theorem readHeading_of_node {declared : List Text} {c : Chunk} {n : Node} (off : ℕ)
    (h : c.node declared = some n) : ∃ info, readHeading declared off c = some info := by
  simp only [Chunk.node, Option.bind_eq_bind, Option.bind_eq_some_iff, Prod.exists] at h
  obtain ⟨level, hl, parsed, hp, properties, body, hr, -⟩ := h
  rw [← readProperties_pairs (off + c.1.length) c.2] at hr
  obtain ⟨⟨d, b, body'⟩, hd, -⟩ := Option.map_eq_some_iff.mp hr
  exact ⟨_, readHeading_eq_some_iff.mpr ⟨level, parsed, d, b, body', hl, hp, hd, rfl⟩⟩

/-! ### Documents -/

/-- The headings of a document in document order. -/
def OrgFile.infos (f : OrgFile) : List HeadingInfo := Heading.flattenAll f.headings

/-- The TODO keywords that a document declares. -/
def OrgFile.declared (f : OrgFile) : List Text :=
  f.keywords.flatMap fun k => declaredBy k.key k.value

theorem readKeywords_declared {off : ℕ} {keywords keywords' : List Keyword}
    {declared declared' : List Text} {rs : List Text}
    (hd : declared = keywords.flatMap fun k => declaredBy k.key k.value)
    (h : readKeywords off keywords declared rs = some (keywords', declared')) :
    declared' = keywords'.flatMap fun k => declaredBy k.key k.value := by
  induction rs generalizing off keywords declared with
  | nil =>
      simp only [readKeywords, Option.some.injEq, Prod.mk.injEq] at h
      obtain ⟨rfl, rfl⟩ := h
      exact hd
  | cons r rs ih =>
      simp only [readKeywords] at h
      cases hp : "#+".toList.isPrefixOf? (trimStart (content r)) with
      | some directive =>
          rw [hp] at h
          obtain ⟨x, -, h⟩ := Option.bind_eq_some_iff.mp h
          exact ih (by simp [hd]) h
      | none =>
          rw [hp] at h
          simp only at h
          split_ifs at h
          · exact ih hd h
          · simp only [Option.some.injEq, Prod.mk.injEq] at h
            obtain ⟨rfl, rfl⟩ := h
            exact hd

theorem declaredBy_ne_nil (key value : Text) : [] ∉ declaredBy key value := by
  simp only [declaredBy, splitWhitespace]
  split_ifs <;> simp

theorem OrgFile.declared_ne_nil (f : OrgFile) : [] ∉ f.declared := by
  simp only [OrgFile.declared, List.mem_flatMap, not_exists, not_and]
  exact fun k _ => declaredBy_ne_nil k.key k.value

/-- What the parser accepts, read flat. -/
theorem parse_eq_ok_iff (source display : Text) :
    (∃ f, OrgFile.parse source display = .ok f) ↔ ∃ x, readFlat source = some x := by
  have hp := parse_flat source display
  cases hr : readFlat source with
  | none =>
      rw [hr] at hp
      obtain ⟨e, he⟩ := hp
      simp [he]
  | some x =>
      rw [hr] at hp
      obtain ⟨hs, hok, -, -⟩ := hp
      simp [hok]

theorem readFlat_of_parse {source display : Text} {f : OrgFile}
    (h : OrgFile.parse source display = .ok f) :
    f.source = source ∧ readFlat source = some (f.keywords, f.infos) ∧
      f.prelude = ⟨0, (chunksOf source).1.flatten.length⟩ ∧
      LaidAll 1 (chunksOf source).1.flatten.length source.length f.headings := by
  have hp := parse_flat source display
  obtain ⟨⟨keywords, infos⟩, hr⟩ := (parse_eq_ok_iff source display).mp ⟨f, h⟩
  rw [hr] at hp
  obtain ⟨hs, hok, hinfos, hlaid⟩ := hp
  rw [hok, Except.ok.injEq] at h
  subst h
  exact ⟨rfl, by rw [hr, ← hinfos]; rfl, rfl, hlaid⟩

/-- What is read of the chunks, each from the text around it, is what is read of the headings. -/
theorem map_of_place {β : Type*} {declared : List Text} {source : Text} {value : Chunk → β}
    {valueAt : HeadingInfo → β}
    (hread : ∀ {before c i} (after : Text), source = before ++ c.text ++ after →
      readHeading declared before.length c = some i → value c = valueAt i)
    {before : List Text} {cs : List Chunk} {infos : List HeadingInfo} (after : Text)
    (hsource : source = before.flatten ++ (Segment.join cs).flatten ++ after)
    (h : List.Forall₂ (fun q i => readHeading declared q.1 q.2 = some i)
      (place before.flatten.length cs) infos) :
    cs.map value = infos.map valueAt := by
  induction cs generalizing before infos with
  | nil =>
      cases h
      rfl
  | cons c cs ih =>
      obtain ⟨i, is, hi, his, rfl⟩ := List.forall₂_cons_left_iff.mp h
      have hsource' : source = (before ++ c.lines).flatten ++ (Segment.join cs).flatten ++ after := by
        simp [hsource, Chunk.lines]
      have hlen : before.flatten.length + c.text.length = (before ++ c.lines).flatten.length := by
        simp [Chunk.text]
      rw [hlen] at his
      have hvalue := hread ((Segment.join cs).flatten ++ after)
        (by simp [hsource, Chunk.text, Chunk.lines]) hi
      rw [List.map_cons, List.map_cons, hvalue, ih hsource' his]

/-- What is read of the chunks of a document is what is read of its headings. -/
theorem map_of_parse {β : Type*} {source display : Text} {f : OrgFile} {value : Chunk → β}
    {valueAt : HeadingInfo → β} (h : OrgFile.parse source display = .ok f)
    (hread : ∀ {before c i} (after : Text), source = before ++ c.text ++ after →
      readHeading f.declared before.length c = some i → value c = valueAt i) :
    (chunksOf source).2.map value = f.infos.map valueAt := by
  obtain ⟨-, hr, -, -⟩ := readFlat_of_parse h
  obtain ⟨declared, hk, hplaced, -⟩ := (readFlat_eq_some_iff _ _ _).mp hr
  have hd : declared = f.declared := readKeywords_declared rfl hk
  rw [hd] at hplaced
  refine map_of_place hread [] ?_ hplaced
  have := (chunksOf_spec source).1
  rw [List.append_nil, ← List.flatten_append, ← this, rawLines_flatten]

/-- **The nodes of a document are the nodes of its chunks.** -/
theorem nodes_of_parse {source display : Text} {f : OrgFile}
    (h : OrgFile.parse source display = .ok f) :
    (chunksOf source).2.map (Chunk.node f.declared) =
      f.infos.map fun i => some (i.node source) :=
  map_of_parse h fun after hsource hi => hsource ▸ readHeading_node after hi

/-! ### Lookups -/

/-- The heading `g` among `infos`, which end at `stop`: its subtree follows `pre` and ends before
`post`, where a heading that is not deeper begins. -/
structure Subtree (infos pre post : List HeadingInfo) (stop : ℕ) (g : Heading) : Prop where
  split : infos = pre ++ g.flatten ++ post
  laid : Laid g.level g.titleLine.start g
  next : ∀ i ∈ post.head?, i.level ≤ g.level ∧ i.titleLine.start = g.span.stop
  last : post = [] → g.span.stop = stop

theorem flatten_eq (h : Heading) :
    h.flatten = h.toHeadingInfo :: Heading.flattenAll h.sections := by
  obtain ⟨info, span, sections⟩ := h
  rfl

theorem laid_iff {level start : ℕ} (h : Heading) :
    Laid level start h ↔ h.level = level ∧ h.titleLine.start = start ∧ h.span.start = start ∧
      LaidAll (level + 1) h.body.stop h.span.stop h.sections := by
  obtain ⟨info, span, sections⟩ := h
  rfl

theorem LaidAll.head {level start stop : ℕ} {hs : List Heading} (h : LaidAll level start stop hs) :
    ∀ i ∈ (Heading.flattenAll hs).head?, i.level = level ∧ i.titleLine.start = start := by
  cases hs with
  | nil => simp [Heading.flattenAll]
  | cons g hs =>
      obtain ⟨hl, hs', -, -⟩ := (laid_iff g).mp h.1
      simp [Heading.flattenAll, flatten_eq, hl, hs']

theorem flattenAll_eq_nil {hs : List Heading} (h : Heading.flattenAll hs = []) : hs = [] := by
  cases hs with
  | nil => rfl
  | cons g hs => simp [Heading.flattenAll, flatten_eq] at h

/-- A subtree among the sections of a heading, seen from the heading. -/
theorem Subtree.cons {infos pre post : List HeadingInfo} {stop : ℕ} {g : Heading}
    (h : Subtree infos pre post stop g) (i : HeadingInfo) :
    Subtree (i :: infos) (i :: pre) post stop g :=
  ⟨by rw [h.split]; rfl, h.laid, h.next, h.last⟩

/-- A subtree in one heading of a list, with the headings after it. -/
theorem Subtree.append {infos pre post : List HeadingInfo} {mid stop level : ℕ} {g : Heading}
    (h : Subtree infos pre post mid g) {hs : List Heading} (hs' : LaidAll level mid stop hs)
    (hg : level ≤ g.level) :
    Subtree (infos ++ Heading.flattenAll hs) pre (post ++ Heading.flattenAll hs) stop g := by
  refine ⟨by rw [h.split]; simp, h.laid, ?_, ?_⟩
  · cases post with
    | nil =>
        intro i hi
        obtain ⟨hl, hi⟩ := hs'.head i (by simpa using hi)
        rw [h.last rfl]
        exact ⟨by omega, hi⟩
    | cons q post => exact h.next
  · intro hnil
    obtain ⟨hpost, hhs⟩ := List.append_eq_nil_iff.mp hnil
    have hhs := flattenAll_eq_nil hhs
    subst hhs
    rw [h.last hpost]
    exact hs'

theorem Subtree.skip {infos pre post : List HeadingInfo} {stop : ℕ} {g : Heading}
    (h : Subtree infos pre post stop g) (before : List HeadingInfo) :
    Subtree (before ++ infos) (before ++ pre) post stop g :=
  ⟨by rw [h.split]; simp, h.laid, h.next, h.last⟩

/-- What a lookup by id finds among `infos`. -/
def LookupSpec (id : Text) (level stop : ℕ) (infos : List HeadingInfo) : Option Heading → Prop
  | none => ∀ i ∈ infos, i.property "ID".toList ≠ some id
  | some g => level ≤ g.level ∧ g.property "ID".toList = some id ∧
      ∃ pre post, Subtree infos pre post stop g ∧ ∀ i ∈ pre, i.property "ID".toList ≠ some id

mutual

theorem findById_spec (id : Text) : ∀ {level start : ℕ} (h : Heading), Laid level start h →
    LookupSpec id level h.span.stop h.flatten (Heading.findById id h)
  | level, start, ⟨info, span, sections⟩, hlaid => by
      obtain ⟨hlevel, hstart, hspan, hsections⟩ := hlaid
      rw [Heading.findById, Heading.flatten]
      split_ifs with hid
      · refine ⟨le_of_eq hlevel.symm, hid, [], [], ⟨by simp [Heading.flatten], ?_, by simp, ?_⟩,
          by simp⟩
        · exact ⟨rfl, rfl, hspan.trans hstart.symm, hlevel ▸ hsections⟩
        · exact fun _ => rfl
      · have ih := findByIdIn_spec id sections hsections
        cases hf : Heading.findByIdIn id sections with
        | none =>
            rw [hf] at ih
            exact List.forall_mem_cons.mpr ⟨hid, ih⟩
        | some g =>
            rw [hf] at ih
            obtain ⟨hle, hg, pre, post, hsub, hpre⟩ := ih
            exact ⟨by omega, hg, info :: pre, post, hsub.cons info,
              List.forall_mem_cons.mpr ⟨hid, hpre⟩⟩

theorem findByIdIn_spec (id : Text) : ∀ {level start stop : ℕ} (hs : List Heading),
    LaidAll level start stop hs →
      LookupSpec id level stop (Heading.flattenAll hs) (Heading.findByIdIn id hs)
  | _, _, _, [], _ => by simp [LookupSpec, Heading.findByIdIn, Heading.flattenAll]
  | level, start, stop, h :: hs, hlaid => by
      obtain ⟨hhead, htail⟩ := hlaid
      have ih := findById_spec id h hhead
      have ih' := findByIdIn_spec id hs htail
      rw [Heading.findByIdIn, Heading.flattenAll]
      cases hf : Heading.findById id h with
      | some g =>
          rw [hf] at ih
          obtain ⟨hle, hg, pre, post, hsub, hpre⟩ := ih
          exact ⟨hle, hg, pre, _, hsub.append htail hle, hpre⟩
      | none =>
          rw [hf] at ih
          rw [Option.none_or]
          cases hf' : Heading.findByIdIn id hs with
          | none =>
              rw [hf'] at ih'
              exact List.forall_mem_append.mpr ⟨ih, ih'⟩
          | some g =>
              rw [hf'] at ih'
              obtain ⟨hle, hg, pre, post, hsub, hpre⟩ := ih'
              exact ⟨hle, hg, _, post, hsub.skip h.flatten,
                List.forall_mem_append.mpr ⟨ih, hpre⟩⟩

end

mutual

theorem Laid.levels : ∀ {level start : ℕ} (h : Heading), Laid level start h →
    ∀ i ∈ h.flatten, level ≤ i.level
  | level, start, ⟨info, span, sections⟩, hlaid => by
      obtain ⟨hlevel, -, -, hsections⟩ := hlaid
      have ih := LaidAll.levels sections hsections
      rw [Heading.flatten]
      exact List.forall_mem_cons.mpr ⟨le_of_eq hlevel.symm, fun i hi => by
        have := ih i hi
        omega⟩

theorem LaidAll.levels : ∀ {level start stop : ℕ} (hs : List Heading),
    LaidAll level start stop hs → ∀ i ∈ Heading.flattenAll hs, level ≤ i.level
  | _, _, _, [], _ => by simp [Heading.flattenAll]
  | level, start, stop, h :: hs, hlaid => by
      rw [Heading.flattenAll]
      exact List.forall_mem_append.mpr
        ⟨Laid.levels h hlaid.1, LaidAll.levels hs hlaid.2⟩

end

/-- What a lookup of a section by title finds among the headings below its parent. -/
theorem find_section_spec (title : Text) {level start stop : ℕ} (hs : List Heading)
    (hlaid : LaidAll level start stop hs) :
    match hs.find? fun s => s.title = title with
    | none => ∀ i ∈ Heading.flattenAll hs, i.level = level → i.title ≠ title
    | some s => s.level = level ∧ s.title = title ∧
        ∃ pre post, Subtree (Heading.flattenAll hs) pre post stop s ∧
          ∀ i ∈ pre, i.level = level → i.title ≠ title := by
  induction hs generalizing start with
  | nil => simp [Heading.flattenAll]
  | cons h hs ih =>
      obtain ⟨hhead, htail⟩ := hlaid
      obtain ⟨hlevel, hstart, hspan, hsections⟩ := (laid_iff h).mp hhead
      have ih := ih htail
      rw [List.find?_cons, Heading.flattenAll]
      by_cases ht : h.title = title
      · simp only [ht, decide_true]
        refine ⟨hlevel, trivial, [], Heading.flattenAll hs, ?_, by simp⟩
        have hself : Subtree h.flatten [] [] h.span.stop h :=
          ⟨by simp, (laid_iff h).mpr ⟨rfl, rfl, hspan.trans hstart.symm, hlevel ▸ hsections⟩,
            by simp, fun _ => rfl⟩
        exact hself.append htail (le_of_eq hlevel.symm)
      · simp only [ht, decide_false]
        have hnot : ∀ i ∈ h.flatten, i.level = level → i.title ≠ title := by
          rw [flatten_eq]
          refine List.forall_mem_cons.mpr ⟨fun _ => ht, fun i hi hil => ?_⟩
          have := LaidAll.levels h.sections hsections i hi
          omega
        cases hf : hs.find? fun s => s.title = title with
        | none =>
            rw [hf] at ih
            exact List.forall_mem_append.mpr ⟨hnot, ih⟩
        | some s =>
            rw [hf] at ih
            obtain ⟨hl, hs', pre, post, hsub, hpre⟩ := ih
            exact ⟨hl, hs', _, post, hsub.skip h.flatten, List.forall_mem_append.mpr ⟨hnot, hpre⟩⟩

/-! ### Documents with one or two levels of headings -/

theorem level_headings {level start stop : ℕ} {hs : List Heading}
    (hlaid : LaidAll level start stop hs)
    (hlevel : ∀ i ∈ Heading.flattenAll hs, i.level ≤ level) :
    Heading.flattenAll hs = hs.map Heading.toHeadingInfo ∧
      ∀ h ∈ hs, h.level = level ∧ h.sections = [] := by
  induction hs generalizing start with
  | nil => exact ⟨rfl, by simp⟩
  | cons h hs ih =>
      rw [Heading.flattenAll, flatten_eq] at hlevel ⊢
      obtain ⟨hhead, htail⟩ := hlaid
      obtain ⟨hown, -, -, hsections⟩ := (laid_iff h).mp hhead
      have hnil : h.sections = [] := by
        refine flattenAll_eq_nil (List.eq_nil_iff_forall_not_mem.mpr fun i hi => ?_)
        have hdeep := LaidAll.levels h.sections hsections i hi
        have hflat := hlevel i (by simp [hi])
        omega
      obtain ⟨hinfos, hnone⟩ := ih htail fun i hi => hlevel i (by simp [hi])
      rw [hnil, hinfos]
      exact ⟨rfl, List.forall_mem_cons.mpr ⟨⟨hown, hnil⟩, hnone⟩⟩

/-- A heading with its sections. -/
def Heading.group (h : Heading) : HeadingInfo × List HeadingInfo :=
  (h.toHeadingInfo, h.sections.map Heading.toHeadingInfo)

theorem group_headings {start stop : ℕ} {hs : List Heading} (hlaid : LaidAll 1 start stop hs)
    (hlevel : ∀ i ∈ Heading.flattenAll hs, i.level ≤ 2) :
    Heading.flattenAll hs = Segment.join (hs.map Heading.group) ∧
      ∀ h ∈ hs, h.level = 1 ∧ ∀ g ∈ h.sections, g.level = 2 := by
  induction hs generalizing start with
  | nil => exact ⟨rfl, by simp⟩
  | cons h hs ih =>
      rw [Heading.flattenAll, flatten_eq] at hlevel ⊢
      obtain ⟨hhead, htail⟩ := hlaid
      obtain ⟨hown, -, -, hsections⟩ := (laid_iff h).mp hhead
      obtain ⟨hflat, hdeep⟩ := level_headings hsections fun i hi => hlevel i (by simp [hi])
      obtain ⟨hinfos, hlevels⟩ := ih htail fun i hi => hlevel i (by simp [hi])
      refine ⟨?_, List.forall_mem_cons.mpr ⟨⟨hown, fun g hg => (hdeep g hg).1⟩, hlevels⟩⟩
      rw [List.map_cons, Segment.join_cons, hinfos, hflat]
      rfl

theorem readHeading_of_nodes {declared : List Text} {cs : List Chunk} (off : ℕ)
    (h : ∀ c ∈ cs, ∃ n, c.node declared = some n) :
    ∃ infos, List.Forall₂ (fun q i => readHeading declared q.1 q.2 = some i) (place off cs)
      infos := by
  induction cs generalizing off with
  | nil => exact ⟨[], .nil⟩
  | cons c cs ih =>
      obtain ⟨⟨n, hn⟩, hcs⟩ := List.forall_mem_cons.mp h
      obtain ⟨i, hi⟩ := readHeading_of_node off hn
      obtain ⟨infos, hinfos⟩ := ih (off + c.text.length) hcs
      exact ⟨i :: infos, .cons hi hinfos⟩

theorem Chunk.node_level {declared : List Text} {c : Chunk} {n : Node}
    (h : c.node declared = some n) : c.level = n.level := by
  obtain ⟨level, parsed, ps, body, hl, -, -, rfl⟩ := Chunk.node_eq_some_iff.mp h
  rw [Chunk.level, hl]
  rfl

/-- **A document from its chunks**, no one more than one level deeper than the one before it. -/
theorem parse_chunks {source : Text} (display : Text) {P : List Text} {cs : List Chunk}
    {keywords : List Keyword} {declared : List Text} (hchunks : chunksOf source = (P, cs))
    (hkeywords : readKeywords 0 [] [] P = some (keywords, declared))
    (hnodes : ∀ c ∈ cs, ∃ n, c.node declared = some n)
    (hstepped : Outline.Stepped 0 (cs.map Chunk.level)) :
    ∃ f, OrgFile.parse source display = .ok f ∧ f.source = source ∧
      cs.map (Chunk.node declared) = f.infos.map (fun i => some (i.node source)) ∧
      LaidAll 1 P.flatten.length source.length f.headings := by
  obtain ⟨infos, hinfos⟩ := readHeading_of_nodes P.flatten.length hnodes
  have hflat : readFlat source = some (keywords, infos) :=
    (readFlat_eq_some_iff _ _ _).mpr ⟨declared, by rw [hchunks]; exact hkeywords,
      by rw [hchunks]; exact hinfos, by rw [hchunks]; exact hstepped⟩
  obtain ⟨f, hf⟩ := (parse_eq_ok_iff source display).mpr ⟨_, hflat⟩
  obtain ⟨hsource, hflat', -, hlaid⟩ := readFlat_of_parse hf
  rw [hflat, Option.some.injEq, Prod.mk.injEq] at hflat'
  have hdeclared : declared = f.declared := by
    rw [OrgFile.declared, ← hflat'.1]
    exact readKeywords_declared rfl hkeywords
  have hmap := nodes_of_parse hf
  rw [hchunks, ← hdeclared] at hmap
  rw [hchunks] at hlaid
  exact ⟨f, hf, hsource, hmap, hlaid⟩

/-- The levels of the headings are those of the nodes. -/
theorem levels_of_nodes {source : Text} {declared : List Text} {cs : List Chunk}
    {infos : List HeadingInfo} {level : ℕ}
    (hmap : cs.map (Chunk.node declared) = infos.map fun i => some (i.node source))
    (hnodes : ∀ c ∈ cs, ∃ n, c.node declared = some n ∧ n.level ≤ level) :
    ∀ i ∈ infos, i.level ≤ level := by
  intro i hi
  have hmem : some (i.node source) ∈ cs.map (Chunk.node declared) := by
    rw [hmap]
    exact List.mem_map_of_mem hi
  obtain ⟨c, hc, hnode⟩ := List.mem_map.mp hmem
  obtain ⟨n, hn, hlevel⟩ := hnodes c hc
  rw [hn, Option.some.injEq] at hnode
  rw [hnode] at hlevel
  exact hlevel

/-- A document of top-level headings, from its chunks. -/
theorem parse_top {source : Text} (display : Text) {P : List Text} {cs : List Chunk}
    {keywords : List Keyword} {declared : List Text} (hchunks : chunksOf source = (P, cs))
    (hkeywords : readKeywords 0 [] [] P = some (keywords, declared))
    (hnodes : ∀ c ∈ cs, ∃ n, c.node declared = some n ∧ n.level = 1) :
    ∃ f, OrgFile.parse source display = .ok f ∧ f.source = source ∧
      f.headings.map (fun h => some (h.node source)) = cs.map (Chunk.node declared) ∧
      ∀ h ∈ f.headings, h.sections = [] := by
  have hstepped : Outline.Stepped 0 (cs.map Chunk.level) := by
    refine Outline.stepped_of_le fun level hlevel => ?_
    obtain ⟨c, hc, rfl⟩ := List.mem_map.mp hlevel
    obtain ⟨n, hn, hone⟩ := hnodes c hc
    rw [Chunk.node_level hn, hone]
  obtain ⟨f, hf, hsource, hmap, hlaid⟩ := parse_chunks display hchunks hkeywords
    (fun c hc => (hnodes c hc).imp fun _ hn => hn.1) hstepped
  obtain ⟨hinfos, hnil⟩ := level_headings hlaid (levels_of_nodes hmap
    fun c hc => (hnodes c hc).imp fun _ hn => ⟨hn.1, le_of_eq hn.2⟩)
  refine ⟨f, hf, hsource, ?_, fun h hh => (hnil h hh).2⟩
  rw [hmap, OrgFile.infos, hinfos, List.map_map]
  rfl

/-- The nodes of a heading and of its sections. -/
def Heading.groupNodes (source : Text) (h : Heading) : Node × List Node :=
  (h.node source, h.sections.map fun s => s.node source)

/-- A top-level node and nodes one level deeper. -/
def IsGroup (g : Node × List Node) : Prop := g.1.level = 1 ∧ ∀ n ∈ g.2, n.level = 2

theorem stepped_groups {groups : List (Node × List Node)} (h : ∀ g ∈ groups, IsGroup g) (prev : ℕ) :
    Outline.Stepped prev ((Segment.join groups).map Node.level) := by
  induction groups generalizing prev with
  | nil => trivial
  | cons g groups ih =>
      obtain ⟨⟨hone, htwo⟩, hgroups⟩ := List.forall_mem_cons.mp h
      have hbelow : ∀ {ns : List Node} {prev : ℕ}, 1 ≤ prev → (∀ n ∈ ns, n.level = 2) →
          Outline.Stepped prev (ns.map Node.level ++ (Segment.join groups).map Node.level) := by
        intro ns
        induction ns with
        | nil => exact fun _ _ => ih hgroups _
        | cons n ns ihn =>
            intro prev hprev hns
            obtain ⟨hn, hns⟩ := List.forall_mem_cons.mp hns
            rw [List.map_cons, List.cons_append, hn]
            exact ⟨by omega, ihn (by omega) hns⟩
      rw [Segment.join_cons, List.map_cons, List.map_append, hone]
      exact ⟨by omega, hbelow (le_refl 1) htwo⟩

/-- Groups of nodes are told apart by their levels. -/
theorem join_groups_inj {gs gs' : List (Node × List Node)} (h : ∀ g ∈ gs, IsGroup g)
    (h' : ∀ g ∈ gs', IsGroup g) (heq : Segment.join gs = Segment.join gs') : gs = gs' := by
  let step : Unit → Node → Unit := fun _ _ => ()
  let head : Unit → Node → Bool := fun _ n => n.level = 1
  have hbody : ∀ {ns : List Node}, (∀ n ∈ ns, n.level = 2) → Segment.NoHead step head () ns := by
    intro ns
    induction ns with
    | nil => exact fun _ => trivial
    | cons n ns ih =>
        intro hns
        obtain ⟨hn, hns⟩ := List.forall_mem_cons.mp hns
        exact ⟨by simp [head, hn], ih hns⟩
  have hchunks : ∀ {gs : List (Node × List Node)}, (∀ g ∈ gs, IsGroup g) →
      Segment.Chunks step head () gs := by
    intro gs
    induction gs with
    | nil => exact fun _ => trivial
    | cons g gs ih =>
        intro hgs
        obtain ⟨⟨hone, htwo⟩, hgs⟩ := List.forall_mem_cons.mp hgs
        exact ⟨by simp [head, hone], hbody htwo, ih hgs⟩
  have hcut := Segment.cut_join step head (hchunks h)
  rw [heq, Segment.cut_join step head (hchunks h')] at hcut
  exact (Prod.mk.inj hcut).2.symm

/-- **A document of headings with sections**, from its chunks. -/
theorem parse_groups {source : Text} (display : Text) {P : List Text} {cs : List Chunk}
    {keywords : List Keyword} {declared : List Text} {groups : List (Node × List Node)}
    (hchunks : chunksOf source = (P, cs))
    (hkeywords : readKeywords 0 [] [] P = some (keywords, declared))
    (hnodes : cs.map (Chunk.node declared) = (Segment.join groups).map some)
    (hgroups : ∀ g ∈ groups, IsGroup g) :
    ∃ f, OrgFile.parse source display = .ok f ∧ f.source = source ∧
      f.headings.map (Heading.groupNodes source) = groups := by
  have hnode : ∀ c ∈ cs, ∃ n, c.node declared = some n ∧ n ∈ Segment.join groups := by
    intro c hc
    have hmem := List.mem_map_of_mem (f := Chunk.node declared) hc
    rw [hnodes] at hmem
    obtain ⟨n, hn, heq⟩ := List.mem_map.mp hmem
    exact ⟨n, heq.symm, hn⟩
  have hlevels : cs.map Chunk.level = (Segment.join groups).map Node.level := by
    have hmap : ∀ {cs : List Chunk} {ns : List Node},
        cs.map (Chunk.node declared) = ns.map some → cs.map Chunk.level = ns.map Node.level := by
      intro cs
      induction cs with
      | nil =>
          intro ns heq
          rw [List.map_eq_nil_iff.mp heq.symm]
          rfl
      | cons c cs ih =>
          intro ns heq
          obtain ⟨n, ns, rfl, hn, hns⟩ := List.map_eq_cons_iff.mp heq.symm
          rw [List.map_cons, List.map_cons, Chunk.node_level hn.symm, ih hns.symm]
    exact hmap hnodes
  obtain ⟨f, hf, hsource, hmap, hlaid⟩ := parse_chunks display hchunks hkeywords
    (fun c hc => (hnode c hc).imp fun _ hn => hn.1) (hlevels ▸ stepped_groups hgroups 0)
  have hle : ∀ n ∈ Segment.join groups, n.level ≤ 2 := by
    intro n hn
    obtain ⟨g, hg, hmem⟩ := List.mem_flatMap.mp hn
    obtain ⟨hone, htwo⟩ := hgroups g hg
    obtain rfl | hmem := List.mem_cons.mp hmem
    · omega
    · exact le_of_eq (htwo n hmem)
  obtain ⟨hinfos, hown⟩ := group_headings hlaid
    (levels_of_nodes hmap fun c hc => (hnode c hc).imp fun n hn => ⟨hn.1, hle n hn.2⟩)
  refine ⟨f, hf, hsource, join_groups_inj ?_ hgroups ?_⟩
  · intro g hg
    obtain ⟨h, hh, rfl⟩ := List.mem_map.mp hg
    obtain ⟨hone, htwo⟩ := hown h hh
    refine ⟨hone, fun n hn => ?_⟩
    obtain ⟨s, hs, rfl⟩ := List.mem_map.mp hn
    exact htwo s hs
  · have hsome : (f.infos.map fun i => i.node source).map some = (Segment.join groups).map some := by
      rw [← hnodes, hmap, List.map_map]
      rfl
    rw [← List.map_injective_iff.mpr (fun _ _ => Option.some.inj) hsome, OrgFile.infos, hinfos]
    induction f.headings with
    | nil => rfl
    | cons h hs ih =>
        rw [List.map_cons, List.map_cons, Segment.join_cons, Segment.join_cons, ih, List.map_cons,
          List.map_append]
        simp [Heading.groupNodes, Heading.group]

end Orgasmic
