import Orgasmic.Forest
import Orgasmic.OrgEdits

/-! # Headings to the byte

What a heading says, with its body byte for byte, and the tree of a document.

* **Exact nodes.** `HeadingInfo.exact` is the node of a heading with its whole body text.  Like the
  node it is read from the lines of the chunk alone (`exacts_of_parse`).
* **Documents from chunks.** `reparse_chunks`: a text with the prelude of a document, whose chunks
  can be read, is a document with the same directives.
* **Trees.** `OrgFile.forest` is the tree of headings; `forest_edited` describes it once the first
  heading with an id is edited. -/

namespace Orgasmic

open Text Forest

/-! ### Exact nodes -/

/-- The heading with its body text, byte for byte. -/
def HeadingInfo.exact (source : Text) (i : HeadingInfo) : Node :=
  { i.node source with body := slice source i.body }

/-- What the lines of a chunk say, with the whole body. -/
def Chunk.exact (declared : List Text) (c : Chunk) : Option Node :=
  (c.node declared).bind fun n => (readPairs c.2).map fun x => { n with body := x.2.flatten }

def OrgFile.exacts (f : OrgFile) : List Node := f.infos.map (HeadingInfo.exact f.source)

theorem Chunk.exact_eq_some_iff {declared : List Text} {c : Chunk} {n : Node} :
    c.exact declared = some n ↔ ∃ level parsed ps body, headingLevel (content c.1) = some level ∧
      parseHeadingLine (content c.1) level declared = some parsed ∧
      readPairs c.2 = some (ps, body) ∧
      n = ⟨level, parsed.todo, parsed.title, parsed.tags, ps, body.flatten⟩ := by
  rw [Chunk.exact]
  constructor
  · intro h
    obtain ⟨m, hm, h⟩ := Option.bind_eq_some_iff.mp h
    obtain ⟨level, parsed, ps, body, hlevel, hparsed, hr, rfl⟩ := Chunk.node_eq_some_iff.mp hm
    rw [hr, Option.map_some, Option.some.injEq] at h
    exact ⟨level, parsed, ps, body, hlevel, hparsed, hr, h.symm⟩
  · rintro ⟨level, parsed, ps, body, hlevel, hparsed, hr, rfl⟩
    rw [Chunk.node_eq_some_iff.mpr ⟨level, parsed, ps, body, hlevel, hparsed, hr, rfl⟩,
      Option.bind_some, hr, Option.map_some]

theorem Chunk.exact_node {declared : List Text} {c : Chunk} {n : Node}
    (h : c.exact declared = some n) : c.node declared = some { n with body := trimEnd n.body } := by
  obtain ⟨level, parsed, ps, body, hlevel, hparsed, hr, rfl⟩ := Chunk.exact_eq_some_iff.mp h
  exact Chunk.node_eq_some_iff.mpr ⟨level, parsed, ps, body, hlevel, hparsed, hr, rfl⟩

theorem Chunk.exact_level {declared : List Text} {c : Chunk} {n : Node}
    (h : c.exact declared = some n) : n.level = c.level := (Chunk.node_level (Chunk.exact_node h)).symm

/-- A chunk with the title line of another one. -/
theorem Chunk.exact_same_title {declared : List Text} {c : Chunk} {n : Node} (c' : Chunk)
    (h : c.exact declared = some n) (htitle : c'.1 = c.1) {ps : List (Text × Text)} {body : List Text}
    (hr : readPairs c'.2 = some (ps, body)) :
    c'.exact declared = some { n with properties := ps, body := body.flatten } := by
  obtain ⟨level, parsed, _, _, hlevel, hparsed, -, rfl⟩ := Chunk.exact_eq_some_iff.mp h
  rw [← htitle] at hlevel hparsed
  exact Chunk.exact_eq_some_iff.mpr ⟨level, parsed, ps, body, hlevel, hparsed, hr, rfl⟩

/-- **The exact node of a heading is read from its chunk.** -/
theorem readHeading_exact {declared : List Text} {before : Text} {c : Chunk} {info : HeadingInfo}
    (after : Text) (h : readHeading declared before.length c = some info) :
    c.exact declared = some (info.exact (before ++ c.text ++ after)) := by
  obtain ⟨ps, hdr, body, hhdr, hpairs, -, hbody⟩ := readHeading_parts h
  have hslice : slice (before ++ c.text ++ after) info.body = body.flatten := by
    have e : before ++ c.text ++ after = (before ++ hdr.flatten) ++ body.flatten ++ after := by
      simp [Chunk.text, hhdr]
    rw [hbody, ← List.length_append, e]
    exact slice_append_three _ _ _
  rw [Chunk.exact, readHeading_node after h, Option.bind_some, hpairs, Option.map_some,
    HeadingInfo.exact, hslice]

theorem exacts_of_parse {source display : Text} {f : OrgFile}
    (h : OrgFile.parse source display = .ok f) :
    (chunksOf source).2.map (Chunk.exact f.declared) =
      f.infos.map fun i => some (i.exact source) :=
  map_of_parse h fun after hsource hi => hsource ▸ readHeading_exact after hi

theorem HeadingInfo.exact_node {source : Text} (i : HeadingInfo) :
    { i.exact source with body := trimEnd (i.exact source).body } = i.node source := rfl

theorem map_exact_inj {source source' : Text} {is js : List HeadingInfo}
    (h : is.map (fun j => some (j.exact source)) = js.map fun j => some (j.exact source')) :
    is.map (HeadingInfo.exact source) = js.map (HeadingInfo.exact source') := by
  have := congrArg (List.filterMap id) h
  simpa [List.filterMap_map, Function.comp_def] using this

/-- Exact nodes decide the nodes. -/
theorem nodes_of_exacts {source source' : Text} {is js : List HeadingInfo}
    (h : is.map (HeadingInfo.exact source) = js.map (HeadingInfo.exact source')) :
    is.map (HeadingInfo.node source) = js.map (HeadingInfo.node source') := by
  have := congrArg (List.map fun n : Node => { n with body := trimEnd n.body }) h
  simpa [List.map_map, Function.comp_def, HeadingInfo.exact_node] using this

/-! ### Documents from chunks -/

section reparse
variable {source display : Text} {f : OrgFile}

/-- **A text with the prelude of a document** whose chunks can be read is a document with the same
directives. -/
theorem reparse_chunks {source' : Text} (display' : Text) (hf : OrgFile.parse source display = .ok f)
    {cs : List Chunk} (hc : chunksOf source' = ((chunksOf source).1, cs))
    (hnodes : ∀ c ∈ cs, ∃ n, c.exact f.declared = some n)
    (hstepped : Outline.Stepped 0 (cs.map Chunk.level)) :
    ∃ f', OrgFile.parse source' display' = .ok f' ∧ f'.source = source' ∧
      f'.keywords = f.keywords ∧ f'.declared = f.declared ∧
      cs.map (Chunk.exact f.declared) = f'.infos.map fun i => some (i.exact source') := by
  obtain ⟨-, hflat, -, -⟩ := readFlat_of_parse hf
  obtain ⟨declared, hkeywords, -, -⟩ := (readFlat_eq_some_iff _ _ _).mp hflat
  obtain rfl : declared = f.declared := readKeywords_declared rfl hkeywords
  obtain ⟨f', hf', hsource', -, -⟩ := parse_chunks display' hc hkeywords
    (fun c hcs => by
      obtain ⟨n, hn⟩ := hnodes c hcs
      exact ⟨_, Chunk.exact_node hn⟩) hstepped
  obtain ⟨-, hflat', -, -⟩ := readFlat_of_parse hf'
  obtain ⟨declared', hkeywords', -, -⟩ := (readFlat_eq_some_iff _ _ _).mp hflat'
  rw [hc, hkeywords, Option.some.injEq, Prod.mk.injEq] at hkeywords'
  have hdeclared : f'.declared = f.declared := by
    rw [OrgFile.declared, ← hkeywords'.1]
    rfl
  have hmap := exacts_of_parse hf'
  rw [hc, hdeclared] at hmap
  exact ⟨f', hf', hsource', hkeywords'.1.symm, hdeclared, hmap⟩

/-- The chunks of some headings that follow each other, and what they say. -/
theorem exists_chunks (hf : OrgFile.parse source display = .ok f) {pre mid post : List HeadingInfo}
    (hsplit : f.infos = pre ++ mid ++ post) :
    ∃ as ms bs, (chunksOf source).2 = as ++ ms ++ bs ∧
      as.map (Chunk.exact f.declared) = pre.map (fun i => some (i.exact source)) ∧
      ms.map (Chunk.exact f.declared) = mid.map (fun i => some (i.exact source)) ∧
      bs.map (Chunk.exact f.declared) = post.map fun i => some (i.exact source) := by
  have hexacts := exacts_of_parse hf
  rw [hsplit, List.map_append, List.map_append] at hexacts
  obtain ⟨cs, bs, hcs, hfront, hpost⟩ := List.map_eq_append_iff.mp hexacts
  obtain ⟨as, ms, rfl, hpre, hmid⟩ := List.map_eq_append_iff.mp hfront
  exact ⟨as, ms, bs, hcs, hpre, hmid, hpost⟩

theorem exists_exact_of_mem {declared : List Text} {cs : List Chunk} {infos : List HeadingInfo}
    (h : cs.map (Chunk.exact declared) = infos.map fun i => some (i.exact source)) :
    ∀ c ∈ cs, ∃ n, c.exact declared = some n := by
  intro c hc
  have hmem : c.exact declared ∈ infos.map fun i => some (i.exact source) :=
    h ▸ List.mem_map_of_mem hc
  obtain ⟨i, -, hi⟩ := List.mem_map.mp hmem
  exact ⟨_, hi.symm⟩

/-- The levels of chunks are those of their headings. -/
theorem levels_of_exacts {declared : List Text} {cs : List Chunk} {infos : List HeadingInfo}
    (h : cs.map (Chunk.exact declared) = infos.map fun i => some (i.exact source)) :
    cs.map Chunk.level = infos.map fun i => i.level := by
  have hmap := congrArg (List.map fun n : Option Node => (n.map Node.level).getD 0) h
  rw [List.map_map, List.map_map] at hmap
  refine Eq.trans (List.map_congr_left fun c hc => ?_) hmap
  obtain ⟨n, hn⟩ := exists_exact_of_mem h c hc
  rw [Function.comp_apply, hn]
  exact (Chunk.exact_level hn).symm

end reparse

/-! ### Trees -/

mutual

/-- The tree of a heading, with a value of every heading at its node. -/
def Heading.tree {β : Type} (value : HeadingInfo → β) : Heading → Forest.Tree β
  | ⟨info, _, sections⟩ => .node (value info) (Heading.trees value sections)

def Heading.trees {β : Type} (value : HeadingInfo → β) : List Heading → List (Forest.Tree β)
  | [] => []
  | h :: hs => h.tree value :: Heading.trees value hs

end

/-- The tree of headings of a document, with their bodies byte for byte. -/
def OrgFile.forest (f : OrgFile) : List (Forest.Tree Node) :=
  Heading.trees (HeadingInfo.exact f.source) f.headings

/-- The tree of headings of a document, with their bodies up to trailing white space. -/
def OrgFile.trimmedForest (f : OrgFile) : List (Forest.Tree Node) :=
  Heading.trees (HeadingInfo.node f.source) f.headings

section trees
variable {β : Type} (value : HeadingInfo → β)

theorem tree_eq (h : Heading) :
    h.tree value = .node (value h.toHeadingInfo) (Heading.trees value h.sections) := by
  obtain ⟨info, span, sections⟩ := h
  rfl

theorem trees_eq_map (hs : List Heading) : Heading.trees value hs = hs.map (Heading.tree value) := by
  induction hs with
  | nil => rfl
  | cons h hs ih => rw [Heading.trees, List.map_cons, ih]

mutual

theorem flatten_tree : ∀ h : Heading, (h.tree value).flatten = h.flatten.map value
  | ⟨info, span, sections⟩ => by
      rw [Heading.tree, Forest.Tree.flatten, Heading.flatten, List.map_cons,
        flatten_trees sections]

theorem flatten_trees : ∀ hs : List Heading,
    flattenAll (Heading.trees value hs) = (Heading.flattenAll hs).map value
  | [] => rfl
  | h :: hs => by
      rw [Heading.trees, flattenAll, Heading.flattenAll, List.map_append, flatten_tree h,
        flatten_trees hs]

end

end trees

section graded
variable (value : HeadingInfo → Node) (hlevel : ∀ i, (value i).level = i.level)
include hlevel

mutual

theorem graded_tree : ∀ {level start : ℕ} (h : Heading), Laid level start h →
    Forest.Tree.Graded Node.level level (h.tree value)
  | level, start, ⟨info, span, sections⟩, hlaid => by
      obtain ⟨hown, -, -, hsections⟩ := hlaid
      rw [Heading.tree]
      exact ⟨(hlevel info).trans hown, graded_trees sections hsections⟩

theorem graded_trees : ∀ {level start stop : ℕ} (hs : List Heading), LaidAll level start stop hs →
    GradedAll Node.level level (Heading.trees value hs)
  | _, _, _, [], _ => trivial
  | level, start, stop, h :: hs, hlaid => by
      rw [Heading.trees]
      exact ⟨graded_tree h hlaid.1, graded_trees hs hlaid.2⟩

end

end graded

/-! ### Editing a tree -/

/-- The heading has this id. -/
def HasId (id : Text) (n : Node) : Prop := n.property "ID".toList = some id

instance (id : Text) : DecidablePred (HasId id) := fun n =>
  inferInstanceAs (Decidable (n.property "ID".toList = some id))

/-- **An edit of the first heading with an id**: what the items of the tree are then. -/
theorem forest_edited {source display id : Text} {f : OrgFile}
    (hf : OrgFile.parse source display = .ok f) {g : Heading} (hg : f.findById id = some g)
    (value : HeadingInfo → Node) (hlevel : ∀ i, (value i).level = i.level)
    (hid : ∀ i, (value i).property "ID".toList = i.property "ID".toList)
    {pre post : List HeadingInfo} (hsub : Subtree f.infos pre post source.length g)
    (hpre : ∀ i ∈ pre, i.property "ID".toList ≠ some id)
    (edit : Node → List (Forest.Tree Node) → List (Forest.Tree Node))
    (hedit : GradedAll Node.level g.level (edit (value g.toHeadingInfo) (Heading.trees value g.sections))) :
    ∃ ts, editFirstIn (HasId id) edit (Heading.trees value f.headings) = some ts ∧
      GradedAll Node.level 1 ts ∧
      flattenAll ts = pre.map value ++
        (flattenAll (edit (value g.toHeadingInfo) (Heading.trees value g.sections)) ++
          post.map value) := by
  obtain ⟨hgid, -⟩ := findById_place hf hg
  obtain ⟨-, -, -, hlaid⟩ := readFlat_of_parse hf
  have hgraded := graded_trees value hlevel f.headings hlaid
  have hspec : EditSpec (HasId id) edit Node.level 1 _ _ := editFirstIn_spec _ hgraded
  have hitems : flattenAll (Heading.trees value f.headings) =
      pre.map value ++ value g.toHeadingInfo ::
        (flattenAll (Heading.trees value g.sections) ++ post.map value) := by
    rw [flatten_trees, show Heading.flattenAll f.headings = f.infos from rfl, hsub.split,
      flatten_eq, flatten_trees]
    simp
  have hgroot : HasId id (value g.toHeadingInfo) := (hid _).trans hgid
  have hfront : ∀ n ∈ pre.map value, ¬HasId id n := by
    intro n hn
    obtain ⟨i, hi, rfl⟩ := List.mem_map.mp hn
    exact fun h => hpre i hi ((hid i).symm.trans h)
  cases hcase : editFirstIn (HasId id) edit (Heading.trees value f.headings) with
  | none =>
      rw [hcase] at hspec
      exact absurd hgroot (hspec _ (by rw [hitems]; simp))
  | some ts =>
      rw [hcase] at hspec
      obtain ⟨pre', n, cs, post', hsplit, hpre', hn, hcs, hpost', hflat, hts⟩ := hspec
      rw [hitems] at hsplit
      obtain ⟨rfl, rfl, hrest⟩ := Outline.split_unique (p := HasId id) hsplit hfront hgroot hpre' hn
      -- the sections end where a heading that is not deeper begins
      have hsections := graded_trees value hlevel g.sections ((laid_iff g).mp hsub.laid).2.2.2
      have hdeep : ∀ m ∈ flattenAll (Heading.trees value g.sections), g.level + 1 ≤ m.level :=
        hsections.depth_le
      rw [hlevel] at hcs hpost' hts
      obtain ⟨hchildren, rfl⟩ := Outline.span_unique (p := fun m : Node => g.level + 1 ≤ m.level)
        hrest hdeep (fun m hm => by
          rw [List.head?_map] at hm
          obtain ⟨i, hi, rfl⟩ := Option.mem_map.mp hm
          have := (hsub.next i hi).1
          rw [hlevel]
          omega) hcs.depth_le (fun m hm => by
          have := hpost' m hm
          omega)
      obtain rfl := graded_unique hsections hcs hchildren
      exact ⟨ts, rfl, hts hedit, hflat⟩

/-- Trees of one list of items are the same. -/
theorem forest_eq {source display : Text} {f : OrgFile} (hf : OrgFile.parse source display = .ok f)
    (value : HeadingInfo → Node) (hlevel : ∀ i, (value i).level = i.level)
    {ts : List (Forest.Tree Node)}
    (hts : GradedAll Node.level 1 ts) (hflat : flattenAll ts = f.infos.map value) :
    ts = Heading.trees value f.headings := by
  obtain ⟨-, -, -, hlaid⟩ := readFlat_of_parse hf
  refine graded_unique hts (graded_trees value hlevel f.headings hlaid) ?_
  rw [hflat, flatten_trees]
  rfl

end Orgasmic
