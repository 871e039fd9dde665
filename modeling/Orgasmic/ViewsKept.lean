import Orgasmic.AggregateViews
import Orgasmic.OrgLineBreak

/-! # Nodes kept by the aggregate views

A view puts the raw texts of its nodes behind each other, without the preludes of their files.

* **Views.** `ViewKept` is what is to be: the view reads as the trees of the files in their order.
  `ViewFits` is what it takes.
* **Line breaks.** `Written.spaced`: the line breaks behind a node make no difference.
* **Keywords.** `Chunk.node_undeclared`: without the TODO keywords of its file a heading is read the
  same exactly if its own keyword is one of the profile.
* **Blocks.** `headCount_lt_of_open`: behind a node that ends inside a block a heading is lost.
* **Result.** `view_kept_iff`: a rendered view keeps its nodes exactly if `ViewFits` holds. -/

namespace Orgasmic

open Text Forest Std

/-! ### What is kept -/

/-- The view reads as the trees of its files, in their order. -/
def ViewKept (project : ViewProject) (file out : Text) : Prop :=
  ∃ view claims org, findView file = some view ∧ readClaims project.claimFiles = .ok claims ∧
    OrgFile.parse out file = .ok org ∧
    List.Forall₂ (ShownAs view.collection claims)
      (inOrder view.collection (project.nodeFiles view.collection)) org.trimmedForest

/-- What it takes: every file but the last ends outside of blocks, and every TODO keyword in use is
one of the profile. -/
def ViewFits (project : ViewProject) (file : Text) : Prop :=
  ∀ view, findView file = some view →
    (∀ node ∈ (inOrder view.collection (project.nodeFiles view.collection)).dropLast,
      depthAfter 0 (rawLines node.source) = 0) ∧
    ∀ node ∈ project.nodeFiles view.collection, ∀ org,
      OrgFile.parse node.source node.path = .ok org →
        ∀ i ∈ org.infos, ∀ keyword ∈ i.todo, isTodoKeyword keyword = true

/-- The TODO keyword of the heading is one of the profile. -/
def Node.Builtin (n : Node) : Prop := ∀ keyword ∈ n.todo, isTodoKeyword keyword = true

/-! ### Line breaks behind a node -/

theorem spaced_eq (t : Text) : ∃ k, spaced t = t ++ List.replicate k '\n' ∧ Closed (spaced t) := by
  by_cases h₁ : ['\n'] <:+ t
  · obtain ⟨u, hu⟩ := id h₁
    by_cases h₂ : ['\n', '\n'] <:+ t
    · refine ⟨0, by simp [spaced, h₁, h₂], ?_⟩
      rw [spaced, if_pos h₁, if_pos h₂, List.append_nil, List.append_nil, ← hu]
      exact closed_concat u
    · refine ⟨1, by simp [spaced, h₁, h₂], ?_⟩
      rw [spaced, if_pos h₁, if_neg h₂, List.append_nil]
      exact closed_concat t
  · have h₂ : ¬['\n', '\n'] <:+ t := fun ⟨u, hu⟩ => h₁ ⟨u ++ ['\n'], by simpa using hu⟩
    refine ⟨2, by simp [spaced, h₁, h₂], ?_⟩
    rw [spaced, if_neg h₁, if_neg h₂]
    exact closed_concat _

section written
variable {declared : List Text} {t : Text} {tree : Forest.Tree Node}

/-- A line break at the end makes no difference. -/
theorem Written.broken (h : Written declared t tree) (hd : [] ∉ declared) :
    Written declared (t ++ ['\n']) tree := by
  obtain ⟨⟨cs, hc, hnodes⟩, hgraded⟩ := h
  refine ⟨?_, hgraded⟩
  obtain ⟨rfl, -⟩ | ⟨as, c, c', rfl, hc', hbroken⟩ := chunksOf_break hc
  · exact absurd (List.map_eq_nil_iff.mp hnodes.symm) tree.flatten_ne_nil
  · refine ⟨_, hc', ?_⟩
    rw [List.map_append, List.map_singleton] at hnodes ⊢
    rw [← hnodes]
    congr 2
    obtain ⟨n, hn⟩ : ∃ n, c.node declared = some n := by
      have hmem : c.node declared ∈ tree.flatten.map some := hnodes ▸ by simp
      obtain ⟨n, -, hn⟩ := List.mem_map.mp hmem
      exact ⟨n, hn.symm⟩
    obtain ⟨level, parsed, ps, body, hlevel, hparsed, hr, rfl⟩ := Chunk.node_eq_some_iff.mp hn
    obtain ⟨w, hw, hexact⟩ := Chunk.exact_broken hd hbroken
      (Chunk.exact_eq_some_iff.mpr ⟨level, parsed, ps, body, hlevel, hparsed, hr, rfl⟩)
    rw [hn, Chunk.exact_node hexact]
    dsimp only
    rw [trimEnd_append_blank hw]

/-- **The line breaks behind a node** make no difference. -/
theorem Written.spaced (h : Written declared t tree) (hd : [] ∉ declared) :
    Written declared (spaced t) tree := by
  obtain ⟨k, hk, -⟩ := spaced_eq t
  rw [hk]
  clear hk
  induction k with
  | zero => rwa [List.replicate_zero, List.append_nil]
  | succ k ih =>
      rw [List.replicate_succ', ← List.append_assoc]
      exact ih.broken hd

theorem depth_spaced (t : Text) : depthAfter 0 (rawLines (spaced t)) = depthAfter 0 (rawLines t) := by
  obtain ⟨k, hk, -⟩ := spaced_eq t
  rw [hk]
  clear hk
  induction k with
  | zero => rw [List.replicate_zero, List.append_nil]
  | succ k ih =>
      rw [List.replicate_succ', ← List.append_assoc, (broken_rawLines _).depthAfter, ih]

theorem Written.headCount_eq (h : Written declared t tree) : headCount 0 t = tree.flatten.length := by
  obtain ⟨cs, hc, hnodes⟩ := h.chunks
  rw [headCount_eq_length hc]
  simpa using congrArg List.length hnodes

/-- Inside a block the first heading is none. -/
theorem Written.headCount_lt (h : Written declared t tree) {d : ℕ} (hpos : 0 < d) :
    headCount d t < tree.flatten.length := by
  rw [← h.headCount_eq]
  obtain ⟨cs, hc, hnodes⟩ := h.chunks
  obtain ⟨c, cs, rfl⟩ := List.exists_cons_of_ne_nil (show cs ≠ [] by
    rintro rfl
    exact tree.flatten_ne_nil (List.map_eq_nil_iff.mp hnodes.symm))
  obtain ⟨hraw, -, hchunks⟩ := (chunksOf_eq_iff _ _ _).mp hc
  obtain ⟨-, hhead, -, -⟩ := (chunks_cons_iff _ _ _).mp hchunks
  have hno : ¬isHead d c.1 = true := fun h => by
    have := (isHead_zero h).1
    omega
  have hrest := Segment.heads_anti lineDepth isHead (fun a h => lineDepth_mono a h)
    (fun a h => isHead_anti a h) (lineDepth_mono c.1 (Nat.zero_le d)) (c.2 ++ Segment.join cs)
  rw [headCount, headCount, hraw, List.nil_append, Segment.join_cons, Segment.heads, Segment.heads,
    if_neg hno, if_pos hhead]
  omega

end written

/-! ### TODO keywords -/

/-- **Without the keywords that are declared**, the rest of a title line is read the same exactly if
its keyword is one of the profile. -/
theorem parseHeadingRest_undeclared (rest : Text) (declared : List Text) :
    parseHeadingRest rest [] = parseHeadingRest rest declared ↔
      ∀ keyword ∈ (parseHeadingRest rest declared).todo, isTodoKeyword keyword = true := by
  unfold parseHeadingRest
  obtain ⟨body, tags⟩ := splitTrailingTags rest
  dsimp only
  cases splitOnce ' ' (trimEnd body) with
  | none =>
      by_cases hkey : isTodoKeyword (trimEnd body) = true
      · simp [hkey]
      · by_cases hmem : trimEnd body ∈ declared <;> simp [hkey, hmem]
  | some split =>
      obtain ⟨first, remainder⟩ := split
      dsimp only
      by_cases hfirst : isTodoKeyword first = true
      · simp [hfirst]
      · by_cases hmem : first ∈ declared
        · -- the first word is no keyword of the profile, but the whole title may be
          by_cases hkey : isTodoKeyword (trimEnd body) = true
          · have hne : trimEnd body ≠ first := fun h => hfirst (h ▸ hkey)
            simp [hfirst, hmem, hkey, hne]
          · simp [hfirst, hmem, hkey]
        · by_cases hkey : isTodoKeyword (trimEnd body) = true
          · simp [hfirst, hmem, hkey]
          · by_cases hmem' : trimEnd body ∈ declared <;> simp [hfirst, hmem, hkey, hmem']

/-- A chunk without the keywords that are declared. -/
theorem Chunk.node_undeclared {declared : List Text} (hd : [] ∉ declared) {c : Chunk} {n : Node}
    (h : c.node declared = some n) :
    ∃ m, c.node [] = some m ∧ m.level = n.level ∧ (m = n ↔ n.Builtin) := by
  obtain ⟨u, body, hpos, hu, hrest, hr, hbody⟩ := Chunk.node_stars hd h
  have hlevel : headingLevel (content c.1) = some n.level := by rw [hu, headingLevel_stars hpos]
  have hparsed : parseHeadingLine (content c.1) n.level [] = some (parseHeadingRest u []) := by
    rw [hu]
    exact parseHeadingLine_stars n.level u (by simp)
  refine ⟨_, Chunk.node_eq_some_iff.mpr ⟨_, _, _, _, hlevel, hparsed, hr, rfl⟩, rfl, ?_⟩
  have hiff := parseHeadingRest_undeclared u declared
  rw [hrest] at hiff
  rw [Node.Builtin, ← hiff, ← hbody]
  obtain ⟨level, todo, title, tags, properties, body'⟩ := n
  generalize parseHeadingRest u [] = parsed
  obtain ⟨todo', title', tags'⟩ := parsed
  simp

/-- Chunks without the keywords that are declared. -/
theorem nodes_undeclared {declared : List Text} (hd : [] ∉ declared) {cs : List Chunk}
    {ns : List Node} (h : cs.map (Chunk.node declared) = ns.map some) :
    ∃ ms, cs.map (Chunk.node []) = ms.map some ∧ ms.map Node.level = ns.map Node.level ∧
      (ms = ns ↔ ∀ n ∈ ns, n.Builtin) := by
  induction cs generalizing ns with
  | nil =>
      obtain rfl := List.map_eq_nil_iff.mp h.symm
      exact ⟨[], rfl, rfl, by simp⟩
  | cons c cs ih =>
      obtain ⟨n, ns, rfl, hn, hns⟩ := List.map_eq_cons_iff.mp h.symm
      obtain ⟨m, hm, hlevel, hiff⟩ := Chunk.node_undeclared hd hn.symm
      obtain ⟨ms, hms, hlevels, hall⟩ := ih hns.symm
      refine ⟨m :: ms, ?_, ?_, ?_⟩
      · rw [List.map_cons, hm, hms, List.map_cons]
      · rw [List.map_cons, hlevel, hlevels, List.map_cons]
      · rw [List.cons.injEq, hiff, hall, List.forall_mem_cons]

/-! ### Nodes behind each other -/

/-- The text is the headings of the tree, with whatever keywords its file declares. -/
def WrittenAs (t : Text) (tree : Forest.Tree Node) : Prop :=
  ∃ declared, [] ∉ declared ∧ Written declared t tree

section nodes
variable {ts : List Text} {trees : List (Forest.Tree Node)}

theorem headCount_spaced {t : Text} (us : List Text) (d : ℕ) :
    headCount d ((t :: us).flatMap spaced) = headCount d (spaced t) +
      headCount (depthAfter d (rawLines (spaced t))) (us.flatMap spaced) := by
  obtain ⟨-, -, hclosed⟩ := spaced_eq t
  rw [List.flatMap_cons, headCount_append hclosed]

/-- There are no more headings than there are in the trees. -/
theorem headCount_le (h : List.Forall₂ WrittenAs ts trees) (d : ℕ) :
    headCount d (ts.flatMap spaced) ≤ (flattenAll trees).length := by
  induction h generalizing d with
  | nil => exact Nat.le_of_eq rfl
  | @cons t tree us trees hw _ ih =>
      obtain ⟨declared, hd, hw⟩ := hw
      have hown := headCount_anti (Nat.zero_le d) (spaced t)
      rw [(hw.spaced hd).headCount_eq] at hown
      have hrest := ih (depthAfter d (rawLines (spaced t)))
      rw [headCount_spaced, flattenAll, List.length_append]
      omega

theorem headCount_lt_of_pos (h : List.Forall₂ WrittenAs ts trees) (hne : ts ≠ []) {d : ℕ}
    (hpos : 0 < d) : headCount d (ts.flatMap spaced) < (flattenAll trees).length := by
  cases h with
  | nil => exact absurd rfl hne
  | @cons t tree us trees hw hrest =>
      obtain ⟨declared, hd, hw⟩ := hw
      have hown := (hw.spaced hd).headCount_lt hpos
      have hrest := headCount_le hrest (depthAfter d (rawLines (spaced t)))
      rw [headCount_spaced, flattenAll, List.length_append]
      omega

/-- **Behind a node that ends inside a block** a heading is lost. -/
theorem headCount_lt_of_open (h : List.Forall₂ WrittenAs ts trees) {t : Text}
    (ht : t ∈ ts.dropLast) (hopen : depthAfter 0 (rawLines t) ≠ 0) (d : ℕ) :
    headCount d (ts.flatMap spaced) < (flattenAll trees).length := by
  induction h generalizing d with
  | nil => cases ht
  | @cons u tree us trees hw hrest ih =>
      obtain ⟨declared, hd, hw⟩ := hw
      have hown := headCount_anti (Nat.zero_le d) (spaced u)
      rw [(hw.spaced hd).headCount_eq] at hown
      have hne : us ≠ [] := by
        rintro rfl
        cases ht
      rw [List.dropLast_cons_of_ne_nil hne] at ht
      rw [headCount_spaced, flattenAll, List.length_append]
      obtain rfl | ht := List.mem_cons.mp ht
      · -- the depth behind it is positive
        have hmono := Segment.run_mono lineDepth (fun a h => lineDepth_mono a h) (Nat.zero_le d)
          (rawLines (spaced t))
        have hdepth : depthAfter 0 (rawLines (spaced t)) ≤ depthAfter d (rawLines (spaced t)) := hmono
        rw [depth_spaced] at hdepth
        have := headCount_lt_of_pos hrest hne (show 0 < depthAfter d (rawLines (spaced t)) by omega)
        omega
      · have := ih ht (depthAfter d (rawLines (spaced u)))
        omega

/-- **Behind nodes that end outside of blocks** every heading is read. -/
theorem chunksOf_spaced (h : List.Forall₂ WrittenAs ts trees)
    (hclosed : ∀ t ∈ ts.dropLast, depthAfter 0 (rawLines t) = 0) :
    ∃ cs ms, chunksOf (ts.flatMap spaced) = ([], cs) ∧ cs.map (Chunk.node []) = ms.map some ∧
      ms.map Node.level = (flattenAll trees).map Node.level ∧
      (ms = flattenAll trees ↔ ∀ n ∈ flattenAll trees, n.Builtin) := by
  induction h with
  | nil => exact ⟨[], [], rfl, rfl, rfl, by simp [flattenAll]⟩
  | @cons t tree us trees hw hrest ih =>
      obtain ⟨declared, hd, hw⟩ := hw
      obtain ⟨cs, hc, hnodes⟩ := (hw.spaced hd).chunks
      obtain ⟨ms, hms, hlevels, hiff⟩ := nodes_undeclared hd hnodes
      have hlast : ∀ u ∈ us.dropLast, depthAfter 0 (rawLines u) = 0 := by
        cases us with
        | nil => simp
        | cons u us =>
            rw [List.dropLast_cons_of_ne_nil (List.cons_ne_nil _ _)] at hclosed
            exact (List.forall_mem_cons.mp hclosed).2
      obtain ⟨cs', ms', hc', hms', hlevels', hiff'⟩ := ih hlast
      refine ⟨cs ++ cs', ms ++ ms', ?_, by rw [List.map_append, hms, hms', List.map_append],
        by rw [List.map_append, hlevels, hlevels', flattenAll, List.map_append], ?_⟩
      · rw [List.flatMap_cons]
        obtain rfl | hne := eq_or_ne us []
        · cases hrest
          obtain ⟨-, rfl⟩ := Prod.mk.inj hc'
          rw [List.flatMap_nil, List.append_nil, List.append_nil, hc]
        · rw [List.dropLast_cons_of_ne_nil hne] at hclosed
          have hdepth := (List.forall_mem_cons.mp hclosed).1
          obtain ⟨-, -, hend⟩ := spaced_eq t
          obtain ⟨hfront, htext⟩ := front_of_closed hc hend ((depth_spaced t).trans hdepth)
          have happend := hfront.chunksOf_append hc'
          rwa [htext] at happend
      · rw [flattenAll, List.forall_mem_append, ← hiff, ← hiff']
        constructor
        · intro heq
          have hlen : ms.length = tree.flatten.length := by
            simpa using congrArg List.length hlevels
          exact List.append_inj heq hlen
        · rintro ⟨rfl, rfl⟩
          rfl

end nodes

/-! ### Views -/

theorem prelude_title (title : Text) {d v : Text} (hline : '\n' ∉ title)
    (hquiet : Quiet (title ++ ['\n']))
    (hdirective : "#+".toList.isPrefixOf? (trimStart (content (title ++ ['\n']))) = some d)
    (hparse : parseKeywordLine d = some ("title".toList, v)) :
    Prelude [title ++ ['\n'], "#+orgasmic_version: 2\n".toList, ['\n']] := by
  have hversion : Terminated "#+orgasmic_version: 2\n".toList :=
    ⟨"#+orgasmic_version: 2".toList, by decide, rfl⟩
  refine Prelude.blank (P := [title ++ ['\n'], "#+orgasmic_version: 2\n".toList]) ⟨?_, ?_, ?_⟩
  · exact List.forall_mem_cons.mpr ⟨⟨title, hline, rfl⟩, by simpa using hversion⟩
  · refine List.forall_mem_cons.mpr ⟨hquiet, List.forall_mem_singleton.mpr ?_⟩
    exact ⟨by decide, by decide, by decide⟩
  · have htitle := readKeywords_directive hdirective hparse (by
      rw [declaredBy, if_neg (by decide)]) 0 [] ["#+orgasmic_version: 2\n".toList]
    rw [htitle]
    have hnext (off : ℕ) (keywords : List Keyword) := readKeywords_directive
      (r := "#+orgasmic_version: 2\n".toList) (d := "orgasmic_version: 2".toList)
      (k := "orgasmic_version".toList) (v := "2".toList) (by decide) (by decide) (by decide) off
      keywords []
    rw [hnext]
    exact ⟨_, rfl⟩

/-- The header of a view declares no TODO keywords. -/
theorem exists_prelude {view : View} (h : view ∈ VIEWS) :
    ∃ P, Prelude P ∧ P.flatten = view.header := by
  simp only [VIEWS, List.mem_cons, List.not_mem_nil, or_false] at h
  obtain rfl | rfl | rfl := h
  · exact ⟨_, prelude_title "#+title: orgasmic task board".toList
      (d := "title: orgasmic task board".toList) (v := "orgasmic task board".toList)
      (by decide) ⟨by decide, by decide, by decide⟩ (by decide) (by decide), by decide⟩
  · exact ⟨_, prelude_title "#+title: orgasmic project glossary".toList
      (d := "title: orgasmic project glossary".toList) (v := "orgasmic project glossary".toList)
      (by decide) ⟨by decide, by decide, by decide⟩ (by decide) (by decide), by decide⟩
  · exact ⟨_, prelude_title "#+title: orgasmic project decisions".toList
      (d := "title: orgasmic project decisions".toList) (v := "orgasmic project decisions".toList)
      (by decide) ⟨by decide, by decide, by decide⟩ (by decide) (by decide), by decide⟩

/-- A header is a front. -/
theorem front_of_prelude {P : List Text} (h : Prelude P) : Front P [] := by
  obtain ⟨hno, hdepth⟩ := noHead_quiet h.quiet 0
  refine ⟨?_, hno, ?_, ?_⟩
  · rw [Segment.join_nil, List.append_nil]
    exact h.terminated
  · rw [hdepth]
    trivial
  · rw [Segment.join_nil, List.append_nil, hdepth]

theorem frontText_nil (P : List Text) : frontText P [] = P.flatten := by
  rw [frontText, Segment.join_nil, List.append_nil]

/-- **What a view reads as.** -/
theorem reads_iff {P : List Text} (hP : Prelude P) {ts : List Text} {trees : List (Forest.Tree Node)}
    (h : List.Forall₂ WrittenAs ts trees) (display : Text) :
    (∃ org, OrgFile.parse (P.flatten ++ ts.flatMap spaced) display = .ok org ∧
        org.trimmedForest = trees) ↔
      (∀ t ∈ ts.dropLast, depthAfter 0 (rawLines t) = 0) ∧ ∀ n ∈ flattenAll trees, n.Builtin := by
  have hfront := front_of_prelude hP
  have hgraded : GradedAll Node.level 1 trees := by
    rw [gradedAll_iff]
    clear hfront
    induction h with
    | nil => simp
    | cons hw _ ih =>
        obtain ⟨_, _, hw⟩ := hw
        exact List.forall_mem_cons.mpr ⟨hw.graded, ih⟩
  constructor
  · rintro ⟨org, horg, hforest⟩
    obtain ⟨hsource, hflat, -, -⟩ := readFlat_of_parse horg
    have hinfos : org.infos.map (HeadingInfo.node org.source) = flattenAll trees := by
      rw [← hforest, OrgFile.trimmedForest, flatten_trees]
      rfl
    have hnodes := nodes_of_parse horg
    -- every heading is counted
    have hcount : headCount 0 (ts.flatMap spaced) = (flattenAll trees).length := by
      have hall := headCount_front hfront (ts.flatMap spaced)
      rw [frontText_nil, List.length_nil, Nat.zero_add] at hall
      have hchunks := congrArg List.length hnodes
      rw [List.length_map, List.length_map] at hchunks
      have hnum : headCount 0 (P.flatten ++ ts.flatMap spaced) =
          (chunksOf (P.flatten ++ ts.flatMap spaced)).2.length := headCount_eq_length rfl
      rw [← hall, hnum, hchunks, ← hinfos, List.length_map]
    have hclosed : ∀ t ∈ ts.dropLast, depthAfter 0 (rawLines t) = 0 := by
      intro t ht
      by_contra hopen
      have := headCount_lt_of_open h ht hopen 0
      omega
    refine ⟨hclosed, ?_⟩
    obtain ⟨cs, ms, hc, hms, -, hiff⟩ := chunksOf_spaced h hclosed
    have hchunks := hfront.chunksOf_append hc
    rw [frontText_nil, List.nil_append] at hchunks
    -- the view declares no keywords
    obtain ⟨declared, hk, -, -⟩ := (readFlat_eq_some_iff _ _ _).mp hflat
    obtain rfl : declared = org.declared := readKeywords_declared rfl hk
    obtain ⟨keywords, hown⟩ := hP.declares
    rw [hchunks, hown, Option.some.injEq, Prod.mk.injEq] at hk
    rw [hchunks, ← hk.2, hms, ← hsource] at hnodes
    rw [← hiff, ← hinfos]
    have hinj := congrArg (List.filterMap id) hnodes
    simpa [List.filterMap_map, Function.comp_def] using hinj
  · rintro ⟨hclosed, hbuiltin⟩
    obtain ⟨cs, ms, hc, hms, hlevels, hiff⟩ := chunksOf_spaced h hclosed
    have hchunks := hfront.chunksOf_append hc
    rw [frontText_nil, List.nil_append] at hchunks
    obtain ⟨keywords, hk⟩ := hP.declares
    obtain rfl := hiff.mpr hbuiltin
    have hreads : ∀ c ∈ cs, ∃ n, c.node [] = some n := by
      intro c hmem
      have hn : c.node [] ∈ (flattenAll trees).map some := hms ▸ List.mem_map_of_mem hmem
      obtain ⟨n, -, hn⟩ := List.mem_map.mp hn
      exact ⟨n, hn.symm⟩
    have hlevel : cs.map Chunk.level = (flattenAll trees).map Node.level := by
      have hmap := congrArg (List.map fun n : Option Node => (n.map Node.level).getD 0) hms
      rw [List.map_map, List.map_map] at hmap
      refine Eq.trans (List.map_congr_left fun c hmem => ?_) hmap
      obtain ⟨n, hn⟩ := hreads c hmem
      rw [Function.comp_apply, hn]
      exact Chunk.node_level hn
    obtain ⟨org, horg, hsource, hnodes, -⟩ := parse_chunks display hchunks hk hreads
      (hlevel ▸ hgraded.stepped (Nat.le_refl 1))
    refine ⟨org, horg, ?_⟩
    rw [hms, ← hsource] at hnodes
    refine (forest_eq horg _ (fun _ => rfl) hgraded ?_).symm
    have hinj := congrArg (List.filterMap id) hnodes
    simpa [List.filterMap_map, Function.comp_def] using hinj

/-! ### The order of the nodes -/

/-- Related lists stay related when both are sorted the same way. -/
theorem forall₂_mergeSort {α β : Type*} {R : α → β → Prop} {as : List α} {bs : List β}
    {r : α → α → Bool} {s : β → β → Bool} (h : List.Forall₂ R as bs)
    (hsame : ∀ a b a' b', R a b → R a' b' → r a a' = s b b') :
    List.Forall₂ R (as.mergeSort r) (bs.mergeSort s) := by
  -- the pairs are sorted once
  obtain ⟨ps, rfl, rfl, hps⟩ : ∃ ps : List (α × β), ps.map Prod.fst = as ∧ ps.map Prod.snd = bs ∧
      ∀ p ∈ ps, R p.1 p.2 := by
    induction h with
    | nil => exact ⟨[], rfl, rfl, by simp⟩
    | @cons a b as bs hab _ ih =>
        obtain ⟨ps, rfl, rfl, hps⟩ := ih
        exact ⟨(a, b) :: ps, rfl, rfl, List.forall_mem_cons.mpr ⟨hab, hps⟩⟩
  have hfst : (ps.map Prod.fst).mergeSort r =
      (ps.mergeSort fun p q => r p.1 q.1).map Prod.fst :=
    (List.map_mergeSort (s := r) (f := Prod.fst) fun _ _ _ _ => rfl).symm
  have hsnd : (ps.map Prod.snd).mergeSort s =
      (ps.mergeSort fun p q => r p.1 q.1).map Prod.snd :=
    (List.map_mergeSort (s := s) (f := Prod.snd) fun p hp q hq => hsame _ _ _ _ (hps p hp) (hps q hq)).symm
  rw [hfst, hsnd, List.forall₂_map_left_iff, List.forall₂_map_right_iff, List.forall₂_same]
  exact fun p hp => hps p (List.mem_mergeSort.mp hp)

section render
variable {collection : Text} {claims : TreeMap Text TaskClaim}

theorem renderNodes_spec {files : List NodeSource} {nodes : List (Option LifecycleStage × Text)}
    (h : renderNodes collection claims files = .ok nodes) :
    List.Forall₂ (fun file node => renderNode collection claims file = .ok node) files nodes := by
  induction files generalizing nodes with
  | nil =>
      cases h
      exact .nil
  | cons file files ih =>
      obtain ⟨node, hnode, h⟩ := of_bind_ok h
      obtain ⟨rest, hrest, h⟩ := of_bind_ok h
      obtain rfl := Except.ok.inj h
      exact .cons hnode (ih hrest)

/-- The nodes of a view, in its order. -/
theorem renderNodes_sorted {claimFiles : List ClaimFile} (hclaims : readClaims claimFiles = .ok claims)
    {files : List NodeSource} {nodes : List (Option LifecycleStage × Text)}
    (h : renderNodes collection claims files = .ok nodes) :
    List.Forall₂ (fun file node => renderNode collection claims file = .ok node)
      (inOrder collection files)
      (nodes.mergeSort fun a b => decide (stageRank a.1 ≤ stageRank b.1)) := by
  refine forall₂_mergeSort (renderNodes_spec h) fun a b a' b' hab hab' => ?_
  rw [(renderNode_spec hclaims hab).1, (renderNode_spec hclaims hab').1]

/-- The texts of rendered nodes with the trees that are to be shown. -/
theorem exists_trees {claimFiles : List ClaimFile} (hclaims : readClaims claimFiles = .ok claims)
    {files : List NodeSource} {nodes : List (Option LifecycleStage × Text)}
    (h : List.Forall₂ (fun file node => renderNode collection claims file = .ok node) files nodes) :
    ∃ trees, List.Forall₂ (ShownAs collection claims) files trees ∧
      List.Forall₂ WrittenAs (nodes.map Prod.snd) trees ∧
      ((∀ t ∈ (nodes.map Prod.snd).dropLast, depthAfter 0 (rawLines t) = 0) ↔
        ∀ file ∈ files.dropLast, depthAfter 0 (rawLines file.source) = 0) ∧
      ((∀ n ∈ flattenAll trees, n.Builtin) ↔ ∀ file ∈ files, ∀ org,
        OrgFile.parse file.source file.path = .ok org →
          ∀ i ∈ org.infos, ∀ keyword ∈ i.todo, isTodoKeyword keyword = true) := by
  induction h with
  | nil => exact ⟨[], .nil, .nil, by simp, by simp [flattenAll]⟩
  | @cons file node files nodes hnode hrest ih =>
      obtain ⟨trees, hshown, hwritten, hclosed, hbuiltin⟩ := ih
      obtain ⟨-, f, tree, hf, htree, hw, hdepth⟩ := renderNode_spec hclaims hnode
      refine ⟨tree :: trees, .cons htree hshown, .cons ⟨_, f.declared_ne_nil, hw⟩ hwritten, ?_, ?_⟩
      · cases hrest with
        | nil => simp
        | cons hnext hrest =>
            rw [List.map_cons, List.dropLast_cons_of_ne_nil (by simp),
              List.dropLast_cons_of_ne_nil (by simp), List.forall_mem_cons, List.forall_mem_cons,
              hclosed, hdepth]
      · rw [flattenAll, List.forall_mem_append, hbuiltin, List.forall_mem_cons]
        refine and_congr_left fun _ => ?_
        have htodos := htree.todos hf
        have hown : (∀ n ∈ tree.flatten, n.Builtin) ↔
            ∀ todo ∈ tree.flatten.map Node.todo, ∀ keyword ∈ todo, isTodoKeyword keyword = true := by
          rw [List.forall_mem_map]
          rfl
        rw [hown, htodos, List.forall_mem_map]
        constructor
        · intro hall org horg
          obtain rfl := Except.ok.inj (hf.symm.trans horg)
          exact hall
        · exact fun hall => hall f hf

end render

/-- **A rendered view keeps its nodes** exactly if every node but the last ends outside of blocks and
every TODO keyword is one of the profile. -/
theorem view_kept_iff {project : ViewProject} {file out : Text}
    (h : renderView project file = .ok out) : ViewKept project file out ↔ ViewFits project file := by
  unfold renderView at h
  cases hview : findView file with
  | none =>
      rw [hview] at h
      cases h
  | some view =>
      rw [hview] at h
      dsimp only at h
      cases hclaims : readClaims project.claimFiles with
      | error e =>
          rw [hclaims] at h
          cases h
      | ok claims =>
          rw [hclaims] at h
          dsimp only at h
          obtain ⟨nodes, hnodes, h⟩ := of_bind_ok h
          obtain rfl := Except.ok.inj h
          obtain ⟨P, hP, hheader⟩ := exists_prelude (List.mem_of_find?_eq_some hview)
          obtain ⟨trees, hshown, hwritten, hclosed, hbuiltin⟩ :=
            exists_trees hclaims (renderNodes_sorted hclaims hnodes)
          have hiff := reads_iff hP hwritten file
          rw [hheader, List.flatMap_map, hclosed, hbuiltin] at hiff
          have hfiles : (∀ node ∈ inOrder view.collection (project.nodeFiles view.collection), ∀ org,
              OrgFile.parse node.source node.path = .ok org →
                ∀ i ∈ org.infos, ∀ keyword ∈ i.todo, isTodoKeyword keyword = true) ↔
              ∀ node ∈ project.nodeFiles view.collection, ∀ org,
                OrgFile.parse node.source node.path = .ok org →
                  ∀ i ∈ org.infos, ∀ keyword ∈ i.todo, isTodoKeyword keyword = true := by
            simp only [inOrder, List.mem_mergeSort]
          rw [hfiles] at hiff
          constructor
          · rintro ⟨view', claims', org, hview', hclaims', horg, hkept⟩ view₁ hview₁
            obtain rfl := Option.some.inj (hview.symm.trans hview')
            obtain rfl := Option.some.inj (hview.symm.trans hview₁)
            obtain rfl := Except.ok.inj (hclaims.symm.trans hclaims')
            have hunique : Relator.RightUnique (ShownAs view.collection claims) :=
              fun _ _ _ ht ht' => ht.unique ht'
            exact hiff.mp ⟨org, horg, List.right_unique_forall₂' hunique hkept hshown⟩
          · intro hfits
            obtain ⟨org, horg, hforest⟩ := hiff.mpr (hfits view hview)
            exact ⟨view, claims, org, hview, hclaims, horg, hforest ▸ hshown⟩

/-! ### Two terms -/

theorem renderView_of_ne {project : ViewProject} {file : Text} {view : View}
    (hview : findView file = some view) (hne : view.collection ≠ "tasks".toList)
    {claims : TreeMap Text TaskClaim} (hclaims : readClaims project.claimFiles = .ok claims)
    {nodes : List (Option LifecycleStage × Text)}
    (hnodes : renderNodes view.collection claims (project.nodeFiles view.collection) = .ok nodes) :
    renderView project file = .ok (view.header ++ nodes.flatMap fun node => spaced node.2) := by
  have hstage : ∀ node ∈ nodes, node.1 = none := by
    have hspec := renderNodes_spec hnodes
    generalize project.nodeFiles view.collection = files at hspec
    clear hnodes
    induction hspec with
    | nil => simp
    | cons hnode _ ih =>
        refine List.forall_mem_cons.mpr ⟨?_, ih⟩
        rw [(renderNode_spec hclaims hnode).1, fileStage, if_neg hne]
  have hsorted : nodes.mergeSort (fun a b => decide (stageRank a.1 ≤ stageRank b.1)) = nodes := by
    refine List.mergeSort_of_pairwise ?_
    rw [List.pairwise_iff_forall_sublist]
    intro a b hab
    rw [hstage a (hab.subset (by simp)), hstage b (hab.subset (by simp))]
    exact decide_eq_true (Nat.le_refl _)
  rw [renderView, hview]
  dsimp only
  rw [hclaims]
  dsimp only
  rw [renderCollection, hnodes]
  show Except.ok _ = _
  rw [hsorted]

/-- A project with these terms and no claims. -/
def glossaryOf (files : List NodeSource) : ViewProject := ⟨fun _ => files, []⟩

def glossaryView : View :=
  ⟨"glossary".toList, "glossary.org".toList,
    "#+title: orgasmic project glossary\n#+orgasmic_version: 2\n\n".toList⟩

theorem renderView_glossary {files : List NodeSource} {nodes : List (Option LifecycleStage × Text)}
    (h : renderNodes "glossary".toList (foldClaims []) files = .ok nodes) :
    renderView (glossaryOf files) "glossary.org".toList =
      .ok (glossaryView.header ++ nodes.flatMap fun node => spaced node.2) :=
  renderView_of_ne (show findView "glossary.org".toList = some glossaryView by decide) (by decide)
    (show readClaims [] = .ok (foldClaims []) from rfl) h

/-- Two terms, the second one without a line break at its end and with a block in its body. -/
def twoTerms : List NodeSource :=
  [⟨"a".toList, "#+title: A\n* A\n:PROPERTIES:\n:ID: term_A\n:END:\ntext\n".toList⟩,
    ⟨"b".toList, "* TODO B\n** C\n#+begin_src\n* x\n#+end_src".toList⟩]

/-- The nodes of both terms are kept. -/
theorem view_kept_iff_sample : ∃ out,
    renderView (glossaryOf twoTerms) "glossary.org".toList = .ok out ∧
      ViewKept (glossaryOf twoTerms) "glossary.org".toList out := by
  have hnodes : renderNodes "glossary".toList (foldClaims []) twoTerms =
      .ok [(none, "* A\n:PROPERTIES:\n:ID: term_A\n:END:\ntext\n".toList),
        (none, "* TODO B\n** C\n#+begin_src\n* x\n#+end_src".toList)] := by
    rfl
  have hrender := renderView_glossary hnodes
  refine ⟨_, hrender, (view_kept_iff hrender).mpr ?_⟩
  intro view hview
  obtain rfl : glossaryView = view := Option.some.inj (show some glossaryView = _ from hview)
  rw [inOrder_of_ne (by decide)]
  refine ⟨?_, ?_⟩
  · show ∀ node ∈ twoTerms.dropLast, depthAfter 0 (rawLines node.source) = 0
    decide
  · intro node hnode org horg i hi keyword hkeyword
    have hall : ∀ node ∈ twoTerms, ((OrgFile.parse node.source node.path).toOption.all fun org =>
        org.infos.all fun i => i.todo.all isTodoKeyword) = true := by
      decide +kernel
    have hown := hall node hnode
    rw [horg] at hown
    have hinfo := List.all_eq_true.mp hown i hi
    rw [Option.mem_def.mp hkeyword] at hinfo
    exact hinfo

/-- A term that ends inside a block, in front of another one. -/
def openTerms : List NodeSource :=
  [⟨"a".toList, "* A\n#+begin_src\n".toList⟩, ⟨"b".toList, "* B\n".toList⟩]

/-- **The second term is swallowed** by the open block of the first one. -/
theorem view_kept_fails : ∃ out,
    renderView (glossaryOf openTerms) "glossary.org".toList = .ok out ∧
      ¬ViewKept (glossaryOf openTerms) "glossary.org".toList out := by
  have hnodes : renderNodes "glossary".toList (foldClaims []) openTerms =
      .ok [(none, "* A\n#+begin_src\n".toList), (none, "* B\n".toList)] := by
    rfl
  refine ⟨_, renderView_glossary hnodes, ?_⟩
  rintro ⟨view, claims, org, hview, -, horg, hkept⟩
  obtain rfl : glossaryView = view := Option.some.inj (show some glossaryView = _ from hview)
  have hlen := hkept.length_eq
  rw [inOrder_of_ne (by decide), OrgFile.trimmedForest, trees_eq_map, List.length_map] at hlen
  have hone : ((OrgFile.parse (glossaryView.header ++ "* A\n#+begin_src\n\n* B\n\n".toList)
      "glossary.org".toList).toOption.map fun org => org.headings.length) = some 1 := by
    decide +kernel
  have hparse : OrgFile.parse (glossaryView.header ++ "* A\n#+begin_src\n\n* B\n\n".toList)
      "glossary.org".toList = .ok org := horg
  rw [hparse] at hone
  have hnum : org.headings.length = 1 := Option.some.inj hone
  rw [hnum] at hlen
  cases hlen

end Orgasmic
