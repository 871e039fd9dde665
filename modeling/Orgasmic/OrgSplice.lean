import Orgasmic.OrgNodes
import Orgasmic.OrgTitle

/-! # Splicing text into a document

How the chunks of a text change when a part of it is replaced.

* **The front.** `Front P as`: lines that end where a heading may begin.  Chunks after a front are
  read on their own (`Front.chunksOf_append`).
* **Swallowing.** Text put in front of headings can hide them in a block and can bring headings of
  its own.  `body_eq_of_counts`: if the number of headings is unchanged and what is read back has
  no less ink than what was put in, then exactly that is read back and the headings after it are
  unchanged. -/

namespace Orgasmic

open Text

/-! ### Nodes of chunks -/

/-- The lines that a node is read from. -/
theorem Chunk.node_stars {declared : List Text} (hd : [] ∉ declared) {c : Chunk} {n : Node}
    (h : c.node declared = some n) :
    ∃ u body, 0 < n.level ∧ content c.1 = stars n.level u ∧
      parseHeadingRest u declared = ⟨n.todo, n.title, n.tags⟩ ∧
      readPairs c.2 = some (n.properties, body) ∧ n.body = trimEnd body.flatten := by
  obtain ⟨level, parsed, ps, body, hl, hp, hr, rfl⟩ := Chunk.node_eq_some_iff.mp h
  obtain ⟨hpos, u, hu⟩ := (headingLevel_eq_some_iff _ _).mp hl
  have hu : content c.1 = stars level u := hu
  rw [hu, parseHeadingLine_stars level u hd, Option.some.injEq] at hp
  exact ⟨u, body, hpos, hu, hp, hr, rfl⟩

/-- Title lines that differ in trailing white space make the same node. -/
theorem Chunk.node_congr {declared : List Text} (hd : [] ∉ declared) {c c' : Chunk} {n n' : Node}
    (h : c.node declared = some n) (h' : c'.node declared = some n')
    (htitle : trimEnd c'.1 = trimEnd c.1) :
    n'.level = n.level ∧ n'.todo = n.todo ∧ n'.title = n.title ∧ n'.tags = n.tags := by
  obtain ⟨level, parsed, ps, body, hl, hp, -, rfl⟩ := Chunk.node_eq_some_iff.mp h
  obtain ⟨level', parsed', ps', body', hl', hp', -, rfl⟩ := Chunk.node_eq_some_iff.mp h'
  obtain ⟨rfl, e⟩ := parseHeadingLine_congr htitle hl' hl hd
  rw [hp', hp, Option.some.injEq] at e
  subst e
  exact ⟨rfl, rfl, rfl, rfl⟩

/-! ### Chunks of a text -/

theorem chunksOf_eq_iff (t : Text) (p : List Text) (cs : List Chunk) :
    chunksOf t = (p, cs) ↔ rawLines t = p ++ Segment.join cs ∧ NoHead 0 p ∧
      Chunks (depthAfter 0 p) cs :=
  Segment.cut_eq_iff lineDepth isHead 0 (rawLines t) p cs

/-- The number of headings of a text. -/
def headCount (d : ℕ) (t : Text) : ℕ := Segment.heads lineDepth isHead d (rawLines t)

theorem headCount_eq_length {t : Text} {p : List Text} {cs : List Chunk}
    (h : chunksOf t = (p, cs)) : headCount 0 t = cs.length := by
  obtain ⟨hraw, hp, hc⟩ := (chunksOf_eq_iff t p cs).mp h
  rw [headCount, hraw, Segment.heads_append, (Segment.heads_eq_zero_iff lineDepth isHead 0 p).mpr hp,
    Segment.heads_join lineDepth isHead hc, Nat.zero_add]

theorem headCount_append {a : Text} (ha : Closed a) (d : ℕ) (b : Text) :
    headCount d (a ++ b) = headCount d a + headCount (depthAfter d (rawLines a)) b := by
  rw [headCount, rawLines_append ha, Segment.heads_append]
  rfl

theorem headCount_anti {d e : ℕ} (h : d ≤ e) (t : Text) : headCount e t ≤ headCount d t :=
  Segment.heads_anti lineDepth isHead (fun a h => lineDepth_mono a h)
    (fun a h => isHead_anti a h) h (rawLines t)

theorem chunksOf_join {t : Text} {p : List Text} {cs : List Chunk} (h : chunksOf t = (p, cs)) :
    chunksOf (Segment.join cs).flatten = ([], cs) := by
  obtain ⟨hraw, -, hc⟩ := (chunksOf_eq_iff t p cs).mp h
  exact (chunksOf_eq_iff _ _ _).mpr ⟨rawLines_suffix hraw, trivial, hc.zero⟩

theorem flatten_of_chunksOf {t : Text} {p : List Text} {cs : List Chunk}
    (h : chunksOf t = (p, cs)) : p.flatten ++ (Segment.join cs).flatten = t := by
  rw [← List.flatten_append, ← ((chunksOf_eq_iff t p cs).mp h).1, rawLines_flatten]

/-- A heading starts with ink. -/
theorem ink_join_pos {d : ℕ} {cs : List Chunk} (h : Chunks d cs) (hne : cs ≠ []) :
    ∃ u, (Segment.join cs).flatten = '*' :: u := by
  obtain ⟨c, cs, rfl⟩ := List.exists_cons_of_ne_nil hne
  obtain ⟨-, hhead, -, -⟩ := (chunks_cons_iff c cs d).mp h
  obtain ⟨n, hn⟩ := (isHead_zero_iff c.1).mp hhead
  obtain ⟨u, hu, -⟩ := trimStart_heading hn
  obtain ⟨w, hw⟩ := content_isPrefix c.1
  refine ⟨u ++ w ++ (c.2 ++ Segment.join cs).flatten, ?_⟩
  rw [Segment.join_cons, List.flatten_cons, ← hw, hu]
  simp

theorem closed_of_chunksOf {t : Text} {p : List Text} {cs : List Chunk}
    (h : chunksOf t = (p, cs)) (hne : cs ≠ []) : Closed p.flatten := by
  obtain ⟨hraw, -, -⟩ := (chunksOf_eq_iff t p cs).mp h
  refine closed_flatten (rawLines_split hraw ?_)
  rw [ne_eq, Segment.join_eq_nil_iff]
  exact hne

theorem rawLines_of_chunksOf {t : Text} {p : List Text} {cs : List Chunk}
    (h : chunksOf t = (p, cs)) (hne : cs ≠ []) : rawLines p.flatten = p := by
  obtain ⟨hraw, -, -⟩ := (chunksOf_eq_iff t p cs).mp h
  have hj : Segment.join cs ≠ [] := by
    rw [ne_eq, Segment.join_eq_nil_iff]
    exact hne
  simpa [rawLines] using rawLines_flatten_append (rawLines_split hraw hj) []

/-! ### The front of a text -/

/-- The lines `P` of a prelude and whole chunks `as`, after which a heading may begin. -/
structure Front (P : List Text) (as : List Chunk) : Prop where
  terminated : ∀ l ∈ P ++ Segment.join as, Terminated l
  noHead : NoHead 0 P
  chunks : Chunks (depthAfter 0 P) as
  depth : depthAfter 0 (P ++ Segment.join as) = 0

/-- The text of a front. -/
def frontText (P : List Text) (as : List Chunk) : Text := (P ++ Segment.join as).flatten

theorem front_of_chunksOf {t : Text} {P : List Text} {as bs : List Chunk} {c : Chunk}
    (h : chunksOf t = (P, as ++ c :: bs)) : Front P as := by
  obtain ⟨hraw, hP, hc⟩ := (chunksOf_eq_iff _ _ _).mp h
  rw [Chunks, Segment.chunks_append] at hc
  refine ⟨?_, hP, hc.1, ?_⟩
  · rw [Segment.join_append, ← List.append_assoc] at hraw
    exact rawLines_split hraw (by simp)
  · rw [depthAfter, Segment.run_append]
    exact Chunks.depth_eq hc.2

theorem Front.closed {P : List Text} {as : List Chunk} (h : Front P as) :
    Closed (frontText P as) := closed_flatten h.terminated

theorem Front.rawLines {P : List Text} {as : List Chunk} (h : Front P as) (t : Text) :
    rawLines (frontText P as ++ t) = P ++ Segment.join as ++ rawLines t :=
  rawLines_flatten_append h.terminated t

/-- **Chunks after a front.** -/
theorem Front.chunksOf_append {P : List Text} {as : List Chunk} (h : Front P as) {t : Text}
    {cs : List Chunk} (ht : chunksOf t = ([], cs)) :
    chunksOf (frontText P as ++ t) = (P, as ++ cs) := by
  obtain ⟨hraw, -, hc⟩ := (chunksOf_eq_iff t [] cs).mp ht
  refine (chunksOf_eq_iff _ _ _).mpr ⟨?_, h.noHead, ?_⟩
  · rw [h.rawLines, hraw, Segment.join_append]
    simp
  · rw [Chunks, Segment.chunks_append]
    refine ⟨h.chunks, ?_⟩
    have hd := h.depth
    rw [depthAfter, Segment.run_append] at hd
    rw [hd]
    exact hc

theorem headCount_front {P : List Text} {as : List Chunk} (h : Front P as) (x : Text) :
    headCount 0 (frontText P as ++ x) = as.length + headCount 0 x := by
  have hraw := h.rawLines []
  rw [List.append_nil, rawLines, List.append_nil] at hraw
  have hfront : chunksOf (frontText P as) = (P, as) :=
    (chunksOf_eq_iff _ _ _).mpr ⟨hraw, h.noHead, h.chunks⟩
  rw [headCount_append h.closed, headCount_eq_length hfront, hraw, h.depth]

theorem text_of_chunksOf {t : Text} {P : List Text} {as bs : List Chunk} {c : Chunk}
    (h : chunksOf t = (P, as ++ c :: bs)) :
    t = frontText P as ++ (c.text ++ (Segment.join bs).flatten) := by
  rw [← flatten_of_chunksOf h, frontText]
  simp [Chunk.text, Chunk.lines]

/-! ### Swallowed headings -/

/-- A text that starts with a heading line leaves a depth that text before it can only raise. -/
theorem depth_le_of_head {z : Text} (hz : ∃ l ls, rawLines z = l :: ls ∧ isHead 0 l = true)
    (t : Text) : depthAfter 0 (rawLines z) ≤ depthAfter 0 (rawLines (t ++ z)) := by
  obtain ⟨l, ls, hl, hhead⟩ := hz
  obtain ⟨t₁, f, rfl, ht₁, hf⟩ := exists_last_line t
  rw [hl, List.append_assoc, rawLines_append ht₁, rawLines_glue hf hl, depthAfter, depthAfter,
    Segment.run_append, Segment.run_cons, Segment.run_cons, (isHead_zero hhead).2.1]
  exact Segment.run_mono lineDepth (fun a h => lineDepth_mono a h) (Nat.zero_le _) ls

/-- Headings that were hidden by a block are missing afterwards. -/
theorem not_swallowed {t w r : Text} {bs : List Chunk} (hz : chunksOf (w ++ r) = ([], bs))
    (hw : w ≠ []) (hwc : Closed w) (hd : depthAfter 0 (rawLines (t ++ w)) = 0) :
    headCount 0 r < bs.length := by
  obtain ⟨hraw, -, hc⟩ := (chunksOf_eq_iff _ _ _).mp hz
  rw [List.nil_append, rawLines_append hwc] at hraw
  cases bs with
  | nil => simp [rawLines_eq_nil_iff, hw] at hraw
  | cons c bs =>
      obtain ⟨-, hhead, -, -⟩ := (chunks_cons_iff c bs _).mp hc
      -- the first line of `w` is the first heading line
      obtain ⟨l, ls, hl⟩ := List.exists_cons_of_ne_nil
        (mt (rawLines_eq_nil_iff w).mp hw)
      have hlc : l = c.1 := by
        rw [hl, Segment.join_cons, List.cons_append, List.cons.injEq] at hraw
        exact hraw.1
      have hdw : depthAfter 0 (rawLines w) = 0 := by
        have := depth_le_of_head ⟨l, ls, hl, hlc ▸ hhead⟩ t
        omega
      have hcount := headCount_eq_length hz
      rw [headCount_append hwc, hdw, headCount, hl, Segment.heads, hlc, hhead] at hcount
      simp only [if_true] at hcount
      omega

/-- **Nothing is swallowed.** -/
theorem body_eq_of_counts {t z : Text} {bs rest : List Chunk} {y : List Text}
    (hz : chunksOf z = ([], bs)) (h : chunksOf (t ++ z) = (y, rest))
    (hlen : rest.length = bs.length) (hink : ink t ≤ ink y.flatten) :
    y.flatten = t ∧ rest = bs := by
  have htext := flatten_of_chunksOf h
  obtain ⟨-, -, hc⟩ := (chunksOf_eq_iff _ _ _).mp h
  have hsame : y.flatten = t → rest = bs := by
    intro hy
    rw [hy] at htext
    have := chunksOf_join h
    rw [List.append_cancel_left htext, hz] at this
    exact (Prod.mk.inj this).2.symm
  rcases List.append_eq_append_iff.mp htext with ⟨w, ht, hr⟩ | ⟨w, hy, hz'⟩
  · -- what is left over of `t` starts with a heading, so `y` has less ink
    by_cases hw : w = []
    · have hy : y.flatten = t := by rw [ht, hw, List.append_nil]
      exact ⟨hy, hsame hy⟩
    · have hne : rest ≠ [] := by
        rintro rfl
        rw [Segment.join_nil, List.flatten_nil] at hr
        exact hw (List.append_eq_nil_iff.mp hr.symm).1
      obtain ⟨u, hu⟩ := ink_join_pos hc hne
      obtain ⟨c, w', rfl⟩ := List.exists_cons_of_ne_nil hw
      rw [hu, List.cons_append, List.cons.injEq] at hr
      rw [ht, ← hr.1, ink_append, ink_cons_of_not_ws (by decide)] at hink
      omega
  · by_cases hw : w = []
    · have hy : y.flatten = t := by rw [hy, hw, List.append_nil]
      exact ⟨hy, hsame hy⟩
    · have hne : rest ≠ [] := by
        rintro rfl
        have hb : bs = [] := List.length_eq_zero_iff.mp hlen.symm
        rw [hb] at hz
        have := flatten_of_chunksOf hz
        rw [← this] at hz'
        exact hw (List.append_eq_nil_iff.mp hz'.symm).1
      have hwc : Closed w := Closed.of_append (hy ▸ closed_of_chunksOf h hne) hw
      have hd : depthAfter 0 (rawLines (t ++ w)) = 0 := by
        obtain ⟨c, cs, rfl⟩ := List.exists_cons_of_ne_nil hne
        rw [← hy, rawLines_of_chunksOf h hne]
        exact hc.depth_eq
      rw [hz'] at hz
      have hlt := not_swallowed hz hw hwc hd
      rw [headCount_eq_length (chunksOf_join h)] at hlt
      omega

/-! ### Drawers -/

theorem readDrawer_shape {start off : ℕ} {es : List PropertyEntry} {rs body : List Text}
    {d : PropertyDrawer} {b : ℕ} (h : readDrawer start off es rs = some (d, b, body)) :
    ∃ ds e, rs = ds ++ e :: body ∧ trim e = ":END:".toList ∧ (∀ k, depthAfter k ds = k) ∧
      (∀ e' body', trim e' = ":END:".toList → ∃ span b',
        readDrawer start off es (ds ++ e' :: body') = some (⟨d.entries, span⟩, b', body')) ∧
      ∀ e' rest d' b' body', readDrawer start off es (ds ++ e' :: rest) = some (d', b', body') →
        body' <:+ rest := by
  induction rs generalizing off es with
  | nil => simp [readDrawer] at h
  | cons r rs ih =>
      simp only [readDrawer] at h
      split_ifs at h with h1 h2
      · simp only [Option.some.injEq, Prod.mk.injEq] at h
        obtain ⟨rfl, rfl, rfl⟩ := h
        refine ⟨[], r, rfl, by simpa using h1, fun _ => rfl, ?_, ?_⟩
        · intro e' body' he'
          exact ⟨_, _, by simp [readDrawer, he']; exact ⟨rfl, rfl⟩⟩
        · intro e' rest d' b' body' h'
          simp only [List.nil_append, readDrawer] at h'
          split_ifs at h' with h3 h4
          · simp only [Option.some.injEq, Prod.mk.injEq] at h'
            rw [h'.2.2]
          · obtain ⟨e, -, h'⟩ := Option.bind_eq_some_iff.mp h'
            obtain ⟨ds, rfl, -⟩ := readDrawer_spec h'
            exact List.suffix_append ds body'
      · obtain ⟨e, he, h⟩ := Option.bind_eq_some_iff.mp h
        obtain ⟨ds, e₀, rfl, hend, hdepth, hsame, hsuffix⟩ := ih h
        obtain ⟨u, hu⟩ := trimStart_of_property he
        refine ⟨r :: ds, e₀, rfl, hend, fun k => ?_, ?_, ?_⟩
        · show depthAfter (lineDepth k r) ds = k
          rw [drawerLine_depth hu, hdepth]
        · intro e' body' he'
          obtain ⟨span, b', h'⟩ := hsame e' body' he'
          refine ⟨span, b', ?_⟩
          rw [List.cons_append, readDrawer]
          simp only [if_neg h1, if_neg h2, he, Option.bind_some]
          exact h'
        · intro e' rest d' b' body' h'
          rw [List.cons_append, readDrawer] at h'
          simp only [if_neg h1, if_neg h2, he, Option.bind_some] at h'
          exact hsuffix e' rest d' b' body' h'

/-- **Below a title line**: either there is no drawer, or a drawer that some line `:END:` ends.
Another last line still ends it if it says `:END:`; otherwise the drawer goes on. -/
theorem readPairs_shape {rs body : List Text} {ps : List (Text × Text)}
    (h : readPairs rs = some (ps, body)) :
    (ps = [] ∧ body = rs ∧ ∀ r ∈ rs.head?, trim r ≠ ":PROPERTIES:".toList) ∨
    ∃ ds e, rs = ds ++ e :: body ∧ (∃ r ∈ ds.head?, trim r = ":PROPERTIES:".toList) ∧
      trim e = ":END:".toList ∧ (∀ k, depthAfter k ds = k) ∧
      (∀ e' body', trim e' = ":END:".toList → readPairs (ds ++ e' :: body') = some (ps, body')) ∧
      ∀ e' rest ps' body', readPairs (ds ++ e' :: rest) = some (ps', body') → body' <:+ rest := by
  cases rs with
  | nil =>
      simp only [readPairs, readProperties, Option.map_some, Option.some.injEq, Prod.mk.injEq] at h
      obtain ⟨rfl, rfl⟩ := h
      exact .inl ⟨rfl, rfl, by simp⟩
  | cons r rs =>
      simp only [readPairs, readProperties] at h
      split_ifs at h with h1
      · rw [Option.map_map] at h
        obtain ⟨⟨d, b, body'⟩, hd, hb⟩ := Option.map_eq_some_iff.mp h
        simp only [Function.comp, drawerPairs, Prod.mk.injEq] at hb
        obtain ⟨rfl, rfl⟩ := hb
        obtain ⟨ds, e, rfl, hend, hdepth, hsame, hsuffix⟩ := readDrawer_shape hd
        obtain ⟨u, hu⟩ := trimStart_of_trim h1
        refine .inr ⟨r :: ds, e, rfl, ⟨r, rfl, by simpa using h1⟩, hend, fun k => ?_, ?_, ?_⟩
        · show depthAfter (lineDepth k r) ds = k
          rw [drawerLine_depth hu, hdepth]
        · intro e' body' he'
          obtain ⟨span, b', h'⟩ := hsame e' body' he'
          simp only [List.cons_append, readPairs, readProperties, if_pos h1, h', Option.map_some,
            drawerPairs]
        · intro e' rest ps' body' h'
          simp only [List.cons_append, readPairs, readProperties, if_pos h1, Option.map_map] at h'
          obtain ⟨⟨d', b', body''⟩, hd', hb'⟩ := Option.map_eq_some_iff.mp h'
          simp only [Function.comp, drawerPairs, Prod.mk.injEq] at hb'
          rw [← hb'.2]
          exact hsuffix e' rest d' b' body'' hd'
      · simp only [Option.map_some, Option.some.injEq, Prod.mk.injEq] at h
        obtain ⟨rfl, rfl⟩ := h
        refine .inl ⟨rfl, rfl, ?_⟩
        intro r' hr'
        simp only [List.head?_cons, Option.mem_some_iff] at hr'
        rw [← hr']
        simpa using h1

theorem ink_pos_of_properties {ds : List Text} (h : ∃ r ∈ ds.head?, trim r = ":PROPERTIES:".toList) :
    0 < ink ds.flatten := by
  obtain ⟨r, hr, ht⟩ := h
  cases ds with
  | nil => cases hr
  | cons r' ds =>
      obtain rfl : r' = r := by simpa using hr
      have : ink r' = 12 := by rw [← ink_trim, ht]; decide
      rw [List.flatten_cons, ink_append]
      omega

/-! ### A new body -/

/-- A heading line, lines that belong to it, and a text. -/
theorem chunksOf_cons {x u title : Text} {ds y : List Text} {rest : List Chunk}
    (hraw : rawLines x = title :: (ds ++ rawLines u)) (hhead : isHead 0 title = true)
    (hds : NoHead 0 ds) (hdepth : depthAfter 0 ds = 0) (hu : chunksOf u = (y, rest)) :
    chunksOf x = ([], (title, ds ++ y) :: rest) := by
  obtain ⟨hrawu, hy, hc⟩ := (chunksOf_eq_iff u y rest).mp hu
  have hdepth : Segment.run lineDepth 0 ds = 0 := hdepth
  refine (chunksOf_eq_iff _ _ _).mpr ⟨by rw [hraw, hrawu]; simp, trivial, ?_⟩
  refine (chunks_cons_iff _ _ _).mpr ⟨rfl, hhead, ?_, ?_⟩
  · rw [NoHead, Segment.noHead_append, hdepth]
    exact ⟨hds, hy⟩
  · rw [depthAfter, Segment.run_append, hdepth]
    exact hc

theorem trimStart_content {r u : Text} {c : Char} (h : trimStart r = c :: u) :
    ∃ v, trimStart (content r) = c :: v := by
  obtain ⟨w, hw, e⟩ := content_spec r
  have hb : ¬ Blank (content r) := by
    intro hb
    have : Blank r := by rw [e]; exact (blank_append _ _).mpr ⟨hb, hw⟩
    rw [(trimStart_eq_nil_iff r).mpr this] at h
    cases h
  rw [e, trimStart_append hb] at h
  obtain ⟨x, v, hv⟩ := List.exists_cons_of_ne_nil (mt (trimStart_eq_nil_iff (content r)).mp hb)
  rw [hv, List.cons_append, List.cons.injEq] at h
  exact ⟨v, by rw [hv, h.1]⟩

/-- A line that starts with a colon is neither a heading line nor a block line. -/
theorem colonLine {r u : Text} (h : trimStart r = ':' :: u) :
    NoHead 0 [r] ∧ depthAfter 0 [r] = 0 := by
  obtain ⟨v, hv⟩ := trimStart_content h
  refine ⟨⟨?_, trivial⟩, drawerLine_depth hv 0⟩
  rw [Bool.eq_false_iff]
  intro hh
  obtain ⟨n, hn⟩ := (isHead_zero_iff r).mp hh
  obtain ⟨w, -, hw⟩ := trimStart_heading hn
  rw [hv] at hw
  exact absurd (List.cons.inj hw).1 (by decide)

theorem endLine {e : Text} (h : trim e = ":END:".toList) (w : Text) :
    NoHead 0 [e ++ w] ∧ depthAfter 0 [e ++ w] = 0 := by
  obtain ⟨v, hv⟩ := trimStart_of_trim h
  have hb : ¬ Blank e := by
    intro hb
    rw [hb.trim_eq] at h
    cases h
  have he : trimStart (e ++ w) = ':' :: (v ++ w) := by
    rw [trimStart_append hb, hv]
    rfl
  exact colonLine he

/-- What is read back of a body has no more ink than the lines it is read from, and the same only
if there is no drawer. -/
theorem ink_readPairs {y body : List Text} {ps : List (Text × Text)}
    (h : readPairs y = some (ps, body)) :
    ink body.flatten ≤ ink y.flatten ∧
      (ink y.flatten ≤ ink body.flatten → ps = [] ∧ body = y) := by
  rcases readPairs_shape h with ⟨rfl, rfl, -⟩ | ⟨ds, e, rfl, hds, -⟩
  · exact ⟨le_rfl, fun _ => ⟨rfl, rfl⟩⟩
  · have := ink_pos_of_properties hds
    simp only [List.flatten_append, List.flatten_cons, ink_append]
    exact ⟨by omega, fun h => by omega⟩

theorem ink_suffix {a b : List Text} (h : a <:+ b) : ink a.flatten ≤ ink b.flatten := by
  obtain ⟨c, rfl⟩ := h
  rw [List.flatten_append, ink_append]
  omega

theorem eq_nil_of_ink {d : ℕ} {cs : List Chunk} (h : Chunks d cs)
    (hink : ink (Segment.join cs).flatten = 0) : cs = [] := by
  by_contra hne
  obtain ⟨u, hu⟩ := ink_join_pos h hne
  rw [hu, ink_cons_of_not_ws (by decide)] at hink
  omega

section edit
variable {c : Chunk} {ps : List (Text × Text)} {body hdr : List Text} {z : Text} {bs : List Chunk}
  (hhead : isHead 0 c.1 = true) (hn : NoHead 0 c.2) (hpairs : readPairs c.2 = some (ps, body))
  (hhdr : c.lines = hdr ++ body) (hraw : rawLines hdr.flatten = hdr)
include hhead hn hpairs hhdr hraw

/-- The text `t` in place of the body, after a header that ends with a line feed. -/
theorem body_edit_closed (hz : chunksOf z = ([], bs)) (hclosed : Closed hdr.flatten) (t : Text) :
    ∃ c' rest, chunksOf (hdr.flatten ++ (t ++ z)) = ([], c' :: rest) ∧ c'.1 = c.1 ∧
      ∀ ps' body', rest.length = bs.length → readPairs c'.2 = some (ps', body') →
        ink body'.flatten = ink t → rest = bs ∧ ps' = ps := by
  obtain ⟨⟨y, rest⟩, hy⟩ : ∃ x, chunksOf (t ++ z) = x := ⟨_, rfl⟩
  have hrawx : rawLines (hdr.flatten ++ (t ++ z)) = hdr ++ rawLines (t ++ z) := by
    rw [rawLines_append hclosed, hraw]
  rcases readPairs_shape hpairs with ⟨rfl, rfl, -⟩ | ⟨ds, e, hc, -, hend, hdepth, hsame, -⟩
  · have hh : hdr = [c.1] := by
      have : [c.1] ++ c.2 = hdr ++ c.2 := hhdr
      exact (List.append_cancel_right this).symm
    subst hh
    refine ⟨(c.1, [] ++ y), rest,
      chunksOf_cons hrawx hhead trivial rfl hy, rfl, ?_⟩
    intro ps' body' hlen hread hink
    obtain ⟨hle, heq⟩ := ink_readPairs hread
    obtain ⟨hyt, hrest⟩ := body_eq_of_counts hz hy hlen (hink ▸ hle)
    have : ink y.flatten ≤ ink body'.flatten := by rw [hyt, hink]
    exact ⟨hrest, (heq this).1⟩
  · have hh : hdr = c.1 :: (ds ++ [e]) := by
      have : (c.1 :: (ds ++ [e])) ++ body = hdr ++ body := by rw [← hhdr, Chunk.lines, hc]; simp
      exact (List.append_cancel_right this).symm
    subst hh
    have hdepth : Segment.run lineDepth 0 ds = 0 := hdepth 0
    have hds : NoHead 0 ds := by
      rw [hc, NoHead, Segment.noHead_append] at hn
      exact hn.1
    have hnl := endLine hend []
    rw [List.append_nil] at hnl
    refine ⟨(c.1, ds ++ [e] ++ y), rest,
      chunksOf_cons hrawx hhead ?_ ?_ hy, rfl, ?_⟩
    · rw [NoHead, Segment.noHead_append, hdepth]
      exact ⟨hds, hnl.1⟩
    · rw [depthAfter, Segment.run_append, hdepth]
      exact hnl.2
    · intro ps' body' hlen hread hink
      have hread' := hsame e y hend
      rw [List.append_assoc] at hread
      rw [List.singleton_append, hread', Option.some.injEq, Prod.mk.injEq] at hread
      obtain ⟨rfl, rfl⟩ := hread
      exact ⟨(body_eq_of_counts hz hy hlen (le_of_eq hink.symm)).2, rfl⟩

/-- The text `t` after a header at the end of the text, without a line feed between them. -/
theorem body_edit_open (hbody : body = []) (hopen : ¬ Closed hdr.flatten) (t : Text) :
    ∃ c' rest, chunksOf (hdr.flatten ++ t) = ([], c' :: rest) ∧
      ∀ ps' body', readPairs c'.2 = some (ps', body') → ink body'.flatten = ink t →
        rest = [] ∧ ps' = ps ∧ trimEnd c'.1 = trimEnd c.1 := by
  obtain ⟨a, b, hab, ha, hb⟩ := exists_last_line hdr.flatten
  have hbne : b ≠ [] := by
    rintro rfl
    rw [List.append_nil] at hab
    exact hopen (hab ▸ ha)
  have hlines : rawLines a ++ [b] = hdr := by
    rw [← hraw, hab, rawLines_append ha, rawLines_of_no_newline hb hbne]
  cases ht : rawLines t with
  | nil =>
      rw [rawLines_eq_nil_iff] at ht
      subst ht
      refine ⟨c, [], ?_, ?_⟩
      · rw [List.append_nil]
        refine (chunksOf_eq_iff _ _ _).mpr ⟨?_, trivial, ?_⟩
        · rw [hraw, List.nil_append, Segment.join_cons, Segment.join_nil, List.append_nil]
          rw [hbody, List.append_nil] at hhdr
          exact hhdr.symm
        · exact (chunks_cons_iff _ _ _).mpr ⟨rfl, hhead, hn, trivial⟩
      · intro ps' body' hread _
        rw [hpairs, Option.some.injEq, Prod.mk.injEq] at hread
        exact ⟨rfl, hread.1.symm, rfl⟩
  | cons p₀ tl =>
      have htl : rawLines tl.flatten = tl := by
        rw [show p₀ :: tl = [p₀] ++ tl from rfl] at ht
        exact rawLines_suffix ht
      have htext : t = p₀ ++ tl.flatten := by
        rw [← rawLines_flatten t, ht]
        rfl
      obtain ⟨⟨y, rest⟩, hy⟩ : ∃ x, chunksOf tl.flatten = x := ⟨_, rfl⟩
      have hink : ink t = ink p₀ + (ink y.flatten + ink (Segment.join rest).flatten) := by
        rw [htext, ink_append, ← ink_append (List.flatten y), flatten_of_chunksOf hy]
      have hrest := ((chunksOf_eq_iff _ _ _).mp hy).2.2
      have hrawx : rawLines (hdr.flatten ++ t) = rawLines a ++ (b ++ p₀) :: rawLines tl.flatten := by
        rw [hab, List.append_assoc, rawLines_append ha, rawLines_glue hb ht, htl]
      rcases readPairs_shape hpairs with ⟨rfl, rfl, -⟩ | ⟨ds, e, hc, -, hend, hdepth, hsame, hsuffix⟩
      · have hh : rawLines a ++ [b] = [] ++ [c.1] := by
          rw [hlines]
          have : [c.1] ++ c.2 = hdr ++ c.2 := hhdr
          exact (List.append_cancel_right this).symm
        obtain ⟨ha₀, hb₀⟩ := List.append_inj' hh rfl
        obtain rfl : b = c.1 := by simpa using hb₀
        rw [ha₀, List.nil_append] at hrawx
        obtain ⟨n, w, hpos, hw⟩ := (isHead_zero_iff_stars c.1).mp hhead
        have hhead' : isHead 0 (c.1 ++ p₀) = true := by
          have e : c.1 ++ p₀ = stars n (w ++ p₀) := by rw [hw]; simp [stars]
          rw [e]
          exact isHead_stars hpos _
        refine ⟨(c.1 ++ p₀, [] ++ y), rest, chunksOf_cons hrawx hhead' trivial rfl hy, ?_⟩
        intro ps' body' hread hi
        obtain ⟨hle, heq⟩ := ink_readPairs (show readPairs y = some (ps', body') from hread)
        have hp₀ : ink p₀ = 0 := by omega
        refine ⟨eq_nil_of_ink hrest (by omega), (heq (by omega)).1, ?_⟩
        exact trimEnd_append_blank ((ink_eq_zero_iff p₀).mp hp₀) c.1
      · have hh : rawLines a ++ [b] = (c.1 :: ds) ++ [e] := by
          rw [hlines]
          rw [hbody] at hc
          rw [hbody, List.append_nil, Chunk.lines, hc] at hhdr
          exact hhdr.symm
        obtain ⟨ha₀, hb₀⟩ := List.append_inj' hh rfl
        obtain rfl : b = e := by simpa using hb₀
        have hdepth : Segment.run lineDepth 0 ds = 0 := hdepth 0
        have hds : NoHead 0 ds := by
          rw [hc, NoHead, Segment.noHead_append] at hn
          exact hn.1
        have hnl := endLine hend p₀
        have hrawx : rawLines (hdr.flatten ++ t) =
            c.1 :: ((ds ++ [b ++ p₀]) ++ rawLines tl.flatten) := by
          rw [hrawx, ha₀]
          simp
        refine ⟨(c.1, ds ++ [b ++ p₀] ++ y), rest, chunksOf_cons hrawx hhead ?_ ?_ hy, ?_⟩
        · rw [NoHead, Segment.noHead_append, hdepth]
          exact ⟨hds, hnl.1⟩
        · rw [depthAfter, Segment.run_append, hdepth]
          exact hnl.2
        · intro ps' body' hread hi
          rw [List.append_assoc, List.singleton_append] at hread
          have hle := ink_suffix (hsuffix _ _ _ _ hread)
          have hp₀ : ink p₀ = 0 := by omega
          have hend' : trim (b ++ p₀) = ":END:".toList := by
            rw [trim_append_blank ((ink_eq_zero_iff p₀).mp hp₀), hend]
          rw [hsame _ y hend', Option.some.injEq, Prod.mk.injEq] at hread
          exact ⟨eq_nil_of_ink hrest (by omega), hread.1.symm, rfl⟩

end edit

end Orgasmic
