import Orgasmic.OrgTrim

/-! # Writing headings with drawers

A heading that is written line by line, with a drawer below its title, is read as that heading.

* **Lines.** `OneLine`: a text that is its own line when a line feed is put after it.
  `PropertyLine key value line`: the line of a property; it reads as the key and the trimmed value
  (`PropertyLine.pair`).
* **Chunks.** `drawerChunk` is the chunk of such a heading with the blank lines after it.  Its node
  has the trimmed properties and a blank body (`Drawn.node`).
* **Documents.** `Prelude`: lines before the first heading that declare no TODO keywords.
  `chunksOf_drawn`: the chunks of what was written are the chunks that were written. -/

namespace Orgasmic

open Text

/-! ### Lines -/

/-- No line feed, and no carriage return before the one that is put after it. -/
def OneLine (t : Text) : Prop := '\n' ∉ t ∧ t.getLast? ≠ some '\r'

instance (t : Text) : Decidable (OneLine t) := inferInstanceAs (Decidable (_ ∧ _))

theorem OneLine.content {t : Text} (h : OneLine t) : content (t ++ ['\n']) = t := by
  rw [content_terminated, if_neg h.2]

theorem OneLine.terminated {t : Text} (h : OneLine t) : Terminated (t ++ ['\n']) := ⟨t, h.1, rfl⟩

theorem OneLine.append {a b : Text} (ha : OneLine a) (hb : OneLine b) : OneLine (a ++ b) := by
  refine ⟨?_, ?_⟩
  · rw [List.mem_append, not_or]
    exact ⟨ha.1, hb.1⟩
  · rcases eq_or_ne b [] with rfl | hne
    · rw [List.append_nil]
      exact ha.2
    · rw [List.getLast?_append_of_ne_nil _ hne]
      exact hb.2

/-- A trimmed text without line feeds. -/
theorem oneLine_of_trimmed {t : Text} (hline : '\n' ∉ t) (htrim : trim t = t) : OneLine t := by
  refine ⟨hline, fun hlast => ?_⟩
  have hend : trimEnd t = t := by
    conv_lhs => rw [← htrim]
    conv_rhs => rw [← htrim]
    exact List.rdropWhile_idempotent _ _
  have hne : t ≠ [] := by
    rintro rfl
    cases hlast
  have hws := List.rdropWhile_eq_self_iff.mp hend hne
  rw [List.getLast?_eq_some_getLast hne, Option.some.injEq] at hlast
  rw [hlast] at hws
  exact hws (by decide)

/-- The line of a property: key and value between and after the colons. -/
structure PropertyLine (key value line : Text) : Prop where
  key_ne_nil : key ≠ []
  key_colon : ':' ∉ key
  key_end : key ≠ "END".toList
  shape : ∃ raw, line = ':' :: (key ++ ':' :: raw) ∧ trim raw = trim value
  one : OneLine line

namespace PropertyLine

variable {key value line : Text}

/-- The reader gets key and trimmed value back. -/
theorem pair (h : PropertyLine key value line) (s : LineSpan) :
    ∃ e, parsePropertyLine line s = some e ∧ e.pair = (key, trim value) := by
  obtain ⟨raw, heq, htrim⟩ := h.shape
  have hcr : trimEndMatches '\r' line = line := by
    unfold trimEndMatches
    rw [List.rdropWhile_eq_self_iff]
    intro hne hlast
    refine h.one.2 ?_
    rw [List.getLast?_eq_some_getLast hne, of_decide_eq_true hlast]
  have hstart : trimStart line = line := by
    rw [heq, trimStart_cons_of_not_ws (by decide)]
  unfold parsePropertyLine
  dsimp only
  rw [hcr, hstart, Nat.sub_self, List.drop_zero, heq]
  simp only [splitOnce_append h.key_colon, if_neg h.key_ne_nil]
  exact ⟨_, rfl, by rw [PropertyEntry.pair, htrim]⟩

/-- The line ends no drawer. -/
theorem trim_ne (h : PropertyLine key value line) :
    trim line ≠ ":END:".toList ∧ trim line ≠ [] := by
  obtain ⟨raw, heq, -⟩ := h.shape
  have hstart : trim line = trimEnd line := by
    rw [trim, heq, trimStart_cons_of_not_ws (by decide)]
  constructor
  · intro hend
    obtain ⟨w, -, hw⟩ := trimEnd_spec line
    rw [← hstart, hend, heq] at hw
    have htail : key ++ ':' :: raw = "END".toList ++ ':' :: w := (List.cons.inj hw).2
    have hsplit := splitOnce_append h.key_colon raw
    rw [htail, splitOnce_append (by decide)] at hsplit
    simp only [Option.some.injEq, Prod.mk.injEq] at hsplit
    exact h.key_end hsplit.1.symm
  · rw [ne_eq, trim_eq_nil_iff, heq, blank_cons]
    exact fun hblank => absurd hblank.1 (by decide)

end PropertyLine

/-! ### Quiet lines -/

/-- The line is no heading and opens or closes no block. -/
def Quiet (r : Text) : Prop :=
  headingLevel (content r) = none ∧ startsBlock (content r) = false ∧
    endsBlock (content r) = false

theorem quiet_of_blank {r : Text} (h : Blank r) : Quiet r := by
  have hc : Blank (content r) := fun c hc => h c ((content_isPrefix r).subset hc)
  refine ⟨?_, not_block_of_blank hc⟩
  rw [Option.eq_none_iff_forall_ne_some]
  intro n hn
  obtain ⟨u, hu, -⟩ := trimStart_heading hn
  have hstar := hc '*' (by rw [hu]; exact List.mem_cons_self)
  exact absurd hstar (by decide)

theorem quiet_of_colon {r u : Text} (h : content r = ':' :: u) : Quiet r := by
  refine ⟨by rw [h]; exact headingLevel_of_head_ne (by decide) u, ?_⟩
  refine not_block_of_trimStart (c := ':') (u := u) ?_ (by decide)
  rw [h, trimStart_cons_of_not_ws (by decide)]

theorem noHead_quiet {rs : List Text} (h : ∀ r ∈ rs, Quiet r) (d : ℕ) :
    NoHead d rs ∧ depthAfter d rs = d := by
  induction rs with
  | nil => exact ⟨trivial, rfl⟩
  | cons r rs ih =>
      obtain ⟨⟨hlevel, hblock⟩, hrs⟩ := List.forall_mem_cons.mp h
      have hdepth : lineDepth d r = d := blockDepth_of_not_block hblock d
      obtain ⟨hhead, hafter⟩ := ih hrs
      refine ⟨⟨isHead_eq_false_of_none hlevel d, ?_⟩, ?_⟩
      · rw [hdepth]
        exact hhead
      · rw [depthAfter_cons, hdepth]
        exact hafter

theorem blank_line : Blank ['\n'] := by decide

theorem terminated_blank_line : Terminated ['\n'] := ⟨[], by decide, rfl⟩

/-! ### Preludes -/

/-- The lines before the first heading. -/
structure Prelude (P : List Text) : Prop where
  terminated : ∀ l ∈ P, Terminated l
  quiet : ∀ l ∈ P, Quiet l
  declares : ∃ keywords, readKeywords 0 [] [] P = some (keywords, [])

/-- A blank line at the end declares nothing. -/
theorem readKeywords_blank {off : ℕ} {keywords keywords' : List Keyword}
    {declared declared' : List Text} {P : List Text}
    (h : readKeywords off keywords declared P = some (keywords', declared')) :
    readKeywords off keywords declared (P ++ [['\n']]) = some (keywords', declared') := by
  induction P generalizing off keywords declared with
  | nil =>
      rw [List.nil_append, readKeywords]
      exact h
  | cons r rs ih =>
      rw [List.cons_append]
      unfold readKeywords at h ⊢
      cases hp : "#+".toList.isPrefixOf? (trimStart (content r)) with
      | some directive =>
          rw [hp] at h
          obtain ⟨x, hx, h⟩ := Option.bind_eq_some_iff.mp h
          simp only [hx, Option.bind_some]
          exact ih h
      | none =>
          rw [hp] at h
          dsimp only at h ⊢
          split_ifs at h ⊢
          · exact ih h
          · exact h

theorem Prelude.blank {P : List Text} (h : Prelude P) : Prelude (P ++ [['\n']]) := by
  obtain ⟨keywords, hk⟩ := h.declares
  refine ⟨fun l hl => ?_, fun l hl => ?_, keywords, readKeywords_blank hk⟩
  · obtain hl | hl := List.mem_append.mp hl
    · exact h.terminated l hl
    · rw [List.mem_singleton.mp hl]
      exact terminated_blank_line
  · obtain hl | hl := List.mem_append.mp hl
    · exact h.quiet l hl
    · rw [List.mem_singleton.mp hl]
      exact quiet_of_blank blank_line

theorem prelude_nil : Prelude [] := ⟨by simp, by simp, [], rfl⟩

/-- A directive that declares no TODO keywords. -/
theorem readKeywords_directive {r d k v : Text}
    (hdirective : "#+".toList.isPrefixOf? (trimStart (content r)) = some d)
    (hparse : parseKeywordLine d = some (k, v)) (hnone : declaredBy k v = []) (off : ℕ)
    (keywords : List Keyword) (rs : List Text) :
    readKeywords off keywords [] (r :: rs) =
      readKeywords (off + r.length) (keywords ++ [⟨k, v, (spanAt off r).full⟩]) [] rs := by
  rw [readKeywords, hdirective]
  dsimp only
  rw [hparse, Option.bind_some, hnone, List.append_nil]

/-! ### Headings with a drawer -/

/-- A title, its drawer, and `n` blank lines. -/
def drawerChunk (title : Text) (lines : List Text) (n : ℕ) : Chunk :=
  (title ++ ['\n'], ":PROPERTIES:\n".toList ::
    (lines.map (· ++ ['\n']) ++ ":END:\n".toList :: List.replicate n ['\n']))

/-- What is written of a heading: a title of this level and the lines of its properties. -/
structure Drawn (level : ℕ) (title : Text) (properties : List (Text × Text)) (lines : List Text) :
    Prop where
  level_eq : headingLevel title = some level
  one : OneLine title
  lines : List.Forall₂ (fun p line => PropertyLine p.1 p.2 line) properties lines

/-- The property with the white space around its value left out. -/
def trimmedValue (p : Text × Text) : Text × Text := (p.1, trim p.2)

theorem drawerChunk_text (title : Text) (lines : List Text) (n : ℕ) :
    (drawerChunk title lines n).text =
      (title :: ":PROPERTIES:".toList :: (lines ++ [":END:".toList])).flatMap (· ++ ['\n']) ++
        List.replicate n '\n' := by
  simp only [Chunk.text, Chunk.lines, drawerChunk, List.flatten_cons, List.flatten_append,
    List.flatten_replicate_singleton, List.flatMap_cons, List.flatMap_append, List.flatMap_nil]
  simp [List.flatMap]

theorem readDrawer_lines {properties : List (Text × Text)} {lines : List Text}
    (h : List.Forall₂ (fun p line => PropertyLine p.1 p.2 line) properties lines) (start off : ℕ)
    (es : List PropertyEntry) (body : List Text) :
    ∃ d b, readDrawer start off es (lines.map (· ++ ['\n']) ++ ":END:\n".toList :: body) =
        some (d, b, body) ∧
      d.entries.map PropertyEntry.pair =
        es.map PropertyEntry.pair ++ properties.map trimmedValue := by
  induction h generalizing off es with
  | nil =>
      refine ⟨⟨es, ⟨start, off + 6⟩⟩, off + 6, ?_, by simp⟩
      rw [List.map_nil, List.nil_append, readDrawer]
      exact if_pos (by decide)
  | @cons p line properties lines hline _ ih =>
      obtain ⟨hend, hblank⟩ := hline.trim_ne
      obtain ⟨e, he, hpair⟩ := hline.pair (spanAt off (line ++ ['\n']))
      obtain ⟨d, b, hd, hentries⟩ := ih (off + (line ++ ['\n']).length) (es ++ [e])
      refine ⟨d, b, ?_, ?_⟩
      · rw [List.map_cons, List.cons_append, readDrawer]
        rw [hline.one.content, if_neg hend, if_neg hblank, he, Option.bind_some]
        exact hd
      · rw [hentries, List.map_append, List.map_cons, List.map_nil, hpair, List.map_cons,
          List.append_assoc]
        rfl

namespace Drawn

variable {level : ℕ} {title : Text} {properties : List (Text × Text)} {lines : List Text}

/-- The drawer that is read. -/
theorem readPairs (h : Drawn level title properties lines) (n : ℕ) :
    readPairs (drawerChunk title lines n).2 =
      some (properties.map trimmedValue, List.replicate n ['\n']) := by
  obtain ⟨d, b, hd, hentries⟩ := readDrawer_lines h.lines 0 (0 + ":PROPERTIES:\n".toList.length) []
    (List.replicate n ['\n'])
  have hopen : trim (content ":PROPERTIES:\n".toList) = ":PROPERTIES:".toList := by decide
  simp only [drawerChunk, Orgasmic.readPairs, readProperties, if_pos hopen, hd, Option.map_some,
    drawerPairs, hentries, List.map_nil, List.nil_append]

/-- What is written reads as a heading with these properties and no body. -/
theorem node (h : Drawn level title properties lines) (n : ℕ) {parsed : ParsedHeadingLine}
    (hparsed : parseHeadingLine title level [] = some parsed) :
    (drawerChunk title lines n).node [] =
      some ⟨level, parsed.todo, parsed.title, parsed.tags, properties.map trimmedValue, []⟩ := by
  have hblank : trimEnd (List.replicate n ['\n']).flatten = [] := by
    rw [trimEnd_eq_nil_iff, List.flatten_replicate_singleton]
    intro c hc
    rw [(List.mem_replicate.mp hc).2]
    decide
  have hcontent : content (drawerChunk title lines n).1 = title := h.one.content
  refine Chunk.node_eq_some_iff.mpr ⟨level, parsed, _, _, ?_, ?_, h.readPairs n, ?_⟩
  · rw [hcontent, h.level_eq]
  · rw [hcontent, hparsed]
  · rw [hblank]

/-- The lines of the heading. -/
theorem terminated (h : Drawn level title properties lines) (n : ℕ) :
    (∀ l ∈ (drawerChunk title lines n).lines, Terminated l) ∧
      ∀ l ∈ (drawerChunk title lines n).2, Quiet l := by
  have hproperty : ∀ l ∈ lines.map (· ++ ['\n']), Terminated l ∧ Quiet l := by
    intro l hl
    obtain ⟨line, hmem, rfl⟩ := List.mem_map.mp hl
    obtain ⟨p, hline⟩ : ∃ p, PropertyLine (Prod.fst p) (Prod.snd p) line := by
      have hlines := h.lines
      clear h hl
      induction hlines with
      | nil => cases hmem
      | @cons p _ _ _ hp _ ih =>
          obtain rfl | hmem := List.mem_cons.mp hmem
          · exact ⟨p, hp⟩
          · exact ih hmem
    obtain ⟨raw, heq, -⟩ := hline.shape
    exact ⟨hline.one.terminated, quiet_of_colon (hline.one.content.trans heq)⟩
  have hopen : Terminated ":PROPERTIES:\n".toList ∧ Quiet ":PROPERTIES:\n".toList :=
    ⟨⟨":PROPERTIES:".toList, by decide, rfl⟩, quiet_of_colon (u := "PROPERTIES:".toList) rfl⟩
  have hclose : Terminated ":END:\n".toList ∧ Quiet ":END:\n".toList :=
    ⟨⟨":END:".toList, by decide, rfl⟩, quiet_of_colon (u := "END:".toList) rfl⟩
  have hbody : ∀ l ∈ (drawerChunk title lines n).2, Terminated l ∧ Quiet l := by
    intro l hl
    obtain rfl | hl := List.mem_cons.mp hl
    · exact hopen
    · obtain hl | hl := List.mem_append.mp hl
      · exact hproperty l hl
      · obtain rfl | hl := List.mem_cons.mp hl
        · exact hclose
        · rw [(List.mem_replicate.mp hl).2]
          exact ⟨terminated_blank_line, quiet_of_blank blank_line⟩
  refine ⟨fun l hl => ?_, fun l hl => (hbody l hl).2⟩
  obtain rfl | hl := List.mem_cons.mp hl
  · exact h.one.terminated
  · exact (hbody l hl).1

end Drawn

/-! ### Documents -/

/-- The chunk is written with a drawer. -/
def IsDrawn (c : Chunk) : Prop :=
  ∃ level title properties lines n, Drawn level title properties lines ∧
    c = drawerChunk title lines n

theorem chunks_drawn {cs : List Chunk} (h : ∀ c ∈ cs, IsDrawn c) : Chunks 0 cs := by
  induction cs with
  | nil => trivial
  | cons c cs ih =>
      obtain ⟨⟨level, title, properties, lines, n, hc, rfl⟩, hcs⟩ := List.forall_mem_cons.mp h
      obtain ⟨hhead, hdepth⟩ := noHead_quiet (hc.terminated n).2 0
      refine (chunks_cons_iff _ _ _).mpr ⟨rfl, (isHead_zero_iff _).mpr ⟨level, ?_⟩, hhead, ?_⟩
      · rw [drawerChunk, hc.one.content]
        exact hc.level_eq
      · rw [hdepth]
        exact ih hcs

/-- **The chunks of what was written.** -/
theorem chunksOf_drawn {P : List Text} {cs : List Chunk} (hP : Prelude P)
    (h : ∀ c ∈ cs, IsDrawn c) :
    chunksOf (P.flatten ++ cs.flatMap Chunk.text) = (P, cs) := by
  have hlines : ∀ l ∈ P ++ Segment.join cs, Terminated l := by
    intro l hl
    obtain hl | hl := List.mem_append.mp hl
    · exact hP.terminated l hl
    · obtain ⟨c, hc, hl⟩ := List.mem_flatMap.mp hl
      obtain ⟨level, title, properties, lines, n, hdrawn, rfl⟩ := h c hc
      exact (hdrawn.terminated n).1 l hl
  have htext : P.flatten ++ cs.flatMap Chunk.text = (P ++ Segment.join cs).flatten := by
    rw [List.flatten_append]
    congr 1
    clear h hlines
    induction cs with
    | nil => rfl
    | cons c cs ih =>
        rw [List.flatMap_cons, ih, Segment.join_cons, ← List.cons_append, List.flatten_append]
        rfl
  obtain ⟨hhead, hdepth⟩ := noHead_quiet hP.quiet 0
  refine (chunksOf_eq_iff _ _ _).mpr ⟨?_, hhead, ?_⟩
  · have hraw := rawLines_flatten_append hlines []
    rw [List.append_nil, rawLines, List.append_nil] at hraw
    rw [htext, hraw]
  · rw [hdepth]
    exact chunks_drawn h

/-! ### Values that are read -/

/-- A text that the reader returns as a value. -/
def IsValue (t : Text) : Prop := '\n' ∉ t ∧ trim t = t

instance (t : Text) : Decidable (IsValue t) := inferInstanceAs (Decidable (_ ∧ _))

theorem IsValue.oneLine {t : Text} (h : IsValue t) : OneLine t := oneLine_of_trimmed h.1 h.2

theorem isValue_trim {t : Text} (h : '\n' ∉ t) : IsValue (trim t) := by
  obtain ⟨w, w', -, -, ht⟩ := trim_spec t
  refine ⟨fun hc => h ?_, trim_trim t⟩
  rw [ht]
  simp [hc]

theorem parsePropertyLine_value {t : Text} {s : LineSpan} {e : PropertyEntry} (ht : '\n' ∉ t)
    (h : parsePropertyLine t s = some e) : IsValue e.value := by
  dsimp only [parsePropertyLine] at h
  split at h
  · next after hafter =>
      split at h
      · cases h
      · next key raw hsplit =>
          split_ifs at h
          cases h
          refine isValue_trim fun hc => ht ?_
          have hmem : '\n' ∈ after := by
            rw [(splitOnce_eq_some hsplit).1]
            simp [hc]
          have hdrop := List.mem_of_mem_drop (hafter ▸ List.mem_cons_of_mem ':' hmem)
          exact (List.rdropWhile_prefix _ _).subset hdrop
  · cases h

theorem readDrawer_values {start off : ℕ} {es : List PropertyEntry} {rs body : List Text}
    {d : PropertyDrawer} {b : ℕ} (h : readDrawer start off es rs = some (d, b, body))
    (hes : ∀ e ∈ es, IsValue e.value) (hrs : ∀ r ∈ rs, '\n' ∉ content r) :
    ∀ e ∈ d.entries, IsValue e.value := by
  induction rs generalizing off es with
  | nil => cases h
  | cons r rs ih =>
      obtain ⟨hr, hrs⟩ := List.forall_mem_cons.mp hrs
      rw [readDrawer] at h
      split_ifs at h
      · cases h
        exact hes
      · obtain ⟨e, he, h⟩ := Option.bind_eq_some_iff.mp h
        refine ih h ?_ hrs
        intro e' he'
        obtain he' | he' := List.mem_append.mp he'
        · exact hes e' he'
        · rw [List.mem_singleton.mp he']
          exact parsePropertyLine_value hr he

theorem readPairs_values {rs body : List Text} {ps : List (Text × Text)}
    (h : readPairs rs = some (ps, body)) (hrs : ∀ r ∈ rs, '\n' ∉ content r) :
    ∀ p ∈ ps, IsValue p.2 := by
  obtain ⟨⟨d, b, body'⟩, hread, heq⟩ := Option.map_eq_some_iff.mp h
  obtain ⟨rfl, -⟩ := Prod.mk.inj heq
  cases rs with
  | nil =>
      cases hread
      simp [drawerPairs]
  | cons r rs =>
      rw [readProperties] at hread
      split_ifs at hread
      · obtain ⟨⟨drawer, b', body''⟩, hdrawer, heq⟩ := Option.map_eq_some_iff.mp hread
        cases heq
        intro p hp
        obtain ⟨e, he, rfl⟩ := List.mem_map.mp hp
        exact readDrawer_values hdrawer (by simp) (List.forall_mem_cons.mp hrs).2 e he
      · cases hread
        simp [drawerPairs]

/-- **The values of a parsed document** have no line feed and no white space around them. -/
theorem propertyEntries_values {source display : Text} {f : OrgFile}
    (h : OrgFile.parse source display = .ok f) {i : HeadingInfo} (hi : i ∈ f.infos) :
    ∀ e ∈ i.propertyEntries, IsValue e.value := by
  intro e he
  have hnode := List.mem_map_of_mem (f := fun i => some (HeadingInfo.node source i)) hi
  rw [← nodes_of_parse h] at hnode
  obtain ⟨c, hc, hcn⟩ := List.mem_map.mp hnode
  obtain ⟨level, parsed, ps, body, -, -, hpairs, hn⟩ := Chunk.node_eq_some_iff.mp hcn
  have hps : i.propertyEntries.map PropertyEntry.pair = ps := congrArg Node.properties hn
  refine readPairs_values hpairs (fun r hr => ?_) e.pair (hps ▸ List.mem_map_of_mem he)
  refine no_newline_content (t := source) ?_
  rw [(chunksOf_spec source).1]
  exact List.mem_append_right _ (List.mem_flatMap.mpr ⟨c, hc, List.mem_cons_of_mem _ hr⟩)

theorem property_value {source display : Text} {f : OrgFile}
    (h : OrgFile.parse source display = .ok f) {i : HeadingInfo} (hi : i ∈ f.infos)
    {key value : Text} (hproperty : i.property key = some value) : IsValue value := by
  obtain ⟨e, he, rfl⟩ := Option.map_eq_some_iff.mp hproperty
  exact propertyEntries_values h hi e (List.mem_of_find?_eq_some he)

theorem mem_flattenAll {h : Heading} {hs : List Heading} (hh : h ∈ hs) :
    h.toHeadingInfo ∈ Heading.flattenAll hs := by
  induction hs with
  | nil => cases hh
  | cons g hs ih =>
      rw [Heading.flattenAll, List.mem_append, flatten_eq]
      obtain rfl | hh := List.mem_cons.mp hh
      · exact .inl List.mem_cons_self
      · exact .inr (ih hh)

theorem mem_flattenAll_section {s h : Heading} (hs : s ∈ h.sections) {hs' : List Heading}
    (hh : h ∈ hs') : s.toHeadingInfo ∈ Heading.flattenAll hs' := by
  induction hs' with
  | nil => cases hh
  | cons g hs' ih =>
      rw [Heading.flattenAll, List.mem_append]
      obtain rfl | hh := List.mem_cons.mp hh
      · rw [flatten_eq]
        exact .inl (List.mem_cons_of_mem _ (mem_flattenAll hs))
      · exact .inr (ih hh)

end Orgasmic
