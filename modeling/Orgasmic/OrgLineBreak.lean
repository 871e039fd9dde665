import Orgasmic.JournalBlocks
import Orgasmic.OrgDrawers

/-! # A line break at the end of a document

What is appended to a document starts with a line break.

* **Lines.** `Broken`: the break ends the last line, or is a blank line behind it.
* **Readers.** No reader of lines tells the difference: not the depth of blocks, the headings, the
  directives (`Broken.readKeywords`) nor a drawer (`Broken.readPairs`).
* **Documents.** `chunksOf_break`: the break goes to the last chunk, or to the prelude of a document
  without headings.  `blocks_break`: the blocks of a journal still read as the same entries. -/

namespace Orgasmic

open Text

/-! ### Lines -/

/-- The lines with a line break at the end. -/
inductive Broken : List Text → List Text → Prop
  /-- The break is a line of its own. -/
  | line (rs : List Text) : Broken rs (rs ++ [['\n']])
  /-- The break ends the last line. -/
  | last (rs : List Text) (r : Text) (open_end : '\n' ∉ r) : Broken (rs ++ [r]) (rs ++ [r ++ ['\n']])

theorem broken_rawLines (t : Text) : Broken (rawLines t) (rawLines (t ++ ['\n'])) := by
  obtain ⟨a, b, rfl, ha, hb⟩ := exists_last_line t
  have hbreak : rawLines (a ++ b ++ ['\n']) = rawLines a ++ [b ++ ['\n']] := by
    rw [List.append_assoc, rawLines_append ha, show b ++ ['\n'] = b ++ '\n' :: [] from rfl,
      rawLines_line_append hb]
    rfl
  rw [hbreak, rawLines_append ha]
  obtain rfl | hne := eq_or_ne b []
  · rw [rawLines, List.append_nil, List.nil_append]
    exact .line _
  · rw [rawLines_of_no_newline hb hne]
    exact .last _ _ hb

namespace Broken

variable {rs rs' : List Text}

theorem flatten (h : Broken rs rs') : rs'.flatten = rs.flatten ++ ['\n'] := by
  cases h with
  | line => simp
  | last => simp

/-- The break belongs to the last of several lines. -/
theorem of_append {as bs : List Text} (h : Broken (as ++ bs) rs') (hne : bs ≠ []) :
    ∃ bs', rs' = as ++ bs' ∧ Broken bs bs' := by
  obtain ⟨bs, b, rfl⟩ := List.eq_nil_or_concat bs |>.resolve_left hne
  rw [List.concat_eq_append] at h ⊢
  generalize hrs : as ++ (bs ++ [b]) = rs at h
  cases h with
  | line =>
      subst hrs
      exact ⟨bs ++ [b] ++ [['\n']], by simp, .line _⟩
  | last ms r hr =>
      rw [← List.append_assoc] at hrs
      obtain ⟨rfl, hb⟩ := List.append_inj' hrs rfl
      obtain rfl := List.singleton_inj.mp hb
      exact ⟨bs ++ [b ++ ['\n']], by simp, .last bs b hr⟩

/-- The break ends the first line, or belongs to the lines behind it. -/
theorem of_cons {r : Text} (h : Broken (r :: rs) rs') :
    rs = [] ∧ '\n' ∉ r ∧ rs' = [r ++ ['\n']] ∨ ∃ bs', rs' = r :: bs' ∧ Broken rs bs' := by
  obtain rfl | hne := eq_or_ne rs []
  · generalize hrs : [r] = ls at h
    cases h with
    | line =>
        subst hrs
        exact .inr ⟨[['\n']], rfl, .line []⟩
    | last ms s hs =>
        obtain ⟨rfl, hr⟩ := List.append_inj' (show [] ++ [r] = ms ++ [s] from hrs) rfl
        obtain rfl := List.singleton_inj.mp hr
        exact .inl ⟨rfl, hs, rfl⟩
  · have hsplit : Broken ([r] ++ rs) rs' := h
    exact .inr (hsplit.of_append hne)

theorem isHead_break (d : ℕ) (r : Text) : isHead d (r ++ ['\n']) = isHead d r := by
  rw [Bool.eq_iff_iff]
  obtain rfl | hd := Nat.eq_zero_or_pos d
  · rw [isHead_zero_iff_stars, isHead_zero_iff_stars]
    constructor
    · rintro ⟨n, rest, hn, e⟩
      -- the line feed is the end of the rest
      obtain rfl | ⟨rest, c, rfl⟩ := List.eq_nil_or_concat rest
      · have := congrArg List.getLast? e
        simp [stars] at this
      · have e' : r ++ ['\n'] = stars n rest ++ [c] := by rw [e]; simp [stars]
        exact ⟨n, rest, hn, (List.append_inj' e' rfl).1⟩
    · rintro ⟨n, rest, hn, rfl⟩
      exact ⟨n, rest ++ ['\n'], hn, by simp [stars]⟩
  · have hnone (s : Text) : isHead d s ≠ true := fun h => by
      have := (isHead_zero h).1
      omega
    exact ⟨fun h => absurd h (hnone _), fun h => absurd h (hnone _)⟩

theorem depthAfter (h : Broken rs rs') (d : ℕ) : depthAfter d rs' = depthAfter d rs := by
  cases h with
  | line =>
      rw [depthAfter_append]
      exact lineDepth_blank blank_line _
  | last rs r =>
      rw [depthAfter_append, depthAfter_append]
      exact lineDepth_congr (trim_append_blank (by decide) r) _

theorem noHead (h : Broken rs rs') {d : ℕ} : NoHead d rs' ↔ NoHead d rs := by
  cases h with
  | line =>
      rw [NoHead, Segment.noHead_append]
      exact and_iff_left (noHead_blank (by simpa using blank_line) _)
  | last rs r =>
      rw [NoHead, NoHead, Segment.noHead_append, Segment.noHead_append]
      refine and_congr_right fun _ => and_congr_left fun _ => ?_
      rw [isHead_break]

/-- The text of a directive, up to carriage returns at its end. -/
theorem directive_break {r : Text} (hr : '\n' ∉ r) :
    ("#+".toList.isPrefixOf? (trimStart (content (r ++ ['\n'])))).map (trimEndMatches '\r') =
      ("#+".toList.isPrefixOf? (trimStart (content r))).map (trimEndMatches '\r') := by
  rw [content_of_no_newline hr, content_terminated]
  split_ifs with hlast
  · obtain ⟨u, rfl⟩ := List.getLast?_eq_some_iff.mp hlast
    rw [List.dropLast_concat]
    by_cases hu : Blank u
    · have hboth : Blank (u ++ ['\r']) := (blank_append _ _).mpr ⟨hu, by decide⟩
      rw [(trimStart_eq_nil_iff _).mpr hu, (trimStart_eq_nil_iff _).mpr hboth]
    · rw [trimStart_append hu]
      -- the mark is not split by the carriage return
      match trimStart u with
      | [] => rfl
      | [a] => simp [List.isPrefixOf?]
      | a :: b :: x =>
          have hx : trimEndMatches '\r' (x ++ ['\r']) = trimEndMatches '\r' x :=
            List.rdropWhile_concat_pos _ _ _ rfl
          simp only [List.cons_append]
          by_cases ha : '#' = a
          · by_cases hb : '+' = b
            · subst ha hb
              exact congrArg some hx.symm
            · simp [List.isPrefixOf?, hb]
          · simp [List.isPrefixOf?, ha]
  · rfl

theorem parseKeywordLine_congr {d d' : Text} (h : trimEndMatches '\r' d = trimEndMatches '\r' d') :
    parseKeywordLine d = parseKeywordLine d' := by
  rw [parseKeywordLine, parseKeywordLine, h]

/-- The directives are read the same, apart from where they stand. -/
theorem readKeywords (h : Broken rs rs') {off : ℕ} {keywords keywords' : List Keyword}
    {declared declared' : List Text}
    (hread : readKeywords off keywords declared rs = some (keywords', declared')) :
    ∃ keywords'', Orgasmic.readKeywords off keywords declared rs' = some (keywords'', declared') := by
  cases h with
  | line => exact ⟨keywords', readKeywords_blank hread⟩
  | last rs r hr =>
      induction rs generalizing off keywords declared with
      | nil =>
          have hsame := directive_break hr
          have htrim : trim (content (r ++ ['\n'])) = trim (content r) := by
            rw [trim_content, trim_content, trim_append_blank (by decide)]
          rw [List.nil_append] at hread ⊢
          unfold Orgasmic.readKeywords at hread ⊢
          cases hd : "#+".toList.isPrefixOf? (trimStart (content r)) with
          | some d =>
              rw [hd] at hsame hread
              obtain ⟨d', hd', hdd⟩ := Option.map_eq_some_iff.mp hsame
              obtain ⟨x, hx, hread⟩ := Option.bind_eq_some_iff.mp hread
              cases hread
              rw [hd']
              dsimp only
              rw [parseKeywordLine_congr hdd, hx]
              exact ⟨_, rfl⟩
          | none =>
              rw [hd] at hsame hread
              rw [Option.map_eq_none_iff.mp hsame]
              dsimp only at hread ⊢
              rw [htrim]
              split_ifs at hread ⊢ with hblank
              · cases hread
                exact ⟨_, rfl⟩
              · cases hread
                exact ⟨_, rfl⟩
      | cons s rs ih =>
          rw [List.cons_append] at hread ⊢
          unfold Orgasmic.readKeywords at hread ⊢
          cases hd : "#+".toList.isPrefixOf? (trimStart (content s)) with
          | some d =>
              rw [hd] at hread
              obtain ⟨x, hx, hread⟩ := Option.bind_eq_some_iff.mp hread
              dsimp only
              rw [hx, Option.bind_some]
              exact ih hread
          | none =>
              rw [hd] at hread
              dsimp only at hread ⊢
              split_ifs at hread ⊢
              · exact ih hread
              · cases hread
                exact ⟨_, rfl⟩

/-- A drawer is read the same, with white space behind the body. -/
theorem readPairs (h : Broken rs rs') {ps : List (Text × Text)} {body : List Text}
    (hread : readPairs rs = some (ps, body)) :
    ∃ body' w, Orgasmic.readPairs rs' = some (ps, body') ∧ Blank w ∧
      body'.flatten = body.flatten ++ w := by
  obtain ⟨rfl, rfl, hfirst⟩ | ⟨ds, e, rfl, -, hend, -, hsame, -⟩ := readPairs_shape hread
  · refine ⟨rs', ['\n'], readPairs_of_no_drawer ?_, by decide, h.flatten⟩
    cases body with
    | nil =>
        intro r hr
        generalize hnil : ([] : List Text) = rs at h
        cases h with
        | line =>
            subst hnil
            obtain rfl : ['\n'] = r := by simpa using hr
            decide
        | last => simp at hnil
    | cons b body =>
        have hb := hfirst b rfl
        obtain ⟨-, -, rfl⟩ | ⟨bs', rfl, -⟩ := h.of_cons
        · intro r hr
          obtain rfl : b ++ ['\n'] = r := by simpa using hr
          rwa [trim_append_blank (by decide)]
        · exact hfirst
  · obtain ⟨bs', rfl, hbroken⟩ := h.of_append (by simp)
    obtain ⟨rfl, -, rfl⟩ | ⟨bs', rfl, hbody⟩ := hbroken.of_cons
    · refine ⟨[], [], hsame _ [] ?_, blank_nil, rfl⟩
      rw [trim_append_blank (by decide), hend]
    · exact ⟨bs', ['\n'], hsame e bs' hend, by decide, hbody.flatten⟩

end Broken

/-! ### Chunks -/

/-- **A chunk with a line break at the end** is read as the same heading, with white space behind
its body. -/
theorem Chunk.exact_broken {declared : List Text} (hd : [] ∉ declared) {c c' : Chunk}
    (h : Broken c.lines c'.lines) {n : Node} (hn : c.exact declared = some n) :
    ∃ w, Blank w ∧ c'.exact declared = some { n with body := n.body ++ w } := by
  obtain ⟨level, parsed, ps, body, hlevel, hparsed, hr, rfl⟩ := Chunk.exact_eq_some_iff.mp hn
  obtain ⟨hnil, hnl, hc'⟩ | ⟨bs', hc', hbroken⟩ := Broken.of_cons h
  · -- the title line is the only one
    obtain ⟨htitle, hlines⟩ := List.cons.inj hc'
    have hhead : isHead 0 c'.1 = true := by
      rw [htitle, Broken.isHead_break]
      exact (isHead_zero_iff c.1).mpr ⟨level, hlevel⟩
    obtain ⟨level', hlevel'⟩ := (isHead_zero_iff c'.1).mp hhead
    have htrim : trimEnd c'.1 = trimEnd c.1 := by rw [htitle, trimEnd_append_blank (by decide)]
    obtain ⟨rfl, hsame⟩ := parseHeadingLine_congr htrim hlevel' hlevel hd
    rw [hnil] at hr
    cases hr
    refine ⟨[], blank_nil, Chunk.exact_eq_some_iff.mpr ⟨_, parsed, [], [], hlevel', ?_, ?_, ?_⟩⟩
    · rw [hsame, hparsed]
    · rw [hlines]
      rfl
    · rfl
  · obtain ⟨htitle, hlines⟩ := List.cons.inj hc'
    obtain ⟨body', w, hr', hw, hbody⟩ := hbroken.readPairs hr
    rw [← htitle] at hlevel hparsed
    refine ⟨w, hw, Chunk.exact_eq_some_iff.mpr ⟨level, parsed, ps, body', hlevel, hparsed, ?_, ?_⟩⟩
    · rw [hlines, hr']
    · rw [hbody]

/-- **The chunks of a document with a line break at the end.** -/
theorem chunksOf_break {t : Text} {P : List Text} {cs : List Chunk} (h : chunksOf t = (P, cs)) :
    (cs = [] ∧ ∃ P', chunksOf (t ++ ['\n']) = (P', []) ∧ Broken P P') ∨
      ∃ as c c', cs = as ++ [c] ∧ chunksOf (t ++ ['\n']) = (P, as ++ [c']) ∧
        Broken c.lines c'.lines := by
  obtain ⟨hraw, hP, hc⟩ := (chunksOf_eq_iff _ _ _).mp h
  have hbroken := broken_rawLines t
  rw [hraw] at hbroken
  obtain rfl | ⟨as, c, rfl⟩ := List.eq_nil_or_concat cs
  · rw [Segment.join_nil, List.append_nil] at hbroken
    refine .inl ⟨rfl, _, (chunksOf_eq_iff _ _ _).mpr ⟨?_, hbroken.noHead.mpr hP, trivial⟩, hbroken⟩
    rw [Segment.join_nil, List.append_nil]
  · rw [List.concat_eq_append] at hbroken hc ⊢
    have hlines : P ++ Segment.join (as ++ [c]) = (P ++ Segment.join as) ++ c.lines := by
      simp [Chunk.lines]
    rw [hlines] at hbroken
    obtain ⟨bs, hbs, hlast⟩ := hbroken.of_append (by simp [Chunk.lines])
    rw [Chunks, Segment.chunks_append] at hc
    obtain ⟨has, hown⟩ := hc
    obtain ⟨hd, hhead, hno, -⟩ := (chunks_cons_iff _ _ _).mp hown
    have hnew (c' : Chunk) (hbs' : bs = c'.lines) (hhead' : isHead 0 c'.1 = true)
        (hno' : NoHead 0 c'.2) : chunksOf (t ++ ['\n']) = (P, as ++ [c']) := by
      refine (chunksOf_eq_iff _ _ _).mpr ⟨?_, hP, ?_⟩
      · rw [hbs, hbs']
        simp [Chunk.lines]
      · rw [Chunks, Segment.chunks_append]
        exact ⟨has, (chunks_cons_iff _ _ _).mpr ⟨hd, hhead', hno', trivial⟩⟩
    obtain ⟨hnil, -, hc'⟩ | ⟨bs', hc', hbelow⟩ := Broken.of_cons hlast
    · refine .inr ⟨as, c, (c.1 ++ ['\n'], []), rfl, hnew _ hc' ?_ trivial,
        show Broken c.lines [c.1 ++ ['\n']] from hc' ▸ hlast⟩
      rw [Broken.isHead_break, hhead]
    · exact .inr ⟨as, c, (c.1, bs'), rfl, hnew _ hc' hhead (hbelow.noHead.mpr hno),
        show Broken c.lines (c.1 :: bs') from hc' ▸ hlast⟩

/-- A document that ends with a line break outside of blocks is a front. -/
theorem front_of_closed {t : Text} {P : List Text} {cs : List Chunk} (h : chunksOf t = (P, cs))
    (hclosed : Closed t) (hdepth : depthAfter 0 (rawLines t) = 0) :
    Front P cs ∧ frontText P cs = t := by
  obtain ⟨hraw, hP, hc⟩ := (chunksOf_eq_iff _ _ _).mp h
  refine ⟨⟨?_, hP, hc, ?_⟩, ?_⟩
  · rw [← hraw]
    exact terminated_of_closed hclosed
  · rw [← hraw, hdepth]
  · rw [frontText, ← hraw, rawLines_flatten]

/-- A document that ends outside of blocks is a front once it ends with a line break. -/
theorem front_break {t : Text} {P : List Text} {cs : List Chunk}
    (h : chunksOf (t ++ ['\n']) = (P, cs)) (hdepth : depthAfter 0 (rawLines t) = 0) :
    Front P cs ∧ frontText P cs = t ++ ['\n'] :=
  front_of_closed h (closed_concat t) ((broken_rawLines t).depthAfter 0 ▸ hdepth)

/-! ### Blocks -/

/-- White space around the prose makes no difference. -/
theorem readJournalEntry_congr {body body' : Text} (h : trim body = trim body') (display title : Text)
    (pairs : List (Text × Text)) :
    readJournalEntry display title pairs body = readJournalEntry display title pairs body' := by
  simp only [readJournalEntry, h]

theorem flatten_concat_chunk (as : List Chunk) (c : Chunk) :
    (Segment.join (as ++ [c])).flatten = (Segment.join as).flatten ++ c.text := by
  simp [Chunk.text, Chunk.lines]

/-- The block with its last chunk ended by a line break. -/
theorem TopBlock.broken {declared : List Text} (hd : [] ∉ declared) {b : TopBlock} {as : List Chunk}
    {c c' : Chunk} (hb : b.chunks = as ++ [c]) (h : Broken c.lines c'.lines) (htop : b.IsTop)
    {n : Node} (hn : c.exact declared = some n) :
    ∃ b' : TopBlock, b'.chunks = as ++ [c'] ∧ b'.IsTop ∧ ∀ display e,
      b.Reads declared display e → b'.Reads declared display e := by
  obtain ⟨w, hw, hn'⟩ := Chunk.exact_broken hd h hn
  have hlevel : c'.level = c.level := by rw [← Chunk.exact_level hn', ← Chunk.exact_level hn]
  obtain ⟨root, below⟩ := b
  cases as with
  | nil =>
      obtain ⟨rfl, rfl⟩ := List.cons.inj (show root :: below = [c] from hb)
      refine ⟨(c', []), rfl, ⟨hlevel.trans htop.1, by simp⟩, ?_⟩
      rintro display e ⟨m, hm, hread⟩
      obtain rfl := Option.some.inj (hn.symm.trans hm)
      refine ⟨_, hn', ?_⟩
      rw [← hread]
      refine readJournalEntry_congr ?_ _ _ _
      show trim (n.body ++ w ++ []) = trim (n.body ++ [])
      rw [List.append_nil, List.append_nil, trim_append_blank hw]
  | cons a as =>
      obtain ⟨rfl, rfl⟩ := List.cons.inj (show root :: below = a :: (as ++ [c]) from hb)
      obtain ⟨hroot, hbelow⟩ := htop
      refine ⟨(root, as ++ [c']), rfl, ⟨hroot, ?_⟩, ?_⟩
      · intro d hmem
        obtain hmem | hmem := List.mem_append.mp hmem
        · exact hbelow d (List.mem_append_left _ hmem)
        · rw [List.mem_singleton.mp hmem, hlevel]
          exact hbelow c (by simp)
      · rintro display e ⟨m, hm, hread⟩
        refine ⟨m, hm, ?_⟩
        rw [← hread]
        refine readJournalEntry_congr ?_ _ _ _
        have htext : c'.text = c.text ++ ['\n'] := h.flatten
        show trim (m.body ++ (Segment.join (as ++ [c'])).flatten) =
          trim (m.body ++ (Segment.join (as ++ [c])).flatten)
        rw [flatten_concat_chunk, flatten_concat_chunk, htext, ← List.append_assoc,
          ← List.append_assoc, ← List.append_assoc, trim_append_blank (by decide)]

/-- **The blocks of a journal with a line break at the end.** -/
theorem blocks_break {declared : List Text} (hd : [] ∉ declared) {bs : List TopBlock}
    {as : List Chunk} {c c' : Chunk} (hsplit : Segment.join bs = as ++ [c])
    (h : Broken c.lines c'.lines) (htop : ∀ b ∈ bs, b.IsTop) {n : Node}
    (hn : c.exact declared = some n) :
    ∃ bs' : List TopBlock, Segment.join bs' = as ++ [c'] ∧ (∀ b ∈ bs', b.IsTop) ∧
      ∀ display entries, List.Forall₂ (TopBlock.Reads declared display) bs entries →
        List.Forall₂ (TopBlock.Reads declared display) bs' entries := by
  obtain rfl | ⟨bs, b, rfl⟩ := List.eq_nil_or_concat bs
  · simp at hsplit
  rw [List.concat_eq_append] at *
  obtain ⟨ms, m, hchunks⟩ := (List.eq_nil_or_concat b.chunks).resolve_left (List.cons_ne_nil _ _)
  rw [List.concat_eq_append] at hchunks
  have hjoin (x : TopBlock) : Segment.join (bs ++ [x]) = Segment.join bs ++ x.chunks := by
    rw [Segment.join_append, Segment.join_cons, Segment.join_nil, List.append_nil]
    rfl
  rw [hjoin, hchunks, ← List.append_assoc] at hsplit
  obtain ⟨rfl, hm⟩ := List.append_inj' hsplit rfl
  obtain rfl := List.singleton_inj.mp hm
  rw [List.forall_mem_append, List.forall_mem_singleton] at htop
  obtain ⟨b', hb', htop', hreads⟩ := TopBlock.broken hd hchunks h htop.2 hn
  refine ⟨bs ++ [b'], ?_, List.forall_mem_append.mpr ⟨htop.1, by simpa using htop'⟩, ?_⟩
  · rw [hjoin, hb', List.append_assoc]
  · intro display entries hentries
    obtain ⟨es, es', rfl, hes, hes'⟩ := Outline.forall₂_append_right_iff.mp hentries.flip
    obtain ⟨e, es', he, hnil, rfl⟩ := List.forall₂_cons_right_iff.mp hes'
    obtain rfl := List.forall₂_nil_right_iff.mp hnil
    exact List.rel_append hes.flip (.cons (hreads display e he) .nil)

end Orgasmic
