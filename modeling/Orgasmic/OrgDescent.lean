import Orgasmic.OrgFlat

/-! # The parser computes the flat reading

The recursive descent of `OrgParser` runs over the lines of the chunks.  Each of its functions is
related to the function of `OrgFlat` that reads the same lines: the drawer, one heading with the
loop over what is below it, the directives.

`parse_flat` is the result: the parser accepts exactly the documents that can be read flat, and
the tree it returns lists the headings read, in order, and lays them out by their levels
(`LaidAll`). -/

namespace Orgasmic

open Text

mutual

/-- A heading of this level at `start`, whose sections are one level deeper, follow its body and
end where it ends. -/
def Laid (level start : ℕ) : Heading → Prop
  | ⟨info, span, sections⟩ =>
      info.level = level ∧ info.titleLine.start = start ∧ span.start = start ∧
        LaidAll (level + 1) info.body.stop span.stop sections

/-- Headings of this level, one after the other from `start` to `stop`. -/
def LaidAll (level start stop : ℕ) : List Heading → Prop
  | [] => start = stop
  | h :: hs => Laid level start h ∧ LaidAll level h.span.stop stop hs

end

/-! ### The parser on laid-out lines -/

section parser
variable (p : Parser)

theorem layLines_join_zero {d : ℕ} {cs : List Chunk} (h : Chunks d cs) (no off : ℕ) :
    layLines no off d (Segment.join cs) = layLines no off 0 (Segment.join cs) := by
  cases cs with
  | nil => rfl
  | cons c cs => rw [h.depth_eq]

theorem startOf_lay_of_total {no off d total : ℕ} {rs : List Text}
    (h : off + rs.flatten.length = total) : Parser.startOf (layLines no off d rs) total = off := by
  rw [startOf_lay]
  split_ifs with h0
  · subst h0
    simpa using h.symm
  · rfl

theorem takeWhile_body {d : ℕ} {rs : List Text} {cs : List Chunk} (hn : NoHead d rs)
    (hc : Chunks (depthAfter d rs) cs) (no off : ℕ) :
    Parser.bodyLines (layLines no off d (rs ++ Segment.join cs)) = layLines no off d rs ∧
      Parser.afterBody (layLines no off d (rs ++ Segment.join cs)) =
        layLines (no + rs.length) (off + rs.flatten.length) 0 (Segment.join cs) := by
  induction rs generalizing no off d with
  | nil =>
      have e : layLines no off d (Segment.join cs) = layLines no off 0 (Segment.join cs) :=
        layLines_join_zero hc no off
      simp only [List.nil_append, List.length_nil, Nat.add_zero, List.flatten_nil]
      rw [e]
      cases cs with
      | nil => simp [Parser.bodyLines, Parser.afterBody, layLines]
      | cons c cs =>
          obtain ⟨-, h, -⟩ := (chunks_cons_iff _ _ _).mp hc
          obtain ⟨n, hn⟩ := (isHead_zero_iff c.1).mp h
          simp only [Segment.join_cons, layLines, Parser.bodyLines, Parser.afterBody,
            List.takeWhile_cons, List.dropWhile_cons, headingLevelAt_lay, h, hn]
          simp
  | cons r rs ih =>
      obtain ⟨h, hn⟩ := hn
      have ih := ih hn hc (no + 1) (off + r.length)
      have e1 : no + (r :: rs).length = no + 1 + rs.length := by simp; omega
      have e2 : off + (r :: rs).flatten.length = off + r.length + rs.flatten.length := by
        simp [Nat.add_assoc]
      rw [e1, e2, ← ih.2]
      simp only [List.cons_append, layLines, Parser.bodyLines, Parser.afterBody,
        List.takeWhile_cons, List.dropWhile_cons, headingLevelAt_lay, h]
      refine ⟨?_, by simp⟩
      have := ih.1
      simp only [Parser.bodyLines] at this
      simp [this]

theorem parseDrawer_lay (start : Line) {rs : List Text} {cs : List Chunk} (hn : NoHead 0 rs)
    (hc : Chunks (depthAfter 0 rs) cs) (no off : ℕ) (es : List PropertyEntry) :
    match readDrawer start.span.start off es rs with
    | none => ∃ e, p.parseDrawer start es (layLines no off 0 (rs ++ Segment.join cs)) = .error e
    | some (drawer, b, body) => ∃ no',
        p.parseDrawer start es (layLines no off 0 (rs ++ Segment.join cs)) =
          .ok (drawer, layLines no' b 0 (body ++ Segment.join cs)) := by
  induction rs generalizing no off es with
  | nil =>
      simp only [readDrawer, List.nil_append]
      cases cs with
      | nil => exact ⟨_, rfl⟩
      | cons c cs =>
          -- the next heading line cannot continue the drawer
          obtain ⟨-, h, -⟩ := (chunks_cons_iff _ _ _).mp hc
          obtain ⟨n, hn⟩ := (isHead_zero_iff c.1).mp h
          obtain ⟨h1, h2, -, h3⟩ := not_drawer_of_heading hn (spanAt off c.1)
          simp only [Segment.join_cons, layLines, Parser.parseDrawer, if_neg h1, if_neg h2, h3]
          exact ⟨_, rfl⟩
  | cons r rs ih =>
      obtain ⟨h, hn⟩ := hn
      simp only [readDrawer, List.cons_append, layLines, Parser.parseDrawer]
      split_ifs with h1 h2
      · obtain ⟨u, hu⟩ := trimStart_of_trim h1
        rw [drawerLine_depth hu]
        refine ⟨no + 1, ?_⟩
        simp [startOf_lay, spanAt]
      · exact ⟨_, rfl⟩
      · cases he : parsePropertyLine (content r) (spanAt off r) with
        | none => exact ⟨_, rfl⟩
        | some e =>
            obtain ⟨u, hu⟩ := trimStart_of_property he
            have hd : lineDepth 0 r = 0 := drawerLine_depth hu 0
            have hn : NoHead 0 rs := by rw [hd] at hn; exact hn
            have hc : Chunks (depthAfter 0 rs) cs := by
              have e : depthAfter 0 (r :: rs) = depthAfter (lineDepth 0 r) rs := rfl
              rwa [e, hd] at hc
            rw [hd]
            exact ih hn hc (no + 1) (off + r.length) (es ++ [e])

theorem parseProperties_lay {rs : List Text} {cs : List Chunk} (hn : NoHead 0 rs)
    (hc : Chunks (depthAfter 0 rs) cs) (no off : ℕ) :
    match readProperties off rs with
    | none => ∃ e, p.parseProperties (layLines no off 0 (rs ++ Segment.join cs)) = .error e
    | some (properties, b, body) => ∃ no',
        p.parseProperties (layLines no off 0 (rs ++ Segment.join cs)) =
          .ok (properties, layLines no' b 0 (body ++ Segment.join cs)) := by
  cases rs with
  | nil =>
      simp only [readProperties, List.nil_append]
      cases cs with
      | nil => exact ⟨no, rfl⟩
      | cons c cs =>
          obtain ⟨-, h, -⟩ := (chunks_cons_iff _ _ _).mp hc
          obtain ⟨n, hn⟩ := (isHead_zero_iff c.1).mp h
          obtain ⟨-, -, h1, -⟩ := not_drawer_of_heading hn (spanAt off c.1)
          refine ⟨no, ?_⟩
          simp only [Segment.join_cons, layLines, Parser.parseProperties, if_neg h1]
  | cons r rs =>
      obtain ⟨h, hn⟩ := hn
      simp only [readProperties, List.cons_append, layLines, Parser.parseProperties]
      split_ifs with h1
      · obtain ⟨u, hu⟩ := trimStart_of_trim h1
        have hd : lineDepth 0 r = 0 := drawerLine_depth hu 0
        have hn : NoHead 0 rs := by rw [hd] at hn; exact hn
        have hc : Chunks (depthAfter 0 rs) cs := by
          have e : depthAfter 0 (r :: rs) = depthAfter (lineDepth 0 r) rs := rfl
          rwa [e, hd] at hc
        rw [hd]
        have := parseDrawer_lay p ⟨no, spanAt off r, r, content r, inBlock 0 (content r)⟩ hn hc
          (no + 1) (off + r.length) []
        simp only [spanAt] at this ⊢
        cases hr : readDrawer off (off + r.length) [] rs with
        | none =>
            rw [hr] at this
            obtain ⟨e, he⟩ := this
            exact ⟨e, by rw [he]; rfl⟩
        | some x =>
            rw [hr] at this
            obtain ⟨no', he⟩ := this
            exact ⟨no', by rw [he]; rfl⟩
      · exact ⟨no, rfl⟩

theorem bodySpan_lay {rs : List Text} {cs : List Chunk} (hn : NoHead 0 rs)
    (hc : Chunks (depthAfter 0 rs) cs) (no off : ℕ)
    (htotal : off + (rs ++ Segment.join cs).flatten.length = p.source.length) :
    p.bodySpan (layLines no off 0 (rs ++ Segment.join cs)) = ⟨off, off + rs.flatten.length⟩ := by
  simp only [Parser.bodySpan, startOf_lay_of_total htotal, (takeWhile_body hn hc no off).1]
  by_cases h : rs = []
  · subst h
    simp [layLines]
  · have := getLast?_lay no off 0 h
    cases hl : (layLines no off 0 rs).getLast? with
    | none => rw [hl] at this; cases this
    | some l =>
        rw [hl] at this
        simpa using this

/-- The parser's line for the first raw line of a chunk. -/
def titleAt (no off : ℕ) (c : Chunk) : Line :=
  ⟨no, spanAt off c.1, c.1, content c.1, inBlock 0 (content c.1)⟩

variable (hend : (p.lines.getLast?.map fun l => l.span.next).getD p.source.length = p.source.length)
include hend

theorem parseHeadingWith_lay
    (sections : List Line → Except OrgError (List Heading × List Line)) {c : Chunk}
    {cs : List Chunk} (h : Chunks 0 (c :: cs)) (no off : ℕ)
    (htotal : off + (Segment.join (c :: cs)).flatten.length = p.source.length) :
    match readHeading p.todoKeywords off c with
    | none => ∃ e, p.parseHeadingWith sections (titleAt no off c)
        (layLines (no + 1) (off + c.1.length) 0 (c.2 ++ Segment.join cs)) c.level = .error e
    | some info => ∃ no', p.parseHeadingWith sections (titleAt no off c)
        (layLines (no + 1) (off + c.1.length) 0 (c.2 ++ Segment.join cs)) c.level =
          (sections (layLines no' (off + c.text.length) 0 (Segment.join cs))).map fun x =>
            (⟨info, ⟨off, Parser.startOf x.2 p.source.length⟩, x.1⟩, x.2) := by
  obtain ⟨-, hhead, hn, hc⟩ := (chunks_cons_iff _ _ _).mp h
  obtain ⟨n, hlevel⟩ := (isHead_zero_iff c.1).mp hhead
  have hcl : c.level = n := by rw [Chunk.level, hlevel, Option.getD_some]
  have hp := parseProperties_lay p hn hc (no + 1) (off + c.1.length)
  simp only [readHeading, hlevel, Option.bind_eq_bind, Option.bind_some, hcl,
    Parser.parseHeadingWith]
  have htitle : (titleAt no off c).text = content c.1 := rfl
  rw [htitle]
  cases parseHeadingLine (content c.1) n p.todoKeywords with
  | none => exact ⟨_, rfl⟩
  | some parsed =>
      simp only [Option.bind_some]
      cases hr : readProperties (off + c.1.length) c.2 with
      | none =>
          rw [hr] at hp
          obtain ⟨e, he⟩ := hp
          rw [he]
          exact ⟨e, rfl⟩
      | some x =>
          obtain ⟨properties, b, body⟩ := x
          rw [hr] at hp
          obtain ⟨no', he⟩ := hp
          obtain ⟨ds, hds, hb, -, hdepth⟩ := readProperties_spec hr
          have hdepth : Segment.run lineDepth 0 ds = 0 := hdepth 0
          have hn : NoHead 0 body := by
            rw [hds, NoHead, Segment.noHead_append, hdepth] at hn
            exact hn.2
          have hc : Chunks (depthAfter 0 body) cs := by
            rw [hds, depthAfter, Segment.run_append, hdepth] at hc
            exact hc
          have htext : b + body.flatten.length = off + c.text.length := by
            simp [hb, Chunk.text, Chunk.lines, hds, Nat.add_assoc]
          have htotal : b + (body ++ Segment.join cs).flatten.length = p.source.length := by
            rw [← htotal, Segment.join_cons, List.flatten_append, List.length_append,
              ← Nat.add_assoc, htext]
            simp [Chunk.text, Chunk.lines, Nat.add_assoc]
          refine ⟨no' + body.length, ?_⟩
          rw [he]
          simp only [bodySpan_lay p hn hc no' b htotal, (takeWhile_body hn hc no' b).2, htext,
            hend, bind, Except.bind]
          cases sections (layLines (no' + body.length) (off + c.text.length) 0
            (Segment.join cs)) <;> rfl

omit hend in
theorem belowChunks_split (floor : ℕ) (cs : List (ℕ × Chunk)) :
    belowChunks p.todoKeywords floor (floor + 1) cs =
      (belowChunks p.todoKeywords (floor + 1) (floor + 1) cs).bind fun r =>
        (belowChunks p.todoKeywords floor floor r.2).map fun r' => (r.1 ++ r'.1, r'.2) :=
  Outline.below_split _ _ (le_refl (floor + 1)) cs

/-- The result `r` of a descent from `off` lists the headings of the flat reading and lays them
out; it stops at chunks, at most `n` of them. -/
def Descends (floor off n : ℕ) (r : Except OrgError (List Heading × List Line)) :
    Option (List HeadingInfo × List (ℕ × Chunk)) → Prop
  | none => ∃ e, r = .error e
  | some (infos, rest) => ∃ hs no' off' cs', r = .ok (hs, layLines no' off' 0 (Segment.join cs')) ∧
      rest = place off' cs' ∧ Heading.flattenAll hs = infos ∧ LaidAll (floor + 1) off off' hs ∧
      Chunks 0 cs' ∧ cs'.length ≤ n ∧ off' + (Segment.join cs').flatten.length = p.source.length

omit hend in
theorem Descends.mono {floor off n m : ℕ} {r : Except OrgError (List Heading × List Line)}
    {b : Option (List HeadingInfo × List (ℕ × Chunk))} (h : Descends p floor off n r b)
    (hnm : n ≤ m) : Descends p floor off m r b := by
  cases b with
  | none => exact h
  | some x =>
      obtain ⟨hs, no', off', cs', he, hrest, hflat, hlaid, hc, hlen, htotal⟩ := h
      exact ⟨hs, no', off', cs', he, hrest, hflat, hlaid, hc, hlen.trans hnm, htotal⟩

omit hend in
/-- One heading with its sections, then the headings after it. -/
theorem Descends.cons {floor off n : ℕ} {c : Chunk} {info : HeadingInfo}
    {r : Except OrgError (List Heading × List Line)}
    {b : Option (List HeadingInfo × List (ℕ × Chunk))}
    {sections : List Line → Except OrgError (List Heading × List Line)}
    (hr : readHeading p.todoKeywords off c = some info) (hlevel : c.level = floor + 1)
    (hnested : Descends p (floor + 1) (off + c.text.length) n r b)
    (hnext : ∀ {cs' : List Chunk}, Chunks 0 cs' → ∀ no' off', cs'.length ≤ n →
      off' + (Segment.join cs').flatten.length = p.source.length →
      Descends p floor off' n (sections (layLines no' off' 0 (Segment.join cs')))
        (belowChunks p.todoKeywords floor floor (place off' cs'))) :
    Descends p floor off n
      ((r.map fun x =>
        ((⟨info, ⟨off, Parser.startOf x.2 p.source.length⟩, x.1⟩ : Heading), x.2)).bind fun x =>
          (sections x.2).bind fun y => .ok (x.1 :: y.1, y.2))
      ((b.bind fun x => (belowChunks p.todoKeywords floor floor x.2).map fun y =>
        (x.1 ++ y.1, y.2)).map fun x => (info :: x.1, x.2)) := by
  rcases b with _ | ⟨infos, rest⟩
  · obtain ⟨e, rfl⟩ := hnested
    exact ⟨e, rfl⟩
  · obtain ⟨nested, no₂, off₂, cs₂, rfl, rfl, rfl, hlaid, hc₂, hlen, htotal⟩ := hnested
    have hstart : Parser.startOf (layLines no₂ off₂ 0 (Segment.join cs₂)) p.source.length = off₂ :=
      startOf_lay_of_total htotal
    have hheading : Laid (floor + 1) off ⟨info, ⟨off, off₂⟩, nested⟩ := by
      obtain ⟨ds, body, -, -, hbody, -⟩ := readHeading_body hr
      refine ⟨(readHeading_level hr).trans hlevel, by rw [readHeading_titleLine hr], rfl, ?_⟩
      rw [hbody]
      exact hlaid
    have hnext := hnext hc₂ no₂ off₂ hlen htotal
    simp only [Except.map, Except.bind, Option.bind_some, hstart]
    rcases hb : belowChunks p.todoKeywords floor floor (place off₂ cs₂) with _ | ⟨after, rest⟩
    · rw [hb] at hnext
      obtain ⟨e, he⟩ := hnext
      exact ⟨e, by rw [he]⟩
    · rw [hb] at hnext
      obtain ⟨hs, no₃, off₃, cs₃, he, rfl, rfl, hlaid', hc₃, hlen', htotal⟩ := hnext
      refine ⟨⟨info, ⟨off, off₂⟩, nested⟩ :: hs, no₃, off₃, cs₃, by rw [he], rfl, ?_,
        ⟨hheading, hlaid'⟩, hc₃, hlen', htotal⟩
      simp [Heading.flattenAll, Heading.flatten]

omit hend in
theorem headingLevelAt_title {c : Chunk} {cs : List Chunk} (h : Chunks 0 (c :: cs)) (no off : ℕ) :
    headingLevelAt (titleAt no off c) = some c.level ∧ 0 < c.level := by
  obtain ⟨-, hhead, -, -⟩ := (chunks_cons_iff _ _ _).mp h
  rw [titleAt, headingLevelAt_lay, hhead, if_pos rfl, headingLevel_chunk hhead]
  exact ⟨rfl, level_pos_of_isHead hhead⟩

omit hend in
theorem layLines_cons {c : Chunk} {cs : List Chunk} (h : Chunks 0 (c :: cs)) (no off : ℕ) :
    layLines no off 0 (Segment.join (c :: cs)) =
      titleAt no off c :: layLines (no + 1) (off + c.1.length) 0 (c.2 ++ Segment.join cs) := by
  obtain ⟨-, hhead, -, -⟩ := (chunks_cons_iff _ _ _).mp h
  rw [Segment.join_cons, layLines, (isHead_zero hhead).2.1]
  rfl

/-- A loop that reads one heading and goes on: `sections` is the loop after the heading. -/
theorem parseHeading_lay {n floor : ℕ} {c : Chunk} {cs : List Chunk} (h : Chunks 0 (c :: cs))
    (hlevel : c.level = floor + 1) (no off : ℕ)
    (htotal : off + (Segment.join (c :: cs)).flatten.length = p.source.length)
    (sections : List Line → Except OrgError (List Heading × List Line))
    (hnested : ∀ {cs' : List Chunk}, Chunks 0 cs' → ∀ no' off', cs'.length ≤ cs.length →
      off' + (Segment.join cs').flatten.length = p.source.length →
      Descends p (floor + 1) off' cs'.length
        (p.parseSections n (floor + 1) (layLines no' off' 0 (Segment.join cs')))
        (belowChunks p.todoKeywords (floor + 1) (floor + 1) (place off' cs')))
    (hnext : ∀ {cs' : List Chunk}, Chunks 0 cs' → ∀ no' off', cs'.length ≤ cs.length →
      off' + (Segment.join cs').flatten.length = p.source.length →
      Descends p floor off' cs'.length (sections (layLines no' off' 0 (Segment.join cs')))
        (belowChunks p.todoKeywords floor floor (place off' cs'))) :
    Descends p floor off (c :: cs).length
      ((p.parseHeading n (titleAt no off c)
        (layLines (no + 1) (off + c.1.length) 0 (c.2 ++ Segment.join cs)) (floor + 1)).bind fun x =>
          (sections x.2).bind fun y => .ok (x.1 :: y.1, y.2))
      (belowChunks p.todoKeywords floor floor (place off (c :: cs))) := by
  obtain ⟨-, -, -, hc⟩ := (chunks_cons_iff _ _ _).mp h
  have hw := parseHeadingWith_lay p hend (p.parseSections n (floor + 1)) h no off htotal
  rw [hlevel] at hw
  have h0 : ¬ floor + 1 ≤ floor := by omega
  simp only [belowChunks, place, Outline.below, hlevel, if_neg h0, le_refl, if_true,
    Parser.parseHeading]
  cases hr : readHeading p.todoKeywords off c with
  | none =>
      rw [hr] at hw
      obtain ⟨e, he⟩ := hw
      exact ⟨e, by rw [he]; rfl⟩
  | some info =>
      rw [hr] at hw
      obtain ⟨no₁, he⟩ := hw
      have htotal : off + c.text.length + (Segment.join cs).flatten.length =
          p.source.length := by
        rw [← htotal]
        simp [Chunk.text, Chunk.lines, Nat.add_assoc]
      have hcons := Descends.cons p hr hlevel
        (hnested hc.zero no₁ (off + c.text.length) le_rfl htotal)
        (fun {cs'} hc' no' off' hlen' ht => (hnext hc' no' off' hlen' ht).mono p hlen')
      rw [← belowChunks_split] at hcons
      rw [he]
      exact hcons.mono p (by simp)

/-- **The loop over the nested headings reads the chunks below its heading.** -/
theorem parseSections_lay {n floor : ℕ} {cs : List Chunk} (h : Chunks 0 cs) (no off : ℕ)
    (hn : cs.length < n) (htotal : off + (Segment.join cs).flatten.length = p.source.length) :
    Descends p floor off cs.length
      (p.parseSections n floor (layLines no off 0 (Segment.join cs)))
      (belowChunks p.todoKeywords floor floor (place off cs)) := by
  induction n generalizing floor cs no off with
  | zero => omega
  | succ n ih =>
      cases cs with
      | nil => exact ⟨[], no, off, [], rfl, rfl, rfl, rfl, trivial, le_rfl, htotal⟩
      | cons c cs =>
          have hlen : cs.length < n := by simpa using hn
          rw [layLines_cons h]
          simp only [Parser.parseSections, (headingLevelAt_title h no off).1]
          by_cases h0 : c.level ≤ floor
          · simp only [if_pos h0, belowChunks, place, Outline.below]
            exact ⟨[], no, off, c :: cs, by rw [layLines_cons h], rfl, rfl, rfl, h, le_rfl, htotal⟩
          · by_cases h1 : c.level = floor + 1
            · have h2 : ¬ floor + 1 ≤ floor := by omega
              simp only [h1, if_neg h2, ne_eq, not_true_eq_false, if_false]
              exact parseHeading_lay p hend h h1 no off htotal (p.parseSections n floor)
                (fun hc' no' off' hlen' ht => ih hc' no' off' (by omega) ht)
                (fun hc' no' off' hlen' ht => ih hc' no' off' (by omega) ht)
            · have h2 : ¬ c.level ≤ floor + 1 := by omega
              simp only [belowChunks, place, Outline.below, if_neg h0, h1, ne_eq,
                not_false_eq_true, if_true, if_neg h2]
              exact ⟨_, rfl⟩

/-- **The loop over the top-level headings reads all chunks.** -/
theorem headingsLoop_lay {n : ℕ} {cs : List Chunk} (h : Chunks 0 cs) (no off : ℕ)
    (hn : cs.length < n) (htotal : off + (Segment.join cs).flatten.length = p.source.length) :
    Descends p 0 off cs.length
      ((p.headingsLoop n (layLines no off 0 (Segment.join cs))).map fun hs => (hs, []))
      (belowChunks p.todoKeywords 0 0 (place off cs)) := by
  induction n generalizing cs no off with
  | zero => omega
  | succ n ih =>
      cases cs with
      | nil => exact ⟨[], no, off, [], rfl, rfl, rfl, rfl, trivial, le_rfl, htotal⟩
      | cons c cs =>
          have hlen : cs.length < n := by simpa using hn
          obtain ⟨hat, hpos⟩ := headingLevelAt_title h no off
          have hink : trim (titleAt no off c).text ≠ [] := by
            obtain ⟨-, hhead, -, -⟩ := (chunks_cons_iff _ _ _).mp h
            exact (not_drawer_of_heading (headingLevel_chunk hhead) (spanAt off c.1)).2.1
          rw [layLines_cons h]
          simp only [Parser.headingsLoop, if_neg hink, hat]
          by_cases h1 : c.level = 1
          · simp only [h1, ne_eq, not_true_eq_false, if_false]
            have := parseHeading_lay p hend h h1 no off htotal (n := n)
              (fun L => (p.headingsLoop n L).map fun hs => (hs, []))
              (fun hc' no' off' hlen' ht =>
                parseSections_lay p hend hc' no' off' (by omega) ht)
              (fun hc' no' off' hlen' ht => ih hc' no' off' (by omega) ht)
            convert this using 1
            cases p.parseHeading n (titleAt no off c)
              (layLines (no + 1) (off + c.1.length) 0 (c.2 ++ Segment.join cs)) 1 with
            | error e => rfl
            | ok x =>
                simp only [Except.bind, bind, Except.map]
                cases p.headingsLoop n x.2 <;> rfl
          · have h0 : ¬ c.level ≤ 0 := by omega
            have h2 : ¬ c.level ≤ 0 + 1 := by omega
            simp only [belowChunks, place, Outline.below, if_neg h0, h1, ne_eq,
              not_false_eq_true, if_true, if_neg h2]
            exact ⟨_, rfl⟩

theorem headingsLoop_result {n : ℕ} {cs : List Chunk} (h : Chunks 0 cs) (no off : ℕ)
    (hn : cs.length < n) (htotal : off + (Segment.join cs).flatten.length = p.source.length) :
    match belowChunks p.todoKeywords 0 0 (place off cs) with
    | none => ∃ e, p.headingsLoop n (layLines no off 0 (Segment.join cs)) = .error e
    | some (infos, _) => ∃ hs, p.headingsLoop n (layLines no off 0 (Segment.join cs)) = .ok hs ∧
        Heading.flattenAll hs = infos ∧ LaidAll 1 off p.source.length hs := by
  have hloop := headingsLoop_lay p hend h no off hn htotal
  rcases hb : belowChunks p.todoKeywords 0 0 (place off cs) with _ | ⟨infos, rest⟩
  · rw [hb] at hloop
    obtain ⟨e, he⟩ := hloop
    cases hl : p.headingsLoop n (layLines no off 0 (Segment.join cs)) with
    | error e' => exact ⟨e', rfl⟩
    | ok hs => rw [hl] at he; cases he
  · rw [hb] at hloop
    obtain ⟨hs, no', off', cs', he, -, hinfos, hlaid, -, -, htotal'⟩ := hloop
    cases hl : p.headingsLoop n (layLines no off 0 (Segment.join cs)) with
    | error e => rw [hl] at he; cases he
    | ok hs' =>
        rw [hl, Except.map, Except.ok.injEq, Prod.mk.injEq] at he
        obtain ⟨rfl, hnil⟩ := he
        have hcs : Segment.join cs' = [] := by
          have := congrArg List.length hnil
          rw [length_layLines] at this
          exact List.length_eq_zero_iff.mp this.symm
        have hoff : off' = p.source.length := by simpa [hcs] using htotal'
        exact ⟨hs', rfl, hinfos, hoff ▸ hlaid⟩

end parser

/-! ### The prelude -/

section prelude
variable (p : Parser)

theorem skipPrelude_lay {d : ℕ} {rs : List Text} {cs : List Chunk} (hn : NoHead d rs)
    (hc : Chunks (depthAfter d rs) cs) (no off : ℕ)
    (htotal : off + (rs ++ Segment.join cs).flatten.length = p.source.length) :
    p.skipPrelude (layLines no off d (rs ++ Segment.join cs)) =
      (off + rs.flatten.length,
        layLines (no + rs.length) (off + rs.flatten.length) 0 (Segment.join cs)) := by
  induction rs generalizing no off d with
  | nil =>
      have e : layLines no off d (Segment.join cs) = layLines no off 0 (Segment.join cs) :=
        layLines_join_zero hc no off
      cases cs with
      | nil => simpa [layLines, Parser.skipPrelude] using htotal.symm
      | cons c cs =>
          simp only [List.nil_append, List.flatten_nil, List.length_nil, Nat.add_zero, e]
          rw [layLines_cons hc.zero, Parser.skipPrelude, (headingLevelAt_title hc.zero no off).1]
          rfl
  | cons r rs ih =>
      obtain ⟨h, hn⟩ := hn
      have e1 : no + (r :: rs).length = no + 1 + rs.length := by simp; omega
      have e2 : off + (r :: rs).flatten.length = off + r.length + rs.flatten.length := by
        simp [Nat.add_assoc]
      have htotal : off + r.length + (rs ++ Segment.join cs).flatten.length =
          p.source.length := by
        rw [← htotal]
        simp [Nat.add_assoc]
      rw [List.cons_append, layLines, Parser.skipPrelude, headingLevelAt_lay, h, e1, e2,
        ← ih hn hc (no + 1) (off + r.length) htotal]
      rfl

/-- The loop over the directives stops inside the prelude, and the rest of the prelude is
skipped. -/
theorem keywordLoop_lay {d : ℕ} {rs : List Text} {cs : List Chunk} (hn : NoHead d rs)
    (hc : Chunks (depthAfter d rs) cs) (no off : ℕ) (keywords : List Keyword)
    (declared : List Text)
    (htotal : off + (rs ++ Segment.join cs).flatten.length = p.source.length) :
    match readKeywords off keywords declared rs with
    | none => ∃ e, p.keywordLoop keywords declared
        (layLines no off d (rs ++ Segment.join cs)) = .error e
    | some (keywords', declared') => ∃ idx no',
        p.keywordLoop keywords declared (layLines no off d (rs ++ Segment.join cs)) =
          .ok (keywords', declared', idx) ∧
        p.skipPrelude idx =
          (off + rs.flatten.length, layLines no' (off + rs.flatten.length) 0 (Segment.join cs)) := by
  induction rs generalizing no off d keywords declared with
  | nil =>
      have hskip := skipPrelude_lay p (show NoHead d [] from trivial) hc no off htotal
      refine ⟨_, _, ?_, hskip⟩
      cases cs with
      | nil => rfl
      | cons c cs =>
          obtain ⟨rfl, hhead, -⟩ := (chunks_cons_iff _ _ _).mp hc
          obtain ⟨l, hl⟩ := (isHead_zero_iff c.1).mp hhead
          obtain ⟨u, -, hu⟩ := trimStart_heading hl
          have hink := (not_drawer_of_heading hl (spanAt off c.1)).2.1
          have hnone : "#+".toList.isPrefixOf? ('*' :: u) = none := rfl
          simp only [List.nil_append, Segment.join_cons, layLines, Parser.keywordLoop, hu, hnone,
            if_neg hink]
  | cons r rs ih =>
      have hskip := skipPrelude_lay p hn hc no off htotal
      obtain ⟨h, hn⟩ := hn
      have e2 : off + (r :: rs).flatten.length = off + r.length + rs.flatten.length := by
        simp [Nat.add_assoc]
      have htotal' : off + r.length + (rs ++ Segment.join cs).flatten.length =
          p.source.length := by
        rw [← htotal]
        simp [Nat.add_assoc]
      have ih := ih hn hc (no + 1) (off + r.length)
      rw [e2] at hskip ⊢
      simp only [List.cons_append, layLines] at hskip ⊢
      simp only [readKeywords, Parser.keywordLoop]
      cases "#+".toList.isPrefixOf? (trimStart (content r)) with
      | some directive =>
          cases hk : parseKeywordLine directive with
          | none => simp only [hk]; exact ⟨_, rfl⟩
          | some x => simp only [hk]; exact ih _ _ htotal'
      | none =>
          by_cases hb : trim (content r) = []
          · simp only [hb, if_true]
            exact ih _ _ htotal'
          · simp only [hb, if_false]
            exact ⟨_, _, rfl, hskip⟩

end prelude

/-! ### Documents -/

/-- **The parser reads what the flat reading reads**, and lays the headings out in a tree by
their levels. -/
theorem parse_flat (source display : Text) :
    match readFlat source with
    | none => ∃ e, OrgFile.parse source display = .error e
    | some (keywords, infos) => ∃ hs,
        OrgFile.parse source display =
          .ok ⟨source, keywords, hs, ⟨0, (chunksOf source).1.flatten.length⟩⟩ ∧
        Heading.flattenAll hs = infos ∧
        LaidAll 1 (chunksOf source).1.flatten.length source.length hs := by
  obtain ⟨hlines, hn, hc⟩ := chunksOf_spec source
  have hp := lines_new source display
  rw [hlines] at hp
  have hflat : ((chunksOf source).1 ++ Segment.join (chunksOf source).2).flatten = source := by
    rw [← hlines, rawLines_flatten]
  have htotal : 0 + ((chunksOf source).1 ++ Segment.join (chunksOf source).2).flatten.length =
      (Parser.new source display).source.length := by
    rw [hflat, Nat.zero_add]
    rfl
  have hkey := keywordLoop_lay (Parser.new source display) hn hc 0 0 [] [] htotal
  rw [← hp] at hkey
  simp only [readFlat, OrgFile.parse]
  cases hk : readKeywords 0 [] [] (chunksOf source).1 with
  | none =>
      rw [hk] at hkey
      obtain ⟨e, he⟩ := hkey
      exact ⟨e, by rw [he]; rfl⟩
  | some x =>
      obtain ⟨keywords, declared⟩ := x
      rw [hk] at hkey
      obtain ⟨idx, no', he, hskip⟩ := hkey
      rw [Nat.zero_add] at hskip
      let p : Parser := { Parser.new source display with todoKeywords := declared }
      have hend : (p.lines.getLast?.map fun l => l.span.next).getD p.source.length =
          p.source.length := by
        show ((Parser.new source display).lines.getLast?.map fun l => l.span.next).getD
          source.length = source.length
        rw [hp]
        by_cases h0 : (chunksOf source).1 ++ Segment.join (chunksOf source).2 = []
        · rw [h0]; rfl
        · rw [getLast?_lay 0 0 0 h0, hflat]
          simp
      have hfuel : (chunksOf source).2.length < (Parser.new source display).lines.length + 1 := by
        have := Segment.length_le_join (chunksOf source).2
        rw [hp, length_layLines, List.length_append]
        omega
      have hloop := headingsLoop_result p hend hc.zero no' (chunksOf source).1.flatten.length hfuel
        (by rw [← List.length_append, ← List.flatten_append, hflat]; rfl)
      rw [he]
      simp only [bind, Except.bind, hskip, Option.bind_some]
      rcases hb : belowChunks p.todoKeywords 0 0
        (place (chunksOf source).1.flatten.length (chunksOf source).2) with _ | ⟨infos, rest⟩
      · rw [hb] at hloop
        obtain ⟨e, he⟩ := hloop
        simp only [p] at he
        rw [he]
        exact ⟨e, rfl⟩
      · rw [hb] at hloop
        obtain ⟨hs, he, hinfos, hlaid⟩ := hloop
        simp only [p] at he
        rw [he]
        exact ⟨hs, rfl, hinfos, hlaid⟩

end Orgasmic
