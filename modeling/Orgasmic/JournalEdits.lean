import Orgasmic.ArtifactComments
import Orgasmic.OrgTiling

/-! # Edits of journal comments

`edit_journal_comment` and `tombstone_journal_comment` stamp the drawer of a comment and put another
body below it, or none.

* **Drawers.** `Drawer.put` is another text below a drawer; `exists_upserted` sets a property of one
  heading, by `rfind` where it is new.
* **Comments.** `CommentAt`: the text with the block of the comment that is looked for.
* **Edits.** `CommentAt.parse_edit_iff` and `parseJournal_tombstoned`: what is read afterwards. -/

namespace Orgasmic

open Text

/-! ### The text below a drawer -/

/-- Values stand in front of the end of the drawer. -/
theorem Entries.valueSpan_le {off : ℕ} {ds : List Text} {es : List PropertyEntry}
    (hterm : ∀ l ∈ ds, Terminated l) (hes : Entries off ds es) {e : PropertyEntry} (he : e ∈ es)
    (hkey : e.key ≠ "END".toList) :
    e.valueSpan.start ≤ e.valueSpan.stop ∧ e.valueSpan.stop ≤ off + ds.flatten.length := by
  induction ds generalizing off es with
  | nil =>
      cases es with
      | nil => cases he
      | cons e' es => exact hes.elim
  | cons l ds ih =>
      cases es with
      | nil => exact hes.elim
      | cons e' es =>
          obtain ⟨-, hparsed, hes⟩ := hes
          obtain ⟨hl, hterm⟩ := List.forall_mem_cons.mp hterm
          rw [List.flatten_cons, List.length_append]
          obtain rfl | he := List.mem_cons.mp he
          · obtain ⟨front, behind, _, hline, -, -, -, -, hspan⟩ :=
              propertyLine_set hl hparsed hkey (u := []) (by simp)
            have hlen := congrArg List.length hline
            rw [List.length_append, List.length_append] at hlen
            rw [hspan]
            dsimp only
            omega
          · obtain ⟨hle, hstop⟩ := ih hterm hes he
            omega

namespace Drawer

/-- The text up to the end of the drawer. -/
def upTo (D : Drawer) (ds : List Text) : Text :=
  frontText D.P D.as ++ (D.title ++ (D.opening ++ (ds.flatten ++ D.last)))

theorem text_eq_upTo (D : Drawer) (ds : List Text) :
    D.text ds = D.upTo ds ++ (D.body.flatten ++ (Segment.join D.bs).flatten) := by
  simp only [text, upTo, List.append_assoc]

/-- The drawer of a chunk. -/
theorem exists_of_chunk {t : Text} {declared P : List Text} {as bs : List Chunk} {m : Chunk}
    {info : HeadingInfo} (hc : chunksOf t = (P, as ++ m :: bs))
    (hread : readHeading declared (frontText P as).length m = some info)
    (hdrawer : info.properties ≠ none) : ∃ (D : Drawer) (ds : List Text),
      D.P = P ∧ D.as = as ∧ D.bs = bs ∧ D.chunk ds = m ∧ D.Fits ds info.propertyEntries ∧
        t = D.text ds ∧ info.body.start = (D.upTo ds).length ∧
        (Terminated D.last ∨ '\n' ∉ D.last ∧ D.bs = []) := by
  obtain ⟨level, parsed, properties, b, body, -, -, hr, rfl⟩ := readHeading_eq_some_iff.mp hread
  obtain ⟨d, rfl⟩ := Option.ne_none_iff_exists'.mp hdrawer
  obtain ⟨title, rs⟩ := m
  obtain ⟨opening, ds, last, rfl, hopens, hends, hes, hb⟩ := readProperties_drawer hr
  obtain ⟨hterm, hhead, hrest⟩ := drawer_tail hc hopens hes
  have hfront : ∀ l ∈ [title, opening], Terminated l := fun l hl => hterm l (by
    rcases List.mem_pair.mp hl with rfl | rfl <;> simp)
  have hraw : rawLines t = (P ++ Segment.join as ++ title :: opening :: (ds ++ [last])) ++
      (body ++ Segment.join bs) := by
    rw [((chunksOf_eq_iff _ _ _).mp hc).1]
    simp
  have hlast : Terminated last ∨ '\n' ∉ last ∧ bs = [] := by
    by_cases hnil : body ++ Segment.join bs = []
    · obtain ⟨-, hbs⟩ := List.append_eq_nil_iff.mp hnil
      have hcases : '\n' ∉ last ∨ Terminated last := rawLine_cases (t := t) (by rw [hraw]; simp)
      exact hcases.symm.imp_right fun h => ⟨h, (Segment.join_eq_nil_iff bs).mp hbs⟩
    · exact .inl (rawLines_split hraw hnil last (by simp))
  refine ⟨⟨P, as, title, opening, last, body, bs, front_of_chunksOf hc, hfront, hhead, hopens, hends,
    hrest⟩, ds, rfl, rfl, rfl, rfl, ⟨fun l hl => hterm l (by simp [hl]), hes⟩, ?_, ?_, hlast⟩
  · refine (text_of_chunksOf hc).trans ?_
    simp [Drawer.text, Chunk.text, Chunk.lines]
  · rw [upTo, hb]
    simp only [List.length_append, Nat.add_assoc]

theorem last_or (D : Drawer) {cs cs' : List Chunk} (hbs : D.bs = cs ++ cs')
    (hlast : Terminated D.last ∨ '\n' ∉ D.last ∧ D.bs = []) :
    Terminated D.last ∨ '\n' ∉ D.last ∧ (Segment.join cs').flatten = [] := by
  refine hlast.imp_right fun hend => ⟨hend.1, ?_⟩
  rw [(List.append_eq_nil_iff.mp (hbs.symm.trans hend.2)).2]
  rfl

variable {D : Drawer} {ds : List Text} {es : List PropertyEntry} (h : D.Fits ds es)
include h

/-- **What stands below the drawer is replaced**, `:END:` perhaps ended by a line feed. -/
theorem rebody {last v : Text} {y : List Text} {cs : List Chunk} (hends : trim last = ":END:".toList)
    (hlast : Terminated last ∨ '\n' ∉ last ∧ v = []) (hv : chunksOf v = (y, cs)) :
    chunksOf (frontText D.P D.as ++ (D.title ++ (D.opening ++ (ds.flatten ++ (last ++ v))))) =
        (D.P, D.as ++ (D.title, D.opening :: (ds ++ last :: y)) :: cs) ∧
      ∀ declared n, (D.chunk ds).exact declared = some n →
        Chunk.exact declared (D.title, D.opening :: (ds ++ last :: y)) =
          some { n with properties := es.map PropertyEntry.pair, body := y.flatten } := by
  obtain ⟨hraw, hy, hcs⟩ := (chunksOf_eq_iff _ _ _).mp hv
  have htext : y.flatten ++ (Segment.join cs).flatten = v := flatten_of_chunksOf hv
  obtain ⟨u, hu⟩ := trimStart_of_trim hends
  obtain ⟨⟨hhead, -⟩, hdepth⟩ := colonLine hu
  have hdepth' : lineDepth 0 last = 0 := hdepth
  have hlines : rawLines (last ++ v) = last :: rawLines v := by
    obtain ⟨a, ha, rfl⟩ | ⟨hnl, rfl⟩ := hlast
    · rw [List.append_assoc, List.singleton_append, rawLines_line_append ha]
    · rw [List.append_nil, rawLines_of_no_newline hnl]
      · rfl
      · rintro rfl
        cases hends
  have hrest : chunksOf (last ++ (y.flatten ++ (Segment.join cs).flatten)) = (last :: y, cs) := by
    refine (chunksOf_eq_iff _ _ _).mpr ⟨?_, ⟨hhead, ?_⟩, ?_⟩
    · rw [htext, hlines, hraw, List.cons_append]
    · rw [hdepth']
      exact hy
    · rw [depthAfter_cons, hdepth']
      exact hcs
  let D' : Drawer := ⟨D.P, D.as, D.title, D.opening, last, y, cs, D.front, D.terminated, D.head,
    D.opens, hends, hrest⟩
  have hfits : D'.Fits ds es := ⟨h.terminated, h.entries⟩
  refine ⟨?_, fun declared n hn => ?_⟩
  · have hchunks := Drawer.chunksOf_text hfits
    rw [Drawer.text, htext] at hchunks
    exact hchunks
  · obtain ⟨_, _, hread⟩ := Drawer.readProperties_chunk hfits
    exact Chunk.exact_same_title (D'.chunk ds) hn rfl (readPairs_of_readProperties hread)

/-- Nothing, or a text on lines of its own, is put below the drawer. -/
theorem put {u v : Text} (hlast : Terminated D.last ∨ '\n' ∉ D.last ∧ v = [])
    (hu : u = [] ∨ ∃ u', u = '\n' :: u') : ∃ w x, u ++ v = w ++ x ∧ (w = [] ∨ w = ['\n']) ∧
      ∀ y cs, chunksOf x = (y, cs) → ∃ m : Chunk,
        chunksOf (D.upTo ds ++ (u ++ v)) = (D.P, D.as ++ m :: cs) ∧ m.1 = D.title ∧
          ∀ declared n, (D.chunk ds).exact declared = some n →
            m.exact declared = some { n with properties := es.map PropertyEntry.pair, body := y.flatten } := by
  have hput {last x : Text} (hends : trim last = ":END:".toList)
      (hx : Terminated last ∨ '\n' ∉ last ∧ x = []) (hsame : D.last ++ (u ++ v) = last ++ x)
      (y : List Text) (cs : List Chunk) (hcs : chunksOf x = (y, cs)) : ∃ m : Chunk,
        chunksOf (D.upTo ds ++ (u ++ v)) = (D.P, D.as ++ m :: cs) ∧ m.1 = D.title ∧
          ∀ declared n, (D.chunk ds).exact declared = some n →
            m.exact declared =
              some { n with properties := es.map PropertyEntry.pair, body := y.flatten } := by
    obtain ⟨hchunks, hexact⟩ := rebody h hends hx hcs
    have htext : D.upTo ds ++ (u ++ v) =
        frontText D.P D.as ++ (D.title ++ (D.opening ++ (ds.flatten ++ (last ++ x)))) := by
      rw [← hsame, upTo]
      simp only [List.append_assoc]
    exact ⟨_, htext ▸ hchunks, rfl, hexact⟩
  obtain hterm | ⟨hnl, rfl⟩ := hlast
  · exact ⟨[], u ++ v, rfl, .inl rfl, hput D.ends (.inl hterm) rfl⟩
  · obtain rfl | ⟨u', rfl⟩ := hu
    · exact ⟨[], [], rfl, .inl rfl, hput D.ends (.inr ⟨hnl, rfl⟩) rfl⟩
    · have hends : trim (D.last ++ ['\n']) = ":END:".toList := by
        rw [trim_append_blank (show Blank ['\n'] by decide), D.ends]
      exact ⟨['\n'], u', by simp, .inr rfl, hput hends (.inl ⟨_, hnl, rfl⟩) (by simp)⟩

end Drawer

/-! ### Setting a property -/

/-- **A property of a heading is set**, in the place of its value or in front of the last line of the
drawer. -/
theorem exists_upserted {t key value : Text} {declared P : List Text} {as bs : List Chunk} {m : Chunk}
    {info : HeadingInfo} (hc : chunksOf t = (P, as ++ m :: bs))
    (hread : readHeading declared (frontText P as).length m = some info)
    (hdrawer : info.properties ≠ none) (hkey : IsKey key) (hvalue : trim value = value)
    (hline : '\n' ∉ value) :
    ∃ (out : Text) (m' : Chunk), chunksOf out = (P, as ++ m' :: bs) ∧ m'.1 = m.1 ∧
      (∀ n, m.exact declared = some n →
        m'.exact declared = some { n with properties := setPair key value n.properties }) ∧
      (∀ e, (info.propertyEntries.find? fun e => e.key = key) = some e →
        replaceRange t e.valueSpan value = out) ∧
      ((info.propertyEntries.find? fun e => e.key = key) = none →
        ∃ i, rfind ":END:".toList (t.take info.body.start) = some i ∧
          replaceRange t ⟨i, i⟩ (":".toList ++ key ++ ": ".toList ++ value ++ "\n".toList) = out) := by
  obtain ⟨D₀, ds, rfl, rfl, rfl, rfl, hfits₀, htext₀, hb, hlast⟩ :=
    Drawer.exists_of_chunk hc hread hdrawer
  obtain ⟨s⟩ := exists_entrySet hkey hvalue hline hfits₀.terminated hfits₀.entries D₀.ends
    (hlast.symm.imp_left And.left)
  have hends := D₀.ends
  have hrest := D₀.rest
  rw [s.unindented] at hends
  rw [s.unindented, List.append_assoc] at hrest
  let D : Drawer := { D₀ with
    last := s.last'
    ends := (trim_blank_append s.blank _).symm.trans hends
    rest := chunksOf_unindented s.blank s.newline hends hrest }
  have hfits : D.Fits s.ds' s.es' := ⟨s.terminated, s.entries⟩
  -- the texts around the edit
  let rest := D₀.body.flatten ++ (Segment.join D₀.bs).flatten
  let before := frontText D₀.P D₀.as ++ D₀.title ++ D₀.opening ++ s.before
  let behind := s.behind ++ rest
  have htext : t = before ++ s.old ++ behind := by
    have hafter : ds.flatten ++ (D₀.last ++ rest) = s.before ++ (s.old ++ (s.behind ++ rest)) := by
      rw [← List.append_assoc, s.text]
      simp only [List.append_assoc]
    rw [htext₀, Drawer.text]
    simp only [rest] at hafter
    simp only [hafter, before, behind, rest, List.append_assoc]
  have hout : D.text s.ds' = before ++ s.new ++ behind := by
    have hafter : s.ds'.flatten ++ (s.last' ++ rest) = s.before ++ (s.new ++ (s.behind ++ rest)) := by
      rw [← List.append_assoc, s.text']
      simp only [List.append_assoc]
    rw [Drawer.text]
    simp only [rest] at hafter
    simp only [D, hafter, before, behind, rest, List.append_assoc]
  have hstart : D₀.off + s.before.length = before.length := by
    simp only [before, Drawer.off, List.length_append]
  refine ⟨D.text s.ds', D.chunk s.ds', Drawer.chunksOf_text hfits, rfl, ?_, ?_, ?_⟩
  · intro n hn
    obtain ⟨_, _, ps, body', -, -, hpairs, rfl⟩ := Chunk.exact_eq_some_iff.mp hn
    obtain ⟨_, _, hr⟩ := Drawer.readProperties_chunk hfits₀
    rw [readPairs_of_readProperties hr, Option.some.injEq, Prod.mk.injEq] at hpairs
    obtain ⟨rfl, rfl⟩ := hpairs
    obtain ⟨_, _, hnew⟩ := Drawer.readProperties_chunk hfits
    have hpairs' := readPairs_of_readProperties hnew
    rw [show drawerPairs (some ⟨s.es', _⟩) = s.es'.map PropertyEntry.pair from rfl, s.pairs]
      at hpairs'
    exact Chunk.exact_same_title (D.chunk s.ds') hn rfl hpairs'
  · intro e he
    obtain ⟨hspan, hnew⟩ := s.replaced e he
    rw [hspan, hstart, hout, hnew]
    conv_lhs => rw [htext]
    exact replaceRange_append_three _ _ _ _
  · intro hnone
    obtain ⟨hold, hnew, w, hw, hbehind⟩ := s.inserted hnone
    have hfound := rfind_end before hw
    have hupTo : D₀.upTo ds = before ++ (":END:".toList ++ w) := by
      rw [Drawer.upTo, s.text, hold, hbehind, List.nil_append]
      simp only [before, List.append_assoc]
    refine ⟨before.length, ?_, ?_⟩
    · have htake : t.take info.body.start = before ++ (":END:".toList ++ w) := by
        conv_lhs => rw [htext₀, Drawer.text_eq_upTo, hb, List.take_left, hupTo]
      exact htake ▸ hfound
    · rw [hout, hnew]
      conv_lhs => rw [htext, hold]
      have hinsert := replaceRange_append_three before [] behind
        (":".toList ++ key ++ ": ".toList ++ value ++ "\n".toList)
      rw [List.length_nil, Nat.add_zero] at hinsert
      exact hinsert

/-! ### Prose -/

theorem rejectJournalProse_iff_lines {body : Text} :
    rejectJournalProse body = .ok () ↔ ∀ l ∈ lines body, ¬"* ".toList <+: l := by
  rw [rejectJournalProse]
  constructor
  · intro h l hl hstar
    split at h
    · cases h
    · next hnone =>
        have := List.findIdx?_eq_none_iff.mp hnone l hl
        rw [List.isPrefixOf_iff_prefix.mpr hstar] at this
        cases this
  · intro h
    rw [List.findIdx?_eq_none_iff.mpr fun l hl => by
      rw [Bool.eq_false_iff, ne_eq, List.isPrefixOf_iff_prefix]
      exact h l hl]

/-- A line starts like a heading if its content does. -/
theorem star_content_iff {b : Text} (hb : '\n' ∉ b) :
    "* ".toList <+: content (b ++ ['\n']) ↔ "* ".toList <+: b := by
  have hle : content (b ++ ['\n']) <+: b := by
    rw [content_terminated]
    split_ifs
    · exact List.dropLast_prefix b
    · exact List.prefix_rfl
  refine ⟨fun h => h.trans hle, ?_⟩
  rintro ⟨u, rfl⟩
  have hcontent := content_append (a := ['*']) (c := ' ') (by decide) (by decide) (u ++ ['\n'])
  exact ⟨content (u ++ ['\n']), hcontent.symm⟩

/-- **What the guard refuses**: the mark of a heading at the start or behind a line feed. -/
theorem rejectJournalProse_iff (body : Text) : rejectJournalProse body = .ok () ↔
    ¬"* ".toList <+: body ∧ ¬"\n* ".toList <:+: body := by
  rw [rejectJournalProse_iff_lines]
  induction body using lineInduction with
  | last b hb =>
      have hinfix : ¬"\n* ".toList <:+: b := fun h => hb (h.subset (by decide))
      by_cases hnil : b = []
      · subst hnil
        decide
      · rw [lines, rawLines_of_no_newline hb hnil, List.map_singleton, List.forall_mem_singleton,
          content_of_no_newline hb]
        exact ⟨fun h => ⟨h, hinfix⟩, And.left⟩
  | line b t hb ih =>
      have hhere : "* ".toList <+: b ++ '\n' :: t ↔ "* ".toList <+: b := by
        rcases b with _ | ⟨c, _ | ⟨d, b⟩⟩
        · simp
        · simp
        · simp [List.cons_prefix_cons]
      have hbelow : "\n* ".toList <:+: b ++ '\n' :: t ↔
          "* ".toList <+: t ∨ "\n* ".toList <:+: t := by
        clear ih hhere
        induction b with
        | nil => simp [List.infix_cons_iff, List.cons_prefix_cons]
        | cons c b ihb =>
            rw [List.mem_cons, not_or] at hb
            rw [List.cons_append, List.infix_cons_iff, ihb hb.2]
            simp [hb.1]
      rw [lines, rawLines_line_append hb, List.map_cons, List.forall_mem_cons, star_content_iff hb,
        ← lines, ih, hhere, hbelow, not_or]

/-- What the guard lets through of the trimmed body, where only the first line is another. -/
theorem rejectJournalProse_trim {body : Text} (h : rejectJournalProse body = .ok ())
    (hstar : ¬"* ".toList <+: trim body) : rejectJournalProse (trim body) = .ok () := by
  obtain ⟨w, w', -, -, hsplit⟩ := trim_spec body
  have hinfix : trim body <:+: body := ⟨w, w', hsplit.symm⟩
  exact (rejectJournalProse_iff _).mpr ⟨hstar, fun hbelow =>
    ((rejectJournalProse_iff body).mp h).2 (hbelow.trans hinfix)⟩

/-- The chunks of a new body on lines of its own. -/
theorem chunksOf_body (body : Text) {w : Text} (hw : w = [] ∨ w = ['\n']) :
    ∃ y, chunksOf (w ++ (body ++ ['\n'])) = (y, proseChunks body) := by
  obtain rfl | rfl := hw
  · exact ⟨_, rfl⟩
  · refine ⟨['\n'] :: (chunksOf (body ++ ['\n'])).1, ?_⟩
    have hno : NoHead 0 [['\n']] := noHead_blank (by simpa using blank_line) 0
    have hcut := Segment.cut_noHead_append lineDepth isHead hno (rawLines (body ++ ['\n']))
    rw [show Segment.run lineDepth 0 [['\n']] = 0 from lineDepth_blank blank_line 0] at hcut
    exact hcut

/-- A body that leaves no block open keeps the chunks behind it. -/
theorem chunksOf_body_append {body w R : Text} {cs : List Chunk} (hw : w = [] ∨ w = ['\n'])
    (hR : chunksOf R = ([], cs)) (hclosed : depthAfter 0 (rawLines body) = 0) :
    ∃ y, chunksOf (w ++ (body ++ ['\n']) ++ R) = (y, proseChunks body ++ cs) ∧
      y.flatten ++ (Segment.join (proseChunks body)).flatten = w ++ (body ++ ['\n']) := by
  obtain ⟨y, hy⟩ := chunksOf_body body hw
  have hblank : Blank w := by
    obtain rfl | rfl := hw
    · exact blank_nil
    · decide
  have hdepth : depthAfter 0 (rawLines (w ++ (body ++ ['\n']))) = 0 := by
    rw [depthAfter_blank_append hblank, (broken_rawLines body).depthAfter, hclosed]
  have hends : Closed (w ++ (body ++ ['\n'])) := by
    rw [← List.append_assoc]
    exact closed_concat _
  obtain ⟨hfront, htext⟩ := front_of_closed hy hends hdepth
  refine ⟨y, ?_, flatten_of_chunksOf hy⟩
  rw [← htext]
  exact hfront.chunksOf_append hR

/-! ### The comment of a document -/

/-- A block in the middle, with its heading and where it stands. -/
theorem BlocksAt.placed {declared : List Text} {off : ℕ} {hs : List Heading} {bs bs' : List TopBlock}
    {b : TopBlock} (h : BlocksAt declared off hs (bs ++ b :: bs')) : ∃ hs₁ g hs₂,
      hs = hs₁ ++ g :: hs₂ ∧ BlocksAt declared off hs₁ bs ∧
        readHeading declared (off + (Segment.join (Segment.join bs)).flatten.length) b.1 =
          some g.toHeadingInfo ∧
        g.span.stop = off + (Segment.join (Segment.join bs)).flatten.length + b.text.length := by
  induction bs generalizing off hs with
  | nil =>
      cases hs with
      | nil => exact h.elim
      | cons g hs =>
          obtain ⟨-, hread, hspan, -⟩ := h
          exact ⟨[], g, hs, rfl, trivial, hread, by rw [hspan]; rfl⟩
  | cons c bs ih =>
      cases hs with
      | nil => exact h.elim
      | cons g hs =>
          obtain ⟨htop, hown, hspan, h⟩ := h
          obtain ⟨hs₁, g', hs₂, rfl, hat, hread, hstop⟩ := ih h
          have hlen : off + (Segment.join (Segment.join (c :: bs))).flatten.length =
              off + c.text.length + (Segment.join (Segment.join bs)).flatten.length := by
            rw [text_join_cons, List.length_append, Nat.add_assoc]
          exact ⟨g :: hs₁, g', hs₂, rfl, ⟨htop, hown, hspan, hat⟩, hlen ▸ hread, hlen ▸ hstop⟩

/-- The pairs of a heading are those of its chunk. -/
theorem properties_of_read {declared : List Text} {off : ℕ} {c : Chunk} {info : HeadingInfo}
    (h : readHeading declared off c = some info) :
    ∃ n, c.exact declared = some n ∧ n.properties = info.propertyEntries.map PropertyEntry.pair := by
  have hread : readHeading declared (List.replicate off ' ').length c = some info := by
    rw [List.length_replicate, h]
  exact ⟨_, readHeading_exact [] hread, rfl⟩

theorem BlocksAt.pairs {declared : List Text} {off : ℕ} {hs : List Heading} {bs : List TopBlock}
    (h : BlocksAt declared off hs bs) {g : Heading} (hg : g ∈ hs) : ∃ b ∈ bs, ∃ n,
      b.1.exact declared = some n ∧ n.properties = g.propertyEntries.map PropertyEntry.pair := by
  induction bs generalizing off hs with
  | nil =>
      cases hs with
      | nil => cases hg
      | cons g' hs => exact h.elim
  | cons b bs ih =>
      cases hs with
      | nil => exact h.elim
      | cons g' hs =>
          obtain ⟨-, hread, -, h⟩ := h
          obtain rfl | hg := List.mem_cons.mp hg
          · exact ⟨b, List.mem_cons_self, properties_of_read hread⟩
          · obtain ⟨b', hb', hn⟩ := ih h hg
            exact ⟨b', List.mem_cons_of_mem _ hb', hn⟩

/-- Top-level headings may stand behind every other. -/
theorem stepped_tops {bs : List TopBlock} (hbs : ∀ x ∈ bs, x.IsTop) {p q : ℕ}
    (h : Outline.Stepped p ((Segment.join bs).map Chunk.level)) :
    Outline.Stepped q ((Segment.join bs).map Chunk.level) := by
  cases bs with
  | nil => trivial
  | cons b bs =>
      obtain ⟨hroot, -⟩ := hbs b List.mem_cons_self
      rw [Segment.join_cons, List.map_cons, hroot] at h ⊢
      exact ⟨by omega, h.2⟩

/-- The text with the block of the first entry that has this id, a comment. -/
structure CommentAt (t id : Text) (declared P : List Text) (bs₁ : List TopBlock) (b : TopBlock)
    (bs₂ : List TopBlock) : Prop where
  chunks : chunksOf t = (P, Segment.join (bs₁ ++ b :: bs₂))
  top : ∀ x ∈ bs₁ ++ b :: bs₂, x.IsTop
  keywords : ∃ keywords, readKeywords 0 [] [] P = some (keywords, declared)
  nodes : ∀ c ∈ Segment.join (bs₁ ++ b :: bs₂), ∃ n, c.exact declared = some n
  stepped : Outline.Stepped 0 ((Segment.join (bs₁ ++ b :: bs₂)).map Chunk.level)
  before : ∀ x ∈ bs₁, ∀ n, x.1.exact declared = some n →
    pairValue "TX_ID".toList n.properties ≠ some id
  own : ∀ n, b.1.exact declared = some n → pairValue "TX_ID".toList n.properties = some id ∧
    pairValue "TYPE".toList n.properties = some "comment".toList

namespace CommentAt

variable {t id : Text} {declared P : List Text} {bs₁ : List TopBlock} {b : TopBlock}
  {bs₂ : List TopBlock} (h : CommentAt t id declared P bs₁ b bs₂)
include h

theorem chunks_eq :
    chunksOf t = (P, Segment.join bs₁ ++ b.1 :: (b.2 ++ Segment.join bs₂)) := by
  simpa using h.chunks

theorem text_eq : t = frontText P (Segment.join bs₁) ++
    (b.text ++ (Segment.join (Segment.join bs₂)).flatten) := by
  conv_lhs => rw [text_of_chunksOf h.chunks_eq]
  simp [TopBlock.text, TopBlock.chunks, Chunk.text, Chunk.lines]

theorem exists_parsed : ∃ f, OrgFile.parse t journalFile = .ok f ∧ f.declared = declared := by
  obtain ⟨keywords, hk⟩ := h.keywords
  obtain ⟨f, hf, -, -, -⟩ := parse_chunks journalFile h.chunks hk (fun c hc => by
    obtain ⟨n, hn⟩ := h.nodes c hc
    exact ⟨_, Chunk.exact_node hn⟩) h.stepped
  obtain ⟨-, hflat, -, -⟩ := readFlat_of_parse hf
  obtain ⟨declared', hk', -, -⟩ := (readFlat_eq_some_iff _ _ _).mp hflat
  obtain rfl : declared' = f.declared := readKeywords_declared rfl hk'
  rw [h.chunks, hk, Option.some.injEq, Prod.mk.injEq] at hk'
  exact ⟨f, hf, hk'.2.symm⟩

/-- What stands behind the block, by its place. -/
theorem drop_block : t.drop ((frontText P (Segment.join bs₁)).length + b.text.length) =
    (Segment.join (Segment.join bs₂)).flatten := by
  conv_lhs => rw [h.text_eq, ← List.append_assoc, ← List.length_append, List.drop_left]

/-- **The spans of the comment.** -/
theorem spans : ∃ info, readHeading declared (frontText P (Segment.join bs₁)).length b.1 = some info ∧
    info.properties ≠ none ∧ commentSpans t id = .ok (⟨info.body.start, (frontText P (Segment.join bs₁)).length + b.text.length⟩,
      info.propertyEntries.map fun e => (e.key, e.valueSpan)) := by
  obtain ⟨f, hf, hdeclared⟩ := h.exists_parsed
  obtain ⟨-, hat⟩ := blocksAt_of_parse hf
  rw [h.chunks, topBlocks_join h.top, hdeclared] at hat
  obtain ⟨hs₁, g, hs₂, hhs, hat₁, hread, hstop⟩ := hat.placed
  have hplace : P.flatten.length + (Segment.join (Segment.join bs₁)).flatten.length =
      (frontText P (Segment.join bs₁)).length := by
    rw [frontText, List.flatten_append, List.length_append]
  rw [hplace] at hread hstop
  obtain ⟨n, hn, hpairs⟩ := properties_of_read hread
  obtain ⟨hid, hty⟩ := h.own n hn
  rw [hpairs, pairValue_entries] at hid hty
  -- the heading that is found is the one of the block
  have hfound : f.headings.find? (fun g => decide (g.property "TX_ID".toList = some id)) = some g := by
    rw [hhs, List.find?_append, List.find?_eq_none.mpr, Option.none_or]
    · exact List.find?_cons_of_pos (decide_eq_true hid)
    · intro x hx
      obtain ⟨c, hc, m, hm, hpairs'⟩ := hat₁.pairs hx
      have hne := h.before c hc m hm
      rw [hpairs', pairValue_entries] at hne
      simpa using hne
  obtain ⟨ty, hfind, hvalue⟩ := Option.map_eq_some_iff.mp hty
  have hsliced : slice t ty.valueSpan = "comment".toList := by
    have hall := valuesSliced ((Segment.join b.2).flatten ++
      (Segment.join (Segment.join bs₂)).flatten) hread ty (List.mem_of_find?_eq_some hfind)
    have htext : frontText P (Segment.join bs₁) ++ Chunk.text b.1 ++
        ((Segment.join b.2).flatten ++ (Segment.join (Segment.join bs₂)).flatten) = t := by
      conv_rhs => rw [h.text_eq]
      simp [TopBlock.text, TopBlock.chunks, Chunk.text, Chunk.lines]
    rw [htext, hvalue] at hall
    exact hall
  have hdrawer : g.properties ≠ none := by
    intro hnone
    rw [HeadingInfo.property, HeadingInfo.propertyEntries, hnone] at hid
    cases hid
  refine ⟨g.toHeadingInfo, hread, hdrawer, ?_⟩
  have hspans : entrySpans t id = .ok (g.wholeBody,
      g.propertyEntries.map fun e => (e.key, e.valueSpan)) := by
    rw [entrySpans, hf]
    simp only [hfound]
  have hty' : (g.propertyEntries.map fun e => (e.key, e.valueSpan)).find?
      (fun p => decide (p.1 = "TYPE".toList)) = some (ty.key, ty.valueSpan) := by
    rw [List.find?_map]
    exact congrArg (Option.map _) hfind
  rw [commentSpans, hspans]
  simp only [hty', hsliced, if_true]
  rw [Heading.wholeBody, hstop]

/-- Another chunk at the place of the heading. -/
theorem moved {out : Text} {m' : Chunk}
    (hout : chunksOf out = (P, Segment.join bs₁ ++ m' :: (b.2 ++ Segment.join bs₂)))
    (htitle : m'.1 = b.1.1) {f : Node → Node}
    (hexact : ∀ n, b.1.exact declared = some n → m'.exact declared = some (f n))
    (hf : ∀ n, pairValue "TX_ID".toList (f n).properties = pairValue "TX_ID".toList n.properties ∧
      pairValue "TYPE".toList (f n).properties = pairValue "TYPE".toList n.properties) :
    CommentAt out id declared P bs₁ (m', b.2) bs₂ := by
  have hjoin : Segment.join (bs₁ ++ (m', b.2) :: bs₂) =
      Segment.join bs₁ ++ m' :: (b.2 ++ Segment.join bs₂) := by simp
  have hjoin' : Segment.join (bs₁ ++ b :: bs₂) =
      Segment.join bs₁ ++ b.1 :: (b.2 ++ Segment.join bs₂) := by simp
  have hlevel : Chunk.level m' = Chunk.level b.1 := by rw [Chunk.level, htitle, Chunk.level]
  obtain ⟨n, hn⟩ := h.nodes b.1 (by simp)
  have htop := h.top
  have hnodes := h.nodes
  have hstepped := h.stepped
  rw [hjoin'] at hnodes hstepped
  refine ⟨by rw [hjoin]; exact hout, ?_, h.keywords, ?_, ?_, h.before, fun n' hn' => ?_⟩
  · obtain ⟨htop₁, htop₂⟩ := List.forall_mem_append.mp htop
    obtain ⟨⟨hroot, hbelow⟩, htop₂⟩ := List.forall_mem_cons.mp htop₂
    exact List.forall_mem_append.mpr ⟨htop₁, List.forall_mem_cons.mpr
      ⟨⟨hlevel.trans hroot, hbelow⟩, htop₂⟩⟩
  · rw [hjoin]
    obtain ⟨hnodes₁, hnodes₂⟩ := List.forall_mem_append.mp hnodes
    exact List.forall_mem_append.mpr ⟨hnodes₁, List.forall_mem_cons.mpr
      ⟨⟨_, hexact n hn⟩, (List.forall_mem_cons.mp hnodes₂).2⟩⟩
  · rw [hjoin, List.map_append, List.map_cons, hlevel]
    rw [List.map_append, List.map_cons] at hstepped
    exact hstepped
  · obtain rfl := Option.some.inj ((hexact n hn).symm.trans hn')
    rw [(hf n).1, (hf n).2]
    exact h.own n hn

/-- **Stamping the comment.** -/
theorem upsert {key value : Text} (hkey : IsKey key) (hid : key ≠ "TX_ID".toList)
    (hty : key ≠ "TYPE".toList) (hvalue : trim value = value) (hline : '\n' ∉ value) :
    ∃ out m', upsertCommentProperty t id key value = .ok out ∧
      CommentAt out id declared P bs₁ (m', b.2) bs₂ ∧ m'.1 = b.1.1 ∧ ∀ n, b.1.exact declared = some n →
        m'.exact declared = some { n with properties := setPair key value n.properties } := by
  obtain ⟨info, hread, hdrawer, hspans⟩ := h.spans
  obtain ⟨out, m', hout, htitle, hexact, hreplace, hinsert⟩ :=
    exists_upserted h.chunks_eq hread hdrawer hkey hvalue hline
  refine ⟨out, m', ?_, h.moved hout htitle hexact fun n => ⟨?_, ?_⟩, htitle, hexact⟩
  · have hfind : (info.propertyEntries.map fun e => (e.key, e.valueSpan)).find?
        (fun p => decide (p.1 = key)) =
          (info.propertyEntries.find? fun e => e.key = key).map fun e => (e.key, e.valueSpan) := by
      rw [List.find?_map]
      rfl
    rw [upsertCommentProperty, hspans]
    simp only [hfind]
    cases hentry : info.propertyEntries.find? fun e => e.key = key with
    | some e => simp only [Option.map_some, hreplace e hentry]
    | none =>
        obtain ⟨i, hi, hsplice⟩ := hinsert hentry
        simp only [Option.map_none, hi, hsplice]
  · exact pairValue_setPair_of_ne hid.symm _
  · exact pairValue_setPair_of_ne hty.symm _

/-- **Another body for the comment.** -/
theorem respliced {u : Text} (hu : u = [] ∨ ∃ u', u = '\n' :: u') : ∃ body props w x,
    commentSpans t id = .ok (body, props) ∧
      u ++ (Segment.join (Segment.join bs₂)).flatten = w ++ x ∧ (w = [] ∨ w = ['\n']) ∧
      ∀ y cs, chunksOf x = (y, cs) → ∃ m : Chunk,
        chunksOf (t.take body.start ++ u ++ t.drop body.stop) = (P, Segment.join bs₁ ++ m :: cs) ∧
          m.1 = b.1.1 ∧ ∀ n, b.1.exact declared = some n →
            m.exact declared = some { n with body := y.flatten } := by
  obtain ⟨info, hread, hdrawer, hspans⟩ := h.spans
  obtain ⟨D, ds, hP, has, hbs, hchunk, hfits, htext, hstart, hlast⟩ :=
    Drawer.exists_of_chunk h.chunks_eq hread hdrawer
  obtain ⟨w, x, hsplit, hw, hput⟩ := Drawer.put hfits (D.last_or hbs hlast) hu
  refine ⟨_, _, w, x, hspans, hsplit, hw, fun y cs hcs => ?_⟩
  obtain ⟨m, hm, htitle, hexact⟩ := hput y cs hcs
  have htake : t.take info.body.start = D.upTo ds := by
    conv_lhs => rw [htext, Drawer.text_eq_upTo, hstart, List.take_left]
  refine ⟨m, ?_, ?_, fun n hn => ?_⟩
  · dsimp only
    rw [htake, h.drop_block, List.append_assoc, hm, hP, has]
  · rw [htitle, ← hchunk]
    rfl
  · obtain ⟨n', hn', hpairs⟩ := properties_of_read hread
    obtain rfl := Option.some.inj (hn.symm.trans hn')
    rw [hexact declared n (hchunk ▸ hn), ← hpairs]

theorem nil_notMem : [] ∉ declared := by
  obtain ⟨f, -, rfl⟩ := h.exists_parsed
  exact f.declared_ne_nil

/-- What stands behind the block. -/
theorem behind : chunksOf (Segment.join (Segment.join bs₂)).flatten = ([], Segment.join bs₂) := by
  have hsplit : chunksOf t = (P, (Segment.join bs₁ ++ b.1 :: b.2) ++ Segment.join bs₂) := by
    rw [h.chunks_eq, List.append_assoc, List.cons_append]
  exact chunksOf_tail hsplit

/-- The blocks behind may stand behind any heading. -/
theorem stepped_behind (q : ℕ) : Outline.Stepped q ((Segment.join bs₂).map Chunk.level) := by
  have hstepped := h.stepped
  rw [Segment.join_append, Segment.join_cons, ← List.cons_append, ← List.append_assoc,
    List.map_append, Outline.stepped_append] at hstepped
  exact stepped_tops (fun x hx => h.top x (by simp [hx])) hstepped.2

/-- **What is read** of a text with another chunk for the heading and others behind it. -/
theorem parse_iff {next display : Text} {m : Chunk} {cs : List Chunk} {n : Node}
    (hnext : chunksOf next = (P, Segment.join bs₁ ++ m :: cs)) (htitle : m.1 = b.1.1)
    (hm : m.exact declared = some n) {subs : List Chunk} {bs : List TopBlock}
    (hcs : cs = subs ++ Segment.join bs) (hsubs : ∀ c ∈ subs, c.level ≠ 1) (hbs : ∀ x ∈ bs, x.IsTop)
    {es : List JournalEntry} : parseJournal next display = .ok es ↔
      (∀ c ∈ cs, ∃ n, c.exact declared = some n) ∧ Outline.Stepped 1 (cs.map Chunk.level) ∧
        ∃ pre e post, es = pre ++ e :: post ∧
          List.Forall₂ (TopBlock.Reads declared display) bs₁ pre ∧
          TopBlock.Reads declared display (m, subs) e ∧
          List.Forall₂ (TopBlock.Reads declared display) bs post := by
  obtain ⟨keywords, hk⟩ := h.keywords
  have hlevel : Chunk.level m = Chunk.level b.1 := by rw [Chunk.level, htitle, Chunk.level]
  obtain ⟨htop₁, htop₂⟩ := List.forall_mem_append.mp h.top
  obtain ⟨⟨hroot, -⟩, -⟩ := List.forall_mem_cons.mp htop₂
  rw [← hlevel] at hroot
  have hjoin : Segment.join bs₁ ++ m :: cs = Segment.join (bs₁ ++ (m, subs) :: bs) := by
    rw [hcs]
    simp
  have htop : ∀ x ∈ bs₁ ++ (m, subs) :: bs, TopBlock.IsTop x :=
    List.forall_mem_append.mpr ⟨htop₁, List.forall_mem_cons.mpr ⟨⟨hroot, hsubs⟩, hbs⟩⟩
  have hnodes := h.nodes
  have hstepped := h.stepped
  have hsplit : Segment.join (bs₁ ++ b :: bs₂) =
      Segment.join bs₁ ++ b.1 :: (b.2 ++ Segment.join bs₂) := by simp
  rw [hsplit] at hnodes hstepped
  rw [List.map_append, Outline.stepped_append] at hstepped
  obtain ⟨hnodes₁, -⟩ := List.forall_mem_append.mp hnodes
  have hd := h.nil_notMem
  rw [parseJournal_eq_ok_iff (hjoin ▸ hnext) htop, ← hjoin]
  simp only [List.map_append, List.map_cons, hroot, List.forall_mem_append, List.forall_mem_cons,
    Outline.stepped_append]
  constructor
  · rintro ⟨keywords', declared', hk', -, ⟨-, -, hreadable⟩, ⟨-, -, hsteps⟩, hreads⟩
    rw [hk, Option.some.injEq, Prod.mk.injEq] at hk'
    obtain ⟨-, rfl⟩ := hk'
    obtain ⟨pre, es₂, rfl, hpre, hreads⟩ := Outline.forall₂_append_right_iff.mp hreads.flip
    cases hreads.flip with
    | cons he hpost => exact ⟨hreadable, hsteps, pre, _, _, rfl, hpre.flip, he, hpost⟩
  · rintro ⟨hreadable, hsteps, pre, e, post, rfl, hpre, he, hpost⟩
    exact ⟨keywords, declared, hk, hd, ⟨hnodes₁, ⟨n, hm⟩, hreadable⟩,
      ⟨hstepped.1, by omega, hsteps⟩, List.rel_append hpre (.cons he hpost)⟩

end CommentAt

/-! ### Edits of entries -/

/-- The first entry with this id is replaced. -/
def updateEntry (id : Text) (f : JournalEntry → JournalEntry) : List JournalEntry → List JournalEntry
  | [] => []
  | e :: es => if e.entryId = id then f e :: es else e :: updateEntry id f es

theorem updateEntry_append {id : Text} {f : JournalEntry → JournalEntry} {pre : List JournalEntry}
    (hpre : ∀ x ∈ pre, x.entryId ≠ id) {e : JournalEntry} (he : e.entryId = id)
    (post : List JournalEntry) : updateEntry id f (pre ++ e :: post) = pre ++ f e :: post := by
  induction pre with
  | nil => exact if_pos he
  | cons x pre ih =>
      obtain ⟨hx, hpre⟩ := List.forall_mem_cons.mp hpre
      rw [List.cons_append, updateEntry, if_neg hx, ih hpre, List.cons_append]

namespace JournalEntry

/-- The entry with its prose replaced and stamped. -/
def edited (entry : JournalEntry) (body editedBy editedAt : Text) : JournalEntry :=
  { (entry.set "EDITED_BY".toList editedBy).set "EDITED_AT".toList editedAt with body := trim body }

/-- The entry without its prose, stamped. -/
def tombstoned (entry : JournalEntry) (deletedBy deletedAt : Text) : JournalEntry :=
  { (entry.set "DELETED_BY".toList deletedBy).set "DELETED_AT".toList deletedAt with
    ty := "comment.deleted".toList, body := [] }

end JournalEntry

/-- What a stamp is: a valid value without white space around it. -/
structure IsStamp (value : Text) : Prop where
  trimmed : trim value = value
  valid : ∀ key, TxEntry.validatePropertyValue key value = .ok ()

theorem isStamp_iff {value : Text} : IsStamp value ↔
    trim value = value ∧ TxEntry.validatePropertyValue [] value = .ok () := by
  constructor
  · exact fun h => ⟨h.trimmed, h.valid []⟩
  · exact fun h => ⟨h.1, fun key =>
      validatePropertyValue_ok_iff.mpr (validatePropertyValue_ok_iff.mp h.2)⟩

instance (value : Text) : Decidable (IsStamp value) := decidable_of_iff _ isStamp_iff.symm

theorem IsStamp.newline {value : Text} (h : IsStamp value) : '\n' ∉ value := fun hmem =>
  ((validatePropertyValue_ok_iff.mp (h.valid [])) '\n' hmem).1 (.inl rfl)

/-- The same pairs above another text. -/
theorem EntryOf.withBody {pairs : List (Text × Text)} {body : Text} {e : JournalEntry}
    (h : EntryOf pairs body e) (body' : Text) : EntryOf pairs body' { e with body := trim body' } :=
  ⟨h.keys, h.entryId, h.time, h.ty, h.actor, h.machine, h.extras, rfl,
    JournalEntry.validate_eq_ok_iff.mpr (JournalEntry.validate_eq_ok_iff.mp h.valid)⟩

/-- The text of an accepted journal with a comment. -/
theorem exists_commentAt {t id : Text} {pre post : List JournalEntry} {e : JournalEntry}
    (h : parseJournal t journalFile = .ok (pre ++ e :: post)) (hpre : ∀ x ∈ pre, x.entryId ≠ id)
    (hid : e.entryId = id) (hty : e.ty = "comment".toList) : ∃ declared P bs₁ b bs₂,
      CommentAt t id declared P bs₁ b bs₂ ∧
        List.Forall₂ (TopBlock.Reads declared journalFile) bs₁ pre ∧
        b.Reads declared journalFile e ∧
        List.Forall₂ (TopBlock.Reads declared journalFile) bs₂ post := by
  obtain ⟨P, bs, hc, htop⟩ := exists_blocks h
  obtain ⟨keywords, declared, hk, -, hnodes, hstepped, hreads⟩ := (parseJournal_eq_ok_iff hc htop).mp h
  obtain ⟨bs₁, bs₂, rfl, hreads₁, hreads₂⟩ := Outline.forall₂_append_right_iff.mp hreads
  cases hreads₂ with
  | cons hb hrest =>
      refine ⟨declared, P, bs₁, _, _, ⟨hc, htop, ⟨keywords, hk⟩, hnodes, hstepped, ?_, ?_⟩, hreads₁, hb,
        hrest⟩
      · clear hc htop hnodes hstepped h
        induction hreads₁ with
        | nil => simp
        | cons hx _ ih =>
            obtain ⟨hne, hpre⟩ := List.forall_mem_cons.mp hpre
            refine List.forall_mem_cons.mpr ⟨fun n hn => ?_, ih hpre (List.rel_append ‹_› (.cons hb hrest))⟩
            obtain ⟨m, hm, hread⟩ := hx
            obtain rfl := Option.some.inj (hn.symm.trans hm)
            rw [(readJournalEntry_eq_ok_iff.mp hread).entryId, ne_eq, Option.some.injEq]
            exact hne
      · intro n hn
        obtain ⟨m, hm, hread⟩ := hb
        obtain rfl := Option.some.inj (hn.symm.trans hm)
        have hentry := readJournalEntry_eq_ok_iff.mp hread
        exact ⟨hid ▸ hentry.entryId, hty ▸ hentry.ty⟩

theorem TopBlock.reads_iff {declared : List Text} {display : Text} {m : Chunk} {n : Node}
    (hm : m.exact declared = some n) {subs : List Chunk} {e : JournalEntry} :
    TopBlock.Reads declared display (m, subs) e ↔
      EntryOf n.properties (n.body ++ (Segment.join subs).flatten) e := by
  constructor
  · rintro ⟨n', hn', hread⟩
    obtain rfl := Option.some.inj (hm.symm.trans hn')
    exact readJournalEntry_eq_ok_iff.mp hread
  · exact fun h => ⟨n, hm, readJournalEntry_eq_ok_iff.mpr h⟩

/-- Reading the stamped pairs above another text. -/
theorem EntryOf.edited {pairs : List (Text × Text)} {body body' newBody editedBy editedAt : Text}
    {e : JournalEntry} (h : EntryOf pairs body e) (hby : IsStamp editedBy) (hat : IsStamp editedAt)
    (hbody : trim body' = trim newBody) :
    EntryOf (setPair "EDITED_AT".toList editedAt (setPair "EDITED_BY".toList editedBy pairs)) body'
      (e.edited newBody editedBy editedAt) := by
  have hset := (((h.set (show "EDITED_BY".toList ∉ requiredKeys by decide) (by decide)
    (hby.valid _)).set (show "EDITED_AT".toList ∉ requiredKeys by decide) (by decide)
      (hat.valid _)).withBody body')
  rw [hbody] at hset
  exact hset

/-- A heading is read of a chunk wherever it stands. -/
theorem exists_readHeading {declared : List Text} {c : Chunk} {n : Node}
    (h : c.exact declared = some n) (off : ℕ) : ∃ info, readHeading declared off c = some info ∧
      info.propertyEntries.map PropertyEntry.pair = n.properties := by
  obtain ⟨level, parsed, ps, body, hlevel, hparsed, hr, rfl⟩ := Chunk.exact_eq_some_iff.mp h
  rw [← readProperties_pairs (off + c.1.length)] at hr
  obtain ⟨⟨d, b, body'⟩, hread, hpairs⟩ := Option.map_eq_some_iff.mp hr
  obtain ⟨rfl, -⟩ := Prod.mk.inj hpairs
  exact ⟨_, readHeading_eq_some_iff.mpr ⟨level, parsed, d, b, body', hlevel, hparsed, hread, rfl⟩,
    propertyEntries_pairs _⟩

theorem setPair_ne_nil (key value : Text) (ps : List (Text × Text)) : setPair key value ps ≠ [] := by
  cases ps with
  | nil => exact List.cons_ne_nil _ _
  | cons p ps =>
      rw [setPair]
      split_ifs <;> exact List.cons_ne_nil _ _

/-- A pair that is left out anyway may have another value. -/
theorem filter_setPair_of_not {p : Text → Prop} [DecidablePred p] {key value : Text} (hkey : ¬p key)
    (ps : List (Text × Text)) :
    (setPair key value ps).filter (fun q => p q.1) = ps.filter fun q => p q.1 := by
  induction ps with
  | nil => simp [setPair, hkey]
  | cons q ps ih =>
      rw [setPair]
      split_ifs with hq
      · subst hq
        rw [List.filter_cons_of_neg (by simpa using hkey), List.filter_cons_of_neg (by simpa using hkey)]
      · rw [List.filter_cons, List.filter_cons, ih]

/-- Reading the pairs with another type. -/
theorem EntryOf.withType {pairs : List (Text × Text)} {body ty : Text} {e : JournalEntry}
    (h : EntryOf pairs body e) (hty : TxEntry.validatePropertyValue "TYPE".toList ty = .ok ()) :
    EntryOf (setPair "TYPE".toList ty pairs) body { e with ty := ty } := by
  have hother {other v : Text} (hne : other ≠ "TYPE".toList) (hv : pairValue other pairs = some v) :
      pairValue other (setPair "TYPE".toList ty pairs) = some v := by
    rw [pairValue_setPair_of_ne hne, hv]
  obtain ⟨hkeys, hvalid⟩ := JournalEntry.validate_eq_ok_iff.mp h.valid
  refine ⟨firstRepeated_setPair h.keys (by simp), hother (by decide) h.entryId,
    hother (by decide) h.time, ?_, hother (by decide) h.actor, hother (by decide) h.machine, ?_, h.body,
    JournalEntry.validate_eq_ok_iff.mpr ⟨hkeys, ?_⟩⟩
  · rw [pairValue, find_setPair_self]
    rfl
  · rw [filter_setPair_of_not (p := fun key => key ∉ requiredKeys) (by decide)]
    exact h.extras
  · rw [TxEntry.validate, validateProperties_ok_iff] at hvalid ⊢
    intro p hp
    have hcases : p ∈ e.toTx.orderedProperties ∨ p = ("TYPE".toList, ty) := by
      simp only [TxEntry.orderedProperties, JournalEntry.toTx, TxEntry.new, List.mem_append,
        List.mem_cons] at hp ⊢
      tauto
    obtain hp | rfl := hcases
    · exact hvalid p hp
    · exact ⟨show TxEntry.validatePropertyKey "TYPE".toList = .ok () by decide, hty⟩

/-- Reading what is left of a comment. -/
theorem EntryOf.tombstoned {pairs : List (Text × Text)} {body deletedBy deletedAt : Text}
    {e : JournalEntry} (h : EntryOf pairs body e) (hby : IsStamp deletedBy) (hat : IsStamp deletedAt) :
    EntryOf (setPair "TYPE".toList "comment.deleted".toList (setPair "DELETED_AT".toList deletedAt
      (setPair "DELETED_BY".toList deletedBy pairs))) [] (e.tombstoned deletedBy deletedAt) :=
  (((h.set (show "DELETED_BY".toList ∉ requiredKeys by decide) (by decide) (hby.valid _)).set
    (show "DELETED_AT".toList ∉ requiredKeys by decide) (by decide)
      (hat.valid _)).withType (by decide)).withBody []

namespace CommentAt

variable {t id : Text} {declared P : List Text} {bs₁ : List TopBlock} {b : TopBlock}
  {bs₂ : List TopBlock} (h : CommentAt t id declared P bs₁ b bs₂) {editedBy editedAt : Text}
include h

/-- Two stamps. -/
theorem stamped {byKey atKey : Text} (hbyKey : IsKey byKey)
    (hatKey : IsKey atKey) (hbyKey' : byKey ≠ "TX_ID".toList ∧ byKey ≠ "TYPE".toList)
    (hatKey' : atKey ≠ "TX_ID".toList ∧ atKey ≠ "TYPE".toList) (hby : IsStamp editedBy)
    (hat : IsStamp editedAt) : ∃ t₁ t₂ m, upsertCommentProperty t id byKey editedBy = .ok t₁ ∧
      upsertCommentProperty t₁ id atKey editedAt = .ok t₂ ∧
        CommentAt t₂ id declared P bs₁ (m, b.2) bs₂ ∧ m.1 = b.1.1 ∧
          ∀ n, b.1.exact declared = some n → m.exact declared = some { n with
            properties := setPair atKey editedAt (setPair byKey editedBy n.properties) } := by
  obtain ⟨t₁, m₁, hset₁, h₁, htitle₁, hexact₁⟩ :=
    h.upsert hbyKey hbyKey'.1 hbyKey'.2 hby.trimmed hby.newline
  obtain ⟨t₂, m₂, hset₂, h₂, htitle₂, hexact₂⟩ :=
    h₁.upsert hatKey hatKey'.1 hatKey'.2 hat.trimmed hat.newline
  exact ⟨t₁, t₂, m₂, hset₁, hset₂, h₂, htitle₂.trans htitle₁, fun n hn => hexact₂ _ (hexact₁ n hn)⟩

/-- **What an edit writes**: the stamped heading, the new body and the blocks behind. -/
theorem edit (hby : IsStamp editedBy) (hat : IsStamp editedAt) (newBody : Text) : ∃ next w,
    editCommentBody t id newBody editedBy editedAt = .ok next ∧ (w = [] ∨ w = ['\n']) ∧
      ∀ y cs, chunksOf (w ++ (trim newBody ++ ['\n']) ++
          (Segment.join (Segment.join bs₂)).flatten) = (y, cs) →
        ∃ m : Chunk, chunksOf next = (P, Segment.join bs₁ ++ m :: cs) ∧ m.1 = b.1.1 ∧
          ∀ n, b.1.exact declared = some n → m.exact declared = some { n with
            properties := setPair "EDITED_AT".toList editedAt
              (setPair "EDITED_BY".toList editedBy n.properties)
            body := y.flatten } := by
  obtain ⟨t₁, t₂, m₂, hset₁, hset₂, h₂, htitle₂, hexact₂⟩ := h.stamped
    (show IsKey "EDITED_BY".toList from isKey_of_snake (by decide) (by decide))
    (show IsKey "EDITED_AT".toList from isKey_of_snake (by decide) (by decide)) (by decide) (by decide)
    hby hat
  obtain ⟨body, props, w', x, hspans, hsplit, hw', hput⟩ :=
    h₂.respliced (u := '\n' :: (trim newBody ++ ['\n'])) (.inr ⟨_, rfl⟩)
  obtain ⟨w, hw, hx⟩ : ∃ w, (w = [] ∨ w = ['\n']) ∧
      x = w ++ (trim newBody ++ ['\n']) ++ (Segment.join (Segment.join bs₂)).flatten := by
    obtain rfl | rfl := hw'
    · exact ⟨['\n'], .inr rfl, hsplit.symm⟩
    · exact ⟨[], .inl rfl, (List.cons.inj hsplit).2.symm⟩
  refine ⟨t₂.take body.start ++ '\n' :: (trim newBody ++ ['\n']) ++ t₂.drop body.stop, w, ?_, hw,
    fun y cs hcs => ?_⟩
  · simp only [editCommentBody, bind, Except.bind, hset₁, hset₂, hspans]
    simp
  · obtain ⟨m, hm, htitle, hexact⟩ := hput y cs (hx ▸ hcs)
    exact ⟨m, hm, htitle.trans htitle₂, fun n hn => hexact _ (hexact₂ n hn)⟩

variable {pre post : List JournalEntry} {e : JournalEntry} {next newBody : Text}

/-- **Reading an edit** of prose that neither starts a heading nor leaves a block open. -/
theorem parse_edit_iff (hpre : List.Forall₂ (TopBlock.Reads declared journalFile) bs₁ pre)
    (he : b.Reads declared journalFile e)
    (hpost : List.Forall₂ (TopBlock.Reads declared journalFile) bs₂ post)
    (hby : IsStamp editedBy) (hat : IsStamp editedAt)
    (hprose : rejectJournalProse newBody = .ok ()) (hstar : ¬"* ".toList <+: trim newBody)
    (hclosed : depthAfter 0 (rawLines newBody) = 0)
    (hedit : editCommentBody t id newBody editedBy editedAt = .ok next) {es : List JournalEntry} :
    parseJournal next journalFile = .ok es ↔
      ProseFits (trim newBody) ∧ es = pre ++ e.edited newBody editedBy editedAt :: post := by
  obtain ⟨next', w, hedit', hw, hchunks⟩ := h.edit hby hat newBody
  obtain rfl := Except.ok.inj (hedit.symm.trans hedit')
  obtain ⟨y, hy, htext⟩ :=
    chunksOf_body_append hw h.behind ((depthAfter_trim 0 newBody).trans hclosed)
  obtain ⟨m, hm, htitle, hexact⟩ := hchunks y _ hy
  obtain ⟨n, hn⟩ := h.nodes b.1 (by simp)
  have hdeep := proseChunks_deep (rejectJournalProse_trim hprose hstar)
  have htop₂ : ∀ x ∈ bs₂, x.IsTop := fun x hx => h.top x (by simp [hx])
  have hhead : ∀ c ∈ proseChunks (trim newBody), isHead 0 c.1 = true :=
    (chunksOf_spec (trim newBody ++ ['\n'])).2.2.isHead
  -- the block of the comment reads as the edited comment
  have hbody : trim (y.flatten ++ (Segment.join (proseChunks (trim newBody))).flatten) =
      trim newBody := by
    have hblank : Blank w := by
      obtain rfl | rfl := hw
      · exact blank_nil
      · decide
    rw [htext, trim_blank_append hblank, trim_append_blank (by decide), trim_trim]
  have hown : TopBlock.Reads declared journalFile (m, proseChunks (trim newBody))
      (e.edited newBody editedBy editedAt) :=
    (TopBlock.reads_iff (hexact n hn)).mpr (((TopBlock.reads_iff hn).mp he).edited hby hat hbody)
  rw [h.parse_iff hm htitle (hexact n hn) rfl hdeep htop₂, List.map_append, Outline.stepped_append,
    List.forall_mem_append]
  constructor
  · rintro ⟨⟨hreadable, -⟩, ⟨hsteps, -⟩, pre', e', post', rfl, hpre', he', hpost'⟩
    rw [reads_unique hpre' hpre, he'.unique hown, reads_unique hpost' hpost]
    exact ⟨⟨hsteps, fun c hc => (exists_exact_iff h.nil_notMem (hhead c hc)).mp (hreadable c hc)⟩, rfl⟩
  · rintro ⟨⟨hsteps, hreadable⟩, rfl⟩
    exact ⟨⟨fun c hc => (exists_exact_iff h.nil_notMem (hhead c hc)).mpr (hreadable c hc),
      fun c hc => h.nodes c (by simp [hc])⟩, ⟨hsteps, h.stepped_behind _⟩, pre, _, post, rfl, hpre, hown, hpost⟩

/-- **Another type for the comment, and nothing below it.** -/
theorem emptied {ty : Text} (hvalue : trim ty = ty) (hline : '\n' ∉ ty) : ∃ body props span m,
    commentSpans t id = .ok (body, props) ∧
      (props.find? fun p => p.1 = "TYPE".toList) = some ("TYPE".toList, span) ∧
      chunksOf (t.take span.start ++ ty ++ slice t ⟨span.stop, body.start⟩ ++ t.drop body.stop) =
        (P, Segment.join bs₁ ++ m :: Segment.join bs₂) ∧ m.1 = b.1.1 ∧
      ∀ n, b.1.exact declared = some n → m.exact declared =
        some { n with properties := setPair "TYPE".toList ty n.properties, body := [] } := by
  obtain ⟨info, hread, hdrawer, hspans⟩ := h.spans
  obtain ⟨out, m', hout, htitle, hexact, hreplace, -⟩ := exists_upserted h.chunks_eq hread hdrawer
    (show IsKey "TYPE".toList from isKey_of_snake (by decide) (by decide)) hvalue hline
  obtain ⟨D, ds, hP, has, hbs, hchunk, hfits, htext, hstart, -⟩ :=
    Drawer.exists_of_chunk h.chunks_eq hread hdrawer
  obtain ⟨n, hn, hpairs⟩ := properties_of_read hread
  -- the entry of the type
  obtain ⟨-, hown⟩ := h.own n hn
  rw [hpairs, pairValue_entries] at hown
  obtain ⟨entry, hfind, -⟩ := Option.map_eq_some_iff.mp hown
  have hkey : entry.key = "TYPE".toList := by simpa using List.find?_some hfind
  obtain ⟨hle, hstop⟩ := Entries.valueSpan_le hfits.terminated hfits.entries
    (List.mem_of_find?_eq_some hfind) (by rw [hkey]; decide)
  have hstop' : entry.valueSpan.stop ≤ info.body.start := by
    rw [hstart]
    simp only [Drawer.upTo, Drawer.off, List.length_append] at hstop ⊢
    omega
  -- the drawer with the other type
  obtain ⟨info', hread', hpairs'⟩ :=
    exists_readHeading (hexact n hn) (frontText P (Segment.join bs₁)).length
  have hdrawer' : info'.properties ≠ none := by
    intro hnone
    rw [HeadingInfo.propertyEntries, hnone] at hpairs'
    exact setPair_ne_nil _ _ _ hpairs'.symm
  obtain ⟨D', ds', hP', has', hbs', hchunk', hfits', htext', -, hlast'⟩ :=
    Drawer.exists_of_chunk hout hread' hdrawer'
  have hbody : D'.body.flatten = D.body.flatten := by
    have hown {D : Drawer} {ds : List Text} {es : List PropertyEntry} (hfits : D.Fits ds es)
        {n : Node} (hn : (D.chunk ds).exact declared = some n) : n.body = D.body.flatten := by
      obtain ⟨_, _, _, body, -, -, hr, rfl⟩ := Chunk.exact_eq_some_iff.mp hn
      obtain ⟨_, _, hread⟩ := Drawer.readProperties_chunk hfits
      rw [readPairs_of_readProperties hread, Option.some.injEq, Prod.mk.injEq] at hr
      rw [hr.2]
    rw [← hown hfits (hchunk ▸ hn), ← hown hfits' (hchunk' ▸ hexact n hn)]
  -- the text in front of the body
  have hupTo : t.take entry.valueSpan.start ++ ty ++
      slice t ⟨entry.valueSpan.stop, info.body.start⟩ = D'.upTo ds' := by
    have hdrop : t.drop entry.valueSpan.stop = slice t ⟨entry.valueSpan.stop, info.body.start⟩ ++
        (D.body.flatten ++ (Segment.join D.bs).flatten) := by
      have hbehind : t.drop info.body.start = D.body.flatten ++ (Segment.join D.bs).flatten := by
        conv_lhs => rw [htext, Drawer.text_eq_upTo, hstart, List.drop_left]
      rw [← hbehind, slice, ← Nat.sub_add_cancel hstop', Nat.add_sub_cancel, Nat.add_comm,
        ← List.drop_drop, List.take_append_drop]
    have hreplaced := hreplace entry hfind
    rw [replaceRange, hdrop, htext', Drawer.text_eq_upTo, hbody, hbs, hbs', ← List.append_assoc]
      at hreplaced
    exact List.append_cancel_right hreplaced
  obtain ⟨hchunks, hexact'⟩ :=
    Drawer.rebody hfits' D'.ends (D'.last_or hbs' hlast') h.behind
  refine ⟨_, _, entry.valueSpan, (D'.title, D'.opening :: (ds' ++ D'.last :: [])), hspans, ?_, ?_, ?_,
    fun n' hn' => ?_⟩
  · rw [List.find?_map]
    have hmap := congrArg (Option.map fun e : PropertyEntry => (e.key, e.valueSpan)) hfind
    rw [Option.map_some, hkey] at hmap
    exact hmap
  · dsimp only
    rw [hupTo, h.drop_block, Drawer.upTo, ← hP', ← has']
    simpa using hchunks
  · rw [← htitle, ← hchunk']
    rfl
  · obtain rfl := Option.some.inj (hn.symm.trans hn')
    rw [hexact' declared _ (hchunk' ▸ hexact n hn), hpairs']
    rfl

/-- **What a deletion writes**: the stamped heading of another type and the blocks behind. -/
theorem tombstone (hby : IsStamp editedBy) (hat : IsStamp editedAt) : ∃ next m,
    tombstoneComment t id editedBy editedAt = .ok next ∧
      chunksOf next = (P, Segment.join bs₁ ++ m :: Segment.join bs₂) ∧ m.1 = b.1.1 ∧
        ∀ n, b.1.exact declared = some n → m.exact declared = some { n with
          properties := setPair "TYPE".toList "comment.deleted".toList
            (setPair "DELETED_AT".toList editedAt (setPair "DELETED_BY".toList editedBy n.properties))
          body := [] } := by
  obtain ⟨t₁, t₂, m₂, hset₁, hset₂, h₂, htitle₂, hexact₂⟩ := h.stamped
    (show IsKey "DELETED_BY".toList from isKey_of_snake (by decide) (by decide))
    (show IsKey "DELETED_AT".toList from isKey_of_snake (by decide) (by decide)) (by decide) (by decide)
    hby hat
  obtain ⟨body, props, span, m, hspans, hfind, hm, htitle, hexact⟩ :=
    h₂.emptied (show trim "comment.deleted".toList = "comment.deleted".toList by decide) (by decide)
  refine ⟨_, m, ?_, hm, htitle.trans htitle₂, fun n hn => hexact _ (hexact₂ n hn)⟩
  simp only [tombstoneComment, bind, Except.bind, hset₁, hset₂, hspans, hfind]

/-- **Reading a deletion.** -/
theorem parse_tombstone {pre post : List JournalEntry} {e : JournalEntry} {next : Text}
    (hpre : List.Forall₂ (TopBlock.Reads declared journalFile) bs₁ pre)
    (he : b.Reads declared journalFile e)
    (hpost : List.Forall₂ (TopBlock.Reads declared journalFile) bs₂ post)
    (hby : IsStamp editedBy) (hat : IsStamp editedAt)
    (hdelete : tombstoneComment t id editedBy editedAt = .ok next) :
    parseJournal next journalFile = .ok (pre ++ e.tombstoned editedBy editedAt :: post) := by
  obtain ⟨next', m, hdelete', hm, htitle, hexact⟩ := h.tombstone hby hat
  obtain rfl := Except.ok.inj (hdelete.symm.trans hdelete')
  obtain ⟨n, hn⟩ := h.nodes b.1 (by simp)
  have htop₂ : ∀ x ∈ bs₂, x.IsTop := fun x hx => h.top x (by simp [hx])
  exact (h.parse_iff hm htitle (hexact n hn) (List.nil_append _).symm (by simp) htop₂).mpr
    ⟨fun c hc => h.nodes c (by simp [hc]), h.stepped_behind _, pre, _, post, rfl, hpre,
      (TopBlock.reads_iff (hexact n hn)).mpr (((TopBlock.reads_iff hn).mp he).tombstoned hby hat), hpost⟩

end CommentAt

/-! ### Guarded operations -/

/-- The first entry with this id is a comment with the expected prose that the actor may edit. -/
def editable (id expected : Text) (actor : CommentMutationActor) (es : List JournalEntry) : Bool :=
  (es.find? fun e => e.entryId = id).any fun e =>
    e.ty = "comment".toList && actor.mayEdit e.actor && e.body = expected

theorem editable_iff {id expected : Text} {actor : CommentMutationActor} {es : List JournalEntry} :
    editable id expected actor es = true ↔ ∃ pre e post, es = pre ++ e :: post ∧
      (∀ x ∈ pre, x.entryId ≠ id) ∧ e.entryId = id ∧ e.ty = "comment".toList ∧
        actor.mayEdit e.actor = true ∧ e.body = expected := by
  rw [editable, Option.any_eq_true_iff_get]
  constructor
  · rintro ⟨hsome, hguard⟩
    obtain ⟨e, hfind⟩ := Option.isSome_iff_exists.mp hsome
    simp only [hfind, Option.get_some, Bool.and_eq_true, decide_eq_true_eq] at hguard
    obtain ⟨hid, pre, post, rfl, hpre⟩ := List.find?_eq_some_iff_append.mp hfind
    exact ⟨pre, e, post, rfl, by simpa using hpre, by simpa using hid, hguard.1.1, hguard.1.2,
      hguard.2⟩
  · rintro ⟨pre, e, post, rfl, hpre, hid, hty, hactor, hbody⟩
    have hfind : (pre ++ e :: post).find? (fun x => decide (x.entryId = id)) = some e := by
      rw [List.find?_eq_some_iff_append]
      exact ⟨decide_eq_true hid, pre, post, rfl, by simpa using hpre⟩
    simp only [hfind, Option.isSome_some, Option.get_some, exists_true_left, hactor, hty, hbody,
      decide_true, Bool.and_true]

/-- **What the guard lets through.** -/
theorem requireCommentBody_eq_ok_iff {current id expected : Text} {actor : CommentMutationActor} :
    requireCommentBody current id expected actor = .ok () ↔ ∃ es,
      parseJournal current journalFile = .ok es ∧ editable id expected actor es = true := by
  rw [requireCommentBody]
  cases parseJournal current journalFile with
  | error err => simp
  | ok es =>
      simp only [Except.ok.injEq, exists_eq_left', editable]
      cases es.find? fun e => decide (e.entryId = id) with
      | none => simp
      | some e =>
          dsimp only [Option.any_some]
          split_ifs <;> simp_all

theorem checkedJournalBytes_eq_ok_iff {next out : Text} : checkedJournalBytes next = .ok out ↔
    out = next ∧ ∃ es, parseJournal next journalFile = .ok es := by
  rw [checkedJournalBytes]
  cases parseJournal next journalFile with
  | error err => simp
  | ok es => simp [eq_comm]

variable {current id expected newBody stamp next : Text} {actor : CommentMutationActor}

theorem bind_eq_ok_iff {ε α β : Type} {x : Except ε α} {f : α → Except ε β} {b : β} :
    (x >>= f) = .ok b ↔ ∃ a, x = .ok a ∧ f a = .ok b := by
  refine ⟨of_bind_ok, ?_⟩
  rintro ⟨a, rfl, h⟩
  exact h

theorem editJournalComment_eq_ok_iff :
    editJournalComment id expected newBody actor stamp current = .ok next ↔
      rejectJournalProse newBody = .ok () ∧ requireCommentBody current id expected actor = .ok () ∧
        editCommentBody current id newBody actor.name stamp = .ok next ∧
          ∃ es, parseJournal next journalFile = .ok es := by
  simp only [editJournalComment, bind_eq_ok_iff, checkedJournalBytes_eq_ok_iff]
  constructor
  · rintro ⟨_, hprose, _, hguard, _, hedit, rfl, hread⟩
    exact ⟨hprose, hguard, hedit, hread⟩
  · rintro ⟨hprose, hguard, hedit, hread⟩
    exact ⟨(), hprose, (), hguard, next, hedit, rfl, hread⟩

theorem tombstoneJournalComment_eq_ok_iff :
    tombstoneJournalComment id expected actor stamp current = .ok next ↔
      requireCommentBody current id expected actor = .ok () ∧
        tombstoneComment current id actor.name stamp = .ok next ∧
          ∃ es, parseJournal next journalFile = .ok es := by
  simp only [tombstoneJournalComment, bind_eq_ok_iff, checkedJournalBytes_eq_ok_iff]
  constructor
  · rintro ⟨_, hguard, _, hdelete, rfl, hread⟩
    exact ⟨hguard, hdelete, hread⟩
  · rintro ⟨hguard, hdelete, hread⟩
    exact ⟨(), hguard, next, hdelete, rfl, hread⟩

/-- **A deletion goes through** whenever the guard does, and only the comment is another entry. -/
theorem parseJournal_tombstoned {es : List JournalEntry} (hactor : IsStamp actor.name)
    (hstamp : IsStamp stamp) (hes : parseJournal current journalFile = .ok es)
    (hguard : requireCommentBody current id expected actor = .ok ()) : ∃ next,
      tombstoneJournalComment id expected actor stamp current = .ok next ∧
        parseJournal next journalFile =
          .ok (updateEntry id (fun e => e.tombstoned actor.name stamp) es) := by
  obtain ⟨es', hes', heditable⟩ := requireCommentBody_eq_ok_iff.mp hguard
  obtain rfl := Except.ok.inj (hes'.symm.trans hes)
  obtain ⟨pre, e, post, rfl, hpre, hid, hty, -, -⟩ := editable_iff.mp heditable
  obtain ⟨declared, P, bs₁, b, bs₂, hat, hpre', hb, hpost⟩ := exists_commentAt hes hpre hid hty
  obtain ⟨next, m, hdelete, -⟩ := hat.tombstone hactor hstamp
  have hread := hat.parse_tombstone hpre' hb hpost hactor hstamp hdelete
  rw [updateEntry_append hpre hid]
  exact ⟨next, tombstoneJournalComment_eq_ok_iff.mpr ⟨hguard, hdelete, _, hread⟩, hread⟩

end Orgasmic
