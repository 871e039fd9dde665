import Orgasmic.Journal
import Orgasmic.OrgExact

/-! # Journals as blocks of chunks

A journal entry is a top-level heading with everything below it.

* **Blocks.** A block is the chunk of a top-level heading with the chunks of the headings below it.
  `blocksAt_of_parse`: the headings of a document stand at the blocks that `topBlocks` cuts its
  chunks into.
* **Entries.** `readJournalEntries_iff`: what is read of the headings is read of the blocks, without
  positions. -/

namespace Orgasmic

open Text

/-! ### Blocks -/

/-- The chunk of a top-level heading and the chunks below it. -/
abbrev TopBlock := Chunk × List Chunk

/-- The first chunk is that of a top-level heading, and no other one is. -/
def TopBlock.IsTop (b : TopBlock) : Prop := b.1.level = 1 ∧ ∀ c ∈ b.2, c.level ≠ 1

/-- The chunks of a block. -/
def TopBlock.chunks (b : TopBlock) : List Chunk := b.1 :: b.2

def TopBlock.text (b : TopBlock) : Text := (Segment.join b.chunks).flatten

def topBlocks (cs : List Chunk) : List TopBlock :=
  (Segment.cut (fun _ _ => ()) (fun _ c => decide (Chunk.level c = 1)) () cs).2

theorem topBlocks_join {bs : List TopBlock} (h : ∀ b ∈ bs, b.IsTop) :
    topBlocks (Segment.join bs) = bs := by
  have hno (cs : List Chunk) (hcs : ∀ c ∈ cs, c.level ≠ 1) :
      Segment.NoHead (fun _ _ => ()) (fun _ c => decide (Chunk.level c = 1)) () cs := by
    induction cs with
    | nil => trivial
    | cons c cs ih =>
        obtain ⟨hc, hcs⟩ := List.forall_mem_cons.mp hcs
        exact ⟨decide_eq_false hc, ih hcs⟩
  have hchunks : Segment.Chunks (fun _ _ => ()) (fun _ c => decide (Chunk.level c = 1)) () bs := by
    induction bs with
    | nil => trivial
    | cons b bs ih =>
        obtain ⟨⟨hroot, hbelow⟩, hbs⟩ := List.forall_mem_cons.mp h
        exact ⟨decide_eq_true hroot, hno b.2 hbelow, ih hbs⟩
  rw [topBlocks, Segment.cut_join _ _ hchunks]

theorem text_join_cons (b : TopBlock) (bs : List TopBlock) :
    (Segment.join (Segment.join (b :: bs))).flatten =
      b.text ++ (Segment.join (Segment.join bs)).flatten := by
  rw [Segment.join_cons, ← List.cons_append, Segment.join_append, List.flatten_append]
  rfl

/-- The headings stand at these blocks, the first one at `off`. -/
def BlocksAt (declared : List Text) : ℕ → List Heading → List TopBlock → Prop
  | _, [], [] => True
  | off, h :: hs, b :: bs => b.IsTop ∧ readHeading declared off b.1 = some h.toHeadingInfo ∧
      h.span = ⟨off, off + b.text.length⟩ ∧ BlocksAt declared (off + b.text.length) hs bs
  | _, _, _ => False

theorem BlocksAt.isTop {declared : List Text} {off : ℕ} {hs : List Heading} {bs : List TopBlock}
    (h : BlocksAt declared off hs bs) : ∀ b ∈ bs, b.IsTop := by
  induction bs generalizing off hs with
  | nil => simp
  | cons b bs ih =>
      cases hs with
      | nil => exact h.elim
      | cons g hs =>
          obtain ⟨htop, -, -, h⟩ := h
          exact List.forall_mem_cons.mpr ⟨htop, ih h⟩

theorem place_eq_append {off : ℕ} {cs : List Chunk} {qs qs' : List (ℕ × Chunk)}
    (h : place off cs = qs ++ qs') : ∃ ms rest, cs = ms ++ rest ∧ qs = place off ms ∧
      qs' = place (off + (Segment.join ms).flatten.length) rest := by
  have hcs := place_map_snd off cs
  rw [h, List.map_append] at hcs
  rw [← hcs, place_append] at h
  have hlen : (place off (qs.map Prod.snd)).length = qs.length := by
    have := congrArg List.length (place_map_snd off (qs.map Prod.snd))
    simpa using this
  obtain ⟨h1, h2⟩ := List.append_inj h hlen
  exact ⟨_, _, hcs.symm, h1.symm, h2.symm⟩

/-- The levels of the chunks are those of their headings. -/
theorem levels_of_place {declared : List Text} {off : ℕ} {cs : List Chunk} {infos : List HeadingInfo}
    (h : List.Forall₂ (fun q i => readHeading declared q.1 q.2 = some i) (place off cs) infos) :
    ∀ c ∈ cs, ∃ i ∈ infos, i.level = c.level := by
  induction cs generalizing off infos with
  | nil => simp
  | cons c cs ih =>
      rw [place] at h
      cases h with
      | cons hc h =>
          refine List.forall_mem_cons.mpr ⟨⟨_, List.mem_cons_self, readHeading_level hc⟩, fun b hb => ?_⟩
          obtain ⟨i, hi, hlevel⟩ := ih h b hb
          exact ⟨i, List.mem_cons_of_mem _ hi, hlevel⟩

theorem blocksAt_of_laid {declared : List Text} {off stop : ℕ} {hs : List Heading} {cs : List Chunk}
    (hlaid : LaidAll 1 off stop hs)
    (hread : List.Forall₂ (fun q i => readHeading declared q.1 q.2 = some i) (place off cs)
      (Heading.flattenAll hs))
    (hstop : stop = off + (Segment.join cs).flatten.length) :
    ∃ bs, cs = Segment.join bs ∧ BlocksAt declared off hs bs := by
  induction hs generalizing off cs with
  | nil =>
      have hnil : (place off cs).map Prod.snd = [] := by
        rw [List.forall₂_nil_right_iff.mp hread, List.map_nil]
      rw [place_map_snd] at hnil
      exact ⟨[], hnil, trivial⟩
  | cons h hs ih =>
      obtain ⟨hhead, htail⟩ := hlaid
      obtain ⟨hlevel, -, hspan, hsections⟩ := (laid_iff h).mp hhead
      rw [Heading.flattenAll] at hread
      obtain ⟨qs, qs', hsplit, hown, hrest⟩ := Outline.forall₂_append_right_iff.mp hread
      obtain ⟨ms, rest, rfl, rfl, rfl⟩ := place_eq_append hsplit
      rw [Segment.join_append, List.flatten_append, List.length_append, ← Nat.add_assoc] at hstop
      -- the subtree ends where the next heading begins
      have hend : h.span.stop = off + (Segment.join ms).flatten.length := by
        cases hs with
        | nil =>
            obtain rfl : rest = [] := by
              have hnil := congrArg (List.map Prod.snd) (List.forall₂_nil_right_iff.mp hrest)
              rwa [place_map_snd] at hnil
            rw [show h.span.stop = stop from htail, hstop]
            rfl
        | cons g hs =>
            obtain ⟨-, hstart, -, -⟩ := (laid_iff g).mp htail.1
            cases rest with
            | nil => simp [place, Heading.flattenAll, flatten_eq] at hrest
            | cons c rest =>
                rw [place, Heading.flattenAll, flatten_eq, List.cons_append] at hrest
                obtain ⟨hc, -⟩ := List.forall₂_cons.mp hrest
                rw [← hstart, readHeading_titleLine hc]
      rw [flatten_eq] at hown
      cases ms with
      | nil => simp [place] at hown
      | cons m ms =>
          rw [place] at hown
          obtain ⟨hm, hms⟩ := List.forall₂_cons.mp hown
          rw [hend] at htail
          obtain ⟨bs, rfl, hbs⟩ := ih htail hrest hstop
          refine ⟨(m, ms) :: bs, ?_, ⟨?_, fun c hc => ?_⟩, hm, ?_, hbs⟩
          · rw [Segment.join_cons, List.cons_append]
          · rw [← readHeading_level hm, hlevel]
          · obtain ⟨i, hi, hsame⟩ := levels_of_place hms c hc
            have hdeep := LaidAll.levels h.sections hsections i hi
            omega
          · rw [show h.span = ⟨h.span.start, h.span.stop⟩ from rfl, hspan, hend]
            rfl

/-- **The headings of a document stand at its blocks.** -/
theorem blocksAt_of_parse {source display : Text} {f : OrgFile}
    (hf : OrgFile.parse source display = .ok f) :
    (chunksOf source).2 = Segment.join (topBlocks (chunksOf source).2) ∧
      BlocksAt f.declared (chunksOf source).1.flatten.length f.headings
        (topBlocks (chunksOf source).2) := by
  obtain ⟨-, hflat, -, hlaid⟩ := readFlat_of_parse hf
  obtain ⟨declared, hk, hread, -⟩ := (readFlat_eq_some_iff _ _ _).mp hflat
  obtain rfl : declared = f.declared := readKeywords_declared rfl hk
  have htext : source = (chunksOf source).1.flatten ++ (Segment.join (chunksOf source).2).flatten :=
    (flatten_of_chunksOf rfl).symm
  obtain ⟨bs, hbs, hat⟩ := blocksAt_of_laid hlaid hread (by
    conv_lhs => rw [htext]
    exact List.length_append)
  have htop : topBlocks (chunksOf source).2 = bs := by
    rw [hbs, topBlocks_join hat.isTop]
  rw [htop]
  exact ⟨hbs, hat⟩

/-! ### Entries -/

/-- The entry that is read of a block. -/
def TopBlock.Reads (declared : List Text) (display : Text) (b : TopBlock) (e : JournalEntry) : Prop :=
  ∃ n, b.1.exact declared = some n ∧ readJournalEntry display n.title n.properties
    (n.body ++ (Segment.join b.2).flatten) = .ok e

theorem slice_wholeBody {declared : List Text} {front : Text} {b : TopBlock} {h : Heading}
    (rest : Text)
    (hread : readHeading declared front.length b.1 = some h.toHeadingInfo)
    (hspan : h.span = ⟨front.length, front.length + b.text.length⟩) :
    b.1.exact declared = some (h.toHeadingInfo.exact (front ++ (b.text ++ rest))) ∧
      slice (front ++ (b.text ++ rest)) h.wholeBody =
        (h.toHeadingInfo.exact (front ++ (b.text ++ rest))).body ++ (Segment.join b.2).flatten := by
  obtain ⟨ps, hdr, body, hlines, hpairs, -, hbody⟩ := readHeading_parts hread
  have htext : b.text = hdr.flatten ++ (body.flatten ++ (Segment.join b.2).flatten) := by
    rw [TopBlock.text, TopBlock.chunks, Segment.join_cons, ← List.cons_append, ← Chunk.lines, hlines]
    simp
  have hexact := readHeading_exact ((Segment.join b.2).flatten ++ rest) hread
  have hsource : front ++ b.1.text ++ ((Segment.join b.2).flatten ++ rest) =
      front ++ (b.text ++ rest) := by
    rw [htext, Chunk.text, hlines]
    simp
  rw [hsource] at hexact
  refine ⟨hexact, ?_⟩
  have hown : slice (front ++ (b.text ++ rest)) h.body = body.flatten := by
    rw [hbody, ← List.length_append, htext]
    have := slice_append_three (front ++ hdr.flatten) body.flatten ((Segment.join b.2).flatten ++ rest)
    simpa using this
  have hlen : (hdr.flatten ++ (body.flatten ++ (Segment.join b.2).flatten)).length =
      hdr.flatten.length + (body.flatten ++ (Segment.join b.2).flatten).length := List.length_append
  have hwhole : h.wholeBody = ⟨front.length + hdr.flatten.length,
      front.length + hdr.flatten.length + (body.flatten ++ (Segment.join b.2).flatten).length⟩ := by
    rw [Heading.wholeBody, hbody, hspan, htext, hlen, ← Nat.add_assoc]
  rw [hwhole, HeadingInfo.exact, hown, ← List.length_append, htext]
  have := slice_append_three (front ++ hdr.flatten) (body.flatten ++ (Segment.join b.2).flatten) rest
  simpa using this

/-- **What is read of the headings is read of the blocks.** -/
theorem readJournalEntries_iff {declared : List Text} {content display : Text} {hs : List Heading}
    {bs : List TopBlock} {front : Text} {entries : List JournalEntry}
    (hat : BlocksAt declared front.length hs bs)
    (htext : content = front ++ (Segment.join (Segment.join bs)).flatten) :
    readJournalEntries content display hs = .ok entries ↔
      List.Forall₂ (TopBlock.Reads declared display) bs entries := by
  induction hs generalizing bs front entries with
  | nil =>
      cases bs with
      | nil => simp [readJournalEntries, eq_comm]
      | cons b bs => exact hat.elim
  | cons h hs ih =>
      cases bs with
      | nil => exact hat.elim
      | cons b bs =>
          obtain ⟨-, hread, hspan, hat⟩ := hat
          rw [text_join_cons] at htext
          obtain ⟨hexact, hbody⟩ :=
            slice_wholeBody (Segment.join (Segment.join bs)).flatten hread hspan
          rw [← htext] at hexact hbody
          have hpairs : h.propertyEntries.map PropertyEntry.pair =
              (h.toHeadingInfo.exact content).properties := rfl
          have htitle : h.title = (h.toHeadingInfo.exact content).title := rfl
          rw [← List.length_append] at hat
          have ih {es : List JournalEntry} : readJournalEntries content display hs = .ok es ↔
              List.Forall₂ (TopBlock.Reads declared display) bs es :=
            ih hat (by rw [htext, List.append_assoc])
          have hreads (e : JournalEntry) : b.Reads declared display e ↔
              readJournalEntry display (h.toHeadingInfo.exact content).title
                (h.toHeadingInfo.exact content).properties
                ((h.toHeadingInfo.exact content).body ++ (Segment.join b.2).flatten) = .ok e := by
            refine ⟨?_, fun hok => ⟨_, hexact, hok⟩⟩
            rintro ⟨n, hn, hok⟩
            rw [hexact, Option.some.injEq] at hn
            rw [hn]
            exact hok
          rw [readJournalEntries, hpairs, htitle, hbody]
          generalize readJournalEntry display _ _ _ = own at hreads ⊢
          cases own with
          | error e =>
              refine ⟨nofun, fun hok => ?_⟩
              cases hok with
              | cons hb hrest => cases (hreads _).mp hb
          | ok e =>
              cases hrest : readJournalEntries content display hs with
              | error e =>
                  rw [hrest] at ih
                  refine ⟨nofun, fun hok => ?_⟩
                  cases hok with
                  | cons hb hbs => cases ih.mpr hbs
              | ok es =>
                  rw [hrest] at ih
                  constructor
                  · intro hok
                    obtain rfl := Except.ok.inj hok
                    exact .cons ((hreads e).mpr rfl) (ih.mp rfl)
                  · intro hok
                    cases hok with
                    | cons hb hbs =>
                        rw [Except.ok.inj ((hreads _).mp hb), Except.ok.inj (ih.mpr hbs)]

end Orgasmic
