import Orgasmic.CommentMessages
import Orgasmic.JournalRows
import Orgasmic.NodeRecords
import Orgasmic.OrgRawBody

/-! # Comments of artifacts

The thread of an artifact is kept in the journal of its node.

* **Operations.** `appendComment` writes an entry; `setCommentResolved` splices the value of one
  property; `consumeAllOpenComments` is `consume_open_comments`; `parseComments` reads the thread.
* **Spans.** `ValueSet`: the journal with another value of a property of one entry
  (`parseJournal_set`).
* **Depth.** `depth_of_entries`: whether a journal ends outside of blocks is seen from the prose of
  its last entry. -/

namespace Orgasmic

open Text

/-! ### The operations -/

/-- Fields for one new comment. -/
structure NewComment where
  cid : Text
  author : Text
  version : UInt32
  anchor : Text
  resolutionTarget : Text
  /-- The comment this one replies to; empty for a top-level comment. -/
  replyTo : Text
  message : Text
deriving DecidableEq

/-- One comment of the thread. -/
structure CommentRecord where
  cid : Text
  author : Text
  time : Text
  version : UInt32
  anchor : Text
  resolutionTarget : Text
  replyTo : Text
  resolved : Bool
  consumed : Bool
  message : Text
deriving DecidableEq

/-- A version as it is formatted. -/
def versionText (version : UInt32) : Text := Nat.toDigits 10 version.toNat

/-- `u32::from_str`: decimal digits after an optional plus sign. -/
def parseU32 (t : Text) : Option UInt32 :=
  let digits := if t.head? = some '+' then t.tail else t
  let n := Nat.ofDigitChars 10 digits 0
  if digits ≠ [] ∧ digits.all Char.isDigit ∧ n < 2 ^ 32 then some (.ofNat n) else none

def boolText (b : Bool) : Text := if b then "true".toList else "false".toList

def commentJournalEntry (comment : NewComment) (time machine : Text) : JournalEntry where
  entryId := comment.cid
  time := time
  ty := "comment".toList
  actor := comment.author
  machine := machine
  extras := [("VERSION".toList, versionText comment.version), ("ANCHOR".toList, comment.anchor),
    ("RESOLUTION_TARGET".toList, comment.resolutionTarget),
    ("REPLY_TO".toList, comment.replyTo), ("RESOLVED".toList, "false".toList)]
  body := escapeCommentMessage comment.message

/-- `append_comment`. -/
def appendComment (current artId : Text) (comment : NewComment) (time machine : Text) :
    Except JournalError Text :=
  let entry := commentJournalEntry comment time machine
  match entry.validate with
  | .error e => .error e
  | .ok () => .ok (appendEntry current artId entry)

inductive ResolveError where
  | parse (error : OrgError)
  | notFound (cid : Text)
  | noResolved (cid : Text)
deriving DecidableEq, Repr

/-- `set_comment_resolved`. -/
def setCommentResolved (current cid : Text) (resolved : Bool) : Except ResolveError Text :=
  match OrgFile.parse current journalFile with
  | .error e => .error (.parse e)
  | .ok file =>
      match file.headings.find? fun h => h.property "TX_ID".toList = some cid ∧
          h.property "TYPE".toList = some "comment".toList with
      | none => .error (.notFound cid)
      | some heading =>
          match heading.propertyEntries.find? fun e => e.key = "RESOLVED".toList with
          | none => .error (.noResolved cid)
          | some entry => .ok (replaceRange current entry.valueSpan (boolText resolved))

/-- `consume_all_open_comments`. -/
def consumeAllOpenComments (current : Text) : Except JournalError Text :=
  (consumeOpenComments current).map Prod.fst

/-- The record of an entry. -/
def commentRecord (entry : JournalEntry) : CommentRecord where
  cid := entry.entryId
  author := entry.actor
  time := entry.time
  version := ((entry.extra? "VERSION".toList).bind parseU32).getD 1
  anchor := (entry.extra? "ANCHOR".toList).getD "\x7b\x7d".toList
  resolutionTarget := (entry.extra? "RESOLUTION_TARGET".toList).getD []
  replyTo := (entry.extra? "REPLY_TO".toList).getD []
  resolved := entry.extra? "RESOLVED".toList = some "true".toList
  consumed := entry.extra? "CONSUMED".toList = some "true".toList
  message := trimAndUnescapeCommentBody entry.body

/-- `parse_comments`; a journal that cannot be read has no comments. -/
def parseComments (content : Text) : List CommentRecord :=
  (((parseJournal content journalFile).toOption.getD []).filter
    fun entry => entry.ty = "comment".toList).map commentRecord

/-! ### Depth -/

/-- The lines of a chunk in front of its body open no block. -/
theorem readPairs_quiet {rs body : List Text} {ps : List (Text × Text)}
    (h : readPairs rs = some (ps, body)) : ∃ hdr, rs = hdr ++ body ∧ depthAfter 0 hdr = 0 := by
  rw [readPairs] at h
  obtain ⟨⟨d, b, body'⟩, hread, h⟩ := Option.map_eq_some_iff.mp h
  obtain ⟨-, rfl⟩ := Prod.mk.inj h
  cases d with
  | none =>
      refine ⟨[], ?_, rfl⟩
      cases rs with
      | nil =>
          obtain ⟨-, hnil⟩ : 0 = b ∧ body' = [] := by simpa [readProperties] using hread
          rw [hnil]
          rfl
      | cons opening rs =>
          rw [readProperties] at hread
          split_ifs at hread
          · obtain ⟨_, -, h⟩ := Option.map_eq_some_iff.mp hread
            cases h
          · simpa using (Prod.mk.inj (Prod.mk.inj (Option.some.inj hread)).2).2
  | some d =>
      obtain ⟨opening, ds, last, rfl, hopens, hends, hes, -⟩ := readProperties_drawer hread
      obtain ⟨u, hu⟩ := trimStart_of_trim hopens
      obtain ⟨v, hv⟩ := trimStart_of_trim hends
      refine ⟨[opening] ++ (ds ++ [last]), by simp, ?_⟩
      rw [depthAfter_append, (colonLine hu).2, depthAfter_append, hes.quiet.2, (colonLine hv).2]

/-- **The depth after a journal** is that after the prose of its last entry. -/
theorem depth_of_entries {t display : Text} {es : List JournalEntry} {e : JournalEntry}
    (h : parseJournal t display = .ok (es ++ [e])) :
    depthAfter 0 (rawLines t) = depthAfter 0 (rawLines e.body) := by
  obtain ⟨P, bs, hc, htop⟩ := exists_blocks h
  obtain ⟨keywords, declared, -, -, -, -, hreads⟩ := (parseJournal_eq_ok_iff hc htop).mp h
  obtain ⟨bs, bs', rfl, -, hlast⟩ := Outline.forall₂_append_right_iff.mp hreads
  obtain ⟨b, rfl, n, hn, hread⟩ : ∃ b, bs' = [b] ∧ b.Reads declared display e := by
    cases hlast with
    | cons hb hrest =>
        cases hrest
        exact ⟨_, rfl, hb⟩
  obtain ⟨_, _, ps, body, -, -, hr, rfl⟩ := Chunk.exact_eq_some_iff.mp hn
  obtain ⟨hdr, hhdr, hquiet⟩ := readPairs_quiet hr
  have hchunks : chunksOf t = (P, Segment.join bs ++ b.1 :: b.2) := by simpa using hc
  have hfront := front_of_chunksOf hchunks
  obtain ⟨hraw, -, hheads⟩ := (chunksOf_eq_iff _ _ _).mp hchunks
  have htitle : isHead 0 b.1.1 = true := hheads.isHead b.1 (by simp)
  have hsplit : rawLines t =
      (P ++ Segment.join (Segment.join bs)) ++ ((b.1.1 :: hdr) ++ (body ++ Segment.join b.2)) := by
    rw [hraw, Segment.join_append, Segment.join_cons, hhdr]
    simp
  have hrest := rawLines_suffix (hsplit.trans (List.append_assoc _ _ _).symm)
  rw [(readJournalEntry_eq_ok_iff.mp hread).body, depthAfter_trim, ← List.flatten_append, hrest,
    hsplit, depthAfter_append, hfront.depth, depthAfter_append, depthAfter_cons,
    (isHead_zero htitle).2.1, hquiet]

/-! ### Another value of a property -/

/-- The entry with a property set. -/
def JournalEntry.set (entry : JournalEntry) (key value : Text) : JournalEntry :=
  { entry with extras := setPair key value entry.extras }

/-- **Reading the pairs with one of them set.** -/
theorem EntryOf.set {pairs : List (Text × Text)} {body key value : Text} {e : JournalEntry}
    (h : EntryOf pairs body e) (hown : key ∉ requiredKeys)
    (hkey : TxEntry.validatePropertyKey key = .ok ())
    (hvalue : TxEntry.validatePropertyValue key value = .ok ()) :
    EntryOf (setPair key value pairs) body (e.set key value) := by
  have hother {other v : Text} (hmem : other ∈ requiredKeys) (hv : pairValue other pairs = some v) :
      pairValue other (setPair key value pairs) = some v := by
    have hne : other ≠ key := by
      rintro rfl
      exact hown hmem
    rw [pairValue_setPair_of_ne hne, hv]
  refine ⟨firstRepeated_setPair h.keys (by simp), hother (by decide) h.entryId,
    hother (by decide) h.time, hother (by decide) h.ty, hother (by decide) h.actor,
    hother (by decide) h.machine, ?_, h.body, JournalEntry.validate_setPair h.valid hkey hvalue hown⟩
  rw [JournalEntry.set, h.extras]
  exact (filter_setPair (p := fun key => key ∉ requiredKeys) hown pairs).symm

/-- **The value of a property of a chunk is replaced.** -/
theorem exists_replaced {t key value : Text} {declared P : List Text} {as bs : List Chunk} {m : Chunk}
    {info : HeadingInfo} (hc : chunksOf t = (P, as ++ m :: bs))
    (hread : readHeading declared (frontText P as).length m = some info) {e : PropertyEntry}
    (he : (info.propertyEntries.find? fun e => e.key = key) = some e) (hkey : IsKey key)
    (hvalue : trim value = value) (hline : '\n' ∉ value) :
    ∃ m' : Chunk, chunksOf (replaceRange t e.valueSpan value) = (P, as ++ m' :: bs) ∧ m'.1 = m.1 ∧
      ∀ n, m.exact declared = some n →
        m'.exact declared = some { n with properties := setPair key value n.properties } := by
  obtain ⟨level, parsed, properties, b, body, -, -, hr, rfl⟩ := readHeading_eq_some_iff.mp hread
  obtain ⟨d, rfl⟩ : ∃ d, properties = some d := by
    cases properties with
    | none => simp [HeadingInfo.propertyEntries] at he
    | some d => exact ⟨d, rfl⟩
  obtain ⟨title, rs⟩ := m
  obtain ⟨opening, ds, last, rfl, hopens, hends, hes, -⟩ := readProperties_drawer hr
  obtain ⟨hterm, hhead, hrest⟩ := drawer_tail hc hopens hes
  have hlast : '\n' ∉ last ∨ Terminated last :=
    rawLine_cases (t := t) (by rw [((chunksOf_eq_iff _ _ _).mp hc).1]; simp)
  obtain ⟨s⟩ := exists_entrySet hkey hvalue hline (fun l hl => hterm l (by simp [hl])) hes hends hlast
  have hfront : ∀ l ∈ [title, opening], Terminated l := fun l hl => hterm l (by
    rcases List.mem_pair.mp hl with rfl | rfl <;> simp)
  have hends' : trim s.last' = ":END:".toList := by
    rw [← trim_blank_append s.blank, ← s.unindented, hends]
  obtain ⟨hspan, hnew⟩ := s.replaced e he
  rw [s.unindented, List.append_assoc] at hrest
  have hrest' := chunksOf_unindented s.blank s.newline (s.unindented ▸ hends) hrest
  refine ⟨(title, opening :: (s.ds' ++ s.last' :: body)), ?_, rfl, ?_⟩
  · have hfits := Drawer.chunksOf_text (D := ⟨P, as, title, opening, s.last', body, bs,
      front_of_chunksOf hc, hfront, hhead, hopens, hends', hrest'⟩) ⟨s.terminated, s.entries⟩
    have hplace := front_of_chunksOf hc
    have hbefore : t = (frontText P as ++ title ++ opening ++ s.before) ++ s.old ++
        (s.behind ++ (body.flatten ++ (Segment.join bs).flatten)) := by
      conv_lhs => rw [text_of_chunksOf hc, text_drawerChunk, s.text]
      simp only [List.append_assoc]
    have hstart : e.valueSpan = ⟨(frontText P as ++ title ++ opening ++ s.before).length,
        (frontText P as ++ title ++ opening ++ s.before).length + s.old.length⟩ := by
      rw [hspan]
      simp only [List.length_append, Nat.add_assoc]
    have hafter : s.ds'.flatten ++ (s.last' ++ (body.flatten ++ (Segment.join bs).flatten)) =
        s.before ++ (value ++ (s.behind ++ (body.flatten ++ (Segment.join bs).flatten))) := by
      rw [← List.append_assoc, s.text', hnew]
      simp only [List.append_assoc]
    have htext : replaceRange t e.valueSpan value = Drawer.text ⟨P, as, title, opening, s.last', body,
        bs, hplace, hfront, hhead, hopens, hends', hrest'⟩ s.ds' := by
      rw [Drawer.text, hafter, hstart]
      conv_lhs => rw [hbefore, replaceRange_append_three]
      simp only [List.append_assoc]
    rw [htext, hfits]
    rfl
  · intro n hn
    obtain ⟨_, _, ps, body', -, -, hpairs, rfl⟩ := Chunk.exact_eq_some_iff.mp hn
    rw [readPairs_of_readProperties hr, Option.some.injEq, Prod.mk.injEq] at hpairs
    obtain ⟨rfl, rfl⟩ := hpairs
    obtain ⟨_, _, hnew'⟩ := readProperties_of_entries hopens hends' body s.entries
    have hpairs' := readPairs_of_readProperties hnew'
    rw [show drawerPairs (some ⟨s.es', _⟩) = s.es'.map PropertyEntry.pair from rfl, s.pairs]
      at hpairs'
    exact Chunk.exact_same_title (title, opening :: (s.ds' ++ s.last' :: body)) hn rfl hpairs'

/-! ### Headings of a journal -/

/-- The pairs of a heading are those of an entry. -/
def HeadingOf (h : Heading) (e : JournalEntry) : Prop :=
  ∃ body, EntryOf (h.propertyEntries.map PropertyEntry.pair) body e

theorem headingOf_of_read {content display : Text} {hs : List Heading} {es : List JournalEntry}
    (h : readJournalEntries content display hs = .ok es) : List.Forall₂ HeadingOf hs es := by
  induction hs generalizing es with
  | nil =>
      obtain rfl := Except.ok.inj h
      exact .nil
  | cons g hs ih =>
      rw [readJournalEntries] at h
      split at h
      · cases h
      · next e hread =>
          split at h
          · cases h
          · next es hrest =>
              obtain rfl := Except.ok.inj h
              exact .cons ⟨_, readJournalEntry_eq_ok_iff.mp hread⟩ (ih hrest)

/-- The headings of a journal, under whatever name it is parsed. -/
theorem headings_of_journal {t display file : Text} {es : List JournalEntry} {f : OrgFile}
    (h : parseJournal t display = .ok es) (hf : OrgFile.parse t file = .ok f) :
    List.Forall₂ HeadingOf f.headings es := by
  obtain ⟨P, bs, hc, htop⟩ := exists_blocks h
  obtain ⟨keywords, declared, hk, -, -, -, hreads⟩ := (parseJournal_eq_ok_iff hc htop).mp h
  have hdeclared : f.declared = declared := by
    obtain ⟨-, hflat, -, -⟩ := readFlat_of_parse hf
    obtain ⟨declared', hk', -, -⟩ := (readFlat_eq_some_iff _ _ _).mp hflat
    obtain rfl : declared' = f.declared := readKeywords_declared rfl hk'
    rw [hc, hk, Option.some.injEq, Prod.mk.injEq] at hk'
    exact hk'.2.symm
  exact headingOf_of_read ((readJournalEntries_of_parse hf hc htop es).mpr (hdeclared ▸ hreads))

theorem HeadingOf.property {h : Heading} {e : JournalEntry} (hh : HeadingOf h e) :
    h.property "TX_ID".toList = some e.entryId ∧ h.property "TYPE".toList = some e.ty ∧
      ∀ key ∉ requiredKeys, h.property key = e.extra? key := by
  obtain ⟨body, hentry⟩ := hh
  refine ⟨?_, ?_, fun key hkey => ?_⟩
  · rw [← pairValue_entries]
    exact hentry.entryId
  · rw [← pairValue_entries]
    exact hentry.ty
  · rw [hentry.extra_eq hkey, pairValue_entries]

/-- The heading of a block in the middle. -/
theorem BlocksAt.split {declared : List Text} {off : ℕ} {hs : List Heading} {bs bs' : List TopBlock}
    {b : TopBlock} (h : BlocksAt declared off hs (bs ++ b :: bs')) : ∃ hs₁ g hs₂,
      hs = hs₁ ++ g :: hs₂ ∧ hs₁.length = bs.length ∧
        readHeading declared (off + (Segment.join (Segment.join bs)).flatten.length) b.1 =
          some g.toHeadingInfo := by
  induction bs generalizing off hs with
  | nil =>
      cases hs with
      | nil => exact h.elim
      | cons g hs => exact ⟨[], g, hs, rfl, rfl, h.2.1⟩
  | cons c bs ih =>
      cases hs with
      | nil => exact h.elim
      | cons g hs =>
          obtain ⟨-, -, -, h⟩ := h
          obtain ⟨hs₁, g', hs₂, rfl, hlen, hread⟩ := ih h
          refine ⟨g :: hs₁, g', hs₂, rfl, by rw [List.length_cons, List.length_cons, hlen], ?_⟩
          rw [text_join_cons, List.length_append, ← Nat.add_assoc]
          exact hread

/-- Is this the comment that is looked for? -/
def IsComment (cid : Text) (e : JournalEntry) : Prop := e.entryId = cid ∧ e.ty = "comment".toList

instance (cid : Text) (e : JournalEntry) : Decidable (IsComment cid e) :=
  inferInstanceAs (Decidable (_ ∧ _))

theorem HeadingOf.found_iff {h : Heading} {e : JournalEntry} (hh : HeadingOf h e) (cid : Text) :
    (decide (h.property "TX_ID".toList = some cid ∧ h.property "TYPE".toList = some "comment".toList)) =
      decide (IsComment cid e) := by
  obtain ⟨hid, hty, -⟩ := hh.property
  rw [decide_eq_decide, hid, hty, Option.some.injEq, Option.some.injEq, IsComment]

theorem exists_entry {hs : List Heading} {es : List JournalEntry} (h : List.Forall₂ HeadingOf hs es)
    {g : Heading} (hg : g ∈ hs) : ∃ e ∈ es, HeadingOf g e := by
  induction h with
  | nil => cases hg
  | cons hb _ ih =>
      obtain rfl | hg := List.mem_cons.mp hg
      · exact ⟨_, List.mem_cons_self, hb⟩
      · obtain ⟨e, he, hge⟩ := ih hg
        exact ⟨e, List.mem_cons_of_mem _ he, hge⟩

/-- A comment that is not there is not resolved. -/
theorem setCommentResolved_absent {t display cid : Text} {es : List JournalEntry}
    (h : parseJournal t display = .ok es) (hno : ∀ e ∈ es, ¬IsComment cid e) (resolved : Bool)
    (out : Text) : setCommentResolved t cid resolved ≠ .ok out := by
  rw [setCommentResolved]
  cases hf : OrgFile.parse t journalFile with
  | error e => simp
  | ok f =>
      have hheads := headings_of_journal h hf
      have hnone : f.headings.find? (fun g => decide (g.property "TX_ID".toList = some cid ∧
          g.property "TYPE".toList = some "comment".toList)) = none := by
        refine List.find?_eq_none.mpr fun g hg => ?_
        obtain ⟨e, he, hge⟩ := exists_entry hheads hg
        rw [hge.found_iff, decide_eq_true_iff]
        exact hno e he
      simp only [hnone]
      exact nofun

/-- **Resolving a comment** sets its property and nothing else. -/
theorem parseJournal_set {t cid : Text} {es es' : List JournalEntry} {e : JournalEntry}
    (h : parseJournal t journalFile = .ok (es ++ e :: es')) (hno : ∀ x ∈ es, ¬IsComment cid x)
    (he : IsComment cid e) (hres : (e.extra? "RESOLVED".toList).isSome = true) (resolved : Bool) :
    ∃ out, setCommentResolved t cid resolved = .ok out ∧ parseJournal out journalFile =
      .ok (es ++ e.set "RESOLVED".toList (boolText resolved) :: es') := by
  obtain ⟨P, bs, hc, htop⟩ := exists_blocks h
  obtain ⟨keywords, declared, hk, hd, hnodes, hstepped, hreads⟩ := (parseJournal_eq_ok_iff hc htop).mp h
  obtain ⟨f, hf⟩ : ∃ f, OrgFile.parse t journalFile = .ok f := by
    rw [parseJournal] at h
    split_ifs at h with hblank
    · simp at h
    · split at h
      · cases h
      · next f hf => exact ⟨f, hf⟩
  have hheads := headings_of_journal h hf
  obtain ⟨hjoin, hat⟩ := blocksAt_of_parse hf
  rw [hc, topBlocks_join htop] at hat
  obtain ⟨bs₁, bs₂, rfl, hreads₁, hreads₂⟩ := Outline.forall₂_append_right_iff.mp hreads
  obtain ⟨b, bs₂, rfl, hb, hreads₂⟩ : ∃ b bs₂', bs₂ = b :: bs₂' ∧ b.Reads declared journalFile e ∧
      List.Forall₂ (TopBlock.Reads declared journalFile) bs₂' es' := by
    cases hreads₂ with
    | cons hb hrest => exact ⟨_, _, rfl, hb, hrest⟩
  obtain ⟨hs₁, g, hs₂, hhs, hlen, hread⟩ := hat.split
  have hlen' : hs₁.length = es.length := hlen.trans hreads₁.length_eq
  rw [hhs] at hheads
  obtain ⟨as, as', hsplit, hheads₁, hheads₂⟩ := Outline.forall₂_append_right_iff.mp hheads
  obtain ⟨rfl, rfl⟩ := List.append_inj hsplit (hlen'.trans hheads₁.length_eq.symm)
  obtain ⟨hg, -⟩ := List.forall₂_cons.mp hheads₂
  -- the heading that is found is the one of the entry
  have hfound : f.headings.find? (fun g => decide (g.property "TX_ID".toList = some cid ∧
      g.property "TYPE".toList = some "comment".toList)) = some g := by
    rw [hhs, List.find?_append, List.find?_eq_none.mpr, Option.none_or]
    · exact List.find?_cons_of_pos (by rw [hg.found_iff]; exact decide_eq_true he)
    · intro x hx
      obtain ⟨y, hy, hxy⟩ := exists_entry hheads₁ hx
      rw [hxy.found_iff, decide_eq_true_iff]
      exact hno y hy
  obtain ⟨v, hv⟩ := Option.isSome_iff_exists.mp hres
  have hprop := hg.property.2.2 "RESOLVED".toList (by decide)
  rw [hv] at hprop
  obtain ⟨p, hp, -⟩ := Option.map_eq_some_iff.mp hprop
  have hdeclared : f.declared = declared := by
    obtain ⟨-, hflat, -, -⟩ := readFlat_of_parse hf
    obtain ⟨declared', hk', -, -⟩ := (readFlat_eq_some_iff _ _ _).mp hflat
    obtain rfl : declared' = f.declared := readKeywords_declared rfl hk'
    rw [hc, hk, Option.some.injEq, Prod.mk.injEq] at hk'
    exact hk'.2.symm
  have hchunks : chunksOf t = (P, Segment.join bs₁ ++ b.1 :: (b.2 ++ Segment.join bs₂)) := by
    simpa using hc
  have hplace : P.flatten.length + (Segment.join (Segment.join bs₁)).flatten.length =
      (frontText P (Segment.join bs₁)).length := by
    rw [frontText, List.flatten_append, List.length_append]
  have hread : readHeading declared (frontText P (Segment.join bs₁)).length b.1 =
      some g.toHeadingInfo := by
    rw [← hplace, ← hdeclared]
    exact hread
  have hkey : IsKey "RESOLVED".toList := ⟨by decide, by decide, by decide, by decide⟩
  have hbool : trim (boolText resolved) = boolText resolved ∧ '\n' ∉ boolText resolved ∧
      TxEntry.validatePropertyValue "RESOLVED".toList (boolText resolved) = .ok () := by
    cases resolved with
    | false => decide
    | true => decide
  obtain ⟨m', hout, htitle, hexact⟩ :=
    exists_replaced hchunks hread hp hkey hbool.1 hbool.2.1
  obtain ⟨n, hn, hentry⟩ := hb
  refine ⟨replaceRange t p.valueSpan (boolText resolved), ?_, ?_⟩
  · rw [setCommentResolved, hf]
    simp only [hfound, hp]
  · have hlevel : Chunk.level m' = Chunk.level b.1 := by rw [Chunk.level, htitle, Chunk.level]
    have hnew : TopBlock.Reads declared journalFile (m', b.2)
        (e.set "RESOLVED".toList (boolText resolved)) := by
      refine ⟨_, hexact n hn, readJournalEntry_eq_ok_iff.mpr ?_⟩
      exact (readJournalEntry_eq_ok_iff.mp hentry).set (by decide) (by decide) hbool.2.2
    have hjoin' : Segment.join bs₁ ++ m' :: (b.2 ++ Segment.join bs₂) =
        Segment.join (bs₁ ++ (m', b.2) :: bs₂) := by simp
    have hold : Segment.join (bs₁ ++ b :: bs₂) =
        Segment.join bs₁ ++ b.1 :: (b.2 ++ Segment.join bs₂) := by simp
    rw [hold] at hnodes hstepped
    obtain ⟨htop₁, htopb, htop₂⟩ : (∀ x ∈ bs₁, TopBlock.IsTop x) ∧ b.IsTop ∧
        ∀ x ∈ bs₂, TopBlock.IsTop x := by
      simpa [or_imp, forall_and] using htop
    have htop' : ∀ x ∈ bs₁ ++ (m', b.2) :: bs₂, TopBlock.IsTop x :=
      List.forall_mem_append.mpr ⟨htop₁, List.forall_mem_cons.mpr
        ⟨⟨hlevel.trans htopb.1, htopb.2⟩, htop₂⟩⟩
    refine (parseJournal_eq_ok_iff (hjoin' ▸ hout) htop').mpr ⟨keywords, declared, hk, hd, ?_, ?_,
      List.rel_append hreads₁ (.cons hnew hreads₂)⟩
    · rw [← hjoin']
      intro c hmem
      rcases List.mem_append.mp hmem with hmem | hmem
      · exact hnodes c (List.mem_append_left _ hmem)
      · rcases List.mem_cons.mp hmem with rfl | hmem
        · exact ⟨_, hexact n hn⟩
        · exact hnodes c (List.mem_append_right _ (List.mem_cons_of_mem _ hmem))
    · rw [← hjoin', List.map_append, List.map_cons, hlevel]
      rw [List.map_append, List.map_cons] at hstepped
      exact hstepped

end Orgasmic
