import Orgasmic.ArtifactComments

/-! # Comments survive the journal

Over a run of appends, resolutions and consumptions from the empty text.

* **Prose.** An escaped message has neither headings nor directives, so that the entries after it
  stand (`Thread.append`).
* **Runs.** `Thread` holds the entries of the text that is reached; each call does to them what it
  says (`thread_of_run`).
* **Records.** `comments_kept_iff`: the thread that is read is the one that was written unless a
  message loses by its first line. -/

namespace Orgasmic

open Text

/-! ### Runs -/

inductive CommentCall where
  | append (artId : Text) (comment : NewComment) (time machine : Text)
  | setResolved (cid : Text) (resolved : Bool)
  | consumeAll
deriving DecidableEq

namespace CommentCall

def apply (current : Text) : CommentCall → Option Text
  | .append artId comment time machine => (appendComment current artId comment time machine).toOption
  | .setResolved cid resolved => (setCommentResolved current cid resolved).toOption
  | .consumeAll => (consumeAllOpenComments current).toOption

/-- The comment that the call appends, with its time, if the journal takes it. -/
def appended? : CommentCall → Option (NewComment × Text)
  | .append _ comment time machine =>
      if (commentJournalEntry comment time machine).validate = .ok () then some (comment, time) else none
  | _ => none

/-- The value that the call sets for this comment. -/
def setting? (cid : Text) : CommentCall → Option Bool
  | .setResolved id resolved => if id = cid then some resolved else none
  | _ => none

/-- The id of the artifact is on one line. -/
def OneLineId : CommentCall → Prop
  | .append artId _ _ _ => '\n' ∉ artId
  | _ => True

instance (call : CommentCall) : Decidable call.OneLineId := by
  cases call <;> unfold OneLineId <;> infer_instance

end CommentCall

/-- The journal after these calls; a call that fails leaves the text. -/
def journalAfter (calls : List CommentCall) : Text :=
  calls.foldl (fun current call => (call.apply current).getD current) []

/-- The value that was last set for this comment. -/
def resolvedBy (cid : Text) (calls : List CommentCall) : Bool :=
  (calls.filterMap (CommentCall.setting? cid)).getLast?.getD false

/-- The thread that these calls write, with `read` for what a message reads as: one record for each
comment that is appended, resolved and consumed as the calls after it say. -/
def threadOf (read : Text → Text) : List CommentCall → List CommentRecord
  | [] => []
  | call :: after =>
      match call.appended? with
      | none => threadOf read after
      | some (comment, time) =>
          { cid := trim comment.cid, author := trim comment.author, time := trim time
            version := comment.version, anchor := trim comment.anchor
            resolutionTarget := trim comment.resolutionTarget, replyTo := trim comment.replyTo
            resolved := resolvedBy (trim comment.cid) after
            consumed := CommentCall.consumeAll ∈ after
            message := read comment.message } :: threadOf read after

/-- The comments that were appended. -/
def appendedComments (calls : List CommentCall) : List NewComment :=
  calls.filterMap fun call => call.appended?.map Prod.fst

/-! ### The prose of a comment -/

theorem inert_of_not {line : Text} (h : commentLineNeedsEscape line = false) :
    (∀ v, line ≠ '*' :: v) ∧ startsBlock line = false ∧ endsBlock line = false := by
  cases line with
  | nil => exact ⟨nofun, by decide, by decide⟩
  | cons c line =>
      by_cases hcomma : c = ','
      · subst hcomma
        obtain ⟨hb, he⟩ := not_block_of_trimStart (trimStart_cons_of_not_ws (by decide) line)
          (show (',' : Char).toLower ≠ '#' by decide)
        exact ⟨fun v hv => absurd (List.cons.inj hv).1 (by decide), hb, he⟩
      · have hdrop : (c :: line).dropWhile (· = ',') = c :: line :=
          List.dropWhile_cons_of_neg (by simpa using hcomma)
        rw [needsEscape_eq hdrop, Bool.or_eq_false_iff, Bool.or_eq_false_iff,
          decide_eq_false_iff_not, List.head?_cons, Option.some.injEq] at h
        exact ⟨fun v hv => h.1 (List.cons.inj hv).1, h.2⟩

/-- An escaped line is no heading and opens no block. -/
theorem escapeLine_inert (line : Text) :
    (∀ v, escapeCommentLine line ≠ '*' :: v) ∧ ∀ d, lineDepth d (escapeCommentLine line) = d := by
  cases h : commentLineNeedsEscape line with
  | true =>
      rw [escapeCommentLine, if_pos h]
      exact ⟨fun v hv => absurd (List.cons.inj hv).1 (by decide), fun d => lineDepth_comma d line⟩
  | false =>
      obtain ⟨hstar, hb, he⟩ := inert_of_not h
      rw [escapeLine_of_not h]
      refine ⟨hstar, fun d => ?_⟩
      have hcontent : trim (content line) = trim line := trim_content line
      have hstarts : ∀ t, startsBlock t = "#+begin_".toList.isPrefixOf (toAsciiLowercase (trim t)) :=
        fun t => isPrefixOf_lower_trim (inked (by decide)) t
      have hends : ∀ t, endsBlock t = "#+end_".toList.isPrefixOf (toAsciiLowercase (trim t)) :=
        fun t => isPrefixOf_lower_trim (inked (by decide)) t
      refine blockDepth_of_not_block ⟨?_, ?_⟩ d
      · rw [hstarts, hcontent, ← hstarts, hb]
      · rw [hends, hcontent, ← hends, he]

/-- The lines of an escaped message, the last one perhaps with a line feed behind it. -/
theorem escape_lines (message : Text) {e : Text} (he : e = [] ∨ e = ['\n']) :
    ∀ r ∈ rawLines (escapeCommentMessage message ++ e),
      headingLevel (content r) = none ∧ ∀ d, lineDepth d r = d := by
  have hline (b : Text) : headingLevel (content (escapeCommentLine b ++ ['\n'])) = none ∧
      ∀ d, lineDepth d (escapeCommentLine b ++ ['\n']) = d := by
    obtain ⟨hstar, hdepth⟩ := escapeLine_inert b
    refine ⟨headingLevel_of_no_star fun v hv => ?_, fun d => by rw [lineDepth_lineFeed, hdepth]⟩
    cases hb : escapeCommentLine b with
    | nil =>
        rw [hb] at hv
        exact absurd (List.cons.inj hv).1 (by decide)
    | cons c u =>
        rw [hb, List.cons_append] at hv
        exact hstar u (by rw [hb, (List.cons.inj hv).1])
  induction message using lineInduction with
  | last b hb =>
      rw [escape_last hb]
      have hnl := newline_notMem_escape hb
      obtain rfl | rfl := he
      · rw [List.append_nil]
        intro r hr
        by_cases hnil : escapeCommentLine b = []
        · rw [hnil] at hr
          cases hr
        · rw [rawLines_of_no_newline hnl hnil, List.mem_singleton] at hr
          obtain ⟨hstar, hdepth⟩ := escapeLine_inert b
          rw [hr]
          exact ⟨headingLevel_of_no_star hstar, hdepth⟩
      · intro r hr
        rw [rawLines_line_append hnl] at hr
        obtain rfl : r = escapeCommentLine b ++ ['\n'] := by simpa [rawLines] using hr
        exact hline b
  | line b t hb ih =>
      rw [escape_line hb, List.append_assoc, List.cons_append,
        rawLines_line_append (newline_notMem_escape hb)]
      exact List.forall_mem_cons.mpr ⟨hline b, ih⟩

theorem depthAfter_inert {rs : List Text} (h : ∀ r ∈ rs, ∀ d, lineDepth d r = d) (d : ℕ) :
    depthAfter d rs = d := by
  induction rs generalizing d with
  | nil => rfl
  | cons r rs ih =>
      obtain ⟨hr, hrs⟩ := List.forall_mem_cons.mp h
      rw [depthAfter_cons, hr, ih hrs]

theorem noHead_inert {rs : List Text}
    (h : ∀ r ∈ rs, headingLevel (content r) = none ∧ ∀ d, lineDepth d r = d) : NoHead 0 rs := by
  induction rs with
  | nil => trivial
  | cons r rs ih =>
      obtain ⟨⟨hlevel, hdepth⟩, hrs⟩ := List.forall_mem_cons.mp h
      refine ⟨isHead_eq_false_of_none hlevel 0, ?_⟩
      rw [hdepth]
      exact ih hrs

/-- **An escaped message is prose** without headings. -/
theorem escape_prose (message : Text) : rejectJournalProse (escapeCommentMessage message) = .ok () ∧
    ProseFits (escapeCommentMessage message) ∧
      depthAfter 0 (rawLines (escapeCommentMessage message)) = 0 := by
  have hlines := escape_lines message (.inl rfl)
  rw [List.append_nil] at hlines
  have hnone : proseChunks (escapeCommentMessage message) = [] := by
    have hall := escape_lines message (.inr rfl)
    have hcut : chunksOf (escapeCommentMessage message ++ ['\n']) =
        (rawLines (escapeCommentMessage message ++ ['\n']), []) :=
      (chunksOf_eq_iff _ _ _).mpr ⟨(List.append_nil _).symm, noHead_inert hall, trivial⟩
    rw [proseChunks, hcut]
  refine ⟨?_, ?_, depthAfter_inert (fun r hr => (hlines r hr).2) 0⟩
  · have hfind : (lines (escapeCommentMessage message)).findIdx?
        (fun line => "* ".toList.isPrefixOf line) = none := by
      rw [List.findIdx?_eq_none_iff]
      intro l hl
      obtain ⟨r, hr, rfl⟩ := List.mem_map.mp hl
      rw [Bool.eq_false_iff]
      intro hprefix
      obtain ⟨u, hu⟩ := List.isPrefixOf_iff_prefix.mp hprefix
      have hlevel := (hlines r hr).1
      rw [← hu] at hlevel
      have hone := headingLevel_replicate (n := 1) Nat.one_pos u
      rw [show List.replicate 1 '*' ++ ' ' :: u = "* ".toList ++ u from rfl, hlevel] at hone
      cases hone
    rw [rejectJournalProse, hfind]
  · rw [ProseFits, hnone]
    exact ⟨trivial, by simp⟩

/-! ### The header -/

/-- A directive whose key is read off its text. -/
theorem parseKeywordLine_append {key : Text} (hcolon : ':' ∉ key) (hkey : trim key ≠ [])
    (value : Text) : parseKeywordLine (key ++ ':' :: value) =
      some (trim key, trim (trimEndMatches '\r' value)) := by
  rw [parseKeywordLine, trimEndMatches_append (by decide), splitOnce_append hcolon]
  exact if_neg hkey

/-- A journal with nothing but its header has no entries. -/
theorem parseJournal_header {artId : Text} (h : '\n' ∉ artId) (display : Text) :
    parseJournal (journalHeader artId) display = .ok [] ∧
      depthAfter 0 (rawLines (journalHeader artId)) = 0 := by
  let title : Text := "#+title: orgasmic journal ".toList ++ artId ++ ['\n']
  let version : Text := "#+orgasmic_version: 2\n".toList
  have hraw : rawLines (journalHeader artId) = [title, version] := by
    have hnl : '\n' ∉ "#+title: orgasmic journal ".toList ++ artId := by
      rw [List.mem_append, not_or]
      exact ⟨by decide, h⟩
    have hlines := rawLines_line_append hnl version
    rw [show rawLines version = [version] by decide] at hlines
    rw [← hlines]
    congr 1
    show "#+title: orgasmic journal ".toList ++ artId ++ ['\n'] ++ version = _
    simp
  -- the title line is a directive whatever the id is
  obtain ⟨x, hx⟩ : ∃ x, content title = "#+title".toList ++ ':' :: x :=
    ⟨_, (congrArg content (show title = "#+title".toList ++ ':' ::
      (" orgasmic journal ".toList ++ artId ++ ['\n']) by simp [title])).trans
        (content_append (by decide) (by decide) _)⟩
  have hstart : trimStart (content title) = '#' :: ("+title".toList ++ ':' :: x) := by
    rw [hx]
    exact trimStart_cons_of_not_ws (by decide) _
  have hprefix : "#+".toList.isPrefixOf? ('#' :: ("+title".toList ++ ':' :: x)) =
      some ("title".toList ++ ':' :: x) := rfl
  have hversion : ∀ off keywords, readKeywords off keywords [] [version] =
      some (keywords ++ [⟨"orgasmic_version".toList, "2".toList, (spanAt off version).full⟩], []) :=
    fun off keywords => rfl
  obtain ⟨keywords, hk⟩ : ∃ keywords, readKeywords 0 [] [] [title, version] = some (keywords, []) := by
    rw [readKeywords, hstart, hprefix]
    simp only
    rw [parseKeywordLine_append (by decide) (by decide), Option.bind_some]
    have hdeclared : declaredBy (trim "title".toList) (trim (trimEndMatches '\r' x)) = [] :=
      if_neg (by decide)
    rw [hdeclared, List.append_nil, hversion]
    exact ⟨_, rfl⟩
  have hinert : ∀ r ∈ [title, version], headingLevel (content r) = none ∧
      ∀ d, lineDepth d r = d := by
    have hown {r u : Text} (hr : content r = "#+title".toList ++ u ∨
        content r = "#+orgasmic_version".toList ++ u) :
        headingLevel (content r) = none ∧ ∀ d, lineDepth d r = d := by
      have hquiet : startsBlock (content r) = false ∧ endsBlock (content r) = false := by
        obtain hr | hr := hr
        · rw [hr, startsBlock, endsBlock]
          exact ⟨rfl, rfl⟩
        · rw [hr, startsBlock, endsBlock]
          exact ⟨rfl, rfl⟩
      obtain ⟨v, hv⟩ : ∃ v, content r = '#' :: v := hr.elim (fun h => ⟨_, h⟩) fun h => ⟨_, h⟩
      exact ⟨by rw [hv]; exact headingLevel_of_head_ne (by decide) _, blockDepth_of_not_block hquiet⟩
    exact List.forall_mem_cons.mpr ⟨hown (.inl hx), List.forall_mem_singleton.mpr
      (hown (u := ": 2".toList) (.inr (by decide)))⟩
  have hcut : chunksOf (journalHeader artId) = ([title, version], Segment.join []) :=
    (chunksOf_eq_iff _ _ _).mpr ⟨hraw, noHead_inert hinert, trivial⟩
  refine ⟨(parseJournal_eq_ok_iff hcut (by simp)).mpr ⟨keywords, [], hk, by simp, by simp, trivial,
    .nil⟩, ?_⟩
  rw [hraw, depthAfter_inert (fun r hr => (hinert r hr).2)]

/-! ### Threads -/

/-- The text holds these comments. -/
structure Thread (t : Text) (es : List JournalEntry) : Prop where
  read : parseJournal t journalFile = .ok es
  comment : ∀ e ∈ es, e.ty = "comment".toList
  resolvable : ∀ e ∈ es, (e.extra? "RESOLVED".toList).isSome = true
  quiet : ∀ e ∈ es, depthAfter 0 (rawLines e.body) = 0
  start : es = [] → t = []

theorem thread_nil : Thread [] [] := ⟨by decide, by simp, by simp, by simp, fun _ => rfl⟩

namespace Thread

variable {t : Text} {es : List JournalEntry} (h : Thread t es)
include h

/-- The text ends outside of blocks. -/
theorem depth : depthAfter 0 (rawLines t) = 0 := by
  obtain rfl | ⟨es', e, rfl⟩ := List.eq_nil_or_concat' es
  · rw [h.start rfl]
    rfl
  · rw [depth_of_entries h.read, h.quiet e (by simp)]

/-- What is read is the records of the comments. -/
theorem records : parseComments t = es.map commentRecord := by
  have hall : es.filter (fun e => decide (e.ty = "comment".toList)) = es :=
    List.filter_eq_self.mpr fun e he => decide_eq_true (h.comment e he)
  rw [parseComments, h.read]
  exact congrArg (List.map commentRecord) hall

/-- Another text with comments that differ in further properties. -/
theorem of_same {t' : Text} {es' : List JournalEntry}
    (hread : parseJournal t' journalFile = .ok es') (hne : es' ≠ [])
    (hsame : List.Forall₂ (fun e e' => e'.ty = e.ty ∧ e'.body = e.body ∧
      (e'.extra? "RESOLVED".toList).isSome = (e.extra? "RESOLVED".toList).isSome) es es') :
    Thread t' es' := by
  have hall : ∀ e' ∈ es', ∃ e ∈ es, e'.ty = e.ty ∧ e'.body = e.body ∧
      (e'.extra? "RESOLVED".toList).isSome = (e.extra? "RESOLVED".toList).isSome := by
    clear hread hne h
    induction hsame with
    | nil => simp
    | cons hb _ ih =>
        refine List.forall_mem_cons.mpr ⟨⟨_, List.mem_cons_self, hb⟩, fun e' he' => ?_⟩
        obtain ⟨e, he, heq⟩ := ih e' he'
        exact ⟨e, List.mem_cons_of_mem _ he, heq⟩
  refine ⟨hread, fun e' he' => ?_, fun e' he' => ?_, fun e' he' => ?_, fun hnil => absurd hnil hne⟩
  · obtain ⟨e, he, hty, -, -⟩ := hall e' he'
    rw [hty, h.comment e he]
  · obtain ⟨e, he, -, -, hres⟩ := hall e' he'
    rw [hres, h.resolvable e he]
  · obtain ⟨e, he, -, hbody, -⟩ := hall e' he'
    rw [hbody, h.quiet e he]

/-- **A comment is appended.** -/
theorem append {artId : Text} (hid : '\n' ∉ artId) {comment : NewComment} {time machine : Text}
    (hvalid : (commentJournalEntry comment time machine).validate = .ok ()) : ∃ out,
    appendComment t artId comment time machine = .ok out ∧
      Thread out (es ++ [(commentJournalEntry comment time machine).trimmed]) := by
  obtain ⟨hprose, hfits, hquiet⟩ := escape_prose comment.message
  obtain ⟨base, hbase, hread, hdepth⟩ : ∃ base, (if t = [] then journalHeader artId else t) = base ∧
      parseJournal base journalFile = .ok es ∧ depthAfter 0 (rawLines base) = 0 := by
    by_cases hnil : t = []
    · obtain ⟨hheader, hdepth⟩ := parseJournal_header hid journalFile
      have hes : es = [] := by
        have hread := h.read
        rw [hnil] at hread
        exact (Except.ok.inj (thread_nil.read.symm.trans hread)).symm
      exact ⟨_, rfl, by rw [if_pos hnil, hes, hheader], by rw [if_pos hnil, hdepth]⟩
    · exact ⟨_, rfl, by rw [if_neg hnil, h.read], by rw [if_neg hnil, h.depth]⟩
  have happend : parseJournal (base ++ journalEntryBlock (commentJournalEntry comment time machine))
      journalFile = .ok (es ++ [(commentJournalEntry comment time machine).trimmed]) :=
    (parseJournal_append_iff hread hdepth hvalid hprose).mpr ⟨hfits, rfl⟩
  refine ⟨base ++ journalEntryBlock (commentJournalEntry comment time machine), ?_, happend, ?_, ?_, ?_,
    by simp⟩
  · simp only [appendComment, hvalid, appendEntry, hbase]
  · refine List.forall_mem_append.mpr ⟨h.comment, List.forall_mem_singleton.mpr ?_⟩
    show trim "comment".toList = "comment".toList
    decide
  · refine List.forall_mem_append.mpr ⟨h.resolvable, List.forall_mem_singleton.mpr ?_⟩
    rfl
  · refine List.forall_mem_append.mpr ⟨h.quiet, List.forall_mem_singleton.mpr ?_⟩
    exact (depthAfter_trim 0 (escapeCommentMessage comment.message)).trans hquiet

/-- **The open comments are consumed.** -/
theorem consume : ∃ out, consumeAllOpenComments t = .ok out ∧
    Thread out (es.map JournalEntry.consumed) := by
  by_cases hnil : es = []
  · subst hnil
    obtain rfl := h.start rfl
    exact ⟨[], by decide, h⟩
  · have hread := h.read
    rw [parseJournal] at hread
    split_ifs at hread with hblank
    · exact absurd (Except.ok.inj hread).symm hnil
    · split at hread
      · cases hread
      · next f hf =>
          obtain ⟨out, hout, hentries, -⟩ := consumed_of_parse hblank hf hread
          refine ⟨out, by rw [consumeAllOpenComments, hout]; rfl, ?_⟩
          refine h.of_same hentries (by simpa using hnil) ?_
          rw [List.forall₂_map_right_iff, List.forall₂_same]
          intro e _
          rw [JournalEntry.consumed]
          split_ifs
          · refine ⟨rfl, rfl, ?_⟩
            rw [JournalEntry.extra?, JournalEntry.extra?, find_setPair_of_ne (by decide)]
          · exact ⟨rfl, rfl, rfl⟩

/-- **A comment is resolved** or opened again. -/
theorem set (hdistinct : (es.map JournalEntry.entryId).Nodup) {cid : Text}
    (hmem : cid ∈ es.map JournalEntry.entryId) (resolved : Bool) : ∃ out,
    setCommentResolved t cid resolved = .ok out ∧ Thread out (es.map fun e =>
      if e.entryId = cid then e.set "RESOLVED".toList (boolText resolved) else e) := by
  obtain ⟨e, he, rfl⟩ := List.mem_map.mp hmem
  obtain ⟨pre, post, rfl⟩ := List.append_of_mem he
  rw [List.map_append, List.map_cons, List.nodup_append', List.nodup_cons] at hdistinct
  obtain ⟨-, ⟨hpost, -⟩, hpre⟩ := hdistinct
  have hpre' : ∀ x ∈ pre, x.entryId ≠ e.entryId := fun x hx heq =>
    hpre (List.mem_map_of_mem hx) (heq ▸ List.mem_cons_self)
  have hpost' : ∀ x ∈ post, x.entryId ≠ e.entryId := fun x hx heq =>
    hpost (heq ▸ List.mem_map_of_mem hx)
  obtain ⟨out, hout, hread⟩ := parseJournal_set h.read (fun x hx hc => hpre' x hx hc.1)
    ⟨rfl, h.comment e he⟩ (h.resolvable e he) resolved
  have hmap : (pre ++ e :: post).map (fun x =>
      if x.entryId = e.entryId then x.set "RESOLVED".toList (boolText resolved) else x) =
        pre ++ e.set "RESOLVED".toList (boolText resolved) :: post := by
    rw [List.map_append, List.map_cons, if_pos rfl,
      List.map_congr_left (fun x hx => if_neg (hpre' x hx)), List.map_id',
      List.map_congr_left (fun x hx => if_neg (hpost' x hx)), List.map_id']
  refine ⟨out, hout, ?_⟩
  rw [hmap]
  refine h.of_same hread (by simp) ?_
  rw [← hmap, List.forall₂_map_right_iff, List.forall₂_same]
  intro x hx
  split_ifs
  · refine ⟨rfl, rfl, ?_⟩
    rw [JournalEntry.set, JournalEntry.extra?, find_setPair_self, h.resolvable x hx]
    rfl
  · exact ⟨rfl, rfl, rfl⟩

end Thread

/-! ### Records -/

theorem parseU32_versionText (version : UInt32) : parseU32 (versionText version) = some version := by
  have hdigit {c : Char} (h : c ∈ versionText version) : c.isDigit :=
    Nat.isDigit_of_mem_toDigits (by omega) (by omega) h
  have hvalue : Nat.ofDigitChars 10 (versionText version) 0 = version.toNat :=
    Nat.ofDigitChars_ten_toDigits
  have hplus : (versionText version).head? ≠ some '+' := fun h =>
    absurd (hdigit (List.mem_of_head? h)) (by decide)
  unfold parseU32
  rw [if_neg hplus]
  dsimp only
  rw [hvalue, if_pos ⟨Nat.toDigits_ne_nil, List.all_eq_true.mpr fun _ => hdigit, version.toNat_lt⟩,
    UInt32.ofNat_toNat]

theorem trim_versionText (version : UInt32) : trim (versionText version) = versionText version :=
  trim_of_inked fun _ hc =>
    not_whitespace_of_isDigit (Nat.isDigit_of_mem_toDigits (by omega) (by omega) hc)

/-- The record of a new comment. -/
theorem commentRecord_appended (comment : NewComment) (time machine : Text) :
    commentRecord (commentJournalEntry comment time machine).trimmed =
      { cid := trim comment.cid, author := trim comment.author, time := trim time
        version := comment.version, anchor := trim comment.anchor
        resolutionTarget := trim comment.resolutionTarget, replyTo := trim comment.replyTo
        resolved := false, consumed := false
        message := trimAndUnescapeCommentBody (trim (escapeCommentMessage comment.message)) } := by
  have hversion : (commentJournalEntry comment time machine).trimmed.extra? "VERSION".toList =
      some (trim (versionText comment.version)) := rfl
  rw [commentRecord, hversion, trim_versionText, Option.bind_some, parseU32_versionText]
  rfl

theorem commentRecord_set (e : JournalEntry) (resolved : Bool) :
    commentRecord (e.set "RESOLVED".toList (boolText resolved)) =
      { commentRecord e with resolved := resolved } := by
  have hother {key : Text} (hne : key ≠ "RESOLVED".toList) :
      (e.set "RESOLVED".toList (boolText resolved)).extra? key = e.extra? key := by
    rw [JournalEntry.extra?, JournalEntry.set, find_setPair_of_ne hne, JournalEntry.extra?]
  have hown : (e.set "RESOLVED".toList (boolText resolved)).extra? "RESOLVED".toList =
      some (boolText resolved) := by
    rw [JournalEntry.extra?, JournalEntry.set, find_setPair_self]
    rfl
  have hbool : decide (some (boolText resolved) = some "true".toList) = resolved := by
    cases resolved with
    | false => decide
    | true => decide
  rw [commentRecord, hother (by decide), hother (by decide), hother (by decide), hother (by decide),
    hown, hbool, hother (by decide)]
  rfl

theorem commentRecord_consumed {e : JournalEntry} (hty : e.ty = "comment".toList) :
    commentRecord e.consumed = { commentRecord e with consumed := true } := by
  by_cases hopen : e.isOpenComment = true
  · have hconsumed : e.consumed = e.set "CONSUMED".toList "true".toList := by
      rw [JournalEntry.consumed, if_pos hopen, JournalEntry.set]
    have hother {key : Text} (hne : key ≠ "CONSUMED".toList) :
        (e.set "CONSUMED".toList "true".toList).extra? key = e.extra? key := by
      rw [JournalEntry.extra?, JournalEntry.set, find_setPair_of_ne hne, JournalEntry.extra?]
    have hown : (e.set "CONSUMED".toList "true".toList).extra? "CONSUMED".toList =
        some "true".toList := by
      rw [JournalEntry.extra?, JournalEntry.set, find_setPair_self]
      rfl
    rw [hconsumed, commentRecord, hother (by decide), hother (by decide), hother (by decide),
      hother (by decide), hother (by decide), hown, decide_eq_true rfl]
    rfl
  · have hdone : e.extra? "CONSUMED".toList = some "true".toList := by
      by_contra hne
      exact hopen (by rw [JournalEntry.isOpenComment, hty, decide_eq_true hne]; rfl)
    rw [JournalEntry.consumed, if_neg hopen, commentRecord, hdone, decide_eq_true rfl]

/-! ### Runs -/

/-- What a call does to a record. -/
def CommentCall.effect : CommentCall → CommentRecord → CommentRecord
  | .setResolved cid resolved, r => if r.cid = cid then { r with resolved := resolved } else r
  | .consumeAll, r => { r with consumed := true }
  | .append .., r => r

/-- A record of a thread before and after one more call. -/
theorem resolvedBy_concat (cid : Text) (calls : List CommentCall) (call : CommentCall) :
    resolvedBy cid (calls ++ [call]) = (call.setting? cid).getD (resolvedBy cid calls) := by
  rw [resolvedBy, List.filterMap_append]
  cases hset : call.setting? cid with
  | none =>
      have hnone : [call].filterMap (CommentCall.setting? cid) = [] := by simp [hset]
      rw [hnone, List.append_nil]
      rfl
  | some resolved =>
      have hone : [call].filterMap (CommentCall.setting? cid) = [resolved] := by simp [hset]
      rw [hone, List.getLast?_concat]
      rfl

/-- **One more call** acts on each record, and appends its own. -/
theorem threadOf_concat (read : Text → Text) (calls : List CommentCall) (call : CommentCall) :
    threadOf read (calls ++ [call]) = (threadOf read calls).map call.effect ++ threadOf read [call] := by
  induction calls with
  | nil => rfl
  | cons c calls ih =>
      rw [List.cons_append, threadOf, threadOf, ih]
      cases c.appended? with
      | none => rfl
      | some p =>
          obtain ⟨comment, time⟩ := p
          simp only [List.map_cons, List.cons_append, resolvedBy_concat]
          congr 1
          cases call with
          | append artId comment' time' machine' => simp [CommentCall.effect, CommentCall.setting?]
          | consumeAll => simp [CommentCall.effect, CommentCall.setting?]
          | setResolved cid resolved =>
              by_cases hcid : cid = trim comment.cid
              · simp [CommentCall.effect, CommentCall.setting?, hcid]
              · simp [CommentCall.effect, CommentCall.setting?, hcid, Ne.symm hcid]

theorem threadOf_cids (read : Text → Text) (calls : List CommentCall) :
    (threadOf read calls).map CommentRecord.cid =
      (appendedComments calls).map fun comment => trim comment.cid := by
  induction calls with
  | nil => rfl
  | cons c calls ih =>
      rw [threadOf, appendedComments, List.filterMap_cons]
      cases c.appended? with
      | none => exact ih
      | some p =>
          rw [List.map_cons, ih]
          rfl

/-- What a message is read back as. -/
def readBack (message : Text) : Text :=
  trimAndUnescapeCommentBody (trim (escapeCommentMessage message))

theorem appendedComments_concat (calls : List CommentCall) (call : CommentCall) :
    appendedComments (calls ++ [call]) = appendedComments calls ++ appendedComments [call] :=
  List.filterMap_append

theorem journalAfter_concat (calls : List CommentCall) (call : CommentCall) :
    journalAfter (calls ++ [call]) =
      (call.apply (journalAfter calls)).getD (journalAfter calls) := by
  rw [journalAfter, List.foldl_append]
  rfl

theorem effect_append (artId : Text) (comment : NewComment) (time machine : Text)
    (rs : List CommentRecord) :
    rs.map (CommentCall.append artId comment time machine).effect = rs := by
  have hid : (CommentCall.append artId comment time machine).effect = id := rfl
  rw [hid, List.map_id]

/-- One call on a thread whose comments have different ids. -/
theorem Thread.call {t : Text} {es : List JournalEntry} (h : Thread t es)
    (hdistinct : (es.map JournalEntry.entryId).Nodup) {call : CommentCall} (hid : call.OneLineId) :
    ∃ es', Thread ((call.apply t).getD t) es' ∧
      es'.map commentRecord = (es.map commentRecord).map call.effect ++ threadOf readBack [call] := by
  cases call with
  | append artId comment time machine =>
      rw [effect_append, threadOf, CommentCall.appended?, CommentCall.apply]
      by_cases hvalid : (commentJournalEntry comment time machine).validate = .ok ()
      · obtain ⟨out, hout, hnext⟩ := h.append hid hvalid
        refine ⟨_, by rw [hout]; exact hnext, ?_⟩
        rw [List.map_append, List.map_singleton, commentRecord_appended, if_pos hvalid]
        rfl
      · obtain ⟨e, he⟩ : ∃ e, (commentJournalEntry comment time machine).validate = .error e := by
          cases hresult : (commentJournalEntry comment time machine).validate with
          | error e => exact ⟨e, rfl⟩
          | ok u => exact absurd hresult hvalid
        refine ⟨es, ?_, ?_⟩
        · simp only [appendComment, he]
          exact h
        · rw [if_neg hvalid]
          exact (List.append_nil _).symm
  | setResolved cid resolved =>
      have hnone : threadOf readBack [CommentCall.setResolved cid resolved] = [] := rfl
      rw [hnone, List.append_nil, CommentCall.apply, List.map_map]
      by_cases hmem : cid ∈ es.map JournalEntry.entryId
      · obtain ⟨out, hout, hnext⟩ := h.set hdistinct hmem resolved
        refine ⟨_, by rw [hout]; exact hnext, ?_⟩
        rw [List.map_map]
        refine List.map_congr_left fun e _ => ?_
        show commentRecord (if e.entryId = cid then _ else e) = CommentCall.effect _ (commentRecord e)
        by_cases hcid : e.entryId = cid
        · have hrecord : (commentRecord e).cid = cid := hcid
          rw [if_pos hcid, commentRecord_set, CommentCall.effect, if_pos hrecord]
        · have hrecord : ¬(commentRecord e).cid = cid := hcid
          rw [if_neg hcid, CommentCall.effect, if_neg hrecord]
      · have hfails : (setCommentResolved t cid resolved).toOption = none := by
          cases hresult : setCommentResolved t cid resolved with
          | error e => rfl
          | ok out =>
              refine absurd hresult (setCommentResolved_absent h.read (fun e he hc => ?_) resolved out)
              exact hmem (hc.1 ▸ List.mem_map_of_mem he)
        refine ⟨es, by rw [hfails]; exact h, List.map_congr_left fun e he => ?_⟩
        have hrecord : ¬(commentRecord e).cid = cid := fun hcid =>
          hmem (hcid ▸ List.mem_map_of_mem he)
        rw [Function.comp_apply, CommentCall.effect, if_neg hrecord]
  | consumeAll =>
      obtain ⟨out, hout, hnext⟩ := h.consume
      refine ⟨_, by rw [CommentCall.apply, hout]; exact hnext, ?_⟩
      have hnone : threadOf readBack [CommentCall.consumeAll] = [] := rfl
      rw [hnone, List.append_nil, List.map_map, List.map_map]
      exact List.map_congr_left fun e he => commentRecord_consumed (h.comment e he)

/-- **The thread of a run**, as it is read back. -/
theorem thread_of_run {calls : List CommentCall} (hids : ∀ call ∈ calls, call.OneLineId)
    (hdistinct : ((appendedComments calls).map fun comment => trim comment.cid).Nodup) :
    ∃ es, Thread (journalAfter calls) es ∧ es.map commentRecord = threadOf readBack calls := by
  induction calls using List.reverseRecOn with
  | nil => exact ⟨[], thread_nil, rfl⟩
  | append_singleton calls call ih =>
      rw [appendedComments_concat, List.map_append, List.nodup_append'] at hdistinct
      obtain ⟨es, hthread, hrecords⟩ :=
        ih (fun c hc => hids c (List.mem_append_left _ hc)) hdistinct.1
      have hcids : es.map JournalEntry.entryId =
          (appendedComments calls).map fun comment => trim comment.cid := by
        rw [← threadOf_cids readBack, ← hrecords, List.map_map]
        rfl
      rw [journalAfter_concat, threadOf_concat, ← hrecords]
      exact hthread.call (hcids ▸ hdistinct.1) (hids call (by simp))

/-- Two threads of a run agree if their messages do. -/
theorem threadOf_eq_iff (read read' : Text → Text) (calls : List CommentCall) :
    threadOf read calls = threadOf read' calls ↔
      ∀ comment ∈ appendedComments calls, read comment.message = read' comment.message := by
  induction calls with
  | nil => simp [threadOf, appendedComments]
  | cons c calls ih =>
      rw [threadOf, threadOf, appendedComments, List.filterMap_cons]
      cases c.appended? with
      | none => exact ih
      | some p =>
          obtain ⟨comment, time⟩ := p
          simp only [Option.map_some, List.cons.injEq, CommentRecord.mk.injEq, true_and,
            List.forall_mem_cons]
          rw [ih]
          rfl

/-- What a message was given as. -/
def asGiven (message : Text) : Text := crlfToLf (trim message)

/-- The thread that is read after a run. -/
theorem parseComments_run {calls : List CommentCall} (hids : ∀ call ∈ calls, call.OneLineId)
    (hdistinct : ((appendedComments calls).map fun comment => trim comment.cid).Nodup) :
    parseComments (journalAfter calls) = threadOf readBack calls := by
  obtain ⟨es, hthread, hrecords⟩ := thread_of_run hids hdistinct
  rw [hthread.records, hrecords]

/-- **Comments survive the journal**, unless the first line of a message that is not blank is
indented and would need the escape without its indentation. -/
theorem comments_kept_iff {calls : List CommentCall} (hids : ∀ call ∈ calls, call.OneLineId)
    (hdistinct : ((appendedComments calls).map fun comment => trim comment.cid).Nodup) :
    parseComments (journalAfter calls) = threadOf asGiven calls ↔
      ∀ comment ∈ appendedComments calls, MessageFits comment.message := by
  rw [parseComments_run hids hdistinct, threadOf_eq_iff]
  exact forall₂_congr fun comment _ => message_kept_iff comment.message

/-- A comment with this id and message. -/
def commentCall (cid message : Text) : CommentCall :=
  .append "ART-1".toList ⟨cid, " a".toList, 2, "\x7b\x7d".toList, [], [], message⟩ "t".toList
    "m".toList

/-- Headings, a directive and commas at the margin, an indented star. -/
def plainCalls : List CommentCall :=
  [commentCall "c1".toList "* a\r\n,* b\n #+begin_src\n".toList, .setResolved "c1".toList true,
    .consumeAll, commentCall "c2 ".toList "\n  * c".toList, .setResolved "c2".toList true,
    .setResolved "c1".toList false]

theorem comments_kept_iff_sample :
    parseComments (journalAfter plainCalls) = threadOf asGiven plainCalls ∧
      (threadOf asGiven plainCalls).map (fun r => (r.cid, r.resolved, r.consumed)) =
        [("c1".toList, false, true), ("c2".toList, true, false)] := by
  refine ⟨(comments_kept_iff (by decide) (by decide +kernel)).mpr ?_, by decide +kernel⟩
  decide +kernel

/-- The indentation of the first line hides that it will need the escape. -/
def indentedCalls : List CommentCall := [commentCall "c1".toList "  ,* x".toList]

theorem comments_kept_fails : parseComments (journalAfter indentedCalls) ≠ threadOf asGiven indentedCalls ∧
    (parseComments (journalAfter indentedCalls)).map CommentRecord.message = ["* x".toList] ∧
      (threadOf asGiven indentedCalls).map CommentRecord.message = [",* x".toList] := by
  have hread : (parseComments (journalAfter indentedCalls)).map CommentRecord.message =
      ["* x".toList] := by
    rw [parseComments_run (by decide) (by decide +kernel)]
    decide +kernel
  have hgiven : (threadOf asGiven indentedCalls).map CommentRecord.message = [",* x".toList] := by
    decide +kernel
  refine ⟨fun h => ?_, hread, hgiven⟩
  rw [h, hgiven] at hread
  exact absurd hread (by decide)

end Orgasmic
