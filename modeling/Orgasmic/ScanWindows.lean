import Orgasmic.SessionScan

/-! # What a bounded lifecycle scan proves

`scanSessionLifecycle` is compared with the complete scan of the same file, on every file whose
lines all decode or are not looked at.

* **Lines.** `SoundLine` is what the retention filter needs of a line, `keptEnvelope` what it keeps.
  `scanLines_eq` and `scanRecords_eq` give the result of either loop from these.
* **Windows.** The lines of the two windows are a first and a last part of the lines of the file
  (`Delimited.records_windows`), so the bounded scan keeps a subsequence.
* **The end.** The flag `final_envelope_retained` is carried from the front window over a tail
  window that holds blank lines only.  `EndSeen` is the condition under which it is still true. -/

namespace Orgasmic

open Text Delimited

variable {Value : Type} (fromSlice : Bytes → Option (SessionEnvelope Value))

/-! ### One line -/

/-- The filter asks for the line's envelope. -/
def RelevantLine (line : Bytes) : Prop :=
  blankLine line = false ∧ lineIsLifecycleRelevant (stripCr line) = true

instance (line : Bytes) : Decidable (RelevantLine line) := inferInstanceAs (Decidable (_ ∧ _))

/-- A line that the filter looks at is an envelope. -/
def SoundLine (line : Bytes) : Prop :=
  RelevantLine line → ∃ envelope, fromSlice (stripCr line) = some envelope

/-- The envelope that the filter keeps of a line. -/
def keptEnvelope (line : Bytes) : Option (SessionEnvelope Value) :=
  if RelevantLine line then fromSlice (stripCr line) else none

/-- The filter drops the line unread. -/
def droppedLine (line : Bytes) : Bool := !blankLine line && !lineIsLifecycleRelevant (stripCr line)

/-- The flag after the lines. -/
def retainedFlag (lines : List Bytes) (flag : Bool) : Bool :=
  lines.foldl (fun flag line =>
    if blankLine line then flag else lineIsLifecycleRelevant (stripCr line)) flag

/-- The last line that is not blank. -/
def lastLine (lines : List Bytes) : Option Bytes := (lines.filter (!blankLine ·)).getLast?

@[simp] theorem retainedFlag_nil (flag : Bool) : retainedFlag [] flag = flag := rfl

@[simp] theorem retainedFlag_cons (line : Bytes) (lines : List Bytes) (flag : Bool) :
    retainedFlag (line :: lines) flag = retainedFlag lines
      (if blankLine line then flag else lineIsLifecycleRelevant (stripCr line)) := rfl

@[simp] theorem lastLine_nil : lastLine [] = none := rfl

@[simp] theorem blankLine_nil : blankLine [] = true := rfl

@[simp] theorem blankLine_stripCr (line : Bytes) : blankLine (stripCr line) = blankLine line := by
  unfold stripCr
  split
  · next h =>
      obtain ⟨ys, rfl⟩ := List.getLast?_eq_some_iff.mp h
      simp [blankLine, isAsciiWhitespace]
  · rfl

/-- The counters and envelopes of a scan after more lines. -/
def SessionLifecycleScan.after (scan : SessionLifecycleScan Value) (lines : List Bytes) :
    SessionLifecycleScan Value :=
  { scan with
    envelopes := scan.envelopes ++ lines.filterMap (keptEnvelope fromSlice)
    skippedTranscriptLines := scan.skippedTranscriptLines + lines.countP droppedLine }

/-- The outcome of the filter, one case for each kind of line. -/
theorem retainLifecycleLine_cases (scan : SessionLifecycleScan Value) (line : Bytes) :
    (blankLine line = true ∧ retainLifecycleLine fromSlice scan line = .ok (.blank, scan)) ∨
    (blankLine line = false ∧ lineIsLifecycleRelevant (stripCr line) = false ∧
      retainLifecycleLine fromSlice scan line =
        .ok (.dropped, scan.after fromSlice [line])) ∨
    (RelevantLine line ∧ ∃ envelope, fromSlice (stripCr line) = some envelope ∧
      retainLifecycleLine fromSlice scan line =
        .ok (.retained, scan.after fromSlice [line])) ∨
    (RelevantLine line ∧ fromSlice (stripCr line) = none ∧
      retainLifecycleLine fromSlice scan line = .error .json) := by
  simp only [retainLifecycleLine, blankLine_stripCr]
  cases hb : blankLine line with
  | true => exact .inl ⟨rfl, rfl⟩
  | false =>
      refine .inr ?_
      cases hr : lineIsLifecycleRelevant (stripCr line) with
      | false =>
          refine .inl ⟨rfl, rfl, ?_⟩
          simp [SessionLifecycleScan.after, keptEnvelope, RelevantLine, droppedLine, hb, hr]
      | true =>
          refine .inr ?_
          cases hd : fromSlice (stripCr line) with
          | none => exact .inr ⟨⟨hb, hr⟩, rfl, by simp⟩
          | some envelope =>
              refine .inl ⟨⟨hb, hr⟩, envelope, rfl, ?_⟩
              simp [SessionLifecycleScan.after, keptEnvelope, RelevantLine, droppedLine, hb, hr, hd]

theorem SessionLifecycleScan.after_cons (scan : SessionLifecycleScan Value) (line : Bytes)
    (lines : List Bytes) :
    scan.after fromSlice (line :: lines) =
      (scan.after fromSlice [line]).after fromSlice lines := by
  simp only [SessionLifecycleScan.after, List.countP_cons, List.countP_nil]
  congr 1
  · cases h : keptEnvelope fromSlice line <;> simp [h]
  · omega

theorem SessionLifecycleScan.after_blank (scan : SessionLifecycleScan Value) {line : Bytes}
    (h : blankLine line = true) : scan.after fromSlice [line] = scan := by
  simp [SessionLifecycleScan.after, keptEnvelope, RelevantLine, droppedLine, h]

@[simp] theorem SessionLifecycleScan.after_nil (scan : SessionLifecycleScan Value) :
    scan.after fromSlice [] = scan := by
  simp [SessionLifecycleScan.after]

/-! ### The two loops -/

/-- **The loop over the windows**: it succeeds on sound lines only, and says what they hold. -/
theorem scanLines_eq_ok_iff (lines : List Bytes) (scan : SessionLifecycleScan Value) (flag : Bool)
    (result : SessionLifecycleScan Value × Bool) :
    scanLines fromSlice lines (scan, flag) = .ok result ↔
      (∀ line ∈ lines, SoundLine fromSlice line) ∧
        result = (scan.after fromSlice lines, retainedFlag lines flag) := by
  induction lines generalizing scan flag with
  | nil =>
      rw [SessionLifecycleScan.after_nil, retainedFlag_nil, scanLines, Except.ok.injEq, eq_comm]
      simp
  | cons line lines ih =>
      rw [SessionLifecycleScan.after_cons, List.forall_mem_cons, retainedFlag_cons]
      simp only [scanLines]
      obtain ⟨hb, h⟩ | ⟨hb, hr, h⟩ | ⟨⟨hb, hr⟩, e, hd, h⟩ | ⟨hrel, hd, h⟩ :=
        retainLifecycleLine_cases fromSlice scan line
      · have hsound : SoundLine fromSlice line := fun hrel => by simp [RelevantLine, hb] at hrel
        rw [h, SessionLifecycleScan.after_blank fromSlice scan hb]
        simpa [hb, hsound] using ih scan flag
      · have hsound : SoundLine fromSlice line := fun hrel => by simp [RelevantLine, hr] at hrel
        rw [h]
        simpa [hb, hr, hsound] using ih (scan.after fromSlice [line]) false
      · have hsound : SoundLine fromSlice line := fun _ => ⟨e, hd⟩
        rw [h]
        simpa [hb, hr, hsound] using ih (scan.after fromSlice [line]) true
      · have hsound : ¬ SoundLine fromSlice line := fun hs => by
          obtain ⟨e, he⟩ := hs hrel
          rw [hd] at he
          cases he
        simp [h, hsound]

/-- What the complete scan carries after more lines. -/
def CompleteScan.after (s : CompleteScan Value) (rs : List Bytes) : CompleteScan Value :=
  { s with
    scan := { s.scan.after fromSlice (rs.map (content newline)) with
      bytesInspected := s.scan.bytesInspected + rs.flatten.length }
    finalLineHeader := ((lastLine (rs.map (content newline))).map lineHeader).getD s.finalLineHeader
    finalLineRetained := retainedFlag (rs.map (content newline)) s.finalLineRetained }

theorem lastLine_cons (line : Bytes) (lines : List Bytes) :
    lastLine (line :: lines) = (lastLine lines).or (if blankLine line then none else some line) := by
  unfold lastLine
  cases h : blankLine line with
  | true => simp [h]
  | false =>
      simp only [List.filter_cons, h, Bool.not_false, if_true, Bool.false_eq_true, if_false]
      cases hl : lines.filter (!blankLine ·) with
      | nil => rfl
      | cons a as => simp [List.getLast?_cons]

theorem CompleteScan.after_cons (s : CompleteScan Value) (r : Bytes) (rs : List Bytes) :
    s.after fromSlice (r :: rs) = (s.after fromSlice [r]).after fromSlice rs := by
  rw [CompleteScan.after, List.map_cons, SessionLifecycleScan.after_cons, lastLine_cons]
  simp only [CompleteScan.after, List.map_cons, List.map_nil, List.flatten_cons, List.flatten_nil,
    List.append_nil, List.length_append, lastLine_cons (content newline r) []]
  congr 1
  · simp only [SessionLifecycleScan.after]
    congr 1
    omega
  · cases lastLine (rs.map (content newline)) <;> rfl

theorem scanRecords_cons {r : Bytes} {s : CompleteScan Value}
    (h : SoundLine fromSlice (content newline r)) (rs : List Bytes) :
    scanRecords fromSlice (r :: rs) s = scanRecords fromSlice rs (s.after fromSlice [r]) := by
  simp only [scanRecords, CompleteScan.after, List.map_cons, List.map_nil, retainedFlag_cons,
    retainedFlag_nil, List.flatten_cons, List.flatten_nil, List.append_nil, lastLine_cons]
  obtain ⟨hb, h'⟩ | ⟨hb, hr, h'⟩ | ⟨⟨hb, hr⟩, e, hd, h'⟩ | ⟨hrel, hd, h'⟩ :=
    retainLifecycleLine_cases fromSlice
      { s.scan with bytesInspected := s.scan.bytesInspected + r.length } (content newline r)
  · simp only [hb, if_true, SessionLifecycleScan.after_blank fromSlice s.scan hb]
    rfl
  · simp only [hb, hr, h', Bool.false_eq_true, if_false]
    rfl
  · simp only [hb, hr, h', Bool.false_eq_true, if_false]
    rfl
  · obtain ⟨e, he⟩ := h hrel
    rw [hd] at he
    cases he

/-- **The loop of the complete scan** on sound lines. -/
theorem scanRecords_eq {rs : List Bytes} (h : ∀ r ∈ rs, SoundLine fromSlice (content newline r))
    (s : CompleteScan Value) : scanRecords fromSlice rs s = .ok (s.after fromSlice rs) := by
  induction rs generalizing s with
  | nil => simp [scanRecords, CompleteScan.after]
  | cons r rs ih =>
      rw [List.forall_mem_cons] at h
      rw [scanRecords_cons fromSlice h.1, ih h.2, ← CompleteScan.after_cons]

/-- A line that does not decode stops the complete scan, and it is forgiven only without its line
feed. -/
theorem scanRecords_unsound {rs : List Bytes} {s c : CompleteScan Value}
    (hok : scanRecords fromSlice rs s = .ok c)
    (hbad : ¬ ∀ r ∈ rs, SoundLine fromSlice (content newline r)) :
    ∃ r ∈ rs, ¬ Ended newline r ∧ ¬ SoundLine fromSlice (content newline r) := by
  induction rs generalizing s with
  | nil => exact absurd (fun r hr => by cases hr) hbad
  | cons r rs ih =>
      by_cases hr : SoundLine fromSlice (content newline r)
      · rw [scanRecords_cons fromSlice hr] at hok
        obtain ⟨b, hb, h⟩ := ih hok fun hall => hbad (List.forall_mem_cons.mpr ⟨hr, hall⟩)
        exact ⟨b, List.mem_cons_of_mem _ hb, h⟩
      · refine ⟨r, List.mem_cons_self, fun hended => ?_, hr⟩
        obtain ⟨hrel, hnone⟩ : RelevantLine (content newline r) ∧
            fromSlice (stripCr (content newline r)) = none := by
          unfold SoundLine at hr
          push Not at hr
          obtain ⟨hrel, hnone⟩ := hr
          exact ⟨hrel, Option.eq_none_iff_forall_ne_some.mpr hnone⟩
        obtain ⟨hb, hlife⟩ := hrel
        simp [scanRecords, hb, retainLifecycleLine, hlife, hnone, hended] at hok

/-! ### The lines of a file -/

/-- The lines of a session file, without their line feeds. -/
def SessionBytes.lines (file : SessionBytes) : List Bytes :=
  (records newline file.bytes).map (content newline)

/-- A crash cut the last line short: it lacks its line feed and does not decode. -/
def TornLastLine (file : SessionBytes) : Prop :=
  ∃ r, (records newline file.bytes).getLast? = some r ∧ ¬ Ended newline r ∧
    ¬ SoundLine fromSlice (content newline r)

/-- **The complete scan of an untorn file** succeeds on sound lines only. -/
theorem scanSessionLifecycleComplete_eq_ok_iff (file : SessionBytes)
    (complete : SessionLifecycleScan Value) :
    (scanSessionLifecycleComplete fromSlice file = .ok complete ∧ ¬ TornLastLine fromSlice file) ↔
      (∀ line ∈ file.lines, SoundLine fromSlice line) ∧
        complete =
          { ({ fileBytes := file.bytes.length, bytesInspected := file.bytes.length } :
              SessionLifecycleScan Value).after fromSlice file.lines with
            finalLineRunId :=
              windowFinalLineRunId (((lastLine file.lines).map lineHeader).getD [])
            finalEnvelopeRetained := retainedFlag file.lines false } := by
  have hmap : (∀ line ∈ file.lines, SoundLine fromSlice line) ↔
      ∀ r ∈ records newline file.bytes, SoundLine fromSlice (content newline r) := by
    simp [SessionBytes.lines]
  rw [hmap]
  constructor
  · rintro ⟨hok, htorn⟩
    have hsound : ∀ r ∈ records newline file.bytes, SoundLine fromSlice (content newline r) := by
      by_contra hbad
      unfold scanSessionLifecycleComplete at hok
      split at hok
      · cases hok
      · next c hc =>
          obtain ⟨r, hr, hended, hunsound⟩ := scanRecords_unsound fromSlice hc hbad
          obtain ⟨before, last, hsplit⟩ : ∃ before last,
              records newline file.bytes = before ++ [last] :=
            (List.eq_nil_or_concat' _).resolve_left (List.ne_nil_of_mem hr)
          have hlast : r = last := by
            rw [hsplit, List.mem_append, List.mem_singleton] at hr
            refine hr.resolve_left fun hbefore => hended ?_
            have hmem : r ∈ (records newline file.bytes).dropLast := by
              rwa [hsplit, List.dropLast_concat]
            exact ended_of_mem_dropLast newline hmem
          exact htorn ⟨r, by rw [hsplit, hlast]; simp, hended, hunsound⟩
    refine ⟨hsound, ?_⟩
    rw [scanSessionLifecycleComplete, scanRecords_eq fromSlice hsound] at hok
    cases hok
    simp [CompleteScan.after, SessionBytes.lines, SessionLifecycleScan.after]
  · rintro ⟨hsound, rfl⟩
    refine ⟨?_, ?_⟩
    · rw [scanSessionLifecycleComplete, scanRecords_eq fromSlice hsound]
      simp [CompleteScan.after, SessionBytes.lines, SessionLifecycleScan.after]
    · rintro ⟨r, hr, -, hunsound⟩
      exact hunsound (hsound r (List.mem_of_getLast? hr))

/-! ### The lines of the windows -/

theorem lastLine_append (front tail : List Bytes) :
    lastLine (front ++ tail) = (lastLine tail).or (lastLine front) := by
  induction front with
  | nil => simp
  | cons line front ih => rw [List.cons_append, lastLine_cons, ih, lastLine_cons, Option.or_assoc]

theorem lastLine_mem {lines : List Bytes} {line : Bytes} (h : lastLine lines = some line) :
    line ∈ lines ∧ blankLine line = false := by
  have := List.mem_of_getLast? h
  rw [List.mem_filter] at this
  exact ⟨this.1, by simpa using this.2⟩

/-- The flag is about the last line that is not blank. -/
theorem retainedFlag_eq (lines : List Bytes) (flag : Bool) :
    retainedFlag lines flag =
      ((lastLine lines).map fun line => lineIsLifecycleRelevant (stripCr line)).getD flag := by
  induction lines generalizing flag with
  | nil => rfl
  | cons line lines ih =>
      rw [retainedFlag_cons, ih, lastLine_cons]
      cases lastLine lines with
      | some l => rfl
      | none => cases h : blankLine line <;> simp

/-- If the last line that is not blank is relevant, its envelope is the last one kept. -/
theorem getLast?_kept {lines : List Bytes} {line : Bytes} (h : lastLine lines = some line)
    (hrel : lineIsLifecycleRelevant (stripCr line) = true)
    {envelope : SessionEnvelope Value} (he : fromSlice (stripCr line) = some envelope) :
    (lines.filterMap (keptEnvelope fromSlice)).getLast? = some envelope := by
  induction lines with
  | nil => cases h
  | cons l lines ih =>
      rw [lastLine_cons] at h
      cases hl : lastLine lines with
      | some l' =>
          rw [hl] at h
          cases h
          rw [← List.singleton_append, List.filterMap_append, List.getLast?_append, ih hl]
          rfl
      | none =>
          rw [hl, Option.none_or] at h
          have hblank : ∀ l' ∈ lines, blankLine l' = true := by
            unfold lastLine at hl
            simpa [List.getLast?_eq_none_iff, List.filter_eq_nil_iff] using hl
          have hnone : lines.filterMap (keptEnvelope fromSlice) = [] := by
            rw [List.filterMap_eq_nil_iff]
            intro l' hl'
            simp [keptEnvelope, RelevantLine, hblank l' hl']
          cases hb : blankLine l with
          | true => rw [hb] at h; cases h
          | false =>
              rw [hb] at h
              cases h
              have : keptEnvelope fromSlice line = some envelope := by
                rw [keptEnvelope, if_pos ⟨hb, hrel⟩, he]
              simp [this, hnone]

/-- The lines of a window. -/
def windowLines (window : Bytes) : List Bytes := (records newline window).map (content newline)

theorem windowLines_nil : windowLines [] = [] := rfl

section Pieces

variable (lines : List Bytes) (window : Bytes)

/-- The empty piece behind the last line feed is blank. -/
theorem pieces_blank : ∃ blanks : List Bytes, (∀ l ∈ blanks, l = []) ∧
    pieces newline window = windowLines window ++ blanks := by
  refine ⟨_, ?_, pieces_eq newline window⟩
  split <;> simp

variable {blanks : List Bytes} (hblanks : ∀ l ∈ blanks, l = [])
include hblanks

theorem lastLine_blanks : lastLine (lines ++ blanks) = lastLine lines := by
  have : lastLine blanks = none := by
    unfold lastLine
    rw [List.getLast?_eq_none_iff, List.filter_eq_nil_iff]
    intro l hl
    simp [hblanks l hl]
  rw [lastLine_append, this, Option.none_or]

theorem SessionLifecycleScan.after_blanks (scan : SessionLifecycleScan Value) :
    scan.after fromSlice (lines ++ blanks) = scan.after fromSlice lines := by
  have hkept : blanks.filterMap (keptEnvelope fromSlice) = [] := by
    rw [List.filterMap_eq_nil_iff]
    intro l hl
    simp [keptEnvelope, RelevantLine, hblanks l hl]
  have hdropped : blanks.countP droppedLine = 0 := by
    rw [List.countP_eq_zero]
    intro l hl
    simp [droppedLine, hblanks l hl]
  simp [SessionLifecycleScan.after, hkept, hdropped]

theorem soundLine_blanks : (∀ l ∈ lines ++ blanks, SoundLine fromSlice l) ↔
    ∀ l ∈ lines, SoundLine fromSlice l := by
  rw [List.forall_mem_append, and_iff_left]
  intro l hl hrel
  simp [hblanks l hl, RelevantLine] at hrel

end Pieces

theorem windowFinalLineRunId_eq (window : Bytes) :
    windowFinalLineRunId window = (lastLine (windowLines window)).bind fun line =>
      (probeStringValue (lineHeader line) runIdKey).bind readToString := by
  obtain ⟨blanks, hblanks, hp⟩ := pieces_blank window
  have := lastLine_blanks (windowLines window) hblanks
  rw [← hp] at this
  rw [← this]
  rfl

theorem retainedFlag_append (front tail : List Bytes) (flag : Bool) :
    retainedFlag (front ++ tail) flag = retainedFlag tail (retainedFlag front flag) := by
  simp [retainedFlag]

theorem retainedFlag_blanks (lines : List Bytes) {blanks : List Bytes}
    (hblanks : ∀ l ∈ blanks, l = []) (flag : Bool) :
    retainedFlag (lines ++ blanks) flag = retainedFlag lines flag := by
  rw [retainedFlag_eq, lastLine_blanks lines hblanks, ← retainedFlag_eq]

theorem SessionLifecycleScan.after_append (scan : SessionLifecycleScan Value)
    (front tail : List Bytes) :
    scan.after fromSlice (front ++ tail) = (scan.after fromSlice front).after fromSlice tail := by
  simp [SessionLifecycleScan.after, Nat.add_assoc]

/-- The two windows show a first and a last part of the lines. -/
theorem readWindows_lines (file : SessionBytes) (budget : SessionScanBudget) :
    ∃ gap, file.lines = windowLines (readWindows file budget).1 ++ gap ++
      windowLines (readWindows file budget).2 := by
  unfold readWindows
  split
  · exact ⟨[], by simp [SessionBytes.lines, windowLines, records]⟩
  · next h =>
      have hle : (budget.prefixBytes : ℕ) ≤ file.bytes.length - budget.tailBytes := by
        have := file.length_lt
        unfold SessionScanBudget.windowBytes at h
        omega
      obtain ⟨gap, hgap⟩ := records_windows newline file.bytes hle
      exact ⟨gap.map (content newline), by
        simp only [SessionBytes.lines, windowLines, hgap, List.map_append]⟩

/-- **The bounded scan**, window by window. -/
theorem scanSessionLifecycle_eq_ok_iff (file : SessionBytes) (budget : SessionScanBudget)
    (bounded : SessionLifecycleScan Value) :
    scanSessionLifecycle fromSlice file budget = .ok bounded ↔
      (∀ line ∈ windowLines (readWindows file budget).1 ++ windowLines (readWindows file budget).2,
        SoundLine fromSlice line) ∧
      bounded =
        let truncated : Bool := budget.windowBytes < file.bytes.length
        let front := windowLines (readWindows file budget).1
        let tail := windowLines (readWindows file budget).2
        { ({ fileBytes := file.bytes.length
             bytesInspected := if truncated then budget.windowBytes else file.bytes.length
             truncated
             finalLineRunId := windowFinalLineRunId
               (if truncated then (readWindows file budget).2 else (readWindows file budget).1) } :
            SessionLifecycleScan Value).after fromSlice (front ++ tail) with
          finalEnvelopeRetained :=
            retainedFlag (front ++ tail) false &&
              !(truncated && (readWindows file budget).2.isEmpty) } := by
  obtain ⟨b₁, h₁, hp₁⟩ := pieces_blank (readWindows file budget).1
  obtain ⟨b₂, h₂, hp₂⟩ := pieces_blank (readWindows file budget).2
  have hsound : (∀ line ∈ (windowLines (readWindows file budget).1 ++ b₁) ++
        (windowLines (readWindows file budget).2 ++ b₂), SoundLine fromSlice line) ↔
      ∀ line ∈ windowLines (readWindows file budget).1 ++ windowLines (readWindows file budget).2,
        SoundLine fromSlice line := by
    rw [List.forall_mem_append, soundLine_blanks fromSlice _ h₁, soundLine_blanks fromSlice _ h₂,
      List.forall_mem_append]
  have hok := fun scan result => scanLines_eq_ok_iff fromSlice
    ((windowLines (readWindows file budget).1 ++ b₁) ++
      (windowLines (readWindows file budget).2 ++ b₂)) scan false result
  simp only [hsound, SessionLifecycleScan.after_append, retainedFlag_append,
    SessionLifecycleScan.after_blanks fromSlice _ h₁, SessionLifecycleScan.after_blanks fromSlice _ h₂,
    retainedFlag_blanks _ h₁, retainedFlag_blanks _ h₂] at hok
  simp only [scanSessionLifecycle, hp₁, hp₂]
  constructor
  · intro h
    split at h
    · cases h
    · next scan flag hs =>
        obtain ⟨hall, heq⟩ := (hok _ _).mp hs
        cases h
        cases heq
        exact ⟨hall, by simp only [SessionLifecycleScan.after_append, retainedFlag_append]⟩
  · rintro ⟨hall, rfl⟩
    rw [(hok _ _).mpr ⟨hall, rfl⟩]
    simp only [SessionLifecycleScan.after_append, retainedFlag_append]

/-! ### The bounded scan against the complete one -/

/-- What a caller takes from a bounded scan of a file that the complete scan reads. -/
structure FaithfulScan (file : SessionBytes) (budget : SessionScanBudget)
    (complete bounded : SessionLifecycleScan Value) : Prop where
  envelopes : bounded.envelopes.Sublist complete.envelopes
  whole : file.bytes.length ≤ budget.windowBytes → bounded = complete
  finalEnvelope : bounded.finalEnvelopeRetained = true → ∃ line envelope,
    lastLine file.lines = some line ∧ lineIsLifecycleRelevant (stripCr line) = true ∧
      fromSlice (stripCr line) = some envelope ∧ bounded.envelopes.getLast? = some envelope
  finalLine : ∀ runId, bounded.finalLineRunId = some runId → ∃ line envelope,
    lastLine file.lines = some line ∧ fromSlice (stripCr line) = some envelope ∧
      envelope.runId = runId

/-- A tail window of blank lines only is behind a relevant front line just if that line is the last
one of the file, too. -/
def EndSeen (file : SessionBytes) (budget : SessionScanBudget) : Prop :=
  budget.windowBytes < file.bytes.length → (readWindows file budget).2 ≠ [] →
    lastLine (windowLines (readWindows file budget).2) = none →
    ∀ line, lastLine (windowLines (readWindows file budget).1) = some line →
      lineIsLifecycleRelevant (stripCr line) = true →
      ∃ last envelope, lastLine file.lines = some last ∧
        lineIsLifecycleRelevant (stripCr last) = true ∧
        fromSlice (stripCr last) = some envelope ∧ fromSlice (stripCr line) = some envelope

/-- The window at the end of the file. -/
def endWindow (file : SessionBytes) (budget : SessionScanBudget) : Bytes :=
  if budget.windowBytes < file.bytes.length then (readWindows file budget).2 else file.bytes

/-- The first `"run_id":"…"` in the last line's header is the run id that the line decodes to. -/
def RunSpelled (file : SessionBytes) (budget : SessionScanBudget) : Prop :=
  ∀ line, lastLine (windowLines (endWindow file budget)) = some line →
    ∀ runId, (probeStringValue (lineHeader line) runIdKey).bind readToString = some runId →
      ∃ envelope, fromSlice (stripCr line) = some envelope ∧ envelope.runId = runId

theorem findBytes_blank {line : Bytes} (h : blankLine line = true) {needle : Bytes}
    (hn : ∃ b ∈ needle.head?, isAsciiWhitespace b = false) : findBytes line needle = none := by
  obtain ⟨b, hb, hblank⟩ := hn
  induction line with
  | nil => rfl
  | cons a line ih =>
      simp only [blankLine, List.all_cons, Bool.and_eq_true] at h
      have hprefix : needle.isPrefixOf (a :: line) = false := by
        cases needle with
        | nil => cases hb
        | cons c needle =>
            obtain rfl : c = b := by simpa using hb
            have hne : c ≠ a := by
              rintro rfl
              rw [h.1] at hblank
              cases hblank
            simp [List.isPrefixOf, hne]
      rw [findBytes, hprefix, ih h.2]
      simp

/-- The complete scan probes the header that it kept of the last line. -/
theorem windowFinalLineRunId_header (line : Option Bytes) (h : ∀ l, line = some l → newline ∉ l) :
    windowFinalLineRunId ((line.map lineHeader).getD []) =
      line.bind fun line => (probeStringValue (lineHeader line) runIdKey).bind readToString := by
  rw [windowFinalLineRunId_eq]
  cases line with
  | none => rfl
  | some line =>
      have hmem : newline ∉ lineHeader line := fun hm => h line rfl (List.mem_of_mem_take hm)
      have hheader : lineHeader (lineHeader line) = lineHeader line := by
        simp [lineHeader, List.take_take]
      rw [Option.map_some, Option.getD_some, Option.bind_some]
      by_cases hnil : lineHeader line = []
      · rw [hnil]
        rfl
      · have hlines : windowLines (lineHeader line) = [lineHeader line] := by
          rw [windowLines, records_of_notMem newline hmem hnil, List.map_singleton, Delimited.content,
            if_neg fun hl => hmem (List.mem_of_getLast? hl)]
        rw [hlines, lastLine_cons, lastLine_nil, Option.none_or]
        cases hb : blankLine (lineHeader line) with
        | false => simp [hheader]
        | true =>
            have hfind : findBytes (lineHeader line) runIdKey = none :=
              findBytes_blank hb ⟨quote, by decide, by decide⟩
            simp [probeStringValue, hfind]

/-- **A file within the budget** is read as the complete scan reads it. -/
theorem scanSessionLifecycle_whole {file : SessionBytes} {budget : SessionScanBudget}
    (hfits : file.bytes.length ≤ budget.windowBytes) (bounded : SessionLifecycleScan Value) :
    scanSessionLifecycle fromSlice file budget = .ok bounded ↔
      scanSessionLifecycleComplete fromSlice file = .ok bounded ∧ ¬ TornLastLine fromSlice file := by
  have hlines : ∀ l, lastLine file.lines = some l → newline ∉ l := by
    intro l hl
    obtain ⟨r, hr, rfl⟩ := List.mem_map.mp (lastLine_mem hl).1
    exact content_notMem newline hr
  rw [scanSessionLifecycle_eq_ok_iff, scanSessionLifecycleComplete_eq_ok_iff,
    windowFinalLineRunId_header _ hlines]
  have hwin : readWindows file budget = (file.bytes, []) := if_pos hfits
  have htrunc : ¬ budget.windowBytes < file.bytes.length := Nat.not_lt.mpr hfits
  simp only [hwin, windowLines_nil, List.append_nil, htrunc, decide_false, Bool.false_eq_true,
    if_false, Bool.false_and, Bool.not_false, Bool.and_true, windowFinalLineRunId_eq]
  rfl

/-- The last line of the window at the end is the last line of the file. -/
theorem lastLine_endWindow {file : SessionBytes} {budget : SessionScanBudget} {line : Bytes}
    (h : lastLine (windowLines (endWindow file budget)) = some line) :
    lastLine file.lines = some line := by
  unfold endWindow at h
  split at h
  · obtain ⟨gap, hgap⟩ := readWindows_lines file budget
    rw [hgap, lastLine_append, h, Option.some_or]
  · exact h

/-- **What a bounded scan proves**: it is faithful to the complete scan just if the end of the file
was seen, and its last line spells its run id. -/
theorem scanSessionLifecycle_faithful_iff {file : SessionBytes} {budget : SessionScanBudget}
    {complete bounded : SessionLifecycleScan Value}
    (hcomplete : scanSessionLifecycleComplete fromSlice file = .ok complete)
    (htorn : ¬ TornLastLine fromSlice file)
    (hbounded : scanSessionLifecycle fromSlice file budget = .ok bounded) :
    FaithfulScan fromSlice file budget complete bounded ↔
      EndSeen fromSlice file budget ∧ RunSpelled fromSlice file budget := by
  obtain ⟨hsound, hceq⟩ :=
    (scanSessionLifecycleComplete_eq_ok_iff fromSlice file complete).mp ⟨hcomplete, htorn⟩
  obtain ⟨-, hbeq⟩ := (scanSessionLifecycle_eq_ok_iff fromSlice file budget bounded).mp hbounded
  obtain ⟨gap, hgap⟩ := readWindows_lines file budget
  set front := windowLines (readWindows file budget).1 with hfront
  set tail := windowLines (readWindows file budget).2 with htail
  have hkept : bounded.envelopes = (front ++ tail).filterMap (keptEnvelope fromSlice) := by
    rw [hbeq]
    simp [SessionLifecycleScan.after]
  have hsub : bounded.envelopes.Sublist complete.envelopes := by
    rw [hkept, hceq, hgap]
    simp only [SessionLifecycleScan.after, List.nil_append]
    exact ((List.sublist_append_left front gap).append_right tail).filterMap _
  have hwhole : file.bytes.length ≤ budget.windowBytes → bounded = complete := by
    intro hfits
    have := ((scanSessionLifecycle_whole fromSlice hfits bounded).mp hbounded).1
    rw [hcomplete] at this
    cases this
    rfl
  have hrun : bounded.finalLineRunId =
      (lastLine (windowLines (endWindow file budget))).bind fun line =>
        (probeStringValue (lineHeader line) runIdKey).bind readToString := by
    rw [← windowFinalLineRunId_eq, hbeq]
    unfold endWindow readWindows
    by_cases ht : budget.windowBytes < file.bytes.length
    · simp [SessionLifecycleScan.after, ht]
    · simp [SessionLifecycleScan.after, ht, Nat.le_of_not_lt ht]
  -- A relevant last line of the file in the windows is the last one kept.
  have hlastKept : ∀ line, lastLine (front ++ tail) = some line →
      lineIsLifecycleRelevant (stripCr line) = true →
      ∃ envelope, fromSlice (stripCr line) = some envelope ∧
        bounded.envelopes.getLast? = some envelope := by
    intro line hl hrel
    obtain ⟨hmem, hblank⟩ := lastLine_mem hl
    have hmem : line ∈ file.lines := by
      rw [hgap]
      rw [List.mem_append] at hmem
      cases hmem with
      | inl h => simp [h]
      | inr h => simp [h]
    obtain ⟨envelope, he⟩ := hsound line hmem ⟨hblank, hrel⟩
    exact ⟨envelope, he, by rw [hkept]; exact getLast?_kept fromSlice hl hrel he⟩
  have hflag : bounded.finalEnvelopeRetained = true ↔
      (∃ line, lastLine (front ++ tail) = some line ∧
        lineIsLifecycleRelevant (stripCr line) = true) ∧
      ¬ (budget.windowBytes < file.bytes.length ∧ (readWindows file budget).2 = []) := by
    rw [hbeq]
    simp only [retainedFlag_eq, Bool.and_eq_true, Bool.not_eq_true', Bool.and_eq_false_imp,
      decide_eq_true_eq, List.isEmpty_eq_false_iff]
    refine and_congr ?_ (by simp)
    cases lastLine (front ++ tail) <;> simp
  constructor
  · intro h
    refine ⟨?_, ?_⟩
    · intro hlarge hne hblank line hline hrel
      have hl : lastLine (front ++ tail) = some line := by
        rw [lastLine_append, hblank, Option.none_or, hline]
      obtain ⟨last, envelope, hlast, hlrel, hlast', hget⟩ :=
        h.finalEnvelope (hflag.mpr ⟨⟨line, hl, hrel⟩, fun hn => hne hn.2⟩)
      obtain ⟨envelope', he', hget'⟩ := hlastKept line hl hrel
      rw [hget] at hget'
      cases hget'
      exact ⟨last, envelope, hlast, hlrel, hlast', he'⟩
    · intro line hline runId hspelled
      obtain ⟨line', envelope, hl', he, hid⟩ := h.finalLine runId (by rw [hrun, hline]; exact hspelled)
      rw [lastLine_endWindow hline] at hl'
      cases hl'
      exact ⟨envelope, he, hid⟩
  · rintro ⟨hend, hspelled⟩
    refine ⟨hsub, hwhole, ?_, ?_⟩
    · intro hretained
      obtain ⟨⟨line, hl, hrel⟩, hseen⟩ := hflag.mp hretained
      obtain ⟨envelope, he, hget⟩ := hlastKept line hl hrel
      by_cases hlarge : budget.windowBytes < file.bytes.length
      · cases htl : lastLine tail with
        | some l =>
            have heq : l = line := by
              rw [lastLine_append, htl, Option.some_or] at hl
              exact Option.some.inj hl
            refine ⟨line, envelope, ?_, hrel, he, hget⟩
            rw [hgap, lastLine_append, htl, Option.some_or, heq]
        | none =>
            rw [lastLine_append, htl, Option.none_or] at hl
            obtain ⟨last, envelope', hlast, hlrel, hle, hline⟩ :=
              hend hlarge (fun hn => hseen ⟨hlarge, hn⟩) htl line hl hrel
            rw [he] at hline
            cases hline
            exact ⟨last, envelope, hlast, hlrel, hle, hget⟩
      · have hwin : readWindows file budget = (file.bytes, []) := if_pos (Nat.le_of_not_lt hlarge)
        refine ⟨line, envelope, ?_, hrel, he, hget⟩
        rw [hfront, htail, hwin, windowLines_nil, List.append_nil] at hl
        exact hl
    · intro runId hid
      rw [hrun, Option.bind_eq_some_iff] at hid
      obtain ⟨line, hline, hsp⟩ := hid
      obtain ⟨envelope, he, hid⟩ := hspelled line hline runId hsp
      exact ⟨line, envelope, lastLine_endWindow hline, he, hid⟩

/-! ### A blank line behind an unread release -/

namespace BlankTail

def attach : Bytes :=
  utf8 (["\x7b\"seq\":0,", "\"time\":\"2025-01-01T00:00:00Z\",", "\"run_id\":\"run-1\",",
    "\"runtime_id\":\"rt-1\",", "\"boot_id\":\"boot-1\",", "\"kind\":\"lifecycle\",",
    "\"event\":", "\x7b\"phase\":\"attach\"\x7d\x7d"].flatMap String.toList)

def release : Bytes :=
  utf8 (["\x7b\"seq\":1,", "\"time\":\"2025-01-01T00:00:01Z\",", "\"run_id\":\"run-1\",",
    "\"runtime_id\":\"rt-1\",", "\"boot_id\":\"boot-1\",", "\"kind\":\"lifecycle\",",
    "\"event\":", "\x7b\"outcome\":\"completed\",", "\"phase\":\"release\",",
    "\"reason\":\"done\"\x7d\x7d"].flatMap String.toList)

def attached : SessionEnvelope Text :=
  ⟨0, 1735689600, "run-1".toList, "rt-1".toList, "boot-1".toList, .lifecycle, "attach".toList⟩

def released : SessionEnvelope Text :=
  ⟨1, 1735689601, "run-1".toList, "rt-1".toList, "boot-1".toList, .lifecycle, "release".toList⟩

/-- The two lines as envelopes. -/
def decodeLine (line : Bytes) : Option (SessionEnvelope Text) :=
  if line = attach then some attached else if line = release then some released else none

/-- The two lines, and a blank one. -/
def file : SessionBytes where
  bytes := attach ++ [newline] ++ release ++ [newline, newline]
  length_lt := by decide +kernel

/-- The first line fits the front window, and the tail window holds the last four bytes. -/
def budget : SessionScanBudget := ⟨⟨160, by decide⟩, ⟨4, by decide⟩⟩

def complete : SessionLifecycleScan Text where
  envelopes := [attached, released]
  fileBytes := file.bytes.length
  bytesInspected := file.bytes.length
  finalEnvelopeRetained := true
  finalLineRunId := some "run-1".toList

def bounded : SessionLifecycleScan Text where
  envelopes := [attached]
  fileBytes := file.bytes.length
  bytesInspected := 164
  truncated := true
  finalEnvelopeRetained := true

theorem complete_ok : scanSessionLifecycleComplete decodeLine file = .ok complete := by
  decide +kernel

theorem bounded_ok : scanSessionLifecycle decodeLine file budget = .ok bounded := by
  decide +kernel

theorem not_torn : ¬ TornLastLine decodeLine file := by
  rintro ⟨r, hr, hended, -⟩
  have hlast : (records newline file.bytes).getLast? = some [newline] := by decide +kernel
  rw [hlast] at hr
  cases hr
  exact hended rfl

theorem lastLine_eq : lastLine file.lines = some release := by decide +kernel

end BlankTail

open BlankTail in
/-- `scanSessionLifecycle_faithful_iff` for an attach, a release and a blank line. -/
theorem scanSessionLifecycle_faithful_sample :
    FaithfulScan decodeLine file budget complete BlankTail.bounded ↔
      EndSeen decodeLine file budget ∧ RunSpelled decodeLine file budget :=
  scanSessionLifecycle_faithful_iff decodeLine complete_ok not_torn bounded_ok

open BlankTail in
/-- **The last retained envelope is not the last line**: the blank line keeps the flag of the front
window, although the release was not read. -/
theorem scanSessionLifecycle_faithful_fails :
    ¬ ∀ file budget complete bounded,
      scanSessionLifecycleComplete decodeLine file = .ok complete →
      ¬ TornLastLine decodeLine file → scanSessionLifecycle decodeLine file budget = .ok bounded →
        FaithfulScan decodeLine file budget complete bounded := by
  intro h
  obtain ⟨line, envelope, hline, -, he, hget⟩ :=
    (h file budget complete BlankTail.bounded complete_ok not_torn bounded_ok).finalEnvelope rfl
  obtain rfl : release = line := Option.some.inj (lastLine_eq.symm.trans hline)
  have hreleased : decodeLine (stripCr release) = some released := by decide +kernel
  obtain rfl : released = envelope := Option.some.inj (hreleased.symm.trans he)
  have hne : attached ≠ released := by decide +kernel
  exact hne (Option.some.inj hget)

end Orgasmic
