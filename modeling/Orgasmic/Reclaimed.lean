import Orgasmic.Compaction
import Orgasmic.HistoryJson
import Orgasmic.ScanWindows

/-! # What a compaction removes

A record that a compaction drops should be a `text_chunk` of a run in a pane, as a reader of the
session file decodes it.

* **Spelling.** The classes are read off the members that spell `kind`, `event` and `type` without
  an escape.  `SpelledAsDecoded` says that no other spelling of these keys decides what a reader
  decodes.
* **Runs.** The transport is recorded by the last run of the file, and the records of every run are
  judged by it.
* **Condition.** `compaction_reclaims_rendered_iff` puts the two together. -/

namespace Orgasmic

open Text JsonText Delimited

/-! ### Rendered output -/

def runIdMember : Bytes := utf8 "run_id".toList

def driverEventValue : Json := .string (utf8 "driver_event".toList)

def textChunkValue : Json := .string (utf8 "text_chunk".toList)

section Rendered

variable (fits : Bytes → Bool)

/-- The object decodes, and is a `text_chunk` of a driver; `fits` are the numbers in range. -/
def TextChunk (ms : List (Key × Json)) : Prop :=
  (∀ n ∈ (Json.object ms).numbers, fits n = true) ∧
    lookup ms kindMember = some driverEventValue ∧
      ∃ es, lookup ms eventMember = some (.object es) ∧ lookup es typeMember = some textChunkValue

/-- An escaped spelling of a discriminator does not say something else, and no number is out of
range. -/
structure SpelledAsDecoded (ms : List (Key × Json)) : Prop where
  numbers : ∀ n ∈ (Json.object ms).numbers, fits n = true
  kind : ∀ j, Overridden ms kindMember j → j = driverEventValue
  event : ∀ j, Overridden ms eventMember j →
    ∃ es, j = .object es ∧ lookup es typeMember = some textChunkValue
  type : ∀ es j, lookup ms eventMember = some (.object es) → Overridden es typeMember j →
    j = textChunkValue

/-- The object names the run. -/
def NamesRun (ms : List (Key × Json)) (run : Text) : Prop :=
  lookup ms runIdMember = some (.string (utf8 run))

end Rendered

section Runs

variable {Value : Type} (json : SerdeJson Value)

/-- A line of the file is the `RunMeta` of the run, and names a pane transport. -/
def PaneRun (file : SessionFile) (run : Text) : Prop :=
  ∃ line ∈ file.content.lines, ∃ envelope transport,
    json.envelope (stripCr line) = some envelope ∧ envelope.runId = run ∧
      RecordsTransport json envelope transport ∧ transportIsPane transport = true

/-- The run whose `RunMeta` the line is, if it names a pane transport. -/
def paneRunOf (line : Bytes) : Option Text :=
  (json.envelope (stripCr line)).bind fun envelope =>
    match lifecycleOf json envelope with
    | some (.runMeta recorded) =>
        if transportIsPane recorded.transport then some envelope.runId else none
    | _ => none

theorem paneRunOf_eq_some_iff {line : Bytes} {run : Text} :
    paneRunOf json line = some run ↔ ∃ envelope transport,
      json.envelope (stripCr line) = some envelope ∧ envelope.runId = run ∧
        RecordsTransport json envelope transport ∧ transportIsPane transport = true := by
  unfold paneRunOf RecordsTransport
  cases json.envelope (stripCr line) with
  | none => simp
  | some envelope =>
      cases h : lifecycleOf json envelope with
      | none => simp [h]
      | some event =>
          cases event with
          | runMeta recorded => simp [h, and_comm]
          | _ => simp [h]

instance (file : SessionFile) (run : Text) : Decidable (PaneRun json file run) :=
  decidable_of_iff (∃ line ∈ file.content.lines, paneRunOf json line = some run) <| by
    simp only [PaneRun, paneRunOf_eq_some_iff]

/-- The run of the last lifecycle envelope that the bounded scan keeps. -/
def LastRun (file : SessionFile) (run : Text) : Prop :=
  ∃ scan, scanSessionLifecycle json.envelope file.content .default = .ok scan ∧
    scan.envelopes.getLast?.map (·.runId) = some run

/-- A complete line that decodes to a `text_chunk` of a run in a pane. -/
structure RenderedOutput (fits : Bytes → Bool) (file : SessionFile) (raw : Bytes) : Prop where
  ended : Ended newline raw
  decodes : ∃ ms, parse (content newline raw) = some (.object ms) ∧ TextChunk fits ms ∧
    ∃ run, NamesRun ms run ∧ PaneRun json file run

end Runs

/-! ### One record -/

/-- A record of rendered output is one object on a complete line. -/
theorem recordClass_renderedTui {raw : Bytes} (h : recordClass raw = .renderedTui) :
    Ended newline raw ∧ ∃ ms, parse (content newline raw) = some (.object ms) ∧
      spelled ms kindMember = some driverEventValue ∧
        ∃ es, spelled ms eventMember = some (.object es) ∧
          spelled es typeMember = some textChunkValue := by
  unfold recordClass at h
  dsimp only at h
  split at h
  · cases h
  · split at h
    · cases h
    · next hended =>
        refine ⟨not_not.mp hended, ?_⟩
        unfold classifyHistoryLine at h
        split at h
        · cases h
        · next found hfound =>
            obtain ⟨ms, hparse, hkind, htype⟩ := scanEnvelopeDiscriminators_sound hfound
            refine ⟨ms, hparse, ?_⟩
            split at h
            · cases h
            · split at h
              · cases h
              · split at h
                · next hdriver =>
                    split at h
                    · cases h
                    · next type heventType =>
                        split at h
                        · cases h
                        · split at h
                          · next hchunk =>
                              rw [hchunk] at heventType
                              exact ⟨hkind _ hdriver, htype _ heventType⟩
                          · cases h
                · cases h

/-- **What the scanner reads is what a reader decodes**, unless another spelling decides. -/
theorem textChunk_iff (fits : Bytes → Bool) {ms : List (Key × Json)}
    (hkind : spelled ms kindMember = some driverEventValue)
    (hevent : ∃ es, spelled ms eventMember = some (.object es) ∧
      spelled es typeMember = some textChunkValue) :
    TextChunk fits ms ↔ SpelledAsDecoded fits ms := by
  constructor
  · rintro ⟨hnumbers, hlookup, es, hes, htype⟩
    refine ⟨hnumbers, ?_, ?_, ?_⟩
    · intro j hj
      rw [hj.lookup_eq] at hlookup
      exact Option.some.inj hlookup
    · intro j hj
      rw [hj.lookup_eq] at hes
      exact ⟨es, Option.some.inj hes, htype⟩
    · intro es' j hes' hj
      rw [hes] at hes'
      cases hes'
      rw [hj.lookup_eq] at htype
      exact Option.some.inj htype
  · intro h
    refine ⟨h.numbers, ?_, ?_⟩
    · obtain hlookup | ⟨j, hj, hlookup⟩ := spelled_cases hkind
      · exact hlookup
      · rw [hlookup, h.kind j hj]
    · obtain ⟨es, hes, htype⟩ := hevent
      obtain hlookup | ⟨j, hj, hlookup⟩ := spelled_cases hes
      · refine ⟨es, hlookup, ?_⟩
        obtain hchunk | ⟨j, hj, hchunk⟩ := spelled_cases htype
        · exact hchunk
        · rw [hchunk, h.type es j hlookup hj]
      · obtain ⟨es', rfl, htype'⟩ := h.event j hj
        exact ⟨es', hlookup, htype'⟩

/-! ### The run of a file -/

/-- An envelope that the bounded scan keeps is a line of the file. -/
theorem mem_envelopes_line {Value : Type} {fromSlice : Bytes → Option (SessionEnvelope Value)}
    {file : SessionBytes} {budget : SessionScanBudget} {scan : SessionLifecycleScan Value}
    (h : scanSessionLifecycle fromSlice file budget = .ok scan)
    {envelope : SessionEnvelope Value} (hmem : envelope ∈ scan.envelopes) :
    ∃ line ∈ file.lines, fromSlice (stripCr line) = some envelope := by
  obtain ⟨-, rfl⟩ := (scanSessionLifecycle_eq_ok_iff fromSlice file budget scan).mp h
  simp only [SessionLifecycleScan.after, List.nil_append, List.mem_filterMap] at hmem
  obtain ⟨line, hline, hkept⟩ := hmem
  obtain ⟨gap, hgap⟩ := readWindows_lines file budget
  refine ⟨line, ?_, ?_⟩
  · rw [hgap]
    rw [List.mem_append] at hline
    simp only [List.mem_append]
    cases hline with
    | inl hfront => exact .inl (.inl hfront)
    | inr htail => exact .inr htail
  · unfold keptEnvelope at hkept
    split at hkept
    · exact hkept
    · cases hkept

section Planned

variable {Value : Type} {json : SerdeJson Value} {sha256 : Bytes → Text} {now : ℤ}

/-- **The last run of a planned file ran in a pane.** -/
theorem planFile_lastRun {path : FilePath} {file : SessionFile}
    {after : Option SessionFileFingerprint} {planned : CompactionPlanFile}
    (h : planFile json sha256 now path (some file) after = .ok planned) {run : Text}
    (hrun : LastRun json file run) : PaneRun json file run := by
  obtain ⟨f, authority, hf, -, hauth, -, hpane, -, -⟩ := planFile_eq_ok_iff.mp h
  cases hf
  obtain ⟨transport, htransport, hpane⟩ := (Option.any_eq_true _ _).mp hpane
  obtain ⟨scan, hscan, envelope, hmem, hrecords, hlast⟩ :=
    deriveSessionAuthority_transport json hauth htransport
  obtain ⟨scan', hscan', hlast'⟩ := hrun
  rw [hscan] at hscan'
  cases hscan'
  rw [hlast] at hlast'
  obtain ⟨line, hline, henvelope⟩ := mem_envelopes_line hscan hmem
  exact ⟨line, hline, envelope, transport, henvelope, Option.some.inj hlast', hrecords, hpane⟩

/-- The pass drops exactly the records of rendered output of a planned file. -/
theorem isReclaimed_planned {path : FilePath} {file : Option SessionFile}
    {after : Option SessionFileFingerprint} {planned : CompactionPlanFile}
    (h : planFile json sha256 now path file after = .ok planned) (raw : Bytes) :
    isReclaimed planned.transport raw = true ↔ recordClass raw = .renderedTui := by
  obtain ⟨f, authority, -, -, -, -, hpane, -, rfl⟩ := planFile_eq_ok_iff.mp h
  simp only [isReclaimed, classIsReclaimable, plannedOf, hpane, Bool.and_true, decide_eq_true_eq]

/-- **Compaction removes rendered output only**, exactly if every record of that class spells its
discriminators as they decode and is of the last run or of another run in a pane.  The other records
stay, around one new record. -/
theorem compaction_reclaims_rendered_iff (fits : Bytes → Bool) {path : FilePath} {file : SessionFile}
    {after : Option SessionFileFingerprint} {planned : CompactionPlanFile} {clock manifestId : Text}
    {fenced : Bool} {rewrite : CompactedFile}
    (hplan : planFile json sha256 now path (some file) after = .ok planned)
    (hrewrite : compactedRewrite json sha256 now clock fenced planned manifestId (some file) =
      .ok rewrite) :
    (∃ front summary back,
      (readHistoryRecords file.bytes).filter (!isReclaimed planned.transport ·) = front ++ back ∧
        rewrite.bytes = front.flatten ++ summary ++ back.flatten) ∧
    ((∀ raw ∈ (readHistoryRecords file.bytes).filter (isReclaimed planned.transport),
        RenderedOutput json fits file raw) ↔
      ∀ raw ∈ readHistoryRecords file.bytes, recordClass raw = .renderedTui →
        ∀ ms, parse (content newline raw) = some (.object ms) →
          SpelledAsDecoded fits ms ∧
            ∃ run, NamesRun ms run ∧ (LastRun json file run ∨ PaneRun json file run)) := by
  constructor
  · obtain ⟨f, hf, -, rfl⟩ := compactedRewrite_ok hrewrite
    cases hf
    obtain ⟨hnone, hbytes⟩ | ⟨front, back, header, hkept, hbytes⟩ :=
      buildCompacted_bytes json sha256 clock file.bytes planned manifestId
    · refine ⟨readHistoryRecords file.bytes, [], [], ?_, ?_⟩
      · rw [List.filter_eq_nil_iff] at hnone
        rw [List.append_nil, List.filter_eq_self]
        exact fun raw hraw => by simpa using hnone raw hraw
      · rw [hbytes, List.flatten_nil, List.append_nil, List.append_nil]
        exact (records_flatten newline file.bytes).symm
    · exact ⟨front, _, back, hkept, hbytes⟩
  · simp only [List.mem_filter, isReclaimed_planned hplan, and_imp]
    refine forall_congr' fun raw => forall_congr' fun hraw => forall_congr' fun hclass => ?_
    obtain ⟨hended, ms, hparse, hkind, hevent⟩ := recordClass_renderedTui hclass
    constructor
    · rintro ⟨-, ms', hparse', hchunk, run, hnames, hpane⟩ ms'' hparse''
      rw [hparse'] at hparse''
      cases hparse''
      rw [hparse] at hparse'
      cases hparse'
      exact ⟨(textChunk_iff fits hkind hevent).mp hchunk, run, hnames, .inr hpane⟩
    · intro h
      obtain ⟨hspelled, run, hnames, hrun⟩ := h ms hparse
      refine ⟨hended, ms, hparse, (textChunk_iff fits hkind hevent).mpr hspelled, run, hnames, ?_⟩
      cases hrun with
      | inl hlast => exact planFile_lastRun hplan hlast
      | inr hpane => exact hpane

end Planned

/-! ### Two runs in one file -/

namespace TwoRuns

/-- The envelope of a line up to its kind. -/
def header (seq run : String) : List String :=
  ["\x7b\"seq\":", seq, ",\"time\":\"2025-01-01", "T00:00:0", seq, "Z\",\"run_id\":\"", run,
    "\",\"runtime_id\":\"rt-1\",", "\"boot_id\":\"boot-1\",", "\"kind\":"]

def line (pieces : List String) : Bytes := utf8 (pieces.flatMap String.toList) ++ [newline]

def stdioMeta : Bytes :=
  line (header "0" "run-1" ++ ["\"lifecycle\",", "\"event\":", "\x7b\"driver_config\":null,",
    "\"phase\":\"run_meta\",", "\"transport\":\"stdio\"\x7d\x7d"])

def answer : Bytes :=
  line (header "1" "run-1" ++ ["\"driver_event\",", "\"event\":", "\x7b\"text\":\"answer\",",
    "\"type\":\"text_chunk\"\x7d\x7d"])

def tmuxMeta : Bytes :=
  line (header "2" "run-2" ++ ["\"lifecycle\",", "\"event\":", "\x7b\"driver_config\":null,",
    "\"phase\":\"run_meta\",", "\"transport\":\"tmux\"\x7d\x7d"])

def tmuxRelease : Bytes :=
  line (header "3" "run-2" ++ ["\"lifecycle\",", "\"event\":", "\x7b\"outcome\":\"completed\",",
    "\"phase\":\"release\",", "\"reason\":\"done\"\x7d\x7d"])

/-- A string of the lines, which are ASCII. -/
def field (ms : List (Key × Json)) (key : String) : Option Text :=
  match lookup ms (utf8 key.toList) with
  | some (.string text) => some (text.map fun b => Char.ofNat b.toNat)
  | _ => none

/-- The times of the lines. -/
def timeOf (text : Text) : ℤ := 1735689600 + ((text.getD 18 '0').toNat - '0'.toNat : ℕ)

def decodeEnvelope (bytes : Bytes) : Option (SessionEnvelope Json) :=
  match value (bytes.length + 1) bytes with
  | some (.object ms, _) => do
      let .number seq ← lookup ms (utf8 "seq".toList) | none
      let time ← field ms "time"
      let runId ← field ms "run_id"
      let runtimeId ← field ms "runtime_id"
      let bootId ← field ms "boot_id"
      let kind ← field ms "kind"
      let event ← lookup ms eventMember
      some
        { seq := (seq.headD 48).toNat - 48
          time := timeOf time
          runId, runtimeId, bootId
          kind :=
            if kind = "lifecycle".toList then .lifecycle
            else if kind = "driver_event".toList then .driverEvent
            else .note
          event }
  | _ => none

def decodeLifecycle : Json → Option (Lifecycle Json)
  | .object ms => do
      let phase ← field ms "phase"
      if phase = "run_meta".toList then
        let transport ← field ms "transport"
        some (.runMeta
          { transport
            harness := none
            projectId := none
            worktree := none
            lastPath := none
            stdoutPath := none
            role := none
            requiresWorkerFinalize := none
            driverConfig := .null })
      else if phase = "release".toList then some (.release .completed)
      else some .other
  | _ => none

/-- The digest of `answer`. -/
def digest : Text :=
  ["7645315253bf53d9f793", "9bbfbcbf235cb635a09e", "6cf15be1b94a565da48f", "5157"].flatMap
    String.toList

/-- The note for `answer` in the manifest `m-1`. -/
def summary : Bytes :=
  utf8 (["\x7b\"boot_id\":\"boot-1\",\"event\":\x7b\"", "manifest_id\":\"m-1\",\"note\":\"org",
      "asmic-run-history-compacted\",\"", "reclaimed_bytes\":164,\"reclaime",
      "d_records\":1,\"sha256\":\"7645315", "253bf53d9f7939bbfbcbf235cb635a",
      "09e6cf15be1b94a565da48f5157\",\"", "source\":\".orgasmic/tmp/run-his",
      "tory-archive/m-1/s.jsonl\"\x7d,\"ki", "nd\":\"note\",\"run_id\":\"run-1\",\"r",
      "untime_id\":\"rt-1\",\"seq\":1,\"tim", "e\":\"2025-01-01T00:00:01Z\"\x7d"].flatMap String.toList)

def serdeJson : SerdeJson Json where
  envelope := decodeEnvelope
  value := parse
  lifecycle := decodeLifecycle
  get
    | .object ms, key => lookup ms (utf8 key)
    | _, _ => none
  asStr
    | .string text => readToString text
    | _ => none
  asU64
    | .number text => some (text.foldl (fun n b => 10 * n + (b.toNat - 48)) 0)
    | _ => none
  asBool
    | .bool b => some b
    | _ => none
  asArray
    | .array items => some items
    | _ => none
  string text := .string (utf8 text)
  number n := .number (utf8 (Nat.toDigits 10 n))
  object ms := .object (ms.map fun m => (⟨utf8 m.1, false⟩, m.2))
  toVec _ := summary

def file : SessionFile where
  content :=
    { bytes := stdioMeta ++ answer ++ tmuxMeta ++ tmuxRelease
      length_lt := by decide +kernel }
  dev := 1
  ino := 7
  mtimeNs := 1735689603000000000

def path : FilePath :=
  ["board".toList, ".orgasmic".toList, "tmp".toList, "sessions".toList, "s.jsonl".toList]

def authority : SessionAuthority where
  runId := "run-2".toList
  terminal := some (.release .completed 1735689603)
  transport := some "tmux".toList
  harness := none
  scanTruncated := false
  finalEnvelopeRetained := true
  finalLineRunId := some "run-2".toList

theorem authority_ok :
    deriveSessionAuthority serdeJson 0 file.content .default = .ok authority := by
  decide +kernel

def planned : CompactionPlanFile :=
  plannedOf path authority file (scanReclaimable (fun _ => digest) file.bytes authority.transport)

theorem answer_rendered : recordClass answer = .renderedTui := by decide +kernel

theorem answer_mem : answer ∈ readHistoryRecords file.bytes := by decide +kernel

theorem answer_reclaimed :
    answer ∈ (readHistoryRecords file.bytes).filter (isReclaimed authority.transport) := by
  have hpane : authority.transport.any transportIsPane = true := by decide
  refine List.mem_filter.mpr ⟨answer_mem, ?_⟩
  rw [isReclaimed, classIsReclaimable, answer_rendered, hpane]
  rfl

theorem planned_ok :
    planFile serdeJson (fun _ => digest) 0 path (some file) (some file.fingerprint) =
      .ok planned := by
  have hproven : authority.terminalIsProven = true := by decide
  have hpane : authority.transport.any transportIsPane = true := by decide
  exact planFile_eq_ok_iff.mpr
    ⟨file, authority, rfl, rfl, authority_ok, hproven, hpane,
      scanReclaimable_records_ne_zero answer_reclaimed, rfl⟩

/-- `s.jsonl` without the answer. -/
def rewrite : CompactedFile :=
  buildCompacted serdeJson (fun _ => digest) "2025-01-02T00:00:00+00:00".toList file.bytes planned
    "m-1".toList

theorem rewrite_ok :
    compactedRewrite serdeJson (fun _ => digest) 0 "2025-01-02T00:00:00+00:00".toList true planned
      "m-1".toList (some file) = .ok rewrite :=
  compactedRewrite_of_planFile planned_ok _ _

/-- The run that the answer names. -/
theorem answer_run {ms : List (Key × Json)} {run : Text}
    (hparse : parse (content newline answer) = some (.object ms)) (h : NamesRun ms run) :
    utf8 run = utf8 "run-1".toList := by
  have hfield : ((value ((content newline answer).length + 1) (content newline answer)).bind fun p =>
      match p.1 with
      | .object ms =>
          match lookup ms runIdMember with
          | some (.string text) => some text
          | _ => none
      | _ => none) = some (utf8 "run-1".toList) := by decide +kernel
  obtain ⟨rest, hvalue⟩ := value_of_parse hparse
  rw [hvalue, Option.bind_some] at hfield
  dsimp only at hfield
  rw [show lookup ms runIdMember = some (.string (utf8 run)) from h] at hfield
  exact Option.some.inj hfield

theorem pane_run {run : Text} (h : PaneRun serdeJson file run) : run = "run-2".toList := by
  have hruns : file.content.lines.filterMap (paneRunOf serdeJson) = ["run-2".toList] := by
    decide +kernel
  obtain ⟨line, hline, hrun⟩ := h
  have hmem : run ∈ file.content.lines.filterMap (paneRunOf serdeJson) :=
    List.mem_filterMap.mpr ⟨line, hline, (paneRunOf_eq_some_iff serdeJson).mpr hrun⟩
  rw [hruns] at hmem
  exact List.mem_singleton.mp hmem

end TwoRuns

open TwoRuns in
/-- `compaction_reclaims_rendered_iff` for the session file of two runs. -/
theorem compaction_reclaims_rendered_sample :
    (∃ front summary back,
      (readHistoryRecords file.bytes).filter (!isReclaimed planned.transport ·) = front ++ back ∧
        rewrite.bytes = front.flatten ++ summary ++ back.flatten) ∧
    ((∀ raw ∈ (readHistoryRecords file.bytes).filter (isReclaimed planned.transport),
        RenderedOutput serdeJson (fun _ => true) file raw) ↔
      ∀ raw ∈ readHistoryRecords file.bytes, recordClass raw = .renderedTui →
        ∀ ms, parse (content newline raw) = some (.object ms) →
          SpelledAsDecoded (fun _ => true) ms ∧
            ∃ run, NamesRun ms run ∧ (LastRun serdeJson file run ∨ PaneRun serdeJson file run)) :=
  compaction_reclaims_rendered_iff (fun _ => true) planned_ok rewrite_ok

open TwoRuns in
/-- **An answer on stdio is removed**: the last run of the file ran in a pane. -/
theorem compaction_reclaims_rendered_fails :
    ¬ ∀ (Value : Type) (json : SerdeJson Value) (sha256 : Bytes → Text) (now : ℤ)
      (fits : Bytes → Bool) (path : FilePath) (file : SessionFile)
      (after : Option SessionFileFingerprint) (planned : CompactionPlanFile)
      (clock manifestId : Text) (fenced : Bool) (rewrite : CompactedFile),
      planFile json sha256 now path (some file) after = .ok planned →
      compactedRewrite json sha256 now clock fenced planned manifestId (some file) = .ok rewrite →
        ∀ raw ∈ (readHistoryRecords file.bytes).filter (isReclaimed planned.transport),
          RenderedOutput json fits file raw := by
  intro h
  obtain ⟨-, ms, hparse, -, run, hnames, hpane⟩ :=
    h Json serdeJson (fun _ => digest) 0 (fun _ => true) path file (some file.fingerprint) planned _ _
      true rewrite planned_ok rewrite_ok answer answer_reclaimed
  obtain rfl := pane_run hpane
  have hne : utf8 "run-2".toList ≠ utf8 "run-1".toList := by decide
  exact hne (answer_run hparse hnames)

end Orgasmic
