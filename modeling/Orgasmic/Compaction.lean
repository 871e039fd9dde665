import Orgasmic.HistoryLine
import Orgasmic.RunAuthority

/-! # Compaction of a session file

A maintenance pass drops the rendered output of a run that ended, and puts one summary note where
the last dropped record stood.

* **Plan.** `planFile` decides from the bytes of a file whether the pass may rewrite it, and digests
  the records that would go.
* **Rewrite.** `buildCompacted` copies every other record verbatim; `compactedRewrite` re-proves the
  plan on the bytes it is about to replace, and refuses otherwise.

The digest is the parameter `sha256`, the clock is `now`. -/

namespace Orgasmic

open Text

/-! ### Files -/

structure SessionFileFingerprint where
  dev : ℕ
  ino : ℕ
  len : ℕ
  mtimeNs : ℕ
deriving DecidableEq, Repr

/-- A regular file and what its metadata say. -/
structure SessionFile where
  content : SessionBytes
  dev : ℕ
  ino : ℕ
  mtimeNs : ℕ

def SessionFile.bytes (file : SessionFile) : Bytes := file.content.bytes

/-- `SessionFileFingerprint::of`. -/
def SessionFile.fingerprint (file : SessionFile) : SessionFileFingerprint :=
  ⟨file.dev, file.ino, file.bytes.length, file.mtimeNs⟩

/-! ### Plan -/

structure CompactionPlanFile where
  sessionPath : FilePath
  runId : Text
  driver : Text
  transport : Option Text
  fingerprint : SessionFileFingerprint
  totalBytes : ℕ
  reclaimableRecords : ℕ
  reclaimableBytes : ℕ
  reclaimableSha256 : Text
deriving DecidableEq, Repr

/-- Why a candidate is not planned. -/
inductive PlanSkip where
  | unreadable
  | notTerminal
  | unproven
  | notPane
  | nothingReclaimable
  | unstable
deriving DecidableEq, Repr

structure ReclaimableScan where
  records : ℕ
  bytes : ℕ
  sha256 : Text
deriving DecidableEq, Repr

/-- The pass drops the record. -/
def isReclaimed (transport : Option Text) (raw : Bytes) : Bool :=
  classIsReclaimable (recordClass raw) transport

section Pass

variable {Value : Type} (json : SerdeJson Value) (sha256 : Bytes → Text) (now : ℤ)

def scanReclaimable (file : Bytes) (transport : Option Text) : ReclaimableScan :=
  let reclaimed := (readHistoryRecords file).filter (isReclaimed transport)
  ⟨reclaimed.length, (reclaimed.map List.length).sum, sha256 reclaimed.flatten⟩

/-- What the plan states about a file. -/
def plannedOf (path : FilePath) (authority : SessionAuthority) (file : SessionFile)
    (scan : ReclaimableScan) : CompactionPlanFile where
  sessionPath := path
  runId := authority.runId
  driver := authority.driverLabel
  transport := authority.transport
  fingerprint := file.fingerprint
  totalBytes := file.bytes.length
  reclaimableRecords := scan.records
  reclaimableBytes := scan.bytes
  reclaimableSha256 := scan.sha256

/-- One turn of the loop of `plan_compaction`; `after` is the identity of the file once it was
scanned. -/
def planFile (path : FilePath) (file : Option SessionFile) (after : Option SessionFileFingerprint) :
    Except PlanSkip CompactionPlanFile :=
  match file with
  | none => .error .unreadable
  | some file =>
      match deriveSessionAuthority json now file.content .default with
      | .error _ => .error .unreadable
      | .ok authority =>
          if !authority.isTerminal then .error .notTerminal
          else if !authority.terminalIsProven then .error .unproven
          else if !authority.transport.any transportIsPane then .error .notPane
          else
            let scan := scanReclaimable sha256 file.bytes authority.transport
            if scan.records = 0 then .error .nothingReclaimable
            else if after = none then .error .unreadable
            else if after ≠ some file.fingerprint then .error .unstable
            else .ok (plannedOf path authority file scan)

/-! ### Rewrite -/

structure CompactedFile where
  bytes : Bytes
  reclaimedRecords : ℕ
  reclaimedBytes : ℕ
  reclaimedSha256 : Text
deriving DecidableEq, Repr

/-- `ARCHIVE_REL_PATH`. -/
def archiveRelPath : FilePath :=
  [".orgasmic".toList, "tmp".toList, "run-history-archive".toList]

/-- The note that stands for the dropped records; `clock` is the time as text. -/
def summaryRecord (clock : Text) (header : Option Value) (manifestId : Text) (records bytes : ℕ)
    (digest : Text) (sessionPath : FilePath) : Bytes :=
  let member (key : String) : Option Value := header.bind (json.get · key.toList)
  let stringField (key : String) : Text := ((member key).bind json.asStr).getD []
  let source := archiveRelPath ++ [manifestId, (fileName sessionPath).getD []]
  json.toVec (json.object
    [("seq".toList, json.number (((member "seq").bind json.asU64).getD 0)),
      ("time".toList, json.string (((member "time").bind json.asStr).getD clock)),
      ("run_id".toList, json.string (stringField "run_id")),
      ("runtime_id".toList, json.string (stringField "runtime_id")),
      ("boot_id".toList, json.string (stringField "boot_id")),
      ("kind".toList, json.string "note".toList),
      ("event".toList, json.object
        [("note".toList, json.string "orgasmic-run-history-compacted".toList),
          ("manifest_id".toList, json.string manifestId),
          ("reclaimed_records".toList, json.number records),
          ("reclaimed_bytes".toList, json.number bytes),
          ("sha256".toList, json.string digest),
          ("source".toList, json.string ((displayPath source).drop 1))])]) ++ [newline]

/-- What the loop of `build_compacted` carries; `hashed` is what the digest was fed. -/
structure Compacting (Value : Type) where
  out : Bytes := []
  reclaimedRecords : ℕ := 0
  reclaimedBytes : ℕ := 0
  hashed : Bytes := []
  lastReclaimedHeader : Option Value := none
  summaryAt : Option ℕ := none

/-- One record of `build_compacted`. -/
def Compacting.step (transport : Option Text) (s : Compacting Value) (raw : Bytes) :
    Compacting Value :=
  if !isReclaimed transport raw then { s with out := s.out ++ raw }
  else
    { out := s.out
      reclaimedRecords := s.reclaimedRecords + 1
      reclaimedBytes := s.reclaimedBytes + raw.length
      hashed := s.hashed ++ raw
      lastReclaimedHeader := (json.value (Delimited.content newline raw)).or s.lastReclaimedHeader
      summaryAt := some s.out.length }

def buildCompacted (clock : Text) (original : Bytes) (planned : CompactionPlanFile)
    (manifestId : Text) : CompactedFile :=
  let s := (readHistoryRecords original).foldl (Compacting.step json planned.transport) {}
  let digest := sha256 s.hashed
  { bytes :=
      match s.summaryAt with
      | none => s.out
      | some position =>
          s.out.take position ++
            summaryRecord json clock s.lastReclaimedHeader manifestId s.reclaimedRecords
              s.reclaimedBytes digest planned.sessionPath ++ s.out.drop position
    reclaimedRecords := s.reclaimedRecords
    reclaimedBytes := s.reclaimedBytes
    reclaimedSha256 := digest }

/-- Why `compact_one_file` leaves a file as it is. -/
inductive Refusal where
  /-- The session writer was not fenced for this path. -/
  | notFenced
  | unreadable
  /-- The session file changed between planning and applying. -/
  | changed
  /-- The current bytes could not be re-derived. -/
  | underivable
  /-- The current bytes do not prove that the run ended. -/
  | notEnded
  | otherTransport (current planned : Option Text)
  /-- Only a pane transport's rendered output is reclaimable. -/
  | notPane
  | contentChanged (planned found : ReclaimableScan)
deriving DecidableEq, Repr

/-- The part of `compact_one_file` before anything is written: the replacement, or a refusal. -/
def compactedRewrite (clock : Text) (fenced : Bool) (planned : CompactionPlanFile)
    (manifestId : Text) (file : Option SessionFile) : Except Refusal CompactedFile :=
  if !fenced then .error .notFenced
  else
    match file with
    | none => .error .unreadable
    | some file =>
        if file.fingerprint ≠ planned.fingerprint then .error .changed
        else
          match deriveSessionAuthority json now file.content .default with
          | .error _ => .error .underivable
          | .ok authority =>
              if !authority.terminalIsProven then .error .notEnded
              else if authority.transport ≠ planned.transport then
                .error (.otherTransport authority.transport planned.transport)
              else if !authority.transport.any transportIsPane then .error .notPane
              else if file.bytes.length ≠ planned.fingerprint.len then .error .changed
              else
                let rewrite := buildCompacted json sha256 clock file.bytes planned manifestId
                if rewrite.reclaimedRecords ≠ planned.reclaimableRecords ∨
                    rewrite.reclaimedBytes ≠ planned.reclaimableBytes ∨
                    rewrite.reclaimedSha256 ≠ planned.reclaimableSha256 then
                  .error (.contentChanged
                    ⟨planned.reclaimableRecords, planned.reclaimableBytes, planned.reclaimableSha256⟩
                    ⟨rewrite.reclaimedRecords, rewrite.reclaimedBytes, rewrite.reclaimedSha256⟩)
                else .ok rewrite

/-! ### What a plan and a rewrite say -/

variable {json sha256 now}

theorem scanReclaimable_records_ne_zero {file raw : Bytes} {transport : Option Text}
    (h : raw ∈ (readHistoryRecords file).filter (isReclaimed transport)) :
    (scanReclaimable sha256 file transport).records ≠ 0 :=
  (List.length_pos_of_mem h).ne'

/-- Everything a planned file states is of the bytes it was planned on. -/
theorem planFile_eq_ok_iff {path : FilePath} {file : Option SessionFile}
    {after : Option SessionFileFingerprint} {planned : CompactionPlanFile} :
    planFile json sha256 now path file after = .ok planned ↔
      ∃ f authority, file = some f ∧ after = some f.fingerprint ∧
        deriveSessionAuthority json now f.content .default = .ok authority ∧
        authority.terminalIsProven = true ∧ authority.transport.any transportIsPane = true ∧
        (scanReclaimable sha256 f.bytes authority.transport).records ≠ 0 ∧
        planned =
          plannedOf path authority f (scanReclaimable sha256 f.bytes authority.transport) := by
  cases file with
  | none => simp [planFile]
  | some f =>
      simp only [planFile]
      cases hauth : deriveSessionAuthority json now f.content .default with
      | error e => simp [hauth]
      | ok authority =>
          have hterminal : authority.terminalIsProven = true → authority.isTerminal = true := by
            intro h
            rw [SessionAuthority.terminalIsProven, Bool.and_eq_true] at h
            exact h.1
          constructor
          · intro h
            dsimp only at h
            split at h
            · cases h
            · split at h
              · cases h
              · next hproven =>
                  split at h
                  · cases h
                  · next hpane =>
                      split at h
                      · cases h
                      · next hrecords =>
                          split at h
                          · cases h
                          · split at h
                            · cases h
                            · next hafter =>
                                cases h
                                exact ⟨f, authority, rfl, not_not.mp hafter, hauth,
                                  by simpa using hproven, by simpa using hpane, hrecords, rfl⟩
          · rintro ⟨f', authority', hf, rfl, hauth', hproven, hpane, hrecords, rfl⟩
            cases hf
            rw [hauth] at hauth'
            cases hauth'
            simp [hterminal hproven, hproven, hpane, hrecords]

/-- A rewrite is made from the bytes that the plan was decided on. -/
theorem compactedRewrite_ok {clock : Text} {fenced : Bool} {planned : CompactionPlanFile}
    {manifestId : Text} {file : Option SessionFile} {rewrite : CompactedFile}
    (h : compactedRewrite json sha256 now clock fenced planned manifestId file = .ok rewrite) :
    ∃ f, file = some f ∧ f.fingerprint = planned.fingerprint ∧
      rewrite = buildCompacted json sha256 clock f.bytes planned manifestId := by
  unfold compactedRewrite at h
  split at h
  · cases h
  · split at h
    · cases h
    · next f =>
        split at h
        · cases h
        · next hprint =>
            split at h
            · cases h
            · split at h
              · cases h
              · split at h
                · cases h
                · split at h
                  · cases h
                  · split at h
                    · cases h
                    · dsimp only at h
                      split at h
                      · cases h
                      · cases h
                        exact ⟨f, rfl, not_not.mp hprint, rfl⟩

variable (json sha256)

/-- The loop of `build_compacted`, from any point: what it has written, and where the summary
goes. -/
theorem foldl_step (transport : Option Text) (records : List Bytes) (s : Compacting Value) :
    ∃ header summaryAt, records.foldl (Compacting.step json transport) s =
      { out := s.out ++ (records.filter (!isReclaimed transport ·)).flatten
        reclaimedRecords := s.reclaimedRecords + (records.filter (isReclaimed transport)).length
        reclaimedBytes :=
          s.reclaimedBytes + ((records.filter (isReclaimed transport)).map List.length).sum
        hashed := s.hashed ++ (records.filter (isReclaimed transport)).flatten
        lastReclaimedHeader := header
        summaryAt := summaryAt } ∧
      (summaryAt = s.summaryAt ∧ records.filter (isReclaimed transport) = [] ∨
        ∃ front back, records.filter (!isReclaimed transport ·) = front ++ back ∧
          summaryAt = some (s.out ++ front.flatten).length) := by
  induction records generalizing s with
  | nil => exact ⟨s.lastReclaimedHeader, s.summaryAt, by simp, .inl ⟨rfl, rfl⟩⟩
  | cons raw records ih =>
      obtain ⟨header, summaryAt, hfold, hat⟩ := ih (Compacting.step json transport s raw)
      refine ⟨header, summaryAt, ?_, ?_⟩
      · rw [List.foldl_cons, hfold]
        cases hr : isReclaimed transport raw with
        | true => simp [Compacting.step, hr, Nat.add_assoc, Nat.add_comm 1]
        | false => simp [Compacting.step, hr]
      · cases hr : isReclaimed transport raw with
        | true =>
            refine .inr ?_
            obtain ⟨rfl, -⟩ | ⟨front, back, hfront, rfl⟩ := hat
            · exact ⟨[], records.filter (!isReclaimed transport ·), by simp [hr],
                by simp [Compacting.step, hr]⟩
            · exact ⟨front, back, by simp [hr, hfront], by simp [Compacting.step, hr]⟩
        | false =>
            obtain ⟨rfl, hnone⟩ | ⟨front, back, hfront, rfl⟩ := hat
            · exact .inl ⟨by simp [Compacting.step, hr], by simp [hr, hnone]⟩
            · exact .inr ⟨raw :: front, back, by simp [hr, hfront], by simp [Compacting.step, hr]⟩

/-- **A rewrite keeps every other record verbatim and in order**, around the summary if a record was
dropped. -/
theorem buildCompacted_bytes (clock : Text) (original : Bytes) (planned : CompactionPlanFile)
    (manifestId : Text) :
    ((readHistoryRecords original).filter (isReclaimed planned.transport) = [] ∧
      (buildCompacted json sha256 clock original planned manifestId).bytes = original) ∨
    ∃ front back header,
      (readHistoryRecords original).filter (!isReclaimed planned.transport ·) = front ++ back ∧
        (buildCompacted json sha256 clock original planned manifestId).bytes =
          front.flatten ++
            summaryRecord json clock header manifestId
              ((readHistoryRecords original).filter (isReclaimed planned.transport)).length
              (((readHistoryRecords original).filter (isReclaimed planned.transport)).map
                List.length).sum
              (sha256 ((readHistoryRecords original).filter (isReclaimed planned.transport)).flatten)
              planned.sessionPath ++ back.flatten := by
  obtain ⟨header, summaryAt, hfold, hat⟩ := foldl_step json planned.transport
    (readHistoryRecords original) {}
  unfold buildCompacted
  rw [hfold]
  obtain ⟨rfl, hnone⟩ | ⟨front, back, hfront, rfl⟩ := hat
  · refine .inl ⟨hnone, ?_⟩
    have hall : (readHistoryRecords original).filter (!isReclaimed planned.transport ·) =
        readHistoryRecords original := by
      rw [List.filter_eq_nil_iff] at hnone
      rw [List.filter_eq_self]
      exact fun raw hraw => by simpa using hnone raw hraw
    simp only [hall, List.nil_append]
    exact Delimited.records_flatten newline original
  · refine .inr ⟨front, back, header, hfront, ?_⟩
    simp [hfront]

/-- The counts and the digest of a rewrite are those of the scan. -/
theorem buildCompacted_scan (clock : Text) (original : Bytes) (planned : CompactionPlanFile)
    (manifestId : Text) :
    let rewrite := buildCompacted json sha256 clock original planned manifestId
    (⟨rewrite.reclaimedRecords, rewrite.reclaimedBytes, rewrite.reclaimedSha256⟩ :
      ReclaimableScan) = scanReclaimable sha256 original planned.transport := by
  obtain ⟨header, summaryAt, hfold, -⟩ := foldl_step json planned.transport
    (readHistoryRecords original) {}
  simp only [buildCompacted, scanReclaimable, hfold, Nat.zero_add, List.nil_append]

variable {json sha256}

/-- **A plan applies to the bytes it was made of.** -/
theorem compactedRewrite_of_planFile {path : FilePath} {f : SessionFile}
    {after : Option SessionFileFingerprint} {planned : CompactionPlanFile}
    (h : planFile json sha256 now path (some f) after = .ok planned) (clock manifestId : Text) :
    compactedRewrite json sha256 now clock true planned manifestId (some f) =
      .ok (buildCompacted json sha256 clock f.bytes planned manifestId) := by
  obtain ⟨f', authority, hf, -, hauth, hproven, hpane, -, rfl⟩ := planFile_eq_ok_iff.mp h
  cases hf
  have hscan := buildCompacted_scan json sha256 clock f.bytes
    (plannedOf path authority f (scanReclaimable sha256 f.bytes authority.transport)) manifestId
  dsimp only at hscan
  obtain ⟨hrecords, hbytes, hdigest⟩ := ReclaimableScan.mk.injEq .. ▸ hscan
  unfold compactedRewrite
  simp only [hauth, hproven, hpane, hrecords, hbytes, hdigest]
  simp [plannedOf, scanReclaimable, SessionFile.fingerprint]

end Pass

end Orgasmic
