import Orgasmic.SessionScan

/-! # What a session file says about its run

The lifecycle envelopes of a bounded scan are reduced to the segment of the newest run, and the
facts about the run are read off that segment.

* **Events.** `Lifecycle` is the decoded event of a lifecycle envelope; what `serde_json` does with
  values is the parameter `SerdeJson`.
* **Semantics.** `deriveSemantics` is a fold over the segment: the last event that states a fact
  wins.
* **Authority.** `deriveSessionAuthority` is what maintenance re-derives from the bytes of a file
  before it rewrites it. -/

namespace Orgasmic

open Text

/-! ### Lifecycle events -/

inductive ReleaseOutcome where
  | completed
  | failed
  | interrupted
  | cancelled
deriving DecidableEq, Repr

/-- Typed link from a replacement run back to its failed origin. -/
structure RecoveryOrigin (Value : Type) where
  projectId : Text
  originRunId : Text
  originSessionPath : FilePath
  requestId : Text
  replacementRunId : Text
  replacementSessionPath : FilePath
  action : Text
  target : Option Text
  claim : Option Value

/-- What a run was acquired with. -/
structure RunMeta (Value : Type) where
  transport : Text
  harness : Option Text
  projectId : Option Text
  worktree : Option FilePath
  lastPath : Option FilePath
  stdoutPath : Option FilePath
  role : Option Text
  requiresWorkerFinalize : Option Bool
  driverConfig : Value

/-- The event of a lifecycle envelope, with the fields that are read back. -/
inductive Lifecycle (Value : Type) where
  | acquire (taskId kind workerId : Text)
  | runMeta (recorded : RunMeta Value)
  | stageMeta (stage : Text)
  | release (outcome : ReleaseOutcome)
  | nativeRuntime (provider : Text) (sessionId : Option Text) (sessionPath : Option FilePath)
      (launchArgv resumeArgv : List Text)
  | recoveryOrigin (link : RecoveryOrigin Value)
  | promptDraft (text : Text) (sent : Bool)
  | other

/-- What `serde_json` does, over its `Value`. -/
structure SerdeJson (Value : Type) where
  /-- `from_slice::<SessionEnvelope>`. -/
  envelope : Bytes → Option (SessionEnvelope Value)
  /-- `from_slice::<Value>`. -/
  value : Bytes → Option Value
  /-- `from_value::<Lifecycle>`. -/
  lifecycle : Value → Option (Lifecycle Value)
  get : Value → Text → Option Value
  asStr : Value → Option Text
  asU64 : Value → Option ℕ
  asBool : Value → Option Bool
  asArray : Value → Option (List Value)
  string : Text → Value
  number : ℕ → Value
  object : List (Text × Value) → Value
  toVec : Value → Bytes

inductive TerminalRecord where
  | release (outcome : ReleaseOutcome) (time : ℤ)
  | driverEvent (event : Text) (time : ℤ)
  | externalRegistrationEnded
deriving DecidableEq, Repr

structure NativeRuntimeRef where
  provider : Text
  sessionId : Option Text
  sessionPath : Option FilePath
deriving DecidableEq, Repr

/-- `DerivedSemantics`. -/
structure DerivedSemantics where
  runId : Text := []
  runtimeId : Text := []
  bootId : Text := []
  taskId : Option Text := none
  kind : Option Text := none
  workerId : Option Text := none
  stage : Option Text := none
  transport : Option Text := none
  harness : Option Text := none
  native : Option NativeRuntimeRef := none
  runMetaProject : Option Text := none
  runMetaWorktree : Option FilePath := none
  runMetaRecorded : Bool := false
  externalRegistration : Bool := false
  replacementRunId : Option Text := none
  replacementSessionPath : Option FilePath := none
  terminal : Option TerminalRecord := none
  finalReleaseOutcome : Option ReleaseOutcome := none
  driverTerminalEvent : Option Text := none
deriving DecidableEq, Repr

section Derivation

variable {Value : Type} (json : SerdeJson Value)

/-- Driver events keep their type and the protocol version; the others stay as they are. -/
def compactEnvelope (envelope : SessionEnvelope Value) : SessionEnvelope Value :=
  if envelope.kind ≠ .driverEvent then envelope
  else
    { envelope with
      event :=
        match (json.get envelope.event "type".toList).bind json.asStr,
            json.get envelope.event "protocol_version".toList with
        | some type, some protocol =>
            json.object [("type".toList, json.string type), ("protocol_version".toList, protocol)]
        | some type, none => json.object [("type".toList, json.string type)]
        | none, _ => json.object [] }

def compactEnvelopes (envelopes : List (SessionEnvelope Value)) : List (SessionEnvelope Value) :=
  envelopes.map (compactEnvelope json)

/-- The envelopes behind the last one of another run. -/
def latestRunSegment (envelopes : List (SessionEnvelope Value)) : List (SessionEnvelope Value) :=
  match envelopes.getLast? with
  | none => envelopes
  | some latest => envelopes.rtakeWhile (·.runId = latest.runId)

/-- What one lifecycle event states about the run. -/
def DerivedSemantics.observe (facts : DerivedSemantics) : Lifecycle Value → DerivedSemantics
  | .acquire taskId kind workerId =>
      { facts with taskId := some taskId, kind := some kind, workerId := some workerId }
  | .runMeta recorded =>
      { facts with
        externalRegistration := toAsciiLowercase (trim recorded.transport) = "external".toList
        transport := some recorded.transport
        harness := recorded.harness
        runMetaProject := recorded.projectId
        runMetaWorktree := recorded.worktree
        runMetaRecorded := true }
  | .stageMeta stage => { facts with stage := some stage }
  | .nativeRuntime provider sessionId sessionPath _ _ =>
      { facts with native := some ⟨provider, sessionId, sessionPath⟩ }
  | .recoveryOrigin link =>
      { facts with
        replacementRunId := some link.replacementRunId
        replacementSessionPath := some link.replacementSessionPath }
  | _ => facts

/-- The event of a lifecycle envelope, if it decodes. -/
def lifecycleOf (envelope : SessionEnvelope Value) : Option (Lifecycle Value) :=
  if envelope.kind = .lifecycle then json.lifecycle envelope.event else none

/-- The release on the last envelope of the file. -/
def finalReleaseOutcome (finalEnvelopeRetained : Bool) (envelopes : List (SessionEnvelope Value)) :
    Option ReleaseOutcome :=
  if !finalEnvelopeRetained then none
  else
    match envelopes.getLast?.bind (lifecycleOf json) with
    | some (.release outcome) => some outcome
    | _ => none

/-- The terminal event that a driver envelope names. -/
def terminalEventOf (envelope : SessionEnvelope Value) : Option (Text × ℤ) :=
  if envelope.kind ≠ .driverEvent then none
  else
    match (json.get envelope.event "type".toList).bind json.asStr with
    | none => none
    | some type =>
        if type = "run_complete".toList then some ("run_complete".toList, envelope.time)
        else if type = "run_fail".toList ∨ type = "run_error".toList then
          some ("run_fail".toList, envelope.time)
        else none

/-- The newest terminal driver event. -/
def driverTerminalEvent (envelopes : List (SessionEnvelope Value)) : Option (Text × ℤ) :=
  envelopes.reverse.findSome? (terminalEventOf json)

/-- An interrupted release is not terminal, whatever the driver said before; `now` is the clock. -/
def terminalRecord (now : ℤ) (release : Option ReleaseOutcome) (driverEvent : Option (Text × ℤ))
    (lastTime : Option ℤ) (externalRegistration : Bool) : Option TerminalRecord :=
  match release with
  | some .interrupted => none
  | some outcome => some (.release outcome (lastTime.getD now))
  | none =>
      match driverEvent with
      | some (event, time) => some (.driverEvent event time)
      | none => if externalRegistration then some .externalRegistrationEnded else none

def deriveSemantics (now : ℤ) (envelopes : List (SessionEnvelope Value))
    (finalEnvelopeRetained : Bool) : DerivedSemantics :=
  let envelopes := latestRunSegment envelopes
  let start : DerivedSemantics :=
    match envelopes.head? with
    | none => {}
    | some first => { runId := first.runId, runtimeId := first.runtimeId, bootId := first.bootId }
  let facts := (envelopes.filterMap (lifecycleOf json)).foldl DerivedSemantics.observe start
  let release := finalReleaseOutcome json finalEnvelopeRetained envelopes
  let driverEvent := driverTerminalEvent json envelopes
  { facts with
    terminal := terminalRecord now release driverEvent (envelopes.getLast?.map (·.time))
      facts.externalRegistration
    finalReleaseOutcome := release
    driverTerminalEvent := driverEvent.map (·.1) }

end Derivation

/-! ### Authority -/

/-- What a fresh bounded read of a session file proves about its run. -/
structure SessionAuthority where
  runId : Text
  terminal : Option TerminalRecord
  transport : Option Text
  harness : Option Text
  scanTruncated : Bool
  finalEnvelopeRetained : Bool
  finalLineRunId : Option Text
deriving DecidableEq, Repr

namespace SessionAuthority

def isTerminal (authority : SessionAuthority) : Bool := authority.terminal.isSome

/-- The verdict rests on the segment that the file ends with. -/
def terminalIsProven (authority : SessionAuthority) : Bool :=
  authority.isTerminal &&
    (!authority.scanTruncated || authority.finalLineRunId = some authority.runId)

/-- `transport/harness`. -/
def driverLabel (authority : SessionAuthority) : Text :=
  match authority.transport, authority.harness with
  | some transport, some harness => transport ++ '/' :: harness
  | some transport, none => transport
  | none, _ => "unknown".toList

end SessionAuthority

def deriveSessionAuthority {Value : Type} (json : SerdeJson Value) (now : ℤ) (file : SessionBytes)
    (budget : SessionScanBudget) : Except SessionError SessionAuthority :=
  match scanSessionLifecycle json.envelope file budget with
  | .error e => .error e
  | .ok scan =>
      let semantics := deriveSemantics json now
        (compactEnvelopes json (latestRunSegment scan.envelopes)) scan.finalEnvelopeRetained
      .ok
        { runId := semantics.runId
          terminal := semantics.terminal
          transport := semantics.transport
          harness := semantics.harness
          scanTruncated := scan.truncated
          finalEnvelopeRetained := scan.finalEnvelopeRetained
          finalLineRunId := scan.finalLineRunId }

/-! ### Where the transport comes from -/

section Provenance

variable {Value : Type} (json : SerdeJson Value)

/-- The envelope records the transport. -/
def RecordsTransport (envelope : SessionEnvelope Value) (transport : Text) : Prop :=
  ∃ recorded, lifecycleOf json envelope = some (.runMeta recorded) ∧ recorded.transport = transport

theorem observe_transport (facts : DerivedSemantics) (event : Lifecycle Value) :
    (facts.observe event).transport = facts.transport ∨
      ∃ recorded, event = .runMeta recorded ∧
        (facts.observe event).transport = some recorded.transport := by
  cases event with
  | runMeta recorded => exact .inr ⟨recorded, rfl, rfl⟩
  | _ => exact .inl rfl

/-- A transport that a fold over events ends with was there before, or is that of an event. -/
theorem foldl_observe_transport {events : List (Lifecycle Value)} {facts : DerivedSemantics}
    {transport : Text}
    (h : (events.foldl DerivedSemantics.observe facts).transport = some transport) :
    facts.transport = some transport ∨
      ∃ recorded, .runMeta recorded ∈ events ∧ recorded.transport = transport := by
  induction events generalizing facts with
  | nil => exact .inl h
  | cons event events ih =>
      obtain hfacts | ⟨recorded, hmem, ht⟩ := ih h
      · obtain hkeep | ⟨recorded, rfl, ht⟩ := observe_transport facts event
        · exact .inl (hkeep ▸ hfacts)
        · rw [ht] at hfacts
          exact .inr ⟨recorded, List.mem_cons_self, Option.some.inj hfacts⟩
      · exact .inr ⟨recorded, List.mem_cons_of_mem _ hmem, ht⟩

@[simp] theorem compactEnvelope_kind (envelope : SessionEnvelope Value) :
    (compactEnvelope json envelope).kind = envelope.kind := by
  unfold compactEnvelope
  split <;> rfl

/-- Lifecycle events are not reduced. -/
theorem lifecycleOf_compactEnvelope (envelope : SessionEnvelope Value) :
    lifecycleOf json (compactEnvelope json envelope) = lifecycleOf json envelope := by
  unfold lifecycleOf
  rw [compactEnvelope_kind]
  split
  · next h =>
      have hne : envelope.kind ≠ .driverEvent := by rw [h]; decide
      rw [compactEnvelope, if_pos hne]
  · rfl

/-- Every envelope of the segment is of the run of the last one. -/
theorem mem_latestRunSegment {envelopes : List (SessionEnvelope Value)}
    {envelope : SessionEnvelope Value} (h : envelope ∈ latestRunSegment envelopes) :
    envelope ∈ envelopes ∧ envelopes.getLast?.map (·.runId) = some envelope.runId := by
  unfold latestRunSegment at h
  cases hlast : envelopes.getLast? with
  | none =>
      rw [List.getLast?_eq_none_iff] at hlast
      subst hlast
      cases h
  | some latest =>
      rw [hlast] at h
      refine ⟨(List.rtakeWhile_suffix _ _).mem h, ?_⟩
      have hrun := List.mem_rtakeWhile_imp h
      simp only [decide_eq_true_eq] at hrun
      rw [Option.map_some, hrun]

/-- **The transport of a file is recorded by an envelope of its last run.** -/
theorem deriveSessionAuthority_transport {now : ℤ} {file : SessionBytes}
    {budget : SessionScanBudget} {authority : SessionAuthority} {transport : Text}
    (h : deriveSessionAuthority json now file budget = .ok authority)
    (ht : authority.transport = some transport) :
    ∃ scan, scanSessionLifecycle json.envelope file budget = .ok scan ∧
      ∃ envelope ∈ scan.envelopes, RecordsTransport json envelope transport ∧
        scan.envelopes.getLast?.map (·.runId) = some envelope.runId := by
  unfold deriveSessionAuthority at h
  cases hscan : scanSessionLifecycle json.envelope file budget with
  | error e =>
      rw [hscan] at h
      cases h
  | ok scan =>
      rw [hscan] at h
      cases h
      refine ⟨scan, rfl, ?_⟩
      obtain hstart | ⟨recorded, hmem, htransport⟩ := foldl_observe_transport ht
      · split at hstart <;> cases hstart
      · rw [List.mem_filterMap] at hmem
        obtain ⟨compact, hcompact, hevent⟩ := hmem
        have hsegment := (mem_latestRunSegment hcompact).1
        obtain ⟨envelope, henvelope, rfl⟩ := List.mem_map.mp hsegment
        obtain ⟨hmem, hlast⟩ := mem_latestRunSegment henvelope
        rw [lifecycleOf_compactEnvelope] at hevent
        exact ⟨envelope, hmem, ⟨recorded, hevent, htransport⟩, hlast⟩

end Provenance

end Orgasmic
