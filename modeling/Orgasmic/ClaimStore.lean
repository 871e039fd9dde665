import Orgasmic.RunAuthority

/-! # Recovery claims on disk

A recovery claim says which replacement run owns the rescue of a failed run.  It is one file for each
origin, authenticated with a key that only the daemon holds, and written through a temporary file.

* **Claims.** `RecoveryClaim` and the plan it must carry; the tag is an HMAC over the plan
  (`authorityPayload`).
* **The store.** `ClaimCall` is a computation over the files of one origin that can fail.  Every read
  asks the host how it went (`look`), so a run of a computation is one assignment of outcomes to its
  reads.
* **Durability.** Each change of a file adds to `cuts` what a crash at that boundary can leave: the
  temporary file with any part of its bytes, the directory before or after a rename.

`serde_json` and SHA-256 are fields of `ClaimHost`. -/

namespace Orgasmic

open Text

/-! ### Claims -/

inductive RecoveryClaimStatus where
  | pending
  | committed
deriving DecidableEq, Repr

structure RecoveryRunOptions where
  stallTimeoutSecs : Option ℕ
  maxRunDurationSecs : Option ℕ
  idleTimeoutSecs : Option ℕ
  cleanupOnFailure : Bool
deriving DecidableEq, Repr

structure NativeRuntimeMeta where
  provider : Text
  sessionId : Option Text
  sessionPath : Option FilePath
  launchArgv : List Text
  resumeArgv : List Text
  credentialMode : Option Text
deriving DecidableEq, Repr

structure RecoveryClaim (Value : Type) where
  planVersion : Option ℕ
  authorityTag : Option Text
  projectId : Text
  originRunId : Text
  requestId : Text
  status : RecoveryClaimStatus
  replacementRunId : Text
  replacementSessionPath : FilePath
  replacementRuntimeId : Text
  runtimeId : Option Text
  bootId : Option Text
  action : Option Text
  target : Option Text
  draftPrompt : Option Text
  originSessionPath : Option FilePath
  plannedTmuxSession : Option Text
  taskId : Option Text
  kind : Option Text
  workerId : Option Text
  role : Option Text
  requiresWorkerFinalize : Option Bool
  transport : Option Text
  harness : Option Text
  driverConfig : Option Value
  forceInert : Option Bool
  worktree : Option FilePath
  lastPath : Option FilePath
  stdoutPath : Option FilePath
  plannedNativeRuntime : Option NativeRuntimeMeta
  runOptions : Option RecoveryRunOptions
  spawnStarted : Bool
deriving DecidableEq, Repr

/-- What a recovery is planned with. -/
structure PendingRecoveryClaimSpec (Value : Type) where
  projectId : Text
  originRunId : Text
  requestId : Text
  originSessionPath : FilePath
  replacementSessionPath : FilePath
  bootId : Text
  action : Text
  target : Text
  draftPrompt : Option Text
  forceInert : Bool
  taskId : Text
  kind : Text
  workerId : Text
  role : Text
  requiresWorkerFinalize : Bool
  transport : Text
  harness : Option Text
  driverConfig : Value
  worktree : Option FilePath
  lastPath : Option FilePath
  stdoutPath : Option FilePath
  plannedNativeRuntime : Option NativeRuntimeMeta
  runOptions : RecoveryRunOptions

/-- What a commit is checked against. -/
structure CommitRecoveryDetails where
  runtimeId : Text
  bootId : Text
  action : Text
  target : Text
  draftPrompt : Option Text
deriving DecidableEq, Repr

/-- A path component that names one file.  Without a separator, and not a dot or two, a value is a
normal component. -/
def validateSafeComponent (value : Text) : Bool :=
  value ≠ [] && !value.contains '/' && !value.contains '\\' && value ≠ ".".toList &&
    value ≠ "..".toList

def isAsciiHexDigit (c : Char) : Bool :=
  ('0' ≤ c && c ≤ '9') || ('a' ≤ c && c ≤ 'f') || ('A' ≤ c && c ≤ 'F')

/-- The field is there and not empty. -/
def given (field : Option Text) : Bool := field.any (· ≠ [])

def RecoveryClaim.hasCompletePlan {Value : Type} (claim : RecoveryClaim Value) : Bool :=
  claim.planVersion = some 1 &&
    claim.authorityTag.any (fun tag => tag.length = 64 && tag.all isAsciiHexDigit) &&
    claim.runtimeId = some claim.replacementRuntimeId && given claim.bootId && given claim.action &&
    given claim.target && claim.draftPrompt.isSome && claim.originSessionPath.isSome &&
    given claim.plannedTmuxSession && given claim.taskId && given claim.kind &&
    given claim.workerId && given claim.role && claim.requiresWorkerFinalize.isSome &&
    given claim.transport && given claim.harness && claim.driverConfig.isSome &&
    claim.forceInert.isSome && claim.runOptions.isSome

/-! ### Evidence and errors -/

/-- What a failed read says about the thing that was read. -/
inductive ObservationClass where
  | absent
  | decided
  | unobserved
deriving DecidableEq, Repr

/-- What could not be observed. -/
inductive UnobservedSession where
  | sessionDirectoryUnavailable
  | sessionUnreadable
  | originSessionUnreadable
  | authorityKeyUnreadable
  | sessionPathUnresolvable
  | claimStoreUnreadable
  | claimFileUnreadable
deriving DecidableEq, Repr

/-- What a predicate established. -/
inductive ClaimEvidence where
  | valid
  | invalid
  | unobserved (reason : UnobservedSession)
deriving DecidableEq, Repr

/-- `ClaimEvidence::verified`. -/
def ClaimEvidence.verified (held : Bool) : ClaimEvidence := if held then .valid else .invalid

inductive RecoveryClaimError (Value : Type) where
  | invalidIdentifier
  | alreadyClaimed (existing : RecoveryClaim Value)
  | corruptClaim
  | missingClaim
  | foreignSessionPath
  | unobserved (reason : UnobservedSession)
  /-- An `io::Error` of a read, by its class. -/
  | io (observation : ObservationClass)
  /-- The `io::Error` of creating a file that is there. -/
  | alreadyExists
deriving DecidableEq, Repr

/-- `claim_io_error`. -/
def claimIoError {Value : Type} (reason : UnobservedSession) :
    ObservationClass → RecoveryClaimError Value
  | .absent => .io .absent
  | .decided => .corruptClaim
  | .unobserved => .unobserved reason

/-! ### Host and files -/

/-- The system calls that read. -/
inductive ReadPoint where
  | tokenProbe
  | tokenExists
  | tokenText
  | tokenOpen
  | tokenMetadata
  | tokenBody
  | stateRoot
  | claimDirectory
  | claimOpen
  | claimMetadata
  | claimBody
  | claimNames
  | sessionRoot
  | sessionListing
  | sessionEntry
  | sessionParent
  | sessionOpen
  | sessionMetadata
  | sessionBody
deriving DecidableEq, Repr

/-- `serde_json` on claims. -/
structure ClaimSerde (Value : Type) where
  fromStr : Text → Option (RecoveryClaim Value)
  fromValue : Value → Option (RecoveryClaim Value)
  toStringPretty : RecoveryClaim Value → Text
  toVec : RecoveryClaim Value → Bytes

structure ClaimHost (Value : Type) where
  json : SerdeJson Value
  serde : ClaimSerde Value
  sha256 : Bytes → Bytes
  sha256_length : ∀ message, (sha256 message).length = 32
  /-- How the read with this number goes; `none` is a success. -/
  reads : ℕ → ReadPoint → Option ObservationClass
  /-- The token that is generated if there is none. -/
  newToken : Bytes

/-- The files of one origin.  A temporary file is known by the identifier at its end. -/
structure ClaimDir where
  claim : Option Bytes := none
  temps : List (Text × Bytes) := []
  quarantine : Option Bytes := none
deriving DecidableEq, Repr

/-- Which of the files. -/
inductive ClaimName where
  | claim
  | temp (id : Text)
deriving DecidableEq, Repr

def ClaimDir.file (dir : ClaimDir) : ClaimName → Option Bytes
  | .claim => dir.claim
  | .temp id => (dir.temps.find? (·.1 = id)).map (·.2)

/-- The host's token, the claim directory of the project, if it is there, what crashes could have
left since the start, and the reads so far. -/
structure ClaimStore where
  token : Option Bytes
  dir : Option ClaimDir
  cuts : List (Option ClaimDir) := []
  log : List ReadPoint := []
deriving DecidableEq, Repr

/-- The files that are there. -/
def ClaimStore.files (s : ClaimStore) : ClaimDir := s.dir.getD {}

/-! ### Computations -/

/-- A computation over the store that can fail. -/
def ClaimCall (Value α : Type) := ClaimStore → Except (RecoveryClaimError Value) α × ClaimStore

namespace ClaimCall

variable {Value α β : Type}

instance : Monad (ClaimCall Value) where
  pure a := fun s => (.ok a, s)
  bind x f := fun s =>
    match x s with
    | (.ok a, s) => f a s
    | (.error e, s) => (.error e, s)

def fail (e : RecoveryClaimError Value) : ClaimCall Value α := fun s => (.error e, s)

/-- The result, also if it is an error. -/
def attempt (x : ClaimCall Value α) : ClaimCall Value (Except (RecoveryClaimError Value) α) :=
  fun s => (.ok (x s).1, (x s).2)

def store : ClaimCall Value ClaimStore := fun s => (.ok s, s)

/-- The files become `dir`, after the images in between. -/
def durable (images : List ClaimDir) (dir : ClaimDir) : ClaimCall Value Unit :=
  fun s => (.ok (), { s with dir := some dir, cuts := s.cuts ++ (images ++ [dir]).map some })

theorem bind_run (x : ClaimCall Value α) (f : α → ClaimCall Value β) (s : ClaimStore) :
    (x >>= f) s =
      match x s with
      | (.ok a, s) => f a s
      | (.error e, s) => (.error e, s) := rfl

end ClaimCall

section Host

variable {Value : Type} (host : ClaimHost Value)

open ClaimCall

/-- One read. -/
def look (point : ReadPoint) : ClaimCall Value (Option ObservationClass) :=
  fun s => (.ok (host.reads s.log.length point), { s with log := s.log ++ [point] })

/-- One read, whose failure is an error. -/
def observe (point : ReadPoint) (onError : ObservationClass → RecoveryClaimError Value) :
    ClaimCall Value Unit := do
  match ← look host point with
  | none => pure ()
  | some c => fail (onError c)

/-! ### Authority -/

/-- `load_or_generate`; a token that cannot be seen is generated anew. -/
def loadOrGenerate : ClaimCall Value Unit := do
  let there ← look host .tokenExists
  let s ← store
  match if there = none then s.token else none with
  | none => fun s => (.ok (), { s with token := some host.newToken })
  | some bytes =>
      observe host .tokenText fun _ => .corruptClaim
      match readToString bytes with
      | none => fail .corruptClaim
      | some raw =>
          if trim raw = [] then fun s => (.ok (), { s with token := some host.newToken })
          else pure ()

/-- `token_is_present`. -/
def tokenIsPresent : ClaimCall Value Bool := do
  match ← look host .tokenProbe with
  | none => do
      let s ← store
      pure s.token.isSome
  | some .absent => pure false
  | some c => fail (claimIoError .authorityKeyUnreadable c)

/-- The key without the white space at its end. -/
def trimKey (token : Bytes) : Bytes := token.rdropWhile isAsciiWhitespace

def authorityKey : ClaimCall Value Bytes := do
  if !(← tokenIsPresent host) then loadOrGenerate host
  observe host .tokenOpen .io
  let s ← store
  match s.token with
  | none => fail (.io .absent)
  | some token =>
      observe host .tokenMetadata .io
      observe host .tokenBody .io
      if trimKey token = [] then fail .corruptClaim else pure (trimKey token)

def authorityPayload (claim : RecoveryClaim Value) : Bytes :=
  host.serde.toVec { claim with authorityTag := none, status := .pending }

def hmacSha256 (key message : Bytes) : Bytes :=
  let short := if 64 < key.length then host.sha256 key else key
  let normalized := short ++ List.replicate (64 - short.length) 0
  host.sha256 (normalized.map (0x5c ^^^ ·) ++
    host.sha256 (normalized.map (0x36 ^^^ ·) ++ message))

/-- Two hex digits. -/
def hexByte (b : UInt8) : Text := [Nat.digitChar (b.toNat / 16), Nat.digitChar (b.toNat % 16)]

def hexText (bytes : Bytes) : Text := bytes.flatMap hexByte

/-- The tag that the key gives the claim. -/
def tagOf (key : Bytes) (claim : RecoveryClaim Value) : Text :=
  hexText (hmacSha256 host key (authorityPayload host claim))

/-- `authority_tag`. -/
def authorityTag (claim : RecoveryClaim Value) : ClaimCall Value Text := do
  let key ← authorityKey host
  pure (tagOf host key claim)

def claimHasValidAuthority (claim : RecoveryClaim Value) : ClaimCall Value ClaimEvidence := do
  match claim.authorityTag with
  | none => pure .invalid
  | some actual =>
      match ← attempt (authorityKey host) with
      | .ok key => pure (.verified (actual = tagOf host key claim))
      | .error (.unobserved reason) => pure (.unobserved reason)
      | .error _ => pure (.unobserved .authorityKeyUnreadable)

/-! ### The claim directory -/

/-- One component of the way to the claim directory. -/
def openComponent (create : Bool) (make : ClaimCall Value Unit) : ClaimCall Value Bool := do
  let s ← store
  let outcome ← look host .claimDirectory
  match if outcome = none ∧ s.dir = none then some .absent else outcome with
  | none =>
      observe host .claimDirectory (claimIoError .claimStoreUnreadable)
      pure true
  | some .absent =>
      if create then
        make
        observe host .claimDirectory (claimIoError .claimStoreUnreadable)
        observe host .claimDirectory (claimIoError .claimStoreUnreadable)
        pure true
      else pure false
  | some .decided => fail .corruptClaim
  | some .unobserved => fail (.unobserved .claimStoreUnreadable)

/-- `mkdirat`, which leaves a directory that is there. -/
def makeClaimDirectory : ClaimCall Value Unit := do
  let s ← store
  match s.dir with
  | none => durable [] {}
  | some _ => pure ()

/-- `ClaimDirectory::open`; the answer is whether the directory is there. -/
def openClaimDirectory (projectId : Text) (create : Bool) : ClaimCall Value Bool := do
  if !validateSafeComponent projectId then fail .invalidIdentifier
  else
    observe host .stateRoot (claimIoError .claimStoreUnreadable)
    observe host .stateRoot (claimIoError .claimStoreUnreadable)
    if ← openComponent host create (pure ()) then openComponent host create makeClaimDirectory
    else pure false

/-- `read_regular`. -/
def readRegular (name : ClaimName) : ClaimCall Value Text := do
  observe host .claimOpen (claimIoError .claimFileUnreadable)
  let s ← store
  match s.files.file name with
  | none => fail (.io .absent)
  | some bytes =>
      observe host .claimMetadata (claimIoError .claimFileUnreadable)
      observe host .claimBody (claimIoError .claimFileUnreadable)
      match readToString bytes with
      | none => fail .corruptClaim
      | some raw => pure raw

/-- `claim_file_name`. -/
def claimFileName (originRunId : Text) : ClaimCall Value Unit :=
  if validateSafeComponent originRunId then pure () else fail .invalidIdentifier

def removeTemp (id : Text) : ClaimCall Value Unit := do
  let s ← store
  durable [] { s.files with temps := s.files.temps.filter (·.1 ≠ id) }

/-- The temporary file becomes the claim file. -/
def renameTemp (id : Text) : ClaimCall Value Unit := do
  let s ← store
  match s.files.file (.temp id) with
  | none => fail (.io .absent)
  | some bytes =>
      durable [] { s.files with claim := some bytes, temps := s.files.temps.filter (·.1 ≠ id) }

/-- A leftover that may be promoted. -/
def isAuthenticTemp (projectId originRunId raw : Text) : ClaimCall Value Bool := do
  match (host.serde.fromStr raw).filter fun claim =>
      claim.projectId = projectId && claim.originRunId = originRunId && claim.hasCompletePlan with
  | none => pure false
  | some claim =>
      match ← claimHasValidAuthority host claim with
      | .invalid => pure false
      | .valid => pure true
      | .unobserved reason => fail (.unobserved reason)

/-- The loop over the leftovers: the authentic ones; the others are removed. -/
def sortTemps (projectId originRunId : Text) : List Text → ClaimCall Value (List Text)
  | [] => pure []
  | id :: ids => do
      match ← attempt (readRegular host (.temp id)) with
      | .error (.io .absent) => sortTemps projectId originRunId ids
      | .error e => fail e
      | .ok raw =>
          if ← isAuthenticTemp host projectId originRunId raw then do
            let valid ← sortTemps projectId originRunId ids
            pure (id :: valid)
          else do
            removeTemp id
            sortTemps projectId originRunId ids

def reconcileStaleClaimTemp (projectId originRunId : Text) : ClaimCall Value Unit := do
  if !(← openClaimDirectory host projectId false) then pure ()
  else
    claimFileName originRunId
    match ← attempt (readRegular host .claim) with
    | .ok _ => pure ()
    | .error (.io .absent) =>
        observe host .claimNames (claimIoError .claimStoreUnreadable)
        let s ← store
        match ← sortTemps host projectId originRunId (s.files.temps.map (·.1)) with
        | [] => pure ()
        | [id] => renameTemp id
        | _ => fail .corruptClaim
    | .error e => fail e

/-- `open_file` with `O_EXCL`, and the write; a crash leaves any part of the bytes. -/
def createTemp (id : Text) (bytes : Bytes) : ClaimCall Value Unit := do
  let s ← store
  if id ∈ s.files.temps.map (·.1) then fail .alreadyExists
  else
    durable (bytes.inits.map fun part => { s.files with temps := s.files.temps ++ [(id, part)] })
      { s.files with temps := s.files.temps ++ [(id, bytes)] }

def writeClaimAtomic (id : Text) (claim : RecoveryClaim Value) : ClaimCall Value Unit := do
  if !(← openClaimDirectory host claim.projectId true) then fail .corruptClaim
  else
    claimFileName claim.originRunId
    let written ← attempt do
      createTemp id (utf8 (host.serde.toStringPretty claim))
      renameTemp id
    match written with
    | .ok () => pure ()
    | .error e => do
        removeTemp id
        fail e

/-- The two identifiers are those of the two attempts. -/
def writeClaimAtomicOrReconcile (ids : Text × Text) (claim : RecoveryClaim Value) :
    ClaimCall Value Unit := do
  match ← attempt (writeClaimAtomic host ids.1 claim) with
  | .ok () => pure ()
  | .error .alreadyExists => do
      reconcileStaleClaimTemp host claim.projectId claim.originRunId
      writeClaimAtomic host ids.2 claim
  | .error e => fail e

/-! ### Operations -/

/-- The text of the claim file, after a leftover was promoted if there is no claim file. -/
def readClaimFile (projectId originRunId : Text) : ClaimCall Value (Option Text) := do
  if !(← openClaimDirectory host projectId false) then pure none
  else
    match ← attempt (readRegular host .claim) with
    | .ok raw => pure (some raw)
    | .error (.io .absent) =>
        reconcileStaleClaimTemp host projectId originRunId
        if !(← openClaimDirectory host projectId false) then pure none
        else
          match ← attempt (readRegular host .claim) with
          | .ok raw => pure (some raw)
          | .error (.io .absent) => pure none
          | .error e => fail e
    | .error e => fail e

def loadRecoveryClaim (projectId originRunId : Text) :
    ClaimCall Value (Option (RecoveryClaim Value)) := do
  claimFileName originRunId
  match ← readClaimFile host projectId originRunId with
  | none => pure none
  | some raw =>
      match host.serde.fromStr raw with
      | none => fail .corruptClaim
      | some claim =>
          if claim.projectId ≠ projectId ∨ claim.originRunId ≠ originRunId then fail .corruptClaim
          else if !claim.hasCompletePlan then fail .corruptClaim
          else
            match ← claimHasValidAuthority host claim with
            | .valid => pure (some claim)
            | .invalid => fail .corruptClaim
            | .unobserved reason => fail (.unobserved reason)

def quarantineInvalidClaim (projectId originRunId : Text) : ClaimCall Value Unit := do
  if !(← openClaimDirectory host projectId false) then pure ()
  else
    claimFileName originRunId
    let s ← store
    if s.files.quarantine.isSome then durable [] { s.files with quarantine := none }
    match s.files.claim with
    | none => pure ()
    | some bytes => durable [] { s.files with claim := none, quarantine := some bytes }

def removeRecoveryClaim (projectId originRunId : Text) : ClaimCall Value Unit := do
  if !(← openClaimDirectory host projectId false) then pure ()
  else
    claimFileName originRunId
    let s ← store
    match s.files.claim with
    | none => pure ()
    | some _ => durable [] { s.files with claim := none }

/-- What a plan draws: the ids of the replacement run, the name of its tmux session and the
identifiers of the temporary files. -/
structure Draws where
  replacementRunId : Text
  replacementRuntimeId : Text
  tmuxSessionName : Text
  ids : Text × Text
deriving DecidableEq, Repr

/-- The native runtime of a recovery run on claude; other plans keep the one they were given. -/
def plannedNativeRuntime (spec : PendingRecoveryClaimSpec Value) (runtimeId : Text) :
    Option NativeRuntimeMeta :=
  let json := host.json
  let config := spec.driverConfig
  if spec.action = "start_recovery_run".toList ∧ spec.harness = some "claude".toList then
    let command := ((json.get config "command".toList).bind json.asStr).getD "claude".toList
    let args := (((json.get config "args".toList).bind json.asArray).map
      (·.filterMap json.asStr)).getD []
    let skip := "--dangerously-skip-permissions".toList
    let sessionFlag := "--session-id".toList
    let args := if args.contains skip then args else args ++ [skip]
    let args := if args.contains sessionFlag then args else args ++ [sessionFlag, runtimeId]
    let sessionPath := do
      let cwd ← (json.get config "cwd".toList).bind json.asStr
      let home ← (json.get config "provider_home".toList).bind json.asStr
      let encoded := cwd.map fun c => if c = '/' || c = '.' then '-' else c
      some [home, ".claude".toList, "projects".toList, encoded, runtimeId ++ ".jsonl".toList]
    some
      { provider := "claude".toList
        sessionId := some runtimeId
        sessionPath
        launchArgv := command :: args
        credentialMode := none
        resumeArgv := [command, "--resume".toList, runtimeId, "--fork-session".toList, skip] }
  else spec.plannedNativeRuntime

/-- The claim of a plan, without its tag. -/
def plannedClaim (spec : PendingRecoveryClaimSpec Value) (draws : Draws) : RecoveryClaim Value where
  planVersion := some 1
  authorityTag := none
  projectId := spec.projectId
  originRunId := spec.originRunId
  requestId := spec.requestId
  status := .pending
  replacementRunId := draws.replacementRunId
  replacementSessionPath := spec.replacementSessionPath
  replacementRuntimeId := draws.replacementRuntimeId
  runtimeId := some draws.replacementRuntimeId
  bootId := some spec.bootId
  action := some spec.action
  target := some spec.target
  draftPrompt := spec.draftPrompt
  originSessionPath := some spec.originSessionPath
  plannedTmuxSession := some draws.tmuxSessionName
  taskId := some spec.taskId
  kind := some spec.kind
  workerId := some spec.workerId
  role := some spec.role
  requiresWorkerFinalize := some spec.requiresWorkerFinalize
  transport := some spec.transport
  harness := spec.harness
  driverConfig := some spec.driverConfig
  forceInert := some spec.forceInert
  worktree := spec.worktree
  lastPath := spec.lastPath
  stdoutPath := spec.stdoutPath
  plannedNativeRuntime := plannedNativeRuntime host spec draws.replacementRuntimeId
  runOptions := some spec.runOptions
  spawnStarted := false

def planPendingRecoveryClaim (spec : PendingRecoveryClaimSpec Value) (draws : Draws) :
    ClaimCall Value (RecoveryClaim Value) := do
  if !validateSafeComponent spec.requestId then fail .invalidIdentifier
  else
    match ← loadRecoveryClaim host spec.projectId spec.originRunId with
    | some existing => fail (.alreadyClaimed existing)
    | none =>
        let claim := plannedClaim host spec draws
        let tag ← authorityTag host claim
        let claim := { claim with authorityTag := some tag }
        writeClaimAtomicOrReconcile host draws.ids claim
        pure claim

def markPendingRecoverySpawnStarted (projectId originRunId : Text) (ids : Text × Text) :
    ClaimCall Value (RecoveryClaim Value) := do
  match ← loadRecoveryClaim host projectId originRunId with
  | none => fail .missingClaim
  | some claim =>
      if claim.status ≠ .pending then pure claim
      else if claim.spawnStarted then pure claim
      else
        let claim := { claim with spawnStarted := true, authorityTag := none }
        let tag ← authorityTag host claim
        let claim := { claim with authorityTag := some tag }
        writeClaimAtomicOrReconcile host ids claim
        pure claim

/-- The field is there and says something else. -/
def differs (field : Option Text) (value : Text) : Bool := field.any (· ≠ value)

/-- The claim that a commit writes. -/
def committedClaim (claim : RecoveryClaim Value) (details : CommitRecoveryDetails) :
    RecoveryClaim Value :=
  { claim with
    status := .committed
    runtimeId := claim.runtimeId.or (some details.runtimeId)
    bootId := claim.bootId.or (some details.bootId)
    action := claim.action.or (some details.action)
    target := claim.target.or (some details.target)
    draftPrompt := claim.draftPrompt.or details.draftPrompt }

/-- The details contradict the claim. -/
def contradicts (claim : RecoveryClaim Value) (details : CommitRecoveryDetails) : Bool :=
  claim.replacementRuntimeId ≠ details.runtimeId || differs claim.bootId details.bootId ||
    differs claim.action details.action || differs claim.target details.target

def commitRecoveryClaim (projectId originRunId : Text) (details : CommitRecoveryDetails)
    (ids : Text × Text) : ClaimCall Value (RecoveryClaim Value) := do
  match ← loadRecoveryClaim host projectId originRunId with
  | none => fail .missingClaim
  | some claim =>
      if contradicts claim details then fail .corruptClaim
      else
        writeClaimAtomicOrReconcile host ids (committedClaim claim details)
        pure (committedClaim claim details)

end Host

end Orgasmic
