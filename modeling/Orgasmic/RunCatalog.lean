import Mathlib.Data.List.AList
import Orgasmic.Compaction

/-! # The run catalog

The catalog keeps one derived entry for each session file of a project, so that a poll reads no
session bytes that have not changed.

* **Entries.** `entryFromScan` derives an entry from a bounded scan; `verifyWorktreeAuthority`
  decides whether the worktree that the run recorded is still its authority.
* **Tombstones.** A run whose worktree is gone is written to a durable ledger; the ledger overrules
  what a later look at the file system says (`reconcileAuthority`).
* **Refreshes.** A refresh gathers the directory, plans against the cache, works without the lock,
  and commits what nobody has invalidated in between. -/

namespace Orgasmic

open Text

/-! ### Session files -/

/-- What is found under the name of a session file. -/
structure SessionNode where
  regular : Bool
  file : SessionFile
  /-- An open succeeds and reads the bytes. -/
  readable : Bool

/-- The files of the session directory, by path. -/
abbrev SessionFiles := FilePath → Option SessionNode

def parentPath : FilePath → Option FilePath
  | [] => none
  | name :: rest => some (name :: rest).dropLast

/-- `extension`, behind the last dot of a name that does not start there. -/
def pathExtension (path : FilePath) : Option Text :=
  (fileName path).bind fun name =>
    match (name.rdropWhile (· ≠ '.')).dropLast with
    | [] => none
    | _ => some (name.rtakeWhile (· ≠ '.'))

/-! ### Worktree authority -/

structure DirIdentity where
  dev : ℕ
  ino : ℕ
deriving DecidableEq, Repr

/-- What the file system and git answer about worktrees at one moment. -/
structure Worktrees where
  pathExists : FilePath → Bool
  canonicalize : FilePath → Option FilePath
  /-- `DirIdentity::at`. -/
  identityAt : FilePath → Option DirIdentity
  /-- `worktree_belongs_to_project`, of a worktree, a project root and a project id. -/
  belongsToProject : FilePath → FilePath → Text → Bool

/-- Whether the worktree that a run recorded is still its authority. -/
inductive WorktreeAuthority where
  | verified (worktree : FilePath) (identity : Option DirIdentity)
  | tombstoned (recorded : FilePath) (verifiedIdentity : Option DirIdentity)
  | mismatched (recorded : FilePath)
  | unrecorded
  | unidentified
  | unprovable (recorded : FilePath)
deriving DecidableEq, Repr

namespace WorktreeAuthority

def isVerified : WorktreeAuthority → Bool
  | verified .. => true
  | _ => false

def isTombstoned : WorktreeAuthority → Bool
  | tombstoned .. => true
  | _ => false

end WorktreeAuthority

/-- What a run recorded about its project and worktree, if it recorded any. -/
abbrev RecordedAuthority := Option (Option Text × Option FilePath)

def verifyWorktreeAuthority (fs : Worktrees) (projectId : Option Text) (projectRoot : FilePath)
    (runMeta : RecordedAuthority) : WorktreeAuthority :=
  match projectId with
  | none => .unidentified
  | some projectId =>
      match runMeta with
      | none | some (_, none) => .unrecorded
      | some (embedded, some recorded) =>
          if embedded ≠ some projectId then .mismatched recorded
          else if !fs.pathExists recorded then .tombstoned recorded none
          else
            match fs.canonicalize recorded with
            | none => .mismatched recorded
            | some canonical =>
                if fs.belongsToProject canonical projectRoot projectId then
                  .verified canonical (fs.identityAt canonical)
                else .mismatched recorded

/-- One look at the path that a cached verdict names. -/
structure AuthorityProbe where
  current : Option DirIdentity
  pathExists : Bool
deriving DecidableEq, Repr

def probeAuthorityPath (fs : Worktrees) : WorktreeAuthority → Option AuthorityProbe
  | .verified worktree _ => some ⟨fs.identityAt worktree, fs.pathExists worktree⟩
  | _ => none

/-- A verified worktree whose directory is gone becomes a tombstone; nothing else changes. -/
def reverifyAuthority (previous : WorktreeAuthority) (probe : AuthorityProbe) :
    Option WorktreeAuthority :=
  match previous with
  | .verified worktree identity =>
      let stillTheSame :=
        match identity with
        | some identity => decide (probe.current = some identity)
        | none => probe.pathExists
      if stillTheSame then none else some (.tombstoned worktree identity)
  | _ => none

/-! ### The tombstone ledger -/

def TOMBSTONE_LEDGER_VERSION : ℕ := 1

/-- Runs whose worktree has been observed gone, with the path that each recorded. -/
structure TombstoneLedger where
  version : ℕ
  tombstoned : AList fun _ : Text => FilePath

instance : Inhabited TombstoneLedger := ⟨⟨0, ∅⟩⟩

inductive TombstoneLedgerState where
  | absent
  | loaded (ledger : TombstoneLedger)
  | corrupt
  | versionMismatch (found : ℕ)

namespace TombstoneLedgerState

/-- `unusable_reason`, without the text. -/
def unusable : TombstoneLedgerState → Bool
  | absent | loaded _ => false
  | corrupt | versionMismatch _ => true

/-- The ledger that a refresh works on. -/
def ledger : TombstoneLedgerState → TombstoneLedger
  | loaded ledger => ledger
  | _ => default

end TombstoneLedgerState

/-- What keeps the ledger file from being read as what was written. -/
inductive LedgerDamage where
  | corrupt
  | version (found : ℕ) (foreign : found ≠ TOMBSTONE_LEDGER_VERSION)

/-- The ledger file: what was last written, and what has happened to the file since. -/
structure LedgerFile where
  written : Option (AList fun _ : Text => FilePath)
  damage : Option LedgerDamage

/-- How the write of a ledger ends. One that fails on the sync of the directory is published. -/
inductive LedgerWrite where
  | done
  | failed (published : Bool)
deriving DecidableEq, Repr

namespace TombstoneLedger

def load (file : LedgerFile) : TombstoneLedgerState :=
  match file.damage, file.written with
  | some .corrupt, _ => .corrupt
  | some (.version found _), _ => .versionMismatch found
  | none, none => .absent
  | none, some tombstoned => .loaded ⟨TOMBSTONE_LEDGER_VERSION, tombstoned⟩

def contains (ledger : TombstoneLedger) (runId : Text) : Bool := runId ∈ ledger.tombstoned

/-- The ledger with the run, and whether it is new there. -/
def record (ledger : TombstoneLedger) (runId : Text) (recorded : FilePath) :
    TombstoneLedger × Bool :=
  if runId = [] then (ledger, false)
  else
    ({ ledger with tombstoned := ledger.tombstoned.insert runId recorded },
      !ledger.contains runId)

/-- What is on disk keeps its own; the rest is added. -/
def merge (merged ours : AList fun _ : Text => FilePath) : AList fun _ : Text => FilePath :=
  merged ∪ ours

/-- The file after `save`; a ledger that cannot be read is not overwritten. -/
def save (ledger : TombstoneLedger) (write : LedgerWrite) (file : LedgerFile) : LedgerFile :=
  if (load file).unusable then file
  else if write = .failed false then file
  else { file with written := some (merge (load file).ledger.tombstoned ledger.tombstoned) }

end TombstoneLedger

/-- What the ledger makes of a verdict; `none` if the verdict stands. -/
def reconcileAuthority (fs : Worktrees) (verdict : WorktreeAuthority) (ledgerUnusable : Bool)
    (ledger : TombstoneLedger) (runId : Text) (projectId : Option Text) (projectRoot : FilePath) :
    Option WorktreeAuthority :=
  match verdict, ledgerUnusable, ledger.contains runId with
  | .verified worktree _, true, _ => some (.unprovable worktree)
  | .verified worktree _, false, true => some (.tombstoned worktree none)
  | .unprovable recorded, false, true => some (.tombstoned recorded none)
  | .unprovable recorded, false, false =>
      projectId.map fun projectId =>
        verifyWorktreeAuthority fs (some projectId) projectRoot
          (some (some projectId, some recorded))
  | _, _, _ => none

/-! ### Entries -/

/-- A catalog entry; the facts about the run are those of `DerivedSemantics`. -/
structure RunCatalogEntry (Value : Type) extends DerivedSemantics where
  sessionPath : FilePath
  projectId : Option Text
  projectRoot : Option FilePath
  worktreeAuthority : WorktreeAuthority
  scanTruncated : Bool
  finalLineRunId : Option Text
  finalEnvelopeRetained : Bool
  unreadable : Bool
  fileBytes : ℕ
  indexedAt : ℤ
  fingerprint : SessionFileFingerprint
  lifecycleEnvelopes : List (SessionEnvelope Value)

/-- The arguments of `refresh_dir`. -/
structure RefreshArgs where
  dir : FilePath
  projectId : Option Text
  projectRoot : FilePath
  budget : SessionScanBudget

section Entries

variable {Value : Type} (json : SerdeJson Value)

def entryFromScan (fs : Worktrees) (now : ℤ) (scan : SessionLifecycleScan Value) (path : FilePath)
    (projectId : Option Text) (projectRoot : FilePath) (fingerprint : SessionFileFingerprint) :
    RunCatalogEntry Value :=
  let compact := compactEnvelopes json (latestRunSegment scan.envelopes)
  let semantics := deriveSemantics json now compact scan.finalEnvelopeRetained
  let runMeta : RecordedAuthority :=
    if semantics.runMetaRecorded then some (semantics.runMetaProject, semantics.runMetaWorktree)
    else none
  { semantics with
    sessionPath := path
    projectId
    projectRoot := some projectRoot
    worktreeAuthority := verifyWorktreeAuthority fs projectId projectRoot runMeta
    scanTruncated := scan.truncated
    finalLineRunId := scan.finalLineRunId
    finalEnvelopeRetained := scan.finalEnvelopeRetained
    unreadable := false
    fileBytes := scan.fileBytes
    indexedAt := now
    fingerprint
    lifecycleEnvelopes := compact }

def unreadableEntry (now : ℤ) (path : FilePath) (projectId : Option Text) (projectRoot : FilePath)
    (fingerprint : SessionFileFingerprint) (fileBytes : ℕ) : RunCatalogEntry Value where
  runId := (fileStem path).getD "unknown".toList
  sessionPath := path
  projectId
  projectRoot := some projectRoot
  worktreeAuthority := .unrecorded
  scanTruncated := false
  finalLineRunId := none
  finalEnvelopeRetained := false
  unreadable := true
  fileBytes
  indexedAt := now
  fingerprint
  lifecycleEnvelopes := []

/-- A session file that phase 1 found. -/
structure ObservedSession where
  path : FilePath
  fingerprint : SessionFileFingerprint
  len : ℕ
deriving DecidableEq, Repr

structure PlannedRebuild where
  path : FilePath
  fingerprint : SessionFileFingerprint
  len : ℕ
  invalidation : ℕ
deriving DecidableEq, Repr

structure PlannedRecheck where
  path : FilePath
  runId : Text
  previous : WorktreeAuthority
  invalidation : ℕ
deriving DecidableEq, Repr

structure PlannedStale where
  path : FilePath
  invalidation : ℕ
  fingerprint : SessionFileFingerprint
  indexedAt : ℤ
deriving DecidableEq, Repr

/-- The entry that phase 3 builds for a planned file, from what is under its name by then. -/
def rebuildEntry (fs : Worktrees) (now : ℤ) (args : RefreshArgs) (planned : PlannedRebuild)
    (node : Option SessionNode) : RunCatalogEntry Value :=
  let failed :=
    unreadableEntry now planned.path args.projectId args.projectRoot planned.fingerprint planned.len
  match node with
  | none => failed
  | some node =>
      if !node.readable then failed
      else
        match scanSessionLifecycle json.envelope node.file.content args.budget with
        | .error _ => failed
        | .ok scan =>
            entryFromScan json fs now scan planned.path args.projectId args.projectRoot
              planned.fingerprint

end Entries

/-! ### The catalog and the phases of a refresh -/

/-- What the catalog's mutex guards. -/
structure CatalogState (Value : Type) where
  byPath : AList fun _ : FilePath => RunCatalogEntry Value
  /-- How often each path was invalidated. -/
  invalidations : FilePath → ℕ

/-- What phase 2 decides. -/
structure RefreshPlan where
  rebuild : List PlannedRebuild
  recheck : List PlannedRecheck
  stale : List PlannedStale

/-- Phase 1, for one name of the directory. -/
def observeSession (files : SessionFiles) (path : FilePath) : Option ObservedSession :=
  if pathExtension path ≠ some "jsonl".toList then none
  else
    match files path with
    | none => none
    | some node =>
        if node.regular then some ⟨path, node.file.fingerprint, node.file.bytes.length⟩ else none

namespace CatalogState

variable {Value : Type}

def empty : CatalogState Value := ⟨∅, fun _ => 0⟩

/-- The cached entry that answers for an observed file. -/
def cacheHit (c : CatalogState Value) (seen : ObservedSession) : Option (RunCatalogEntry Value) :=
  (c.byPath.lookup seen.path).filter fun entry => entry.fingerprint = seen.fingerprint

/-- Phase 2. -/
def plan (c : CatalogState Value) (dir : FilePath) (observed : List ObservedSession) :
    RefreshPlan where
  rebuild := observed.filterMap fun seen =>
    if (c.cacheHit seen).isSome then none
    else some ⟨seen.path, seen.fingerprint, seen.len, c.invalidations seen.path⟩
  recheck := observed.filterMap fun seen =>
    (c.cacheHit seen).map fun entry =>
      ⟨seen.path, entry.runId, entry.worktreeAuthority, c.invalidations seen.path⟩
  stale := c.byPath.entries.filterMap fun cached =>
    if parentPath cached.1 = some dir ∧ cached.1 ∉ observed.map (·.path) then
      some ⟨cached.1, c.invalidations cached.1, cached.2.fingerprint, cached.2.indexedAt⟩
    else none

/-- Phase 4, for a rebuilt entry. -/
def commitBuilt (c : CatalogState Value) (built : PlannedRebuild × RunCatalogEntry Value) :
    CatalogState Value :=
  if c.invalidations built.1.path ≠ built.1.invalidation then c
  else { c with byPath := c.byPath.insert built.1.path built.2 }

/-- Phase 4, for a changed verdict. -/
def commitUpdate (c : CatalogState Value) (update : PlannedRecheck × WorktreeAuthority) :
    CatalogState Value :=
  if c.invalidations update.1.path ≠ update.1.invalidation then c
  else
    match c.byPath.lookup update.1.path with
    | none => c
    | some entry =>
        if entry.worktreeAuthority ≠ update.1.previous then c
        else
          { c with
            byPath := c.byPath.insert update.1.path { entry with worktreeAuthority := update.2 } }

/-- Phase 4, for a record observed absent. -/
def commitStale (c : CatalogState Value) (planned : PlannedStale) : CatalogState Value :=
  if c.invalidations planned.path ≠ planned.invalidation then c
  else
    match c.byPath.lookup planned.path with
    | none => c
    | some entry =>
        if entry.fingerprint ≠ planned.fingerprint ∨ entry.indexedAt ≠ planned.indexedAt then c
        else { c with byPath := c.byPath.erase planned.path }

/-- Phase 4. -/
def commit (c : CatalogState Value) (built : List (PlannedRebuild × RunCatalogEntry Value))
    (updates : List (PlannedRecheck × WorktreeAuthority)) (stale : List PlannedStale) :
    CatalogState Value :=
  stale.foldl commitStale (updates.foldl commitUpdate (built.foldl commitBuilt c))

def invalidateSession (c : CatalogState Value) (path : FilePath) : CatalogState Value where
  byPath := c.byPath.erase path
  invalidations := Function.update c.invalidations path (c.invalidations path + 1)

end CatalogState

section Work

variable {Value : Type}

/-- A tombstone is recorded for the run; also whether the ledger has grown. -/
def recordTombstone (ledger : TombstoneLedger × Bool) (runId : Text) (verdict : WorktreeAuthority) :
    TombstoneLedger × Bool :=
  match verdict with
  | .tombstoned recorded _ =>
      let (grown, new) := ledger.1.record runId recorded
      (grown, ledger.2 || new)
  | _ => ledger

/-- Phase 3 over the rebuilt entries: the ledger overrules their verdicts, and records their
tombstones where it can be read. Also whether the ledger has grown. -/
def reconcileBuilt (fs : Worktrees) (args : RefreshArgs) (ledgerUnusable : Bool) :
    TombstoneLedger × Bool → List (PlannedRebuild × RunCatalogEntry Value) →
    (TombstoneLedger × Bool) × List (PlannedRebuild × RunCatalogEntry Value)
  | ledger, [] => (ledger, [])
  | ledger, (planned, entry) :: rest =>
      let verdict := (reconcileAuthority fs entry.worktreeAuthority ledgerUnusable ledger.1
        entry.runId args.projectId args.projectRoot).getD entry.worktreeAuthority
      let next := if ledgerUnusable then ledger else recordTombstone ledger entry.runId verdict
      let (ledger, rest) := reconcileBuilt fs args ledgerUnusable next rest
      (ledger, (planned, { entry with worktreeAuthority := verdict }) :: rest)

/-- Phase 3 for one cached record: what its verdict is to become. -/
def recheckAuthority (fs : Worktrees) (args : RefreshArgs) (ledgerUnusable : Bool)
    (ledger : TombstoneLedger) (planned : PlannedRecheck) : Option WorktreeAuthority :=
  let probed := (probeAuthorityPath fs planned.previous).bind (reverifyAuthority planned.previous)
  match reconcileAuthority fs (probed.getD planned.previous) ledgerUnusable ledger planned.runId
      args.projectId args.projectRoot with
  | some overruled => some overruled
  | none => probed

/-- The tombstones among the changed verdicts are recorded. -/
def recordUpdates (ledger : TombstoneLedger × Bool)
    (updates : List (PlannedRecheck × WorktreeAuthority)) : TombstoneLedger × Bool :=
  updates.foldl (fun ledger update => recordTombstone ledger update.1.runId update.2) ledger

/-- The ledger file after a refresh. -/
def saveGrown (ledger : TombstoneLedger × Bool) (write : LedgerWrite) (file : LedgerFile) :
    LedgerFile :=
  if ledger.2 then ledger.1.save write file else file

end Work

end Orgasmic
