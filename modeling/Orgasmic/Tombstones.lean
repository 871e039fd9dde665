import Orgasmic.Interleaving
import Orgasmic.RunCatalog

/-! # Tombstones over the life of a catalog

One project: refreshes one at a time, a cache that is lost and read back from its snapshot, session
files that are appended to, worktrees that come and go, and a ledger file that is damaged and
repaired and whose writes can fail.

* **Snapshots.** `snapshotEntryIsAdmissible` is what an entry of the snapshot must pass to be
  loaded.
* **Refreshes.** `refreshDir` is the four phases of `refresh_dir` without anything in between. -/

namespace Orgasmic

open Text

def projectSessionsDir (projectRoot : FilePath) : FilePath :=
  projectRoot ++ [".orgasmic".toList, "tmp".toList, "sessions".toList]

section Snapshots

variable {Value : Type} (json : SerdeJson Value)

/-- The verdict can be the one that the recorded facts produce. -/
def snapshotAuthorityVerdictIsConsistent (entry : RunCatalogEntry Value) : Bool :=
  match entry.worktreeAuthority with
  | .unidentified => entry.projectId.isNone
  | .unrecorded =>
      entry.projectId.isSome && (!entry.runMetaRecorded || entry.runMetaWorktree.isNone)
  | .mismatched recorded =>
      entry.projectId.isSome && entry.runMetaRecorded &&
        decide (entry.runMetaWorktree = some recorded)
  | .verified .. | .tombstoned .. | .unprovable _ =>
      entry.projectId.isSome && entry.runMetaRecorded && entry.runMetaWorktree.isSome &&
        decide (entry.runMetaProject = entry.projectId)

def snapshotEntrySemanticsAreSelfConsistent (now : ℤ) (entry : RunCatalogEntry Value) : Bool :=
  if entry.unreadable then
    entry.lifecycleEnvelopes.isEmpty && entry.terminal.isNone && entry.transport.isNone &&
      entry.harness.isNone && entry.native.isNone && entry.finalReleaseOutcome.isNone &&
      entry.driverTerminalEvent.isNone && !entry.runMetaRecorded && !entry.externalRegistration
  else
    decide (deriveSemantics json now entry.lifecycleEnvelopes entry.finalEnvelopeRetained =
      entry.toDerivedSemantics) && snapshotAuthorityVerdictIsConsistent entry

def snapshotEntryIsAdmissible (files : SessionFiles) (now : ℤ) (sessionsDir : FilePath)
    (entry : RunCatalogEntry Value) : Bool :=
  let path := entry.sessionPath
  if parentPath path ≠ some sessionsDir then false
  else if "..".toList ∈ path then false
  else
    match observeSession files path with
    | none => false
    | some seen =>
        decide (seen.fingerprint = entry.fingerprint) &&
          snapshotEntrySemanticsAreSelfConsistent json now entry

end Snapshots

/-- A project's catalog and what it is derived from. -/
structure TombstoneWorld (Value : Type) where
  projectRoot : FilePath
  files : SessionFiles
  worktrees : Worktrees
  ledger : LedgerFile
  catalog : CatalogState Value
  /-- The entries of the last snapshot that was written. -/
  snapshot : List (RunCatalogEntry Value)

inductive TombstoneAction where
  /-- With the names that the directory listed, and how a write of the ledger would end. -/
  | refresh (projectId : Option Text) (budget : SessionScanBudget) (now : ℤ)
      (listing : List Text) (write : LedgerWrite)
  | loseCache
  | saveSnapshot
  | loadSnapshot (now : ℤ)
  /-- A session file changes; the writer invalidates its entry on a lifecycle append. -/
  | sessionChanges (path : FilePath) (node : Option SessionNode) (lifecycle : Bool)
  | worktreesChange (worktrees : Worktrees)
  | damageLedger (damage : LedgerDamage)
  | repairLedger

namespace TombstoneWorld

variable {Value : Type} (json : SerdeJson Value)

/-- The arguments of a refresh of the project. -/
def args (s : TombstoneWorld Value) (projectId : Option Text) (budget : SessionScanBudget) :
    RefreshArgs :=
  ⟨projectSessionsDir s.projectRoot, projectId, s.projectRoot, budget⟩

/-- What a refresh gathers. -/
def observed (s : TombstoneWorld Value) (dir : FilePath) (listing : List Text) :
    List ObservedSession :=
  listing.filterMap fun name => observeSession s.files (dir ++ [name])

/-- The entries that a refresh rebuilds, before the ledger is asked. -/
def rebuilt (s : TombstoneWorld Value) (args : RefreshArgs) (now : ℤ) (listing : List Text) :
    List (PlannedRebuild × RunCatalogEntry Value) :=
  (s.catalog.plan args.dir (s.observed args.dir listing)).rebuild.map fun planned =>
    (planned, rebuildEntry json s.worktrees now args planned (s.files planned.path))

/-- The verdicts that a refresh changes. -/
def rechecked (s : TombstoneWorld Value) (args : RefreshArgs) (listing : List Text)
    (ledgerUnusable : Bool) (ledger : TombstoneLedger) :
    List (PlannedRecheck × WorktreeAuthority) :=
  (s.catalog.plan args.dir (s.observed args.dir listing)).recheck.filterMap fun planned =>
    (recheckAuthority s.worktrees args ledgerUnusable ledger planned).map fun authority =>
      (planned, authority)

/-- `refresh_dir`. -/
def refreshDir (s : TombstoneWorld Value) (args : RefreshArgs) (now : ℤ)
    (listing : List Text) (write : LedgerWrite) : TombstoneWorld Value :=
  let plan := s.catalog.plan args.dir (s.observed args.dir listing)
  let state := TombstoneLedger.load s.ledger
  let (ledger, built) := reconcileBuilt s.worktrees args state.unusable (state.ledger, false)
    (s.rebuilt json args now listing)
  let updates := s.rechecked args listing state.unusable ledger.1
  { s with
    ledger := saveGrown (recordUpdates ledger updates) write s.ledger
    catalog := s.catalog.commit built updates plan.stale }

/-- `load_snapshot`. -/
def loadEntries (s : TombstoneWorld Value) (now : ℤ) : TombstoneWorld Value :=
  let admitted := s.snapshot.filter
    (snapshotEntryIsAdmissible json s.files now (projectSessionsDir s.projectRoot))
  { s with
    catalog := { s.catalog with
      byPath := admitted.foldl (fun byPath entry => byPath.insert entry.sessionPath entry)
        s.catalog.byPath } }

/-- One action. -/
def step (s : TombstoneWorld Value) : TombstoneAction → Option (TombstoneWorld Value)
  | .refresh projectId budget now listing write =>
      some (s.refreshDir json (s.args projectId budget) now listing write)
  | .loseCache => some { s with catalog := .empty }
  | .saveSnapshot =>
      some { s with snapshot := s.catalog.byPath.entries.map fun cached => cached.2 }
  | .loadSnapshot now => some (s.loadEntries json now)
  | .sessionChanges path node lifecycle =>
      some { s with
        files := Function.update s.files path node
        catalog := if lifecycle then s.catalog.invalidateSession path else s.catalog }
  | .worktreesChange worktrees => some { s with worktrees }
  | .damageLedger damage => some { s with ledger := { s.ledger with damage := some damage } }
  | .repairLedger => some { s with ledger := { s.ledger with damage := none } }

/-- A daemon that has cached nothing yet. -/
def fresh (projectRoot : FilePath) (files : SessionFiles) (worktrees : Worktrees)
    (ledger : LedgerFile) : TombstoneWorld Value where
  projectRoot
  files
  worktrees
  ledger
  catalog := .empty
  snapshot := []

end TombstoneWorld

end Orgasmic
