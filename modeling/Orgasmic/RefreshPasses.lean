import Orgasmic.Interleaving
import Orgasmic.RunCatalog

/-! # Refreshes of the run catalog that run at once

A refresh holds the catalog's mutex only while it plans and while it commits. Between its file
system calls other refreshes run, sessions are appended to and their catalog entries invalidated,
session files are removed or replaced, worktrees come and go, and the ledger is written. -/

namespace Orgasmic

/-- How far a refresh has come. -/
inductive RefreshPhase (Value : Type) where
  /-- With the names of the directory that are still to be looked at. -/
  | gathering (listing : List FilePath) (observed : List ObservedSession)
  | building (rebuild : List PlannedRebuild)
      (built : List (PlannedRebuild × RunCatalogEntry Value)) (recheck : List PlannedRecheck)
      (stale : List PlannedStale)
  /-- With the ledger that was read, and whether it has grown since or could not be used. -/
  | rechecking (ledger : TombstoneLedger × Bool) (ledgerUnusable : Bool)
      (built : List (PlannedRebuild × RunCatalogEntry Value)) (recheck : List PlannedRecheck)
      (updates : List (PlannedRecheck × WorktreeAuthority)) (stale : List PlannedStale)
  | committing (built : List (PlannedRebuild × RunCatalogEntry Value))
      (updates : List (PlannedRecheck × WorktreeAuthority)) (stale : List PlannedStale)
  | finished

structure RefreshPass (Value : Type) where
  args : RefreshArgs
  phase : RefreshPhase Value

structure CatalogWorld (Value : Type) where
  files : SessionFiles
  worktrees : Worktrees
  ledger : LedgerFile
  catalog : CatalogState Value
  passes : ℕ → Option (RefreshPass Value)
  /-- Sessions that were appended to and are still to be invalidated. -/
  appended : List FilePath

inductive CatalogAction where
  /-- `read_dir`; the directory may change while it is listed. -/
  | start (pass : ℕ) (args : RefreshArgs) (listing : List Text)
  | gather (pass : ℕ)
  | plan (pass : ℕ)
  | scan (pass : ℕ) (now : ℤ)
  | reconcile (pass : ℕ)
  | recheck (pass : ℕ)
  | save (pass : ℕ) (write : LedgerWrite)
  | commit (pass : ℕ)
  | append (path : FilePath) (grown : SessionNode)
  | invalidate (path : FilePath)
  | replace (path : FilePath) (file : Option SessionNode)
  | worktreesChange (worktrees : Worktrees)
  | ledgerChanges (ledger : LedgerFile)

namespace CatalogWorld

variable {Value : Type}

def setPhase (s : CatalogWorld Value) (i : ℕ) (args : RefreshArgs) (phase : RefreshPhase Value) :
    CatalogWorld Value :=
  { s with passes := Function.update s.passes i (some ⟨args, phase⟩) }

/-- What an append makes of the file under the path. -/
def grows (old : Option SessionNode) (grown : SessionNode) : Prop :=
  match old with
  | none => True
  | some old =>
      old.regular = grown.regular ∧ old.file.dev = grown.file.dev ∧ old.file.ino = grown.file.ino ∧
        old.file.bytes <+: grown.file.bytes

instance (old : Option SessionNode) (grown : SessionNode) : Decidable (grows old grown) := by
  unfold grows
  split <;> infer_instance

/-- One action; `none` if it cannot happen. -/
def step (json : SerdeJson Value) (s : CatalogWorld Value) :
    CatalogAction → Option (CatalogWorld Value)
  | .start i args listing =>
      match s.passes i with
      | some _ => none
      | none =>
          some (s.setPhase i args (.gathering (listing.map fun name => args.dir ++ [name]) []))
  | .gather i =>
      match s.passes i with
      | some ⟨args, .gathering (path :: listing) observed⟩ =>
          some (s.setPhase i args
            (.gathering listing (observed ++ (observeSession s.files path).toList)))
      | _ => none
  | .plan i =>
      match s.passes i with
      | some ⟨args, .gathering [] observed⟩ =>
          let plan := s.catalog.plan args.dir observed
          some (s.setPhase i args (.building plan.rebuild [] plan.recheck plan.stale))
      | _ => none
  | .scan i now =>
      match s.passes i with
      | some ⟨args, .building (planned :: rebuild) built recheck stale⟩ =>
          let entry := rebuildEntry json s.worktrees now args planned (s.files planned.path)
          some (s.setPhase i args (.building rebuild (built ++ [(planned, entry)]) recheck stale))
      | _ => none
  | .reconcile i =>
      match s.passes i with
      | some ⟨args, .building [] built recheck stale⟩ =>
          let state := TombstoneLedger.load s.ledger
          let (ledger, built) :=
            reconcileBuilt s.worktrees args state.unusable (state.ledger, false) built
          some (s.setPhase i args (.rechecking ledger state.unusable built recheck [] stale))
      | _ => none
  | .recheck i =>
      match s.passes i with
      | some ⟨args, .rechecking ledger unusable built (planned :: recheck) updates stale⟩ =>
          let updated := (recheckAuthority s.worktrees args unusable ledger.1 planned).toList.map
            fun authority => (planned, authority)
          some (s.setPhase i args
            (.rechecking ledger unusable built recheck (updates ++ updated) stale))
      | _ => none
  | .save i write =>
      match s.passes i with
      | some ⟨args, .rechecking ledger _ built [] updates stale⟩ =>
          some ({ s with
            ledger := saveGrown (recordUpdates ledger updates) write s.ledger }.setPhase i args
              (.committing built updates stale))
      | _ => none
  | .commit i =>
      match s.passes i with
      | some ⟨args, .committing built updates stale⟩ =>
          some ({ s with catalog := s.catalog.commit built updates stale }.setPhase i args .finished)
      | _ => none
  | .append path grown =>
      if grows (s.files path) grown then
        some { s with
          files := Function.update s.files path (some grown)
          appended := path :: s.appended }
      else none
  | .invalidate path =>
      if path ∈ s.appended then
        some { s with
          catalog := s.catalog.invalidateSession path
          appended := s.appended.erase path }
      else none
  | .replace path file => some { s with files := Function.update s.files path file }
  | .worktreesChange worktrees => some { s with worktrees }
  | .ledgerChanges ledger => some { s with ledger }

/-- A catalog that nothing was read into yet. -/
def fresh (files : SessionFiles) (worktrees : Worktrees) (ledger : LedgerFile) :
    CatalogWorld Value where
  files
  worktrees
  ledger
  catalog := .empty
  passes _ := none
  appended := []

end CatalogWorld

end Orgasmic
