import Orgasmic.Interleaving
import Orgasmic.Text
import Std.Data.TreeMap

/-! # External managers

A manager outside the app registers itself: `ManagerRegistry` takes a run of the driver `external`
from the supervisor and remembers, under the project, the run with the process or the token that
identifies its holder. A sweep releases the runs whose process is gone or whose time is up.

* **The supervisor.** Its live runs; a release stops the driver first and removes the record later.
* **The registry.** One entry a project, behind a lock that `register` holds to its end, `release`
  until it has removed the entry, and a sweep while it goes through the entries.
* **Sweeps.** A sweep takes its snapshot of the live runs before it waits for the lock. -/

namespace Orgasmic

open Std Text

/-- The driver of an external manager's run. -/
def EXTERNAL : Text := "external".toList

/-- How long a registration without a process lasts, in milliseconds. -/
def TTL_NO_PID : ℕ := 15 * 60 * 1000

/-- A live run. -/
structure ManagedRun where
  project : Text
  driver : Text
  /-- `explicit_release_in_progress`. -/
  releasing : Bool
deriving DecidableEq, Repr

structure Registration where
  runId : Text
  pid : Option ℕ
  holderToken : Option Text
  /-- Set only when there is no process. -/
  expiresAt : Option ℕ
deriving DecidableEq, Repr

/-- What a snapshot says of a run. -/
structure RunSummary where
  runId : Text
  driver : Text
deriving DecidableEq, Repr

/-- How far a `register` that holds the lock has come. -/
inductive RegisterPhase
  | locked
  | snapshotted (snapshot : List RunSummary)
  | acquiring
  | acquired (runId : Text)

inductive ReleasePhase
  | locked
  | snapshotted (snapshot : List RunSummary)

/-- The call that holds the lock of the registry. -/
inductive RegistryCall
  | register (project : Text) (pid : Option ℕ) (token : Option Text) (phase : RegisterPhase)
  | release (project : Text) (phase : ReleasePhase)

inductive SweepPhase
  | snapshotted (snapshot : List RunSummary) (now : ℕ)
  /-- The runs still to release. -/
  | releasing (queue : List Text)

structure ManagerState where
  /-- The supervisor's live runs. -/
  runs : TreeMap Text ManagedRun
  /-- The run ids handed out so far. -/
  issued : List Text
  registry : TreeMap Text Registration
  call : Option RegistryCall
  /-- The runs of `release` calls that have removed their entry. -/
  releases : List Text
  sweeps : List SweepPhase
  now : ℕ

def snapshotOf (runs : TreeMap Text ManagedRun) : List RunSummary :=
  runs.toList.map fun run => ⟨run.1, run.2.driver⟩

/-- A live run of the external driver in a snapshot. -/
def liveExternal (snapshot : List RunSummary) (runId : Text) : Bool :=
  snapshot.any fun run => decide (run.runId = runId) && decide (run.driver = EXTERNAL)

/-- Drop the project's entry if its run is gone; the entry that survives. -/
def reconcileLocked (snapshot : List RunSummary) (registry : TreeMap Text Registration)
    (project : Text) : TreeMap Text Registration × Option Registration :=
  match registry[project]? with
  | none => (registry, none)
  | some entry =>
      if liveExternal snapshot entry.runId then (registry, some entry)
      else (registry.erase project, none)

/-- The registrant is the holder of the entry. -/
def sameSession (existing : Registration) (pid : Option ℕ) (token : Option Text) : Bool :=
  match existing.pid, pid with
  | some a, some b => decide (a = b)
  | none, none => decide (existing.holderToken = token) && existing.holderToken.isSome
  | _, _ => false

/-- The time at which a registration ends. -/
def expiry (pid : Option ℕ) (now : ℕ) : Option ℕ :=
  if pid.isNone then some (now + TTL_NO_PID) else none

/-- The holder of the entry is gone; `exited` are the processes that have ended. -/
def holderGone (exited : List ℕ) (now : ℕ) (reg : Registration) : Bool :=
  match reg.pid, reg.expiresAt with
  | some pid, _ => decide (pid ∈ exited)
  | none, some expiresAt => decide (expiresAt ≤ now)
  | none, none => false

/-- The entries that a sweep keeps. -/
def retained (snapshot : List RunSummary) (exited : List ℕ) (now : ℕ) (reg : Registration) : Bool :=
  liveExternal snapshot reg.runId && !holderGone exited now reg

/-- The runs that a sweep is to release. -/
def toRelease (snapshot : List RunSummary) (exited : List ℕ) (now : ℕ)
    (registry : TreeMap Text Registration) : List Text :=
  (registry.toList.map fun entry => entry.2).filterMap fun reg =>
    if liveExternal snapshot reg.runId && holderGone exited now reg then some reg.runId else none

/-- The supervisor starts a release unless the run is gone or another release has it. -/
def beginRelease (runs : TreeMap Text ManagedRun) (runId : Text) : TreeMap Text ManagedRun :=
  match runs[runId]? with
  | none => runs
  | some run => if run.releasing then runs else runs.insert runId { run with releasing := true }

/-- How the supervisor's `acquire` ends. -/
inductive AcquireOutcome
  | ok (runId : Text)
  | leaseHeld
  | failed

inductive ManagerAction
  /-- A run of another driver starts. -/
  | startRun (runId project driver : Text)
  /-- Some authority begins the release of a run, and ends it. -/
  | beginRelease (runId : Text)
  | endRelease (runId : Text)
  | tick
  | registerLock (project : Text) (pid : Option ℕ) (token : Option Text)
  | registerSnapshot
  | registerReconcile
  | registerAcquire (outcome : AcquireOutcome)
  | registerInsert (freshToken : Text)
  | releaseLock (project : Text)
  | releaseSnapshot
  | releaseRemove
  /-- A `release` call makes the supervisor release its run. -/
  | releaseRun (runId : Text)
  | sweepSnapshot
  | sweepRetain (sweep : ℕ) (exited : List ℕ)
  /-- A sweep makes the supervisor release the next run. -/
  | sweepRelease (sweep : ℕ)
  | sweepEnd (sweep : ℕ)

namespace ManagerState

/-- One action; `none` if it cannot happen. -/
def step (s : ManagerState) : ManagerAction → Option ManagerState
  | .startRun runId project driver =>
      if runId ∈ s.issued ∨ driver = EXTERNAL then none
      else some { s with
        runs := s.runs.insert runId ⟨project, driver, false⟩
        issued := runId :: s.issued }
  | .beginRelease runId => some { s with runs := beginRelease s.runs runId }
  | .endRelease runId =>
      match s.runs[runId]? with
      | none => none
      | some run => if run.releasing then some { s with runs := s.runs.erase runId } else none
  | .tick => some { s with now := s.now + 1 }
  | .registerLock project pid token =>
      match s.call with
      | some _ => none
      | none =>
          let token := token.filter fun token => trim token ≠ []
          some { s with call := some (.register project pid token .locked) }
  | .registerSnapshot =>
      match s.call with
      | some (.register project pid token .locked) =>
          let phase := RegisterPhase.snapshotted (snapshotOf s.runs)
          some { s with call := some (.register project pid token phase) }
      | _ => none
  | .registerReconcile =>
      match s.call with
      | some (.register project pid token (.snapshotted snapshot)) =>
          match reconcileLocked snapshot s.registry project with
          | (registry, some existing) =>
              if sameSession existing pid token then
                some { s with
                  registry := registry.insert project
                    ⟨existing.runId, pid, existing.holderToken, expiry pid s.now⟩
                  call := none }
              else some { s with registry := registry, call := none }
          | (registry, none) =>
              some { s with
                registry := registry
                call := some (.register project pid token .acquiring) }
      | _ => none
  | .registerAcquire outcome =>
      match s.call with
      | some (.register project pid token .acquiring) =>
          match outcome with
          | .ok runId =>
              if runId ∈ s.issued then none
              else some { s with
                runs := s.runs.insert runId ⟨project, EXTERNAL, false⟩
                issued := runId :: s.issued
                call := some (.register project pid token (.acquired runId)) }
          | _ => some { s with call := none }
      | _ => none
  | .registerInsert freshToken =>
      match s.call with
      | some (.register project pid _ (.acquired runId)) =>
          let token := if pid.isNone then some freshToken else none
          some { s with
            registry := s.registry.insert project ⟨runId, pid, token, expiry pid s.now⟩
            call := none }
      | _ => none
  | .releaseLock project =>
      match s.call with
      | some _ => none
      | none => some { s with call := some (.release project .locked) }
  | .releaseSnapshot =>
      match s.call with
      | some (.release project .locked) =>
          some { s with call := some (.release project (.snapshotted (snapshotOf s.runs))) }
      | _ => none
  | .releaseRemove =>
      match s.call with
      | some (.release project (.snapshotted snapshot)) =>
          match reconcileLocked snapshot s.registry project with
          | (registry, none) => some { s with registry := registry, call := none }
          | (registry, some entry) =>
              some { s with
                registry := registry.erase project
                releases := entry.runId :: s.releases
                call := none }
      | _ => none
  | .releaseRun runId =>
      if runId ∈ s.releases then
        some { s with runs := beginRelease s.runs runId, releases := s.releases.erase runId }
      else none
  | .sweepSnapshot =>
      some { s with sweeps := s.sweeps ++ [.snapshotted (snapshotOf s.runs) s.now] }
  | .sweepRetain sweep exited =>
      match s.call, s.sweeps[sweep]? with
      | none, some (.snapshotted snapshot now) =>
          some { s with
            registry := s.registry.filter fun _ reg => retained snapshot exited now reg
            sweeps := s.sweeps.set sweep (.releasing (toRelease snapshot exited now s.registry)) }
      | _, _ => none
  | .sweepRelease sweep =>
      match s.sweeps[sweep]? with
      | some (.releasing (runId :: queue)) =>
          some { s with
            runs := beginRelease s.runs runId
            sweeps := s.sweeps.set sweep (.releasing queue) }
      | _ => none
  | .sweepEnd sweep =>
      match s.sweeps[sweep]? with
      | some (.releasing []) => some { s with sweeps := s.sweeps.eraseIdx sweep }
      | _ => none

end ManagerState

end Orgasmic
