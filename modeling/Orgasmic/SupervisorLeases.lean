import Mathlib.Logic.Function.Basic
import Orgasmic.Interleaving
import Orgasmic.Text

/-! # Leases of the supervisor

A run becomes live in several lock sections: `admit_live_run` takes the lease of its key, the driver
spawns or attaches, some durable lines are appended, and the record is inserted.

* **Admissions.** `acquire` and `reattach`; each await is a step, and so is an error or a
  cancellation, which drops the session and the `LeaseReservation`.
* **Guards.** A dropped reservation removes its lease if its run holds it and has no record.  When
  the lock is taken, that is done later.
* **Leases** are also removed with a record by a release, swept by `release_orphaned_lease`, and
  exchanged when a terminal becomes the project's manager or ceases to be it. -/

namespace Orgasmic

open Text Interleaving

inductive RunKind
  | worker
deriving DecidableEq, Repr

structure LeaseKey where
  project : Text
  task : Text
  kind : RunKind
deriving DecidableEq, Repr

def leaseKey (projectId : Option Text) (taskId : Text) (kind : RunKind) : LeaseKey :=
  ⟨projectId.getD [], taskId, kind⟩

/-- The task of a project's manager. -/
def managerTask (projectId : Text) : Text := "manager.launch:".toList ++ projectId

structure RunRecord where
  projectId : Option Text
  taskId : Text
  kind : RunKind
  role : Text
  transport : Text
  /-- The original task of a terminal that is the project's manager. -/
  managerTerminalClaim : Option Text
deriving DecidableEq, Repr

/-- The current key of a run. -/
def RunRecord.leaseKey (rec : RunRecord) : LeaseKey :=
  Orgasmic.leaseKey rec.projectId rec.taskId rec.kind

inductive AdmissionPath
  | acquire
  | reattach
deriving DecidableEq, Repr

structure LiveRunAdmission where
  path : AdmissionPath
  leaseKey : LeaseKey
  runId : Text
  /-- A cleanup has reserved the worktree. -/
  reserved : Bool
deriving DecidableEq, Repr

inductive SupervisorError
  | acquisitionPaused
  | leaseHeld (taskId : Text) (kind : RunKind) (runId : Text)
  | reattachLeaseConflict (taskId : Text) (kind : RunKind) (activeRunId : Text)
  | cleanupInProgress (taskId : Text) (kind : RunKind)
deriving DecidableEq, Repr

/-- Who begins an admission. -/
inductive AdmissionOrigin
  | acquire
  | acquireRecovery
  | reattach
deriving DecidableEq, Repr

/-- How far an admission is; `started` says that the driver has returned a session. -/
inductive AdmissionPhase
  | admitted
  | spawned
  /-- Dropped; the reservation waits for the lock. -/
  | dropped (started : Bool)
  | ended (started : Bool)
  | recorded
deriving DecidableEq, Repr

structure Admission where
  origin : AdmissionOrigin
  runId : Text
  /-- What it will insert. -/
  record : RunRecord
  phase : AdmissionPhase
deriving DecidableEq, Repr

structure SupervisorState where
  acquisitionPaused : Bool
  leases : LeaseKey → Option Text
  runs : Text → Option RunRecord
  admissions : List Admission

inductive SupervisorAction
  | pause (paused : Bool)
  | acquire (recovery : Bool) (runId : Text) (record : RunRecord) (reserved : Bool)
  | reattach (runId : Text) (record : RunRecord) (restored : Option Text) (reserved : Bool)
  /-- The driver returns a session. -/
  | spawn (i : ℕ)
  | record (i : ℕ)
  /-- An error or a cancellation; `locked` says that the reservation finds the lock taken. -/
  | drop (i : ℕ) (locked : Bool)
  /-- The reservation gets the lock. -/
  | cleanup (i : ℕ)
  /-- The last lock section of a release. -/
  | release (runId : Text)
  | releaseOrphanedLease (projectId taskId : Text) (kind : RunKind)
  | claimManagerTerminal (projectId runId : Text)
  | unclaimManagerTerminal (projectId runId : Text)

namespace Admission

def leaseKey (admission : Admission) : LeaseKey := admission.record.leaseKey

/-- Neither recorded nor given up. -/
def inFlight (admission : Admission) : Bool :=
  match admission.phase with
  | .admitted | .spawned | .dropped _ => true
  | .ended _ | .recorded => false

/-- There is a worker that no record names. -/
def unrecordedWorker (admission : Admission) : Bool :=
  match admission.phase with
  | .spawned | .dropped true | .ended true => true
  | _ => false

end Admission

namespace SupervisorState

/-- Validate a live-run admission. -/
def preflightLiveRun (s : SupervisorState) (req : LiveRunAdmission) : Except SupervisorError Unit :=
  if s.acquisitionPaused then .error .acquisitionPaused
  else
    let fence : Except SupervisorError Unit :=
      if req.reserved then .error (.cleanupInProgress req.leaseKey.task req.leaseKey.kind) else .ok ()
    match req.path, s.leases req.leaseKey with
    | .acquire, some existing => .error (.leaseHeld req.leaseKey.task req.leaseKey.kind existing)
    | .reattach, some active =>
        if active ≠ req.runId then
          .error (.reattachLeaseConflict req.leaseKey.task req.leaseKey.kind active)
        else fence
    | _, none => fence

def admits (s : SupervisorState) (req : LiveRunAdmission) : Bool :=
  (s.preflightLiveRun req).isOk

def insertLease (s : SupervisorState) (key : LeaseKey) (runId : Text) : SupervisorState :=
  { s with leases := Function.update s.leases key (some runId) }

def removeLease (s : SupervisorState) (key : LeaseKey) : SupervisorState :=
  { s with leases := Function.update s.leases key none }

def putRecord (s : SupervisorState) (runId : Text) (rec : Option RunRecord) : SupervisorState :=
  { s with runs := Function.update s.runs runId rec }

def setPhase (s : SupervisorState) (i : ℕ) (admission : Admission) (phase : AdmissionPhase) :
    SupervisorState :=
  { s with admissions := s.admissions.set i { admission with phase := phase } }

/-- The lease of an admitted run, and its admission. -/
def admitLiveRun (s : SupervisorState) (origin : AdmissionOrigin) (runId : Text)
    (record : RunRecord) : SupervisorState :=
  { s.insertLease record.leaseKey runId with
    admissions := s.admissions ++ [⟨origin, runId, record, .admitted⟩] }

/-- What a dropped reservation does under the lock. -/
def removeIfUnowned (s : SupervisorState) (key : LeaseKey) (runId : Text) : SupervisorState :=
  if s.leases key = some runId ∧ s.runs runId = none then s.removeLease key else s

def releaseOrphanedLease (s : SupervisorState) (key : LeaseKey) : SupervisorState :=
  match s.leases key with
  | none => s
  | some runId => if (s.runs runId).isSome then s else s.removeLease key

/-- What `reattach` records; `restored` is the claim that the session tells of. -/
def reattachRecord (record : RunRecord) : Option Text → Option RunRecord
  | none => some { record with managerTerminalClaim := none }
  | some originalTaskId => record.projectId.map fun projectId => { record with
      taskId := managerTask projectId
      role := "manager".toList
      managerTerminalClaim := some originalTaskId }

/-- What a run is recorded as changes, and its lease with it. -/
def exchange (s : SupervisorState) (runId : Text) (rec rec' : RunRecord) : SupervisorState :=
  ((s.insertLease rec'.leaseKey runId).removeLease rec.leaseKey).putRecord runId (some rec')

/-- Promote a live terminal of the project to its manager. -/
def claimManagerTerminal (s : SupervisorState) (projectId runId : Text) : Option SupervisorState :=
  match s.runs runId with
  | none => none
  | some rec =>
      let rec' : RunRecord := { rec with
        taskId := managerTask projectId
        role := "manager".toList
        managerTerminalClaim := some rec.taskId }
      if rec.projectId = some projectId ∧ rec.managerTerminalClaim = none ∧
          rec.role = "terminal".toList ∧
          (rec.transport = "tmux".toList ∨ rec.transport = "tmux-tui".toList) ∧
          s.leases rec'.leaseKey = none ∧ s.leases rec.leaseKey = some runId ∧
          s.admits ⟨.acquire, rec'.leaseKey, runId, false⟩ then
        some (s.exchange runId rec rec')
      else none

/-- Back to the terminal's own task. -/
def unclaimManagerTerminal (s : SupervisorState) (projectId runId : Text) :
    Option SupervisorState :=
  match s.runs runId with
  | none => none
  | some rec =>
      match rec.managerTerminalClaim with
      | none => none
      | some originalTaskId =>
          let rec' : RunRecord := { rec with
            taskId := originalTaskId
            role := "terminal".toList
            managerTerminalClaim := none }
          if rec.projectId = some projectId ∧ s.leases rec.leaseKey = some runId ∧
              s.admits ⟨.acquire, rec'.leaseKey, runId, false⟩ then
            some (s.exchange runId rec rec')
          else none

/-- A refusal, an answer without effect and an action out of turn have no successor. -/
def step (s : SupervisorState) : SupervisorAction → Option SupervisorState
  | .pause paused => some { s with acquisitionPaused := paused }
  | .acquire recovery runId record reserved =>
      let record' : RunRecord := { record with managerTerminalClaim := none }
      if s.admits ⟨.acquire, record'.leaseKey, runId, reserved⟩ then
        some (s.admitLiveRun (if recovery then .acquireRecovery else .acquire) runId record')
      else none
  | .reattach runId record restored reserved =>
      match reattachRecord record restored with
      | some record' =>
          if s.runs runId = none ∧ s.admits ⟨.reattach, record'.leaseKey, runId, reserved⟩ then
            some (s.admitLiveRun .reattach runId record')
          else none
      | none => none
  | .spawn i =>
      match s.admissions[i]? with
      | some admission =>
          if admission.phase = .admitted then some (s.setPhase i admission .spawned) else none
      | none => none
  | .record i =>
      match s.admissions[i]? with
      | some admission =>
          if admission.phase = .spawned then
            some ((s.putRecord admission.runId (some admission.record)).setPhase i admission
              .recorded)
          else none
      | none => none
  | .drop i locked =>
      match s.admissions[i]? with
      | some admission =>
          if admission.phase = .admitted ∨ admission.phase = .spawned then
            let started := admission.phase = .spawned
            if locked then some (s.setPhase i admission (.dropped started))
            else some ((s.removeIfUnowned admission.leaseKey admission.runId).setPhase i admission
              (.ended started))
          else none
      | none => none
  | .cleanup i =>
      match s.admissions[i]? with
      | some admission =>
          match admission.phase with
          | .dropped started =>
              some ((s.removeIfUnowned admission.leaseKey admission.runId).setPhase i admission
                (.ended started))
          | _ => none
      | none => none
  | .release runId =>
      match s.runs runId with
      | some rec => some ((s.putRecord runId none).removeLease rec.leaseKey)
      | none => none
  | .releaseOrphanedLease projectId taskId kind =>
      some (s.releaseOrphanedLease (Orgasmic.leaseKey (some projectId) taskId kind))
  | .claimManagerTerminal projectId runId => s.claimManagerTerminal projectId runId
  | .unclaimManagerTerminal projectId runId => s.unclaimManagerTerminal projectId runId

/-- A new daemon. -/
def start : SupervisorState := ⟨false, fun _ => none, fun _ => none, []⟩

end SupervisorState

end Orgasmic
