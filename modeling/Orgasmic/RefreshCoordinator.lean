import Mathlib.Data.List.AList
import Orgasmic.Interleaving
import Orgasmic.Text

/-! # The refresh coordinator

Requests for a fresh projection wait in the queues of their target; one worker per target scans the
ledger and answers them.

* **Requests.** `requestProjectLoad`, `requestRequiredRefresh` and `scheduleWatcherRefresh` are what
  the requests of the index do under the coordinator's lock.  A queue holds the sending halves of
  the channels; here a sender is the `Waiter` that made it.
* **Settlement.** `settleCapturedOk`, `settleCapturedError` and `failRefreshTarget` take senders
  from the queues; they also return whom they answer.
* **Steps.** Each line of `turn` is one turn of a lock or one step of a worker between two.  A
  coalescing wait can end at any time, and a scan can end in any way at any time.
* **Time.** Every step has a number, its moment. -/

namespace Orgasmic

open Text

inductive RefreshTarget
  | project (projectId : Text)
  | artifacts (projectId : Text)
  | homeTx
deriving DecidableEq, Repr

namespace RefreshTarget

def label : RefreshTarget → Text
  | project projectId => projectId
  | artifacts projectId => "artifacts:".toList ++ projectId
  | homeTx => "home-tx".toList

def sharesScanLane : RefreshTarget → RefreshTarget → Bool
  | project _, project _ => true
  | artifacts _, artifacts _ => true
  | _, _ => false

def CORE_PROJECT_SCAN_PERMITS : ℕ := 2

def OPTIONAL_PROJECT_SCAN_PERMITS : ℕ := 2

/-- The permits of the target's scan lane; the home ledger needs none. -/
def scanPermits : RefreshTarget → Option ℕ
  | project _ => some CORE_PROJECT_SCAN_PERMITS
  | artifacts _ => some OPTIONAL_PROJECT_SCAN_PERMITS
  | homeTx => none

end RefreshTarget

inductive WaiterKind
  | load
  | mutation (txId : Text)
  | explicit
  | watcher
deriving DecidableEq, Repr

/-- A request that waits for its answer. -/
structure Waiter where
  /-- The moment of its registration. -/
  since : ℕ
  target : RefreshTarget
  kind : WaiterKind
  /-- Its transaction was known to the target, as waited for or as completed. -/
  repeated : Bool
deriving DecidableEq, Repr

structure TargetRefreshState where
  running : Bool
  windowGeneration : ℕ
  requiredGeneration : ℕ
  loadWaiters : List Waiter
  mutationWaiters : AList fun _ : Text => List Waiter
  explicitWaiters : List Waiter
  watcherWaiters : List Waiter
  watcherPending : Bool
  completedTxIds : List Text
  completedTxOrder : List Text

structure CapturedRefresh where
  requiredGeneration : ℕ
  loadCount : ℕ
  mutationWaiters : List (Text × ℕ)
  explicitCount : ℕ
  watcherCount : ℕ
deriving DecidableEq, Repr

structure BlockingScanEntry where
  token : ℕ
  timedOut : Bool
deriving DecidableEq, Repr

/-- `u64::wrapping_add(1)`. -/
def wrappingSucc (n : ℕ) : ℕ := (n + 1) % 2 ^ 64

def MAX_COMPLETED_TX_IDS_PER_TARGET : ℕ := 1024

namespace TargetRefreshState

variable (state : TargetRefreshState)

def default : TargetRefreshState where
  running := false
  windowGeneration := 0
  requiredGeneration := 0
  loadWaiters := []
  mutationWaiters := ∅
  explicitWaiters := []
  watcherWaiters := []
  watcherPending := false
  completedTxIds := []
  completedTxOrder := []

def hasRequired : Bool :=
  !state.mutationWaiters.entries.isEmpty || !state.explicitWaiters.isEmpty

def hasWork : Bool :=
  !state.loadWaiters.isEmpty || state.hasRequired || state.watcherPending

def rememberCompleted (txId : Text) : TargetRefreshState :=
  if txId ∈ state.completedTxIds then state
  else
    let order := state.completedTxOrder ++ [txId]
    let expired := order.take (order.length - MAX_COMPLETED_TX_IDS_PER_TARGET)
    { state with
      completedTxIds := (state.completedTxIds ++ [txId]).filter (· ∉ expired)
      completedTxOrder := order.drop (order.length - MAX_COMPLETED_TX_IDS_PER_TARGET) }

/-! ### Requests -/

/-- `request_project_load`; the second component tells to start a worker. -/
def requestProjectLoad (reply : Waiter) : TargetRefreshState × Bool :=
  let state := { state with loadWaiters := state.loadWaiters ++ [reply] }
  if state.running then (state, false)
  else
    ({ state with
      running := true
      windowGeneration := wrappingSucc state.windowGeneration }, true)

/-- `schedule_watcher_refresh` and `schedule_home_tx_refresh`. -/
def scheduleWatcherRefresh (reply : Waiter) : TargetRefreshState × Bool :=
  ({ state with
    watcherWaiters := state.watcherWaiters ++ [reply]
    watcherPending := true
    windowGeneration := wrappingSucc state.windowGeneration
    running := true }, !state.running)

/-- `request_required_refresh` for a transaction that no one waits for, or without one. -/
def requireNew (txId : Option Text) (reply : Waiter) : TargetRefreshState × Bool :=
  let state :=
    match txId with
    | some txId => { state with mutationWaiters := state.mutationWaiters.insert txId [reply] }
    | none => { state with explicitWaiters := state.explicitWaiters ++ [reply] }
  ({ state with
    requiredGeneration := wrappingSucc state.requiredGeneration
    windowGeneration := wrappingSucc state.windowGeneration
    running := true }, !state.running)

/-- `request_required_refresh`; no state for a completed transaction, whose request is answered at
once. -/
def requestRequiredRefresh (txId : Option Text) (reply : Waiter) :
    Option (TargetRefreshState × Bool) :=
  match txId with
  | none => some (state.requireNew none reply)
  | some id =>
      if id ∈ state.completedTxIds then none
      else
        match state.mutationWaiters.lookup id with
        | some waiters =>
            some ({ state with
              mutationWaiters := state.mutationWaiters.insert id (waiters ++ [reply]) }, false)
        | none => some (state.requireNew (some id) reply)

/-- The transaction is waited for or completed. -/
def knows : Option Text → Bool
  | none => false
  | some id => decide (id ∈ state.completedTxIds) || (state.mutationWaiters.lookup id).isSome

/-! ### The worker -/

def capture : TargetRefreshState × CapturedRefresh :=
  ({ state with watcherPending := false },
    { requiredGeneration := state.requiredGeneration
      loadCount := state.loadWaiters.length
      mutationWaiters := state.mutationWaiters.entries.map fun entry => (entry.1, entry.2.length)
      explicitCount := state.explicitWaiters.length
      watcherCount := state.watcherWaiters.length })

/-- The waiters of a captured transaction are answered `Ok`, also those that came later. -/
def settleTxOk (entry : Text × ℕ) : TargetRefreshState × List Waiter :=
  ({ state with mutationWaiters := state.mutationWaiters.erase entry.1 }.rememberCompleted entry.1,
    (state.mutationWaiters.lookup entry.1).getD [])

/-- The waiters of a captured transaction are answered `Err`, without those that came later. -/
def settleTxError (entry : Text × ℕ) : TargetRefreshState × List Waiter :=
  match state.mutationWaiters.lookup entry.1 with
  | none => (state, [])
  | some waiters =>
      let later := waiters.drop entry.2
      ({ state with
        mutationWaiters :=
          if later.isEmpty then state.mutationWaiters.erase entry.1
          else state.mutationWaiters.insert entry.1 later }, waiters.take entry.2)

/-- The loop over the captured transactions. -/
def settleTxs (settleTx : TargetRefreshState → Text × ℕ → TargetRefreshState × List Waiter) :
    TargetRefreshState → List (Text × ℕ) → TargetRefreshState × List Waiter
  | state, [] => (state, [])
  | state, entry :: rest =>
      let (state, answered) := settleTx state entry
      let (state, others) := settleTxs settleTx state rest
      (state, answered ++ others)

/-- The settlement of a captured batch, with the waiters that it answers. -/
def settleCaptured (settleTx : TargetRefreshState → Text × ℕ → TargetRefreshState × List Waiter)
    (captured : CapturedRefresh) : TargetRefreshState × List Waiter :=
  let loads := state.loadWaiters
  let (state, txs) := settleTxs settleTx { state with loadWaiters := [] } captured.mutationWaiters
  let watcherWaiters := state.watcherWaiters.drop captured.watcherCount
  ({ state with
    explicitWaiters := state.explicitWaiters.drop captured.explicitCount
    watcherWaiters := watcherWaiters
    watcherPending := if watcherWaiters.isEmpty then false else state.watcherPending },
    loads ++ txs ++ state.explicitWaiters.take captured.explicitCount ++
      state.watcherWaiters.take captured.watcherCount)

def settleCapturedOk (captured : CapturedRefresh) : TargetRefreshState × List Waiter :=
  state.settleCaptured settleTxOk captured

def settleCapturedError (captured : CapturedRefresh) : TargetRefreshState × List Waiter :=
  state.settleCaptured settleTxError captured

def failRefreshTarget : TargetRefreshState × List Waiter :=
  ({ state with
    mutationWaiters := ∅
    loadWaiters := []
    explicitWaiters := []
    watcherWaiters := []
    watcherPending := false
    running := false },
    state.mutationWaiters.entries.flatMap (·.2) ++ state.loadWaiters ++ state.explicitWaiters ++
      state.watcherWaiters)

end TargetRefreshState

/-! ### The coordinator -/

/-- A captured batch and the moment of its capture. -/
structure Round where
  captured : CapturedRefresh
  moment : ℕ
deriving DecidableEq, Repr

/-- A projection that a worker has put into the index. -/
structure Published where
  target : RefreshTarget
  /-- The moment at which its scan began. -/
  begun : ℕ
deriving DecidableEq, Repr

inductive WorkerPhase
  /-- It waits for requests to become quiet, after the generation that it has read. -/
  | coalescing (generation : Option ℕ)
  | quiet
  | captured (round : Round)
  /-- It has the permit of its lane. -/
  | permitted (round : Round)
  | scanning (round : Round) (token begun : ℕ)
  /-- The scan that began at a moment was built, or an error. -/
  | built (round : Round) (result : Except Text ℕ)
  | settling (round : Round) (result : Except Text Published)
  | stopped
deriving DecidableEq, Repr

structure RefreshWorker where
  target : RefreshTarget
  phase : WorkerPhase
deriving DecidableEq, Repr

inductive RefreshOutcome
  /-- `Ok` by a settlement after the publication. -/
  | published (published : Published)
  /-- `Ok` for a transaction that is known as completed. -/
  | completed
  /-- `Err` by a settlement after the scan or the publication failed. -/
  | failed (round : Round) (error : Text)
  /-- `Err` since the semaphore of the scans is closed. -/
  | refused
deriving DecidableEq, Repr

structure RefreshAnswer where
  waiter : Waiter
  outcome : RefreshOutcome
deriving DecidableEq, Repr

structure RefreshState where
  targets : RefreshTarget → TargetRefreshState
  workers : List RefreshWorker
  /-- The registry of blocking scans. -/
  scans : RefreshTarget → Option BlockingScanEntry
  nextToken : ℕ
  /-- The completions that are not dropped yet. -/
  completions : List (RefreshTarget × ℕ)
  /-- The semaphores of the scans are closed. -/
  closed : Bool
  /-- The number of steps so far. -/
  clock : ℕ
  registered : List Waiter
  answers : List RefreshAnswer
  publications : List Published
  /-- The settlements so far, with their moments. -/
  settlements : List (RefreshTarget × ℕ)

inductive ScanOutcome
  | built
  | failed (error : Text)
  /-- With the message of the worker. -/
  | timedOut (message : Text)

inductive RefreshAction
  | load (target : RefreshTarget)
  | required (target : RefreshTarget) (txId : Option Text)
  | watch (target : RefreshTarget)
  /-- The worker reads the generation; perhaps it has waited long enough. -/
  | observe (i : ℕ) (elapsed : Bool)
  /-- The worker has slept and compares the generation. -/
  | compare (i : ℕ) (elapsed : Bool)
  | capture (i : ℕ)
  | acquire (i : ℕ)
  | begin (i : ℕ)
  | scan (i : ℕ) (outcome : ScanOutcome)
  | publish (i : ℕ) (error : Option Text)
  | settle (i : ℕ)
  /-- The thread of a scan, or what never became one, drops its completion. -/
  | exit (target : RefreshTarget) (token : ℕ)

namespace WorkerPhase

/-- The worker holds a permit of its lane. -/
def holdsPermit : WorkerPhase → Bool
  | permitted _ => true
  | scanning _ _ _ => true
  | _ => false

end WorkerPhase

namespace RefreshState

variable (s : RefreshState)

def start : RefreshState where
  targets := fun _ => .default
  workers := []
  scans := fun _ => none
  nextToken := 0
  completions := []
  closed := false
  clock := 0
  registered := []
  answers := []
  publications := []
  settlements := []

/-- The request of this moment. -/
def waiter (target : RefreshTarget) (kind : WaiterKind) (repeated : Bool) : Waiter :=
  ⟨s.clock, target, kind, repeated⟩

def setTarget (target : RefreshTarget) (state : TargetRefreshState) : RefreshState :=
  { s with targets := Function.update s.targets target state }

def setPhase (i : ℕ) (target : RefreshTarget) (phase : WorkerPhase) : RefreshState :=
  { s with workers := s.workers.set i ⟨target, phase⟩ }

def answer (waiters : List Waiter) (outcome : RefreshOutcome) : RefreshState :=
  { s with answers := s.answers ++ waiters.map fun waiter => ⟨waiter, outcome⟩ }

/-- The request is registered, and a worker is spawned if there is none. -/
def register (reply : Waiter) (next : TargetRefreshState × Bool) : RefreshState :=
  { s.setTarget reply.target next.1 with
    registered := s.registered ++ [reply]
    workers := if next.2 then s.workers ++ [⟨reply.target, .coalescing none⟩] else s.workers }

/-- The free permits of the target's lane. -/
def permitFree (target : RefreshTarget) : Bool :=
  match target.scanPermits with
  | some permits =>
      (s.workers.filter fun worker =>
        target.sharesScanLane worker.target && worker.phase.holdsPermit).length < permits
  | none => true

def markBlockingScanTimedOut (target : RefreshTarget) (token : ℕ) : RefreshState :=
  match s.scans target with
  | some entry =>
      if entry.token = token then
        { s with scans := Function.update s.scans target (some { entry with timedOut := true }) }
      else s
  | none => s

def finishBlockingScan (target : RefreshTarget) (token : ℕ) : RefreshState :=
  match s.scans target with
  | some entry =>
      if entry.token = token then { s with scans := Function.update s.scans target none } else s
  | none => s

/-- The message of a refused scan. -/
def refusal (target : RefreshTarget) (entry : BlockingScanEntry) : Text :=
  target.label ++ " has a ".toList ++
    (if entry.timedOut then "timed-out".toList else "in-flight".toList) ++
      " filesystem scan still running; retry after that stale scan exits".toList

/-- The end of a round: the answers of its settlement, and another round if there is work. -/
def endRound (i : ℕ) (target : RefreshTarget) (settled : TargetRefreshState × List Waiter)
    (outcome : RefreshOutcome) : RefreshState :=
  let goesOn := settled.1.hasWork
  { ((s.setTarget target { settled.1 with running := goesOn }).setPhase i target
      (if goesOn then .coalescing none else .stopped)).answer settled.2 outcome with
    settlements := s.settlements ++ [(target, s.clock)] }

def turn : RefreshAction → Option RefreshState
  | .load target =>
      let reply := s.waiter target .load false
      some (s.register reply ((s.targets target).requestProjectLoad reply))
  | .required target txId =>
      let state := s.targets target
      let kind := match txId with
        | some id => .mutation id
        | none => .explicit
      let reply := s.waiter target kind (state.knows txId)
      match state.requestRequiredRefresh txId reply with
      | some next => some (s.register reply next)
      | none => some ({ s with registered := s.registered ++ [reply] }.answer [reply] .completed)
  | .watch target =>
      let reply := s.waiter target .watcher false
      some (s.register reply ((s.targets target).scheduleWatcherRefresh reply))
  | .observe i elapsed =>
      match s.workers[i]? with
      | some ⟨target, .coalescing none⟩ =>
          some (s.setPhase i target
            (if elapsed then .quiet else .coalescing (some (s.targets target).windowGeneration)))
      | _ => none
  | .compare i elapsed =>
      match s.workers[i]? with
      | some ⟨target, .coalescing (some generation)⟩ =>
          let stable := (s.targets target).windowGeneration == generation
          some (s.setPhase i target (if stable || elapsed then .quiet else .coalescing none))
      | _ => none
  | .capture i =>
      match s.workers[i]? with
      | some ⟨target, .quiet⟩ =>
          let (state, captured) := (s.targets target).capture
          some ((s.setTarget target state).setPhase i target (.captured ⟨captured, s.clock⟩))
      | _ => none
  | .acquire i =>
      match s.workers[i]? with
      | some ⟨target, .captured round⟩ =>
          if s.closed && target.scanPermits.isSome then
            let (state, answered) := (s.targets target).failRefreshTarget
            some (((s.setTarget target state).setPhase i target .stopped).answer answered .refused)
          else if s.permitFree target then some (s.setPhase i target (.permitted round))
          else none
      | _ => none
  | .begin i =>
      match s.workers[i]? with
      | some ⟨target, .permitted round⟩ =>
          match s.scans target with
          | some entry => some (s.setPhase i target (.built round (.error (refusal target entry))))
          | none =>
              let token := wrappingSucc s.nextToken
              some { s.setPhase i target (.scanning round token s.clock) with
                scans := Function.update s.scans target (some ⟨token, false⟩)
                nextToken := token
                completions := s.completions ++ [(target, token)] }
      | _ => none
  | .scan i outcome =>
      match s.workers[i]? with
      | some ⟨target, .scanning round token begun⟩ =>
          match outcome with
          | .built => some (s.setPhase i target (.built round (.ok begun)))
          | .failed error => some (s.setPhase i target (.built round (.error error)))
          | .timedOut message =>
              some ((s.markBlockingScanTimedOut target token).setPhase i target
                (.built round (.error message)))
      | _ => none
  | .publish i error =>
      match s.workers[i]? with
      | some ⟨target, .built round (.ok begun)⟩ =>
          match error with
          | some error => some (s.setPhase i target (.settling round (.error error)))
          | none =>
              some { s.setPhase i target (.settling round (.ok ⟨target, begun⟩)) with
                publications := s.publications ++ [⟨target, begun⟩] }
      | some ⟨target, .built round (.error error)⟩ =>
          some (s.setPhase i target (.settling round (.error error)))
      | _ => none
  | .settle i =>
      match s.workers[i]? with
      | some ⟨target, .settling round (.ok published)⟩ =>
          some (s.endRound i target ((s.targets target).settleCapturedOk round.captured)
            (.published published))
      | some ⟨target, .settling round (.error error)⟩ =>
          some (s.endRound i target ((s.targets target).settleCapturedError round.captured)
            (.failed round error))
      | _ => none
  | .exit target token =>
      if (target, token) ∈ s.completions then
        some { s.finishBlockingScan target token with
          completions := s.completions.erase (target, token) }
      else none

def step (a : RefreshAction) : Option RefreshState :=
  (s.turn a).map fun s' => { s' with clock := s.clock + 1 }

end RefreshState

end Orgasmic
