import Orgasmic.Interleaving
import Orgasmic.Text

/-! # Sending into a conversation

`post_conversation_input` gives a message to the agent of a conversation: through the run that is
live, else through a run that resumes the native session, else through a cold one.

* **Replays.** The answers already given are remembered by conversation and request id; a request
  that finds its answer there is given it and sends nothing.
* **Phases.** Between the look at the replays and the entry there, a request takes a snapshot of
  the live runs, claims the launch, starts runs, sends, and records the run on the conversation;
  other requests and the supervisor act in between, and the request can fail or be dropped. -/

namespace Orgasmic

open Text

def MAX_INPUT_REPLAYS : ℕ := 1024
def MAX_MESSAGE_BYTES : ℕ := 64 * 1024
def SELECTION_LIMIT_BYTES : ℕ := 4096

/-- What a request names beside its message. -/
inductive ContextChip
  | node (id : Text)
  | attachment (node id revision : Text)
  | range (node attachment revision : Text) (startMs endMs : ℕ)
  | selection (text : Text)
deriving DecidableEq

def bounded (value : Text) : Bool :=
  value ≠ [] && byteLen value ≤ 256 && !value.any isControl

def validChip : ContextChip → Bool
  | .node id => bounded id
  | .attachment node id revision => bounded node && bounded id && bounded revision
  | .range node attachment revision startMs endMs =>
      bounded node && bounded attachment && bounded revision && decide (startMs < endMs)
  | .selection text => byteLen text ≤ SELECTION_LIMIT_BYTES

/-- The trimmed message, if it is neither empty nor too long. -/
def checkedMessage (message : Text) : Option Text :=
  let message := trim message
  if message = [] ∨ MAX_MESSAGE_BYTES < byteLen message then none else some message

structure Conversation where
  id : Text
  purpose : Text
  archived : Bool
  scope : Option Text
deriving DecidableEq

/-- A live run, as the supervisor's snapshot shows it. -/
structure ConversationRun where
  runId : Text
  taskId : Text
  role : Text
  conversationId : Option Text
deriving DecidableEq

/-- The role of a worker attempt. -/
def attemptRole (purpose : Text) : Option Text :=
  if purpose = "implement".toList then some "implementer".toList
  else if purpose = "review".toList then some "reviewer".toList
  else none

def isDispatchPurpose (purpose : Text) : Bool := (attemptRole purpose).isSome

/-- The live run that a conversation continues. -/
def ownsRun (conv : Conversation) (run : ConversationRun) : Bool :=
  if run.conversationId = some conv.id ∨ run.taskId = conv.id then true
  else
    match attemptRole conv.purpose with
    | none => false
    | some role =>
        run.conversationId.isNone && decide (run.role = role) &&
          decide (some run.taskId = conv.scope)

inductive InputMode
  | live
  | resumed
  | cold
deriving DecidableEq

structure InputAnswer where
  runId : Text
  mode : InputMode
deriving DecidableEq

structure InputRequest where
  conv : Conversation
  message : Text
  context : List ContextChip
  requestId : Text
deriving DecidableEq

namespace InputRequest

/-- What a request is remembered by. -/
def key (req : InputRequest) : Text × Text := (req.conv.id, req.requestId)

end InputRequest

/-- How far a request has come. -/
inductive InputPhase
  | received
  /-- The replays had nothing for it. -/
  | checked
  /-- With the run of the conversation in the snapshot, if there is one. -/
  | snapshotted (run : Option ConversationRun)
  /-- It holds the launch of the conversation. -/
  | claimed
  /-- The run that resumes the session is up. -/
  | resuming (runId : Text)
  /-- That run has been sent the message. -/
  | resumed (runId : Text)
  | cold
  | coldAcquired (runId : Text)
  | coldRecorded (runId : Text)
  /-- The message was sent; the answer is to be remembered. -/
  | sent (answer : InputAnswer)
deriving DecidableEq

structure InputCall where
  req : InputRequest
  phase : InputPhase
deriving DecidableEq

/-- A message that an agent has received. -/
structure InputDelivery where
  key : Text × Text
  message : Text
  context : List ContextChip
  runId : Text
deriving DecidableEq

/-- A request that was answered with success. -/
structure InputSuccess where
  req : InputRequest
  answer : InputAnswer
deriving DecidableEq

structure InputState where
  /-- `conversation_inputs`, the oldest first. -/
  replays : List ((Text × Text) × InputAnswer)
  /-- `conversation_launches`. -/
  launches : List Text
  runs : List ConversationRun
  calls : ℕ → Option InputCall
  /-- What the agents have received, what was answered and which replays were evicted so far. -/
  deliveries : List InputDelivery
  successes : List InputSuccess
  evicted : List (Text × Text)

/-- How the driver's `send_input` ends. One that is not accepted may have reached the agent. -/
inductive SendOutcome
  | accepted
  | failed (delivered : Bool)
deriving DecidableEq

/-- How the attempt to resume the session ends, short of the send. -/
inductive ResumeOutcome
  /-- There is no native memory to resume, or its run cannot be started. -/
  | none
  | leaseHeld
  | acquired (run : ConversationRun)

inductive InputAction
  | post (call : ℕ) (req : InputRequest)
  | look (call : ℕ)
  | snapshot (call : ℕ) (run : Option ConversationRun)
  | sendLive (call : ℕ) (outcome : SendOutcome)
  | claim (call : ℕ)
  | resume (call : ℕ) (outcome : ResumeOutcome)
  | sendResumed (call : ℕ) (outcome : SendOutcome)
  | recordResumed (call : ℕ)
  | launchCold (call : ℕ) (run : ConversationRun)
  | recordCold (call : ℕ)
  | sendCold (call : ℕ) (outcome : SendOutcome)
  | remember (call : ℕ)
  /-- A step of the request fails, or its handler is dropped. -/
  | fail (call : ℕ)
  | runStarts (run : ConversationRun)
  | runEnds (runId : Text)

namespace InputState

/-- `replayed_input`. -/
def replayedInput (s : InputState) (key : Text × Text) : Option InputAnswer :=
  (s.replays.find? fun r => r.1 = key).map Prod.snd

/-- `remember_input`, and what it evicts. -/
def rememberInput (replays : List ((Text × Text) × InputAnswer)) (key : Text × Text)
    (answer : InputAnswer) : List ((Text × Text) × InputAnswer) × List (Text × Text) :=
  let surplus := replays.length + 1 - MAX_INPUT_REPLAYS
  (replays.drop surplus ++ [(key, answer)], (replays.take surplus).map Prod.fst)

/-- The request goes on to its next phase. -/
def goOn (s : InputState) (i : ℕ) (call : InputCall) (phase : InputPhase) : InputState :=
  { s with calls := Function.update s.calls i (some { call with phase := phase }) }

/-- The request holds the launch of its conversation. -/
def holdsLaunch : InputPhase → Bool
  | .claimed | .resuming _ | .resumed _ | .cold | .coldAcquired _ | .coldRecorded _ => true
  | .sent answer => decide (answer.mode ≠ .live)
  | _ => false

/-- The request ends, and gives up the launch if it holds it. -/
def finish (s : InputState) (i : ℕ) (call : InputCall) : InputState :=
  { s with
    calls := Function.update s.calls i none
    launches := if holdsLaunch call.phase then s.launches.erase call.req.conv.id else s.launches }

/-- The agent of the run receives the request's message. -/
def deliver (s : InputState) (req : InputRequest) (runId : Text) : InputState :=
  { s with deliveries := ⟨req.key, trim req.message, req.context, runId⟩ :: s.deliveries }

def endRun (s : InputState) (runId : Text) : InputState :=
  { s with runs := s.runs.filter fun run => run.runId ≠ runId }

/-- A send that is not accepted, as the agent sees it. -/
def failSend (s : InputState) (req : InputRequest) (runId : Text) (delivered : Bool) : InputState :=
  if delivered then s.deliver req runId else s

/-- One action; `none` if it cannot happen. -/
def step (s : InputState) : InputAction → Option InputState
  | .post i req =>
      match s.calls i with
      | some _ => none
      | none => some { s with calls := Function.update s.calls i (some ⟨req, .received⟩) }
  | .look i =>
      match s.calls i with
      | some call =>
          match call.phase with
          | .received =>
              if call.req.conv.archived then some (s.finish i call)
              else
                match s.replayedInput call.req.key with
                | some answer =>
                    some ({ s with successes := ⟨call.req, answer⟩ :: s.successes }.finish i call)
                | none =>
                    if (checkedMessage call.req.message).isSome && call.req.context.all validChip then
                      some (s.goOn i call .checked)
                    else some (s.finish i call)
          | _ => none
      | none => none
  | .snapshot i run =>
      match s.calls i with
      | some call =>
          match call.phase, run with
          | .checked, some run =>
              if run ∈ s.runs ∧ ownsRun call.req.conv run then
                some (s.goOn i call (.snapshotted (some run)))
              else none
          | .checked, none =>
              if s.runs.any (ownsRun call.req.conv) then none
              else some (s.goOn i call (.snapshotted none))
          | _, _ => none
      | none => none
  | .sendLive i outcome =>
      match s.calls i with
      | some call =>
          match call.phase, outcome with
          | .snapshotted (some run), .accepted =>
              some ((s.deliver call.req run.runId).goOn i call (.sent ⟨run.runId, .live⟩))
          | .snapshotted (some run), .failed delivered =>
              some ((s.failSend call.req run.runId delivered).finish i call)
          | _, _ => none
      | none => none
  | .claim i =>
      match s.calls i with
      | some call =>
          match call.phase with
          | .snapshotted none =>
              if call.req.conv.purpose = "regenerate".toList ∨ call.req.conv.id ∈ s.launches then
                some (s.finish i call)
              else
                some ({ s with launches := call.req.conv.id :: s.launches }.goOn i call .claimed)
          | _ => none
      | none => none
  | .resume i outcome =>
      match s.calls i with
      | some call =>
          match call.phase, outcome with
          | .claimed, .none => some (s.goOn i call .cold)
          | .claimed, .leaseHeld => some (s.finish i call)
          | .claimed, .acquired run =>
              some ({ s with runs := run :: s.runs }.goOn i call (.resuming run.runId))
          | _, _ => none
      | none => none
  | .sendResumed i outcome =>
      match s.calls i with
      | some call =>
          match call.phase, outcome with
          | .resuming runId, .accepted =>
              some ((s.deliver call.req runId).goOn i call (.resumed runId))
          | .resuming runId, .failed delivered =>
              some (((s.failSend call.req runId delivered).endRun runId).goOn i call .cold)
          | _, _ => none
      | none => none
  | .recordResumed i =>
      match s.calls i with
      | some call =>
          match call.phase with
          | .resumed runId => some (s.goOn i call (.sent ⟨runId, .resumed⟩))
          | _ => none
      | none => none
  | .launchCold i run =>
      match s.calls i with
      | some call =>
          match call.phase with
          | .cold =>
              if isDispatchPurpose call.req.conv.purpose then some (s.finish i call)
              else some ({ s with runs := run :: s.runs }.goOn i call (.coldAcquired run.runId))
          | _ => none
      | none => none
  | .recordCold i =>
      match s.calls i with
      | some call =>
          match call.phase with
          | .coldAcquired runId => some (s.goOn i call (.coldRecorded runId))
          | _ => none
      | none => none
  | .sendCold i outcome =>
      match s.calls i with
      | some call =>
          match call.phase, outcome with
          | .coldRecorded runId, .accepted =>
              some ((s.deliver call.req runId).goOn i call (.sent ⟨runId, .cold⟩))
          | .coldRecorded runId, .failed delivered =>
              some ((s.failSend call.req runId delivered).finish i call)
          | _, _ => none
      | none => none
  | .remember i =>
      match s.calls i with
      | some call =>
          match call.phase with
          | .sent answer =>
              let (replays, evicted) := rememberInput s.replays call.req.key answer
              some ({ s with
                replays := replays
                evicted := evicted ++ s.evicted
                successes := ⟨call.req, answer⟩ :: s.successes }.finish i call)
          | _ => none
      | none => none
  | .fail i =>
      match s.calls i with
      | some call => some (s.finish i call)
      | none => none
  | .runStarts run => some { s with runs := run :: s.runs }
  | .runEnds runId => some (s.endRun runId)

end InputState

end Orgasmic
