import Orgasmic.Delimited
import Orgasmic.Interleaving
import Orgasmic.JsonText
import Orgasmic.LedgerHandles

/-! # The JSON-RPC loop over stdio

The driver talks to a harness over its pipes, one JSON message a line.

* **Reading.** The pipe feeds the buffer of a `BufReader`; `read_line` takes bytes out of the buffer
  until it has a line.  What it took is its own until the line is complete.
* **Requests.** `request_response` reads until it has the response it waits for, and hands
  everything else to `dispatch_incoming_json`.  The handshake and some commands do that.
* **The loop.** A `select` over commands, lines of stderr, messages and ticks; a branch that
  completes drops the reader of the turn with the bytes it took. -/

namespace Orgasmic

open Text JsonText

/-- The buffer of a `BufReader`. -/
def bufferCapacity : ℕ := 8192

/-! ### Messages -/

/-- What `recv_json` makes of a line. -/
inductive WireLine
  | blank
  | invalid
  | message (value : Json)

/-- A line that was read, with `serde_json::from_str`. -/
def readWireLine (fromStr : Text → Option Json) (line : Bytes) : WireLine :=
  match readToString line with
  | none => .invalid
  | some text =>
      if trim text = [] then .blank
      else
        match fromStr (trim text) with
        | none => .invalid
        | some value => .message value

/-- A member of an object. -/
def member (value : Json) (key : Text) : Option Json :=
  match value with
  | .object members => lookup members (utf8 key)
  | _ => none

/-- The JSON number of an id. -/
def isId (value : Json) (id : ℕ) : Bool :=
  match value with
  | .number text => text = utf8 (Nat.toDigits 10 id)
  | _ => false

def responseMatches (value : Json) (id : ℕ) : Bool :=
  (member value "method".toList).isNone &&
    ((member value "result".toList).isSome || (member value "error".toList).isSome) &&
    (member value "id".toList).any (isId · id)

/-! ### The state -/

/-- Where a message goes. -/
inductive Receiver
  | dispatch
  | response (id : ℕ)
deriving DecidableEq, Repr

/-- How the handling of a message ends; `terminal` if the adapter has emitted its last event. -/
inductive Handled
  | done
  | terminal
  | failed
deriving DecidableEq, Repr

/-- A request that waits for its response. -/
structure RpcRequest where
  id : ℕ
  /-- The request starts a turn, so the terminal event ends it too. -/
  startsTurn : Bool
deriving DecidableEq, Repr

inductive StdioPhase
  | handshake (waiting : Option RpcRequest)
  | select
  /-- A command's request. -/
  | command (waiting : RpcRequest)
  | ended
deriving DecidableEq, Repr

structure StdioState where
  /-- All that the harness has written. -/
  written : Bytes
  closed : Bool
  pipe : Bytes
  buffer : Bytes
  /-- The bytes that the reader in flight has taken. -/
  line : Bytes
  phase : StdioPhase
  nextId : ℕ
  handed : List (Json × Receiver)
  framingErrors : ℕ

namespace StdioPhase

def waiting : StdioPhase → Option RpcRequest
  | .handshake waiting => waiting
  | .command waiting => some waiting
  | _ => none

/-- The transport is being read. -/
def reads : StdioPhase → Bool
  | .handshake waiting => waiting.isSome
  | .select => true
  | .command _ => true
  | .ended => false

/-- After an error of the transport; a command passes it on to its caller. -/
def afterError : StdioPhase → StdioPhase
  | .command _ => .select
  | _ => .ended

/-- After the response; the handshake ends with a response that is an error or of no use. -/
def afterResponse (useless : Bool) : StdioPhase → StdioPhase
  | .handshake _ => if useless then .ended else .handshake none
  | .command _ => .select
  | phase => phase

def afterDispatch (handled : Handled) : StdioPhase → StdioPhase
  | .handshake (some request) =>
      match handled with
      | .done => .handshake (some request)
      | .terminal => if request.startsTurn then .handshake none else .handshake (some request)
      | .failed => .ended
  | .command request =>
      match handled with
      | .done => .command request
      | .terminal => if request.startsTurn then .select else .command request
      | .failed => .select
  | .select =>
      match handled with
      | .done => .select
      | _ => .ended
  | phase => phase

end StdioPhase

inductive StdioAction
  /-- The harness writes to its stdout, or closes it. -/
  | arrive (bytes : Bytes)
  | close
  /-- The reader fills its buffer from the pipe. -/
  | fill (n : ℕ)
  /-- The reader takes bytes from its buffer. -/
  | take (handled : Handled)
  /-- The reader finds the end of the stream. -/
  | finish (handled : Handled)
  /-- The handshake sends a request, or is over. -/
  | request (startsTurn : Bool)
  | opened
  /-- A command that sends some messages and may wait for a response. -/
  | command (sent : ℕ) (waits : Option Bool)
  | stderrLine
  | heartbeat (delivered : Bool)

namespace StdioState

/-! ### Steps -/

/-- The reader hands over a message. -/
def handOver (s : StdioState) (value : Json) (handled : Handled) : StdioState :=
  match s.phase.waiting with
  | some request =>
      if responseMatches value request.id then
        { s with
          line := []
          handed := s.handed ++ [(value, .response request.id)]
          phase := s.phase.afterResponse
            ((member value "error".toList).isSome || handled = .failed) }
      else
        { s with
          line := []
          handed := s.handed ++ [(value, .dispatch)]
          phase := s.phase.afterDispatch handled }
  | none =>
      { s with
        line := []
        handed := s.handed ++ [(value, .dispatch)]
        phase := s.phase.afterDispatch handled }

/-- The reader has a line. -/
def received (fromStr : Text → Option Json) (s : StdioState) (line : Bytes) (handled : Handled) :
    StdioState :=
  match readWireLine fromStr line with
  | .blank => { s with line := [] }
  | .invalid =>
      { s with line := [], framingErrors := s.framingErrors + 1, phase := s.phase.afterError }
  | .message value => s.handOver value handled

/-- Another branch of the `select` completes. -/
def dropReader (s : StdioState) : StdioState := { s with line := [] }

def step (fromStr : Text → Option Json) (s : StdioState) : StdioAction → Option StdioState
  | .arrive bytes =>
      if s.closed then none
      else some { s with written := s.written ++ bytes, pipe := s.pipe ++ bytes }
  | .close => some { s with closed := true }
  | .fill n =>
      if s.phase.reads ∧ s.buffer = [] ∧ 0 < n ∧ n ≤ bufferCapacity ∧ n ≤ s.pipe.length then
        some { s with buffer := s.pipe.take n, pipe := s.pipe.drop n }
      else none
  | .take handled =>
      if s.phase.reads ∧ s.buffer ≠ [] then
        match s.buffer.dropWhile (· ≠ newline) with
        | [] => some { s with line := s.line ++ s.buffer, buffer := [] }
        | _ :: rest =>
            some (received fromStr { s with buffer := rest }
              (s.line ++ s.buffer.takeWhile (· ≠ newline) ++ [newline]) handled)
      else none
  | .finish handled =>
      if s.phase.reads ∧ s.closed ∧ s.pipe = [] ∧ s.buffer = [] then
        if s.line = [] then some { s with phase := s.phase.afterError }
        else some (received fromStr s s.line handled)
      else none
  | .request startsTurn =>
      if s.phase = .handshake none then
        some { s with
          nextId := s.nextId + 1, phase := .handshake (some ⟨s.nextId, startsTurn⟩) }
      else none
  | .opened => if s.phase = .handshake none then some { s with phase := .select } else none
  | .command sent waits =>
      if s.phase = .select then
        match waits with
        | none => some { s.dropReader with nextId := s.nextId + sent }
        | some startsTurn =>
            some { s.dropReader with
              nextId := s.nextId + sent + 1
              phase := .command ⟨s.nextId + sent, startsTurn⟩ }
      else none
  | .stderrLine => if s.phase = .select then some s.dropReader else none
  | .heartbeat delivered =>
      if s.phase = .select then
        some { s.dropReader with phase := if delivered then .select else .ended }
      else none

/-- The harness has been started. -/
def start : StdioState := ⟨[], false, [], [], [], .handshake none, 1, [], 0⟩

end StdioState

end Orgasmic
