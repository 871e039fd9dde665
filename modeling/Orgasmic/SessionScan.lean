import Orgasmic.Delimited
import Orgasmic.LedgerHandles
import Orgasmic.SessionLeases

/-! # Lifecycle scans of a session file

A session file holds one JSON envelope a line.  Recovery asks only for the lines that tell a run's
lifecycle, and reads them in two ways.

* `scanSessionLifecycle` reads at most a budget of bytes: the whole file if it fits, else a window
  at each end, without the partial lines at the windows' inner edges.
* `scanSessionLifecycleComplete` reads every line, and forgives a last line that a crash cut short.

Both send each line through `retainLifecycleLine`.  What `serde_json` reads from a line is the
parameter `fromSlice`. -/

namespace Orgasmic

open Text

/-- One line of a session file; `event` is a JSON value. -/
structure SessionEnvelope (Value : Type) where
  seq : ℕ
  time : ℤ
  runId : Text
  runtimeId : Text
  bootId : Text
  kind : SessionEventKind
  event : Value
deriving DecidableEq, Repr

/-- The byte budget of a bounded scan; both fields are a `u64`. -/
structure SessionScanBudget where
  prefixBytes : Fin (2 ^ 64)
  tailBytes : Fin (2 ^ 64)
deriving DecidableEq, Repr

/-- `SessionScanBudget::DEFAULT`. -/
def SessionScanBudget.default : SessionScanBudget :=
  ⟨⟨128 * 1024, by decide⟩, ⟨64 * 1024, by decide⟩⟩

/-- `saturating_add` of the two windows. -/
def SessionScanBudget.windowBytes (budget : SessionScanBudget) : ℕ :=
  min (budget.prefixBytes + budget.tailBytes) (2 ^ 64 - 1)

structure SessionLifecycleScan (Value : Type) where
  envelopes : List (SessionEnvelope Value) := []
  fileBytes : ℕ := 0
  bytesInspected : ℕ := 0
  truncated : Bool := false
  finalEnvelopeRetained : Bool := false
  finalLineRunId : Option Text := none
  skippedTranscriptLines : ℕ := 0
deriving DecidableEq, Repr

inductive SessionError where
  | json
deriving DecidableEq, Repr

/-- The bytes of a session file, as many as a `u64` can count. -/
structure SessionBytes where
  bytes : Bytes
  length_lt : bytes.length < 2 ^ 64

/-! ### Probes of one line -/

def quote : UInt8 := 34

def isAsciiWhitespace (b : UInt8) : Bool := b = 9 || b = 10 || b = 12 || b = 13 || b = 32

def lifecycleDriverEventTypes : List Bytes :=
  [utf8 "ready".toList, utf8 "run_complete".toList, utf8 "run_fail".toList,
    utf8 "run_error".toList]

def envelopeHeaderProbeBytes : ℕ := 1024

def lifecycleDriverEventMaxLineBytes : ℕ := 64 * 1024

/-- The line holds nothing but white space. -/
def blankLine (line : Bytes) : Bool := line.all isAsciiWhitespace

/-- Substring search for a needle that is not empty. -/
def findBytes : Bytes → Bytes → Option ℕ
  | [], _ => none
  | b :: bs, needle =>
      if needle ≠ [] ∧ needle.isPrefixOf (b :: bs) then some 0
      else (findBytes bs needle).map (· + 1)

/-- The bytes up to the next quote. -/
def untilQuote (rest : Bytes) : Option Bytes := (rest.findIdx? (· = quote)).map rest.take

/-- The JSON string value that follows `key`. -/
def probeStringValue (probe key : Bytes) : Option Bytes :=
  (findBytes probe key).bind fun found => untilQuote (probe.drop (found + key.length))

def lineHeader (line : Bytes) : Bytes := line.take envelopeHeaderProbeBytes

def kindKey : Bytes := utf8 "\"kind\":\"".toList

def typeKey : Bytes := utf8 "\"type\":\"".toList

def runIdKey : Bytes := utf8 "\"run_id\":\"".toList

/-- The loop over every `"type":"…"` of a driver event.  Each turn is behind the key it found, so as
many turns as the line has bytes are enough. -/
def namesLifecycleType : ℕ → Bytes → Bool
  | 0, _ => false
  | turns + 1, line =>
      match findBytes line typeKey with
      | none => false
      | some found =>
          let rest := line.drop (found + typeKey.length)
          match rest.findIdx? (· = quote) with
          | none => true
          | some stop =>
              if lifecycleDriverEventTypes.contains (rest.take stop) then true
              else namesLifecycleType turns (rest.drop stop)

def lineIsLifecycleRelevant (line : Bytes) : Bool :=
  if probeStringValue (lineHeader line) kindKey ≠ some (utf8 "driver_event".toList) then true
  else if lifecycleDriverEventMaxLineBytes < line.length then false
  else namesLifecycleType line.length line

/-- `run_id` of the last line of the window that is not blank. -/
def windowFinalLineRunId (window : Bytes) : Option Text := do
  let line ← ((Delimited.pieces newline window).filter (!blankLine ·)).getLast?
  let value ← probeStringValue (lineHeader line) runIdKey
  readToString value

/-! ### Retention -/

inductive LineOutcome where
  | blank
  | dropped
  | retained
deriving DecidableEq, Repr

section Scans

variable {Value : Type} (fromSlice : Bytes → Option (SessionEnvelope Value))

/-- `strip_suffix(b"\r")`. -/
def stripCr (line : Bytes) : Bytes := if line.getLast? = some 13 then line.dropLast else line

/-- The retention filter for one line without its terminator. -/
def retainLifecycleLine (scan : SessionLifecycleScan Value) (line : Bytes) :
    Except SessionError (LineOutcome × SessionLifecycleScan Value) :=
  let line := stripCr line
  if blankLine line then .ok (.blank, scan)
  else if !lineIsLifecycleRelevant line then
    .ok (.dropped, { scan with skippedTranscriptLines := scan.skippedTranscriptLines + 1 })
  else
    match fromSlice line with
    | none => .error .json
    | some envelope => .ok (.retained, { scan with envelopes := scan.envelopes ++ [envelope] })

/-- The lines of the windows, one after the other, with the flag that says whether the last line
that is not blank was retained. -/
def scanLines : List Bytes → SessionLifecycleScan Value × Bool →
    Except SessionError (SessionLifecycleScan Value × Bool)
  | [], s => .ok s
  | line :: rest, (scan, finalLineRetained) =>
      match retainLifecycleLine fromSlice scan line with
      | .error e => .error e
      | .ok (.blank, scan) => scanLines rest (scan, finalLineRetained)
      | .ok (.dropped, scan) => scanLines rest (scan, false)
      | .ok (.retained, scan) => scanLines rest (scan, true)

/-- The file, or the complete lines of its two windows. -/
def readWindows (file : SessionBytes) (budget : SessionScanBudget) : Bytes × Bytes :=
  if file.bytes.length ≤ budget.windowBytes then (file.bytes, [])
  else (Delimited.closedPart newline (file.bytes.take budget.prefixBytes),
    Delimited.afterFirst newline (file.bytes.drop (file.bytes.length - budget.tailBytes)))

def scanSessionLifecycle (file : SessionBytes) (budget : SessionScanBudget) :
    Except SessionError (SessionLifecycleScan Value) :=
  let truncated : Bool := budget.windowBytes < file.bytes.length
  let (front, tail) := readWindows file budget
  let scan : SessionLifecycleScan Value :=
    { fileBytes := file.bytes.length
      bytesInspected := if truncated then budget.windowBytes else file.bytes.length
      truncated
      finalLineRunId := windowFinalLineRunId (if truncated then tail else front) }
  match scanLines fromSlice (Delimited.pieces newline front ++ Delimited.pieces newline tail)
      (scan, false) with
  | .error e => .error e
  | .ok (scan, finalLineRetained) =>
      .ok { scan with finalEnvelopeRetained := finalLineRetained && !(truncated && tail.isEmpty) }

/-- What the loop of the complete scan carries from line to line. -/
structure CompleteScan (Value : Type) where
  scan : SessionLifecycleScan Value
  finalLineHeader : Bytes := []
  finalLineRetained : Bool := false
  tornFinalFragment : Bool := false

/-- The loop over the lines that `read_until` returns. -/
def scanRecords : List Bytes → CompleteScan Value → Except SessionError (CompleteScan Value)
  | [], s => .ok s
  | line :: rest, s =>
      let scan := { s.scan with bytesInspected := s.scan.bytesInspected + line.length }
      let raw := Delimited.content newline line
      if blankLine raw then scanRecords rest { s with scan }
      else
        match retainLifecycleLine fromSlice scan raw with
        | .ok (.blank, scan) => scanRecords rest { s with scan }
        | .ok (.dropped, scan) =>
            scanRecords rest
              { s with scan, finalLineRetained := false, finalLineHeader := lineHeader raw }
        | .ok (.retained, scan) =>
            scanRecords rest
              { s with scan, finalLineRetained := true, finalLineHeader := lineHeader raw }
        | .error e =>
            if Delimited.Ended newline line then .error e
            else .ok { s with scan, tornFinalFragment := true }

def scanSessionLifecycleComplete (file : SessionBytes) :
    Except SessionError (SessionLifecycleScan Value) :=
  match scanRecords fromSlice (Delimited.records newline file.bytes)
      { scan := { fileBytes := file.bytes.length } } with
  | .error e => .error e
  | .ok s =>
      .ok { s.scan with
        finalLineRunId := windowFinalLineRunId s.finalLineHeader
        finalEnvelopeRetained := s.finalLineRetained && !s.tornFinalFragment }

end Scans

end Orgasmic
