import Orgasmic.SessionScan
import Orgasmic.JsonText

/-! # Classes of session records

Maintenance decides by the class of a line whether its bytes may be reclaimed.  The class is read
off two short strings, the envelope's `kind` and its event's `type`, by a scanner that walks the
line once and decodes nothing.

* **The scanner** (`JsonScan`) is a function of the bytes that are left.  A nesting level that it
  would follow too deep is the end of the recursion of `skipValue`.
* **Discriminators.** The last member that is spelled `kind`, and the last `type` of the last member
  that is spelled `event`, count if their values are plain and short.
* **Records** are the lines of the file with their line feeds; each has one class. -/

namespace Orgasmic

open Text

/-! ### The scanner -/

namespace JsonScan

def isJsonWhitespace (b : UInt8) : Bool := b = 32 || b = 9 || b = 10 || b = 13

def isAsciiDigit (b : UInt8) : Bool := 48 ≤ b && b ≤ 57

/-- `SCAN_MAX_DEPTH`. -/
def maxDepth : ℕ := 64

/-- `SCAN_MAX_DISCRIMINATOR_BYTES`. -/
def maxDiscriminatorBytes : ℕ := 64

/-- The next byte behind white space, which is not consumed. -/
def peek (s : Bytes) : Option (UInt8 × Bytes) :=
  match s.dropWhile isJsonWhitespace with
  | [] => none
  | b :: rest => some (b, b :: rest)

def eat (byte : UInt8) (s : Bytes) : Option Bytes := do
  let (b, s) ← peek s
  if b = byte then some (s.drop 1) else none

def eatExact (want s : Bytes) : Option Bytes :=
  if want.isPrefixOf s then some (s.drop want.length) else none

/-- `to_digit(16)`. -/
def toDigit (b : UInt8) : Option ℕ :=
  if isAsciiDigit b then some (b.toNat - 48)
  else if 97 ≤ b && b ≤ 102 then some (b.toNat - 87)
  else if 65 ≤ b && b ≤ 70 then some (b.toNat - 55)
  else none

/-- Exactly four hex digits. -/
def hex4 : Bytes → Option (ℕ × Bytes)
  | a :: b :: c :: d :: rest => do
      let a ← toDigit a
      let b ← toDigit b
      let c ← toDigit c
      let d ← toDigit d
      some (((a * 16 + b) * 16 + c) * 16 + d, rest)
  | _ => none

/-- One escape sequence whose backslash was read. -/
def escape : Bytes → Option Bytes
  | [] => none
  | b :: s =>
      if [34, 92, 47, 98, 102, 110, 114, 116].contains b then some s
      else if b = 117 then do
        let (first, s) ← hex4 s
        if 0xd800 ≤ first && first < 0xdc00 then
          let s ← eatExact [92, 117] s
          let (second, s) ← hex4 s
          if 0xdc00 ≤ second && second < 0xe000 then some s else none
        else if 0xdc00 ≤ first && first < 0xe000 then none
        else some s
      else none

/-- The loop of `string`; every turn reads a byte. -/
def stringLoop : ℕ → Bytes → Bool → Option (Bool × Bytes)
  | 0, _, _ => none
  | _ + 1, [], _ => none
  | turns + 1, b :: s, escaped =>
      if b = 34 then some (escaped, s)
      else if b ≤ 0x1f then none
      else if b = 92 then (escape s).bind (stringLoop turns · true)
      else stringLoop turns s escaped

/-- One JSON string: its raw contents if they are plain and short. -/
def string (s : Bytes) : Option (Option Bytes × Bytes) := do
  let start ← eat 34 s
  let (escaped, rest) ← stringLoop (start.length + 1) start false
  let raw := start.take (start.length - rest.length - 1)
  some (if !escaped && raw.length ≤ maxDiscriminatorBytes then some raw else none, rest)

/-- One or more decimal digits. -/
def digits (s : Bytes) : Option Bytes :=
  let rest := s.dropWhile isAsciiDigit
  if rest.length < s.length then some rest else none

def number (s : Bytes) : Option Bytes := do
  let s := if s.head? = some 45 then s.drop 1 else s
  let first ← s.head?
  let s ←
    if first = 48 then some (s.drop 1)
    else if 49 ≤ first && first ≤ 57 then digits s
    else none
  let s ← if s.head? = some 46 then digits (s.drop 1) else some s
  if s.head? = some 101 ∨ s.head? = some 69 then
    let s := s.drop 1
    digits (if s.head? = some 43 ∨ s.head? = some 45 then s.drop 1 else s)
  else some s

/-- The loop over the members of an object: `onValue` is given each key and reads its value.  Every
turn reads a byte. -/
def memberLoop {σ : Type} (onValue : Option Bytes → σ → Bytes → Option (σ × Bytes)) :
    ℕ → σ → Bytes → Option (σ × Bytes)
  | 0, _, _ => none
  | turns + 1, found, s => do
      let (key, s) ← string s
      let s ← eat 58 s
      let (found, s) ← onValue key found s
      let (b, s) ← peek s
      if b = 44 then memberLoop onValue turns found (s.drop 1)
      else if b = 125 then some (found, s.drop 1)
      else none

/-- The members of an object whose brace was read. -/
def objectMembers {σ : Type} (onValue : Option Bytes → σ → Bytes → Option (σ × Bytes)) (found : σ)
    (s : Bytes) : Option (σ × Bytes) := do
  let (b, s) ← peek s
  if b = 125 then some (found, s.drop 1) else memberLoop onValue (s.length + 1) found s

/-- The loop over the items of an array; every turn reads a byte. -/
def elementLoop (skip : Bytes → Option Bytes) : ℕ → Bytes → Option Bytes
  | 0, _ => none
  | turns + 1, s => do
      let s ← skip s
      let (b, s) ← peek s
      if b = 44 then elementLoop skip turns (s.drop 1)
      else if b = 93 then some (s.drop 1)
      else none

/-- `skip_members` over the reader of the level below. -/
def skipMembers (skip : Bytes → Option Bytes) (s : Bytes) : Option Bytes :=
  (objectMembers (fun _ _ s => (skip s).map ((), ·)) () s).map (·.2)

/-- `skip_value` at depth `SCAN_MAX_DEPTH + 1 - levels`. -/
def skipValue : ℕ → Bytes → Option Bytes
  | 0, _ => none
  | levels + 1, s => do
      let (b, s) ← peek s
      if b = 34 then (string s).map (·.2)
      else if b = 123 then skipMembers (skipValue levels) (s.drop 1)
      else if b = 91 then
        let (c, t) ← peek (s.drop 1)
        if c = 93 then some (t.drop 1) else elementLoop (skipValue levels) (t.length + 1) t
      else if b = 116 then eatExact [116, 114, 117, 101] s
      else if b = 102 then eatExact [102, 97, 108, 115, 101] s
      else if b = 110 then eatExact [110, 117, 108, 108] s
      else if b = 45 || isAsciiDigit b then number s
      else none

/-- `skip_value(depth)`. -/
def skipValueAt (depth : ℕ) : Bytes → Option Bytes := skipValue (maxDepth + 1 - depth)

/-- The string value of a member, if it is one; other values clear what was found. -/
def captureString (depth : ℕ) (s : Bytes) : Option (Option Bytes × Bytes) := do
  let (b, s) ← peek s
  if b = 34 then string s else (skipValueAt depth s).map (none, ·)

/-- `capture_member`. -/
def captureMember (wanted : Bytes) (depth : ℕ) (s : Bytes) : Option (Option Bytes × Bytes) :=
  objectMembers (fun key found s =>
    if key = some wanted then captureString (depth + 1) s
    else (skipValueAt (depth + 1) s).map (found, ·)) none s

end JsonScan

/-! ### Discriminators -/

structure EnvelopeDiscriminators where
  kind : Option Bytes := none
  eventType : Option Bytes := none
deriving DecidableEq, Repr

def kindMember : Bytes := utf8 "kind".toList

def eventMember : Bytes := utf8 "event".toList

def typeMember : Bytes := utf8 "type".toList

open JsonScan in
/-- One member of the envelope. -/
def envelopeMember (key : Option Bytes) (found : EnvelopeDiscriminators) (s : Bytes) :
    Option (EnvelopeDiscriminators × Bytes) :=
  if key = some kindMember then
    (captureString 1 s).map fun p => ({ found with kind := p.1 }, p.2)
  else if key = some eventMember then do
    let (b, s) ← peek s
    if b = 123 then
      (captureMember typeMember 1 (s.drop 1)).map fun p => ({ found with eventType := p.1 }, p.2)
    else (skipValueAt 1 s).map fun s => ({ found with eventType := none }, s)
  else (skipValueAt 1 s).map (found, ·)

open JsonScan in
/-- The discriminators of a line that is one well-formed object. -/
def scanEnvelopeDiscriminators (line : Bytes) : Option EnvelopeDiscriminators := do
  let _ ← readToString line
  let s ← eat 123 line
  let (found, s) ← objectMembers envelopeMember {} s
  if s.dropWhile isJsonWhitespace = [] then some found else none

/-! ### Classes -/

inductive EventClass where
  | lifecycle
  | renderedTui
  | semantic
  | paneActivity
  | note
  | unparsed
  | blank
  | torn
deriving DecidableEq, Repr

def classifyHistoryLine (line : Bytes) : EventClass :=
  match scanEnvelopeDiscriminators line with
  | none => .unparsed
  | some found =>
      if found.kind = some (utf8 "lifecycle".toList) then .lifecycle
      else if found.kind = some (utf8 "note".toList) then .note
      else if found.kind = some (utf8 "driver_event".toList) then
        match found.eventType with
        | none => .unparsed
        | some type =>
            if type = utf8 "pane_activity".toList then .paneActivity
            else if type = utf8 "text_chunk".toList then .renderedTui
            else .semantic
      else .unparsed

def transportIsPane (transport : Text) : Bool :=
  trim transport = "tmux".toList || trim transport = "tmux-tui".toList

def classIsReclaimable (eventClass : EventClass) (transport : Option Text) : Bool :=
  eventClass = .renderedTui && transport.any transportIsPane

/-- The class of a physical record, which is a line with its line feed. -/
def recordClass (raw : Bytes) : EventClass :=
  let content := Delimited.content newline raw
  if content.all isAsciiWhitespace then .blank
  else if ¬ Delimited.Ended newline raw then .torn
  else classifyHistoryLine content

/-- `read_history_records`: the physical records of a file. -/
def readHistoryRecords (file : Bytes) : List Bytes := Delimited.records newline file

end Orgasmic
