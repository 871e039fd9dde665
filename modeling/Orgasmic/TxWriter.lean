import Orgasmic.OrgNodes
import Orgasmic.TxEntry
import Mathlib.Data.List.Sort

/-! # Writing the ledger

Rows as text: the renderer, the checks before a write, the reader and the append-only writer of
`tx.rs`.

* **Rendering.** A row is a top-level heading with a property drawer and nothing else.
* **Checks.** `validate` looks at every key and value; `assertRoundTrip` reads the rendered row
  back and compares the properties, values trimmed, as a multiset.
* **Writer.** `TxWriter` is the file under an open handle.  A write is all or nothing, so
  `appendMany` returns the writer after it beside the result. -/

namespace Orgasmic

open Text

inductive TxError where
  | parse (error : OrgError)
  | missingField (field : Text)
  | nonPropertyOnly (file : Text)
  | invalidValue (key detail : Text)
  | roundTripLoss (detail : Text)
deriving DecidableEq, Repr

namespace TxEntry

/-! ### Rendering -/

/-- `strip_brackets`. -/
def stripBrackets (time : Text) : Text :=
  (time.dropWhile (· = '[')).rdropWhile (· = ']')

/-- The properties in the order they are written. -/
def orderedProperties (entry : TxEntry) : List (Text × Text) :=
  [("TX_ID".toList, entry.txId), ("TIME".toList, entry.time), ("TYPE".toList, entry.ty),
      ("ACTOR".toList, entry.actor), ("MACHINE".toList, entry.machine)] ++
    (entry.project.map fun p => ("PROJECT".toList, p)).toList ++
    (entry.task.map fun t => ("TASK".toList, t)).toList ++
    (entry.target.map fun t => ("TARGET".toList, t)).toList ++
    (entry.reason.map fun r => ("REASON".toList, r)).toList ++ entry.extra

/-- What the title names besides time and type. -/
def titleSummary (entry : TxEntry) : Text :=
  match entry.project, entry.task, entry.target with
  | _, some task, _ => task
  | some project, _, _ => project
  | _, _, some target => target
  | _, _, _ => []

def titleText (entry : TxEntry) : Text :=
  "* TX ".toList ++ stripBrackets entry.time ++ " ".toList ++ entry.ty ++ " ".toList ++
    entry.titleSummary

/-- The line of a property; a value that is not blank starts at column 16 if the key leaves room
for it. -/
def propertyText (key value : Text) : Text :=
  if trim value = [] then ":".toList ++ key ++ ":".toList
  else
    let prefixLen := 2 + byteLen key
    let pad := if prefixLen < 15 then 15 - prefixLen else 1
    ":".toList ++ key ++ ":".toList ++ List.replicate pad ' ' ++ value

/-- The lines of a rendered row. -/
def renderLines (entry : TxEntry) : List Text :=
  entry.titleText :: ":PROPERTIES:".toList ::
    entry.orderedProperties.map (fun p => propertyText p.1 p.2) ++ [":END:".toList]

def render (entry : TxEntry) : Text := entry.renderLines.flatMap (· ++ ['\n'])

/-! ### Reading -/

/-- The keys that have a field of their own. -/
def canonicalKeys : List Text :=
  ["TX_ID".toList, "TIME".toList, "TYPE".toList, "ACTOR".toList, "MACHINE".toList,
    "PROJECT".toList, "TASK".toList, "TARGET".toList, "REASON".toList]

end TxEntry

/-- `heading.property(key).ok_or(TxError::MissingField(key))`. -/
def HeadingInfo.required (h : HeadingInfo) (key : Text) : Except TxError Text :=
  match h.property key with
  | some value => .ok value
  | none => .error (.missingField key)

/-- The row of a heading. -/
def readEntry (h : HeadingInfo) : Except TxError TxEntry := do
  let txId ← h.required "TX_ID".toList
  let time ← h.required "TIME".toList
  let ty ← h.required "TYPE".toList
  let actor ← h.required "ACTOR".toList
  let machine ← h.required "MACHINE".toList
  .ok {
    txId, time, ty, actor, machine
    project := h.property "PROJECT".toList
    task := h.property "TASK".toList
    target := h.property "TARGET".toList
    reason := h.property "REASON".toList
    extra := (h.propertyEntries.filter fun e => e.key ∉ TxEntry.canonicalKeys).map
      PropertyEntry.pair }

/-- The loop over the headings of a ledger. -/
def readEntries (file : OrgFile) (display : Text) : List Heading → Except TxError (List TxEntry)
  | [] => .ok []
  | heading :: headings =>
      if trim (file.slice heading.body) ≠ [] ∨ heading.sections.isEmpty = false then
        .error (.nonPropertyOnly display)
      else do
        let entry ← readEntry heading.toHeadingInfo
        let entries ← readEntries file display headings
        .ok (entry :: entries)

def parseTxFile (source display : Text) : Except TxError (List TxEntry) :=
  match OrgFile.parse source display with
  | .error e => .error (.parse e)
  | .ok file => readEntries file display file.headings

namespace TxEntry

/-! ### Checks -/

/-- Lower-case hexadecimal digits. -/
def hexDigits (n : ℕ) : Text := Nat.toDigits 16 n

/-- The character between quotes, escaped unless it is printable; the white space and control
characters that it is used on are printable only if they are the blank. -/
def debugChar (c : Char) : Text :=
  if c = '\t' then "'\\t'".toList
  else if c = '\n' then "'\\n'".toList
  else if c = '\r' then "'\\r'".toList
  else if c = '\x00' then "'\\0'".toList
  else if c = ' ' ∨ c = ':' then "'".toList ++ [c] ++ "'".toList
  else "'\\u\x7b".toList ++ hexDigits c.toNat ++ "\x7d'".toList

def isAsciiUppercase (c : Char) : Bool := 'A' ≤ c && c ≤ 'Z'

/-- `is_uppercase_snake_key`. -/
def isUppercaseSnakeKey : Text → Bool
  | [] => false
  | c :: cs => isAsciiUppercase c && cs.all fun c => isAsciiUppercase c || c.isDigit || c = '_'

def reservedPropertyKeys : List Text := ["END".toList, "PROPERTIES".toList]

def validatePropertyKey (key : Text) : Except TxError Unit :=
  if key = [] then .error (.invalidValue key "key must not be empty".toList)
  else match key.find? fun c => c = ':' || isWhitespace c || isControl c with
    | some c =>
        .error (.invalidValue key ("key must not contain ".toList ++ debugChar c ++
          "; a drawer key is `:KEY:` on one line".toList))
    | none =>
        let canonical := key.map Char.toUpper
        if canonical ∈ reservedPropertyKeys then
          .error (.invalidValue key "key is reserved by the property drawer syntax".toList)
        else if isUppercaseSnakeKey canonical = false then
          .error (.invalidValue key "key must match [A-Z][A-Z0-9_]*".toList)
        else if key ≠ canonical then
          .error (.invalidValue key
            ("key is not the canonical spelling; tx readers match keys byte for byte, so `:".toList ++
              key ++ ":` would be recorded and never read — use `".toList ++ canonical ++
              "`".toList))
        else .ok ()

def proseHint : Text :=
  "keep tx properties to a single line and put long prose in the node body ".toList ++
    "(`orgasmic node body set`)".toList

/-- The code point in at least four upper-case hexadecimal digits. -/
def codePoint (c : Char) : Text :=
  let digits := (hexDigits c.toNat).map Char.toUpper
  List.replicate (4 - digits.length) '0' ++ digits

def validatePropertyValue (key : Text) : Text → Except TxError Unit
  | [] => .ok ()
  | c :: cs =>
      if c = '\n' ∨ c = '\r' then
        .error (.invalidValue key ("value must be a single line, but it contains a ".toList ++
          (if c = '\n' then "line break".toList else "carriage return".toList) ++
          ". A tx entry is a property drawer and nothing else, so a newline ends the drawer ".toList ++
          "and leaves the append-only ledger unparseable for every reader; ".toList ++
          proseHint ++ ".".toList))
      else if isControl c && c ≠ '\t' then
        .error (.invalidValue key
          ("value must be a single line of printable text, but it contains the ".toList ++
            "control character U+".toList ++ codePoint c ++ "; ".toList ++ proseHint ++
            ".".toList))
      else validatePropertyValue key cs

def validateProperties : List (Text × Text) → Except TxError Unit
  | [] => .ok ()
  | (key, value) :: properties => do
      validatePropertyKey key
      validatePropertyValue key value
      validateProperties properties

def validate (entry : TxEntry) : Except TxError Unit := validateProperties entry.orderedProperties

/-- The order of strings. -/
def textLe : Text → Text → Bool
  | [], _ => true
  | _ :: _, [] => false
  | a :: as, b :: bs => decide (a.toNat < b.toNat) || (decide (a = b) && textLe as bs)

def pairLe (p q : Text × Text) : Bool :=
  if p.1 = q.1 then textLe p.2 q.2 else textLe p.1 q.1

/-- The properties as the reader compares them. -/
def trimmedProperties (entry : TxEntry) : List (Text × Text) :=
  (entry.orderedProperties.map fun p => (p.1, trim p.2)).insertionSort fun p q => pairLe p q

def describePropertyLoss (submitted readBack : List (Text × Text)) : Text :=
  match submitted.find? (· ∉ readBack) with
  | some (key, value) =>
      match readBack.find? fun p => p.1 = key with
      | some (_, got) =>
          ":".toList ++ key ++ ": submitted ".toList ++ (toString value.length).toList ++
            " characters, reads back ".toList ++ (toString got.length).toList
      | none => ":".toList ++ key ++ ": is dropped by the reader".toList
  | none =>
      match readBack.find? (· ∉ submitted) with
      | some (key, _) => ":".toList ++ key ++ ": is invented by the reader".toList
      | none =>
          "submitted ".toList ++ (toString submitted.length).toList ++
            " properties, reads back ".toList ++ (toString readBack.length).toList

def txEntryDisplay : Text := "<tx entry>".toList

def assertRoundTrip (entry : TxEntry) : Except TxError Unit :=
  match parseTxFile entry.render txEntryDisplay with
  | .error e => .error e
  | .ok [stored] =>
      if entry.trimmedProperties = stored.trimmedProperties then .ok ()
      else .error (.roundTripLoss
        (describePropertyLoss entry.trimmedProperties stored.trimmedProperties))
  | .ok other =>
      .error (.roundTripLoss ("composed entry parsed as ".toList ++
        (toString other.length).toList ++ " entries, expected 1".toList))

end TxEntry

/-! ### The writer -/

/-- The file under the handle of a writer. -/
structure TxWriter where
  text : Text
  needsLeadingBlank : Bool

/-- The directives of a fresh ledger. -/
def seedText (basename : Text) : Text :=
  "#+title: orgasmic tx ".toList ++ basename ++ "\n".toList ++ "#+orgasmic_version: 1\n".toList

def fileEndsWithBlankLine (file : Text) : Bool :=
  if file = [] then true
  else if ['\n', '\n'] <:+ file then true
  else decide (file = ['\n'])

namespace TxWriter

/-- Open the ledger; `file` is what is there, nothing if there is no file. -/
def openAt (basename file : Text) : TxWriter :=
  if file = [] then ⟨seedText basename, false⟩ else ⟨file, !fileEndsWithBlankLine file⟩

/-- The text of the group, if every entry of it can be written. -/
def compose : List TxEntry → Except TxError Text
  | [] => .ok []
  | entry :: entries => do
      entry.validate
      entry.assertRoundTrip
      let rendered ← compose entries
      .ok ('\n' :: entry.render ++ rendered)

/-- Append a group of entries with one write. -/
def appendMany (w : TxWriter) (entries : List TxEntry) : TxWriter × Except TxError Unit :=
  if entries = [] then (w, .ok ())
  else match compose entries with
    | .error e => (w, .error e)
    | .ok rendered =>
        (⟨w.text ++ ((if w.needsLeadingBlank then ['\n'] else []) ++ rendered), false⟩, .ok ())

end TxWriter

end Orgasmic
