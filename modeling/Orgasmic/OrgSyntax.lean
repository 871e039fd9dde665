import Orgasmic.Text

/-! # Org documents: values and lines

The data of `org.rs` and its functions on a single line.

* **Positions.** The source measures every span in UTF-8 bytes; here a position counts
  characters.  Both name the same cuts of the text, since every span the parser makes starts
  and ends between two characters.  Where the source compares lengths in bytes, `byteLen` does.
* **Headings.** `Heading` is the parsed heading with its nested sections.  Its own data, without
  the span of the subtree and the sections, is `HeadingInfo`; `Heading.flatten` lists the data of
  a heading and of everything below it in document order.
* **Lines.** `headingLevel`, `parseHeadingLine`, `parseKeywordLine` and `parsePropertyLine` read
  one line; `orgBlockLineMask` marks the lines inside `#+begin_…/#+end_…` blocks. -/

namespace Orgasmic

open Text

/-! ### Values -/

structure Keyword where
  key : Text
  value : Text
  span : Span
deriving DecidableEq, Repr

structure PropertyEntry where
  key : Text
  value : Text
  span : Span
  /-- The range that holds just the value text. -/
  valueSpan : Span
deriving DecidableEq, Repr

structure PropertyDrawer where
  entries : List PropertyEntry
  /-- From `:PROPERTIES:` through `:END:`, with the newline after it. -/
  span : Span
deriving DecidableEq, Repr

/-- What a heading holds besides its sections and the span of its subtree. -/
structure HeadingInfo where
  /-- The number of leading stars. -/
  level : ℕ
  todo : Option Text
  title : Text
  tags : List Text
  properties : Option PropertyDrawer
  /-- The title line, without its newline. -/
  titleLine : Span
  /-- The free body, up to the first nested heading. -/
  body : Span
deriving DecidableEq, Repr

structure Heading extends HeadingInfo where
  span : Span
  sections : List Heading
deriving Repr

/-- A parsed Org file. -/
structure OrgFile where
  source : Text
  keywords : List Keyword
  headings : List Heading
  prelude : Span

inductive OrgError where
  | badProperty (file : Text) (line : ℕ) (detail : Text)
  | unterminatedDrawer (file : Text) (line : ℕ)
  | badHeading (file : Text) (line : ℕ) (detail : Text)
  | badKeyword (file : Text) (line : ℕ) (detail : Text)
  | headingNotFound (file selector : Text)
  | propertyNotFound (file key heading : Text)
  | sectionNotFound (file sectionTitle heading : Text)
  | noPropertyDrawer (file heading : Text)
  | bodyHeadingInjection (file : Text)
  | bodyRoundTripLoss (file target : Text) (submitted stored : ℕ)
  | headingRoundTripLoss (file heading wrote readBack : Text)
deriving DecidableEq, Repr

theorem exists_of_isOk {ε α : Type*} {x : Except ε α} (h : x.isOk = true) : ∃ a, x = .ok a := by
  cases x with
  | error e => cases h
  | ok a => exact ⟨a, rfl⟩

/-- Everything a heading's title line encodes. -/
structure HeadingLine where
  level : ℕ
  todo : Option Text
  title : Text
  tags : List Text
deriving DecidableEq, Repr

/-- Which fields of a heading line an edit means to change. -/
structure HeadingLineEdit where
  title : Option Text
  tags : Option (List Text)
deriving DecidableEq, Repr

/-! ### Headings -/

namespace HeadingInfo

def propertyEntries (h : HeadingInfo) : List PropertyEntry :=
  match h.properties with
  | none => []
  | some drawer => drawer.entries

/-- The value of property `key` (case-sensitive). -/
def property (h : HeadingInfo) (key : Text) : Option Text :=
  (h.propertyEntries.find? fun e => e.key = key).map PropertyEntry.value

end HeadingInfo

namespace Heading

mutual

/-- The heading's data and the data of every heading below it, in document order. -/
def flatten : Heading → List HeadingInfo
  | ⟨info, _, sections⟩ => info :: flattenAll sections

def flattenAll : List Heading → List HeadingInfo
  | [] => []
  | h :: hs => flatten h ++ flattenAll hs

end

mutual

/-- This heading or the first one below it whose `:ID:` is `id`. -/
def findById (id : Text) : Heading → Option Heading
  | ⟨info, span, sections⟩ =>
      if info.property "ID".toList = some id then some ⟨info, span, sections⟩
      else findByIdIn id sections

def findByIdIn (id : Text) : List Heading → Option Heading
  | [] => none
  | h :: hs => (findById id h).or (findByIdIn id hs)

end

/-- The first nested section with this title. -/
def section? (h : Heading) (title : Text) : Option Heading :=
  h.sections.find? fun s => s.title = title

end Heading

def OrgFile.slice (f : OrgFile) (r : Span) : Text := Text.slice f.source r

def OrgFile.findById (f : OrgFile) (id : Text) : Option Heading :=
  Heading.findByIdIn id f.headings

def HeadingLine.of (h : Heading) : HeadingLine := ⟨h.level, h.todo, trim h.title, h.tags⟩

/-- One Org heading line, without a trailing newline. -/
def HeadingLine.render (l : HeadingLine) : Text :=
  let tokens := ([l.todo, some l.title].filterMap id).filter (· ≠ [])
  let line := List.replicate l.level '*' ++ tokens.flatMap (' ' :: ·)
  if l.tags = [] then line else line ++ "    :".toList ++ [':'].intercalate l.tags ++ ":".toList

/-! ### Lines -/

structure LineSpan where
  start : ℕ
  /-- The end of the content, before any `\n` or `\r\n`. -/
  contentEnd : ℕ
  /-- The start of the next line, or the end of the text. -/
  next : ℕ
deriving DecidableEq, Repr

def LineSpan.full (l : LineSpan) : Span := ⟨l.start, l.next⟩

def LineSpan.content (l : LineSpan) : Span := ⟨l.start, l.contentEnd⟩

/-- The loop of `split_lines`: the current line starts at `start`, the next character is at `i`,
and `cr` says whether the one before it is a carriage return. -/
def splitLinesFrom (start i : ℕ) (cr : Bool) : Text → List LineSpan
  | [] => if start < i then [⟨start, i, i⟩] else []
  | c :: cs =>
      if c = '\n' then
        ⟨start, if i > start && cr then i - 1 else i, i + 1⟩ ::
          splitLinesFrom (i + 1) (i + 1) false cs
      else splitLinesFrom start (i + 1) (c = '\r') cs

def splitLines (source : Text) : List LineSpan := splitLinesFrom 0 0 false source

/-- Stars followed by a space make a heading. -/
def headingLevel (text : Text) : Option ℕ :=
  let n := (text.takeWhile (· = '*')).length
  if n = 0 then none
  else match text.drop n with
    | ' ' :: _ => some n
    | _ => none

def startsBlock (text : Text) : Bool :=
  "#+begin_".toList.isPrefixOf (toAsciiLowercase (trimStart text))

def endsBlock (text : Text) : Bool :=
  "#+end_".toList.isPrefixOf (toAsciiLowercase (trimStart text))

/-- Nesting depth of blocks after a line. -/
def blockDepth (depth : ℕ) (text : Text) : ℕ :=
  let opened := if startsBlock text then depth + 1 else depth
  if endsBlock text && 0 < opened then opened - 1 else opened

/-- Is a line that is read at this depth inside a block? -/
def inBlock (depth : ℕ) (text : Text) : Bool := 0 < depth || startsBlock text

/-- One flag for every line: is it inside a block? -/
def orgBlockLineMaskFrom (source : Text) (depth : ℕ) : List LineSpan → List Bool
  | [] => []
  | line :: lines =>
      let text := slice source line.content
      inBlock depth text :: orgBlockLineMaskFrom source (blockDepth depth text) lines

def orgBlockLineMask (source : Text) (lines : List LineSpan) : List Bool :=
  orgBlockLineMaskFrom source 0 lines

/-- The TODO keywords of the app-owned profile. -/
def todoKeywords : List Text :=
  ["BACKLOG".toList, "TODO".toList, "IN_PROGRESS".toList, "IN_REVIEW".toList, "DONE".toList,
    "CANCELLED".toList, "GOAL".toList, "CLEARED".toList, "SUPERSEDED".toList]

def isTodoKeyword (s : Text) : Bool := s ∈ todoKeywords

def isTagChar (c : Char) : Bool :=
  c.isAlphanum || c = '_' || c = '-' || c = '@' || c = '#'

/-- Split off a trailing run `:tag:tag:` that follows white space. -/
def splitTrailingTags (line : Text) : Text × List Text :=
  let trimmed := trimEnd line
  if trimmed.getLast? ≠ some ':' ∨ byteLen trimmed < 3 then (line, [])
  else
    let isRun := fun c => c = ':' || isTagChar c
    let run := trimmed.rtakeWhile isRun
    let before := trimmed.rdropWhile isRun
    match before.getLast? with
    | none => (line, [])
    | some prev =>
        if prev ≠ ' ' ∧ prev ≠ '\t' then (line, [])
        else if run.head? ≠ some ':' ∨ run.getLast? ≠ some ':' ∨ run.length < 3 then (line, [])
        else
          let segments := (trimMatches ':' run).splitOn ':'
          if segments = [] ∨ [] ∈ segments then (line, []) else (trimEnd before, segments)

structure ParsedHeadingLine where
  todo : Option Text
  title : Text
  tags : List Text
deriving DecidableEq, Repr

/-- What follows the stars and the space of a heading line. -/
def parseHeadingRest (rest : Text) (declared : List Text) : ParsedHeadingLine :=
  let (body, tags) := splitTrailingTags rest
  let bodyTrimmed := trimEnd body
  let isTodo := fun word => isTodoKeyword word || word ∈ declared
  match splitOnce ' ' bodyTrimmed with
  | some (first, remainder) =>
      if isTodo first then ⟨some first, trimStart remainder, tags⟩
      else if isTodo bodyTrimmed then ⟨some bodyTrimmed, [], tags⟩
      else ⟨none, bodyTrimmed, tags⟩
  | none =>
      if isTodo bodyTrimmed then ⟨some bodyTrimmed, [], tags⟩ else ⟨none, bodyTrimmed, tags⟩

def parseHeadingLine (text : Text) (level : ℕ) (declared : List Text) : Option ParsedHeadingLine :=
  if (text.takeWhile (· = '*')).length ≠ level then none
  else match text.dropWhile (· = '*') with
    | ' ' :: after =>
        let rest := trimEndMatches '\r' after
        if rest = [] then some ⟨none, [], []⟩ else some (parseHeadingRest rest declared)
    | _ => none

/-- `rest` is the line after `#+`. -/
def parseKeywordLine (rest : Text) : Option (Text × Text) := do
  let (key, value) ← splitOnce ':' (trimEndMatches '\r' rest)
  if trim key = [] then none else some (trim key, trim value)

/-- The TODO keywords a directive declares. -/
def declaredBy (key value : Text) : List Text :=
  if toAsciiLowercase key = "todo".toList then (splitWhitespace value).filter (· ≠ ['|']) else []

/-- Optional white space, `:KEY:`, then the value. -/
def parsePropertyLine (text : Text) (span : LineSpan) : Option PropertyEntry :=
  let stripped := trimEndMatches '\r' text
  let leadingWs := stripped.length - (trimStart stripped).length
  match stripped.drop leadingWs with
  | ':' :: afterFirstColon =>
      match splitOnce ':' afterFirstColon with
      | none => none
      | some (key, rawValue) =>
          if key = [] then none
          else
            let afterKv := leadingWs + 1 + key.length + 1
            let leadingValueWs := rawValue.length - (trimStart rawValue).length
            let valueStart := span.start + afterKv + leadingValueWs
            let value := trim rawValue
            some ⟨key, value, span.full, ⟨valueStart, valueStart + value.length⟩⟩
  | _ => none

end Orgasmic
