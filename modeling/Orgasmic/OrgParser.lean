import Orgasmic.OrgSyntax

/-! # The Org parser

`OrgFile.parse` is the recursive descent of `org.rs` over the lines of the source.

* **Lines.** The source indexes three parallel vectors (`lines`, `in_block` and the slices of the
  source); a `Line` is what they hold at one index.  The rest of the input is the list of the
  lines from the current index on, so `idx < self.lines.len()` is a match on that list.
* **Loops.** `parse_file` runs the loops `keywordLoop`, `skipPrelude` and `headingsLoop`;
  `parse_heading` is `parseHeading`, whose loop over nested headings is `parseSections`.
* **Fuel.** `parseSections` and `headingsLoop` recur on a counter.  Every turn reads a line, and
  `parse_file` starts with more fuel than there are lines; `parseSections_lay` (in `OrgFlat`)
  holds for every fuel above the number of headings, so the counter never ends a loop.
* **Errors.** Line numbers and details are those of the source; the detail of a heading error is
  the text of its message. -/

namespace Orgasmic

open Text

/-- What the parser's vectors hold at one index. -/
structure Line where
  /-- The index. -/
  no : ℕ
  span : LineSpan
  /-- The line with its terminator. -/
  full : Text
  /-- The line without its terminator. -/
  text : Text
  inBlock : Bool
deriving DecidableEq, Repr

structure Parser where
  source : Text
  display : Text
  lines : List Line
  todoKeywords : List Text

/-- The lines of the source from index `no` on. -/
def Parser.linesFrom (source : Text) : ℕ → List LineSpan → List Bool → List Line
  | no, span :: spans, masked :: mask =>
      ⟨no, span, slice source span.full, slice source span.content, masked⟩ ::
        linesFrom source (no + 1) spans mask
  | _, _, _ => []

def Parser.new (source display : Text) : Parser :=
  let spans := splitLines source
  ⟨source, display, Parser.linesFrom source 0 spans (orgBlockLineMask source spans), []⟩

def headingLevelAt (line : Line) : Option ℕ :=
  if line.inBlock then none else headingLevel line.text

namespace Parser

variable (p : Parser)

/-- Where the lines `rest` start. -/
def startOf (rest : List Line) (orElse : ℕ) : ℕ :=
  match rest with
  | [] => orElse
  | line :: _ => line.span.start

/-! ### Property drawers -/

/-- The loop of `parse_drawer`, after the line `:PROPERTIES:` at `start`. -/
def parseDrawer (start : Line) (entries : List PropertyEntry) :
    List Line → Except OrgError (PropertyDrawer × List Line)
  | [] => .error (.unterminatedDrawer p.display (start.no + 1))
  | line :: rest =>
      let trimmed := trim line.text
      if trimmed = ":END:".toList then
        .ok (⟨entries, ⟨start.span.start, startOf rest line.span.next⟩⟩, rest)
      else if trimmed = [] then
        .error (.badProperty p.display (line.no + 1) "blank line inside property drawer".toList)
      else match parsePropertyLine line.text line.span with
        | none => .error (.badProperty p.display (line.no + 1) line.text)
        | some entry => parseDrawer start (entries ++ [entry]) rest

/-- The optional drawer immediately after a title line. -/
def parseProperties : List Line → Except OrgError (Option PropertyDrawer × List Line)
  | [] => .ok (none, [])
  | line :: rest =>
      if trim line.text = ":PROPERTIES:".toList then
        (p.parseDrawer line [] rest).map fun (drawer, next) => (some drawer, next)
      else .ok (none, line :: rest)

/-! ### Headings -/

/-- The lines up to the next heading, of whatever level. -/
def bodyLines (lines : List Line) : List Line :=
  lines.takeWhile fun l => (headingLevelAt l).isNone

def afterBody (lines : List Line) : List Line :=
  lines.dropWhile fun l => (headingLevelAt l).isNone

/-- The span of the body lines at the front of `lines`; an empty body is anchored where it
would start. -/
def bodySpan (lines : List Line) : Span :=
  let start := startOf lines p.source.length
  match (bodyLines lines).getLast? with
  | none => ⟨start, start⟩
  | some last => ⟨start, last.span.next⟩

/-- `parse_heading`, given its loop over the nested headings. -/
def parseHeadingWith (sections : List Line → Except OrgError (List Heading × List Line))
    (title : Line) (rest : List Line) (level : ℕ) : Except OrgError (Heading × List Line) :=
  match parseHeadingLine title.text level p.todoKeywords with
  | none => .error (.badHeading p.display (title.no + 1) title.text)
  | some parsed => do
      let (properties, idx) ← p.parseProperties rest
      let body := p.bodySpan idx
      let (nested, next) ← sections (afterBody idx)
      let spanEnd := startOf next ((p.lines.getLast?.map fun l => l.span.next).getD p.source.length)
      .ok (⟨⟨level, parsed.todo, parsed.title, parsed.tags, properties, title.span.content, body⟩,
        ⟨title.span.start, spanEnd⟩, nested⟩, next)

/-- The loop of `parse_heading` over the nested headings of a heading at `level`. -/
def parseSections : ℕ → ℕ → List Line → Except OrgError (List Heading × List Line)
  | 0, _, lines => .ok ([], lines)
  | _ + 1, _, [] => .ok ([], [])
  | n + 1, level, line :: rest =>
      match headingLevelAt line with
      | none => if trim line.text = [] then parseSections n level rest else .ok ([], line :: rest)
      | some other =>
          if other ≤ level then .ok ([], line :: rest)
          else if other ≠ level + 1 then
            .error (.badHeading p.display (line.no + 1)
              ("expected nested heading at level ".toList ++ (toString (level + 1)).toList ++
                " but got level ".toList ++ (toString other).toList))
          else do
            let (h, next) ← p.parseHeadingWith (parseSections n (level + 1)) line rest (level + 1)
            let (hs, next') ← parseSections n level next
            .ok (h :: hs, next')

def parseHeading (fuel : ℕ) (title : Line) (rest : List Line) (level : ℕ) :
    Except OrgError (Heading × List Line) :=
  p.parseHeadingWith (p.parseSections fuel level) title rest level

/-! ### Files -/

/-- The file-level `#+key: value` directives, the TODO keywords they declare, and the lines after
them. -/
def keywordLoop (keywords : List Keyword) (declared : List Text) :
    List Line → Except OrgError (List Keyword × List Text × List Line)
  | [] => .ok (keywords, declared, [])
  | line :: rest =>
      match "#+".toList.isPrefixOf? (trimStart line.text) with
      | some directive =>
          match parseKeywordLine directive with
          | none => .error (.badKeyword p.display (line.no + 1) line.text)
          | some (key, value) =>
              keywordLoop (keywords ++ [⟨key, value, line.span.full⟩])
                (declared ++ declaredBy key value) rest
      | none =>
          if trim line.text = [] then keywordLoop keywords declared rest
          else .ok (keywords, declared, line :: rest)

/-- The end of the prelude and the lines from the first heading on. -/
def skipPrelude : List Line → ℕ × List Line
  | [] => (p.source.length, [])
  | line :: rest =>
      if (headingLevelAt line).isSome then (line.span.start, line :: rest) else skipPrelude rest

/-- The loop of `parse_file` over the top-level headings. -/
def headingsLoop : ℕ → List Line → Except OrgError (List Heading)
  | 0, _ => .ok []
  | _ + 1, [] => .ok []
  | n + 1, line :: rest =>
      if trim line.text = [] then headingsLoop n rest
      else match headingLevelAt line with
        | none =>
            .error (.badHeading p.display (line.no + 1)
              ("expected heading, got: ".toList ++ line.text))
        | some level =>
            if level ≠ 1 then
              .error (.badHeading p.display (line.no + 1)
                ("expected top-level heading (`* `), got level ".toList ++ (toString level).toList))
            else do
              let (h, next) ← p.parseHeading n line rest 1
              let hs ← headingsLoop n next
              .ok (h :: hs)

end Parser

/-- `OrgFile::parse`; `display` is used for error messages only. -/
def OrgFile.parse (source display : Text) : Except OrgError OrgFile := do
  let p := Parser.new source display
  let (keywords, declared, idx) ← p.keywordLoop [] [] p.lines
  let (preludeEnd, rest) := p.skipPrelude idx
  let headings ← { p with todoKeywords := declared }.headingsLoop (p.lines.length + 1) rest
  .ok ⟨source, keywords, headings, ⟨0, preludeEnd⟩⟩

end Orgasmic
