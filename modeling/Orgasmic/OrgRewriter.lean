import Orgasmic.OrgParser
import Mathlib.Data.List.Sort

/-! # The rewriter

`OrgRewriter` edits a source in place, one range at a time, and re-parses after every edit.

* **State.** An operation is a computation in `Rewrite`: it reads and changes the rewriter, and a
  failing operation leaves behind whatever it had changed, as a Rust method on `&mut self` does.
* **Guards.** The operations that write prose or titles (`setNodeBody`, `setSectionBody`,
  `appendSection`, `editHeadingLine`) push their edit first and then check the composed text:
  `assertStructuralInvariant` compares the levels and ids of all headings, and
  `assertBodyRoundTrip` reads the target back.  A check that fails takes the edit back.
* **Errors.** `RewriteOp.run_error`: an operation that fails leaves the text as it was. -/

namespace Orgasmic

open Text

structure OrgRewriter where
  source : Text
  /-- Pending edits. -/
  edits : List (Span × Text)
  fileName : Text

/-- A method that changes the rewriter. -/
abbrev Rewrite := EStateM OrgError OrgRewriter

/-- The edits in order of decreasing start, so that an edit does not move the ones after it. -/
def applyEdits (source : Text) (edits : List (Span × Text)) : Text :=
  (edits.insertionSort fun a b => b.1.start ≤ a.1.start).foldl
    (fun out e => replaceRange out e.1 e.2) source

/-- The levels and ids of all headings, in document order. -/
def headingStructureSnapshot (headings : List Heading) : List (ℕ × Option Text) :=
  (Heading.flattenAll headings).map fun i => (i.level, i.property "ID".toList)

/-- The span a body write claims to own. -/
inductive BodyTarget where
  /-- The heading's own free prose. -/
  | node
  /-- The prose of a nested section. -/
  | ofSection (title : Text)

/-- The trimmed prose of the target under `heading`. -/
def BodyTarget.read (view : OrgFile) (heading : Heading) : BodyTarget → Option Text
  | .node => some (trim (view.slice heading.body))
  | .ofSection title => (heading.section? title).map fun s => trim (view.slice s.body)

def BodyTarget.describe (headingId : Text) : BodyTarget → Text
  | .node => "body of ".toList ++ headingId
  | .ofSection title => "section ".toList ++ title ++ " of ".toList ++ headingId

/-- One line `:KEY: value` of a drawer, with the value in column `valueCol` if that is known. -/
def renderPropertyLine (key value : Text) (valueCol : Option ℕ) : Text :=
  let start := ':' :: key ++ [':']
  let pad := match valueCol with
    | some col => if byteLen start < col then col - byteLen start else 1
    | none => 1
  start ++ List.replicate pad ' ' ++ value ++ ['\n']

/-- A nested section with a leading newline, so that it attaches after existing content. -/
def renderSection (title body : Text) (level : ℕ) : Text :=
  let header := '\n' :: List.replicate level '*' ++ ' ' :: title
  if trimEnd body = [] then header else header ++ '\n' :: trimEnd body

namespace OrgRewriter

def new (file : OrgFile) (fileName : Text) : OrgRewriter := ⟨file.source, [], fileName⟩

def currentText (r : OrgRewriter) : Text := applyEdits r.source r.edits

def finish (r : OrgRewriter) : Text := applyEdits r.source r.edits

/-- The rewriter without its last pending edit. -/
def popped (r : OrgRewriter) : OrgRewriter := { r with edits := r.edits.dropLast }

/-- The rewriter with the pending edits applied and one new edit. -/
def replaced (r : OrgRewriter) (range : Span) (replacement : Text) : OrgRewriter :=
  { r with source := r.currentText, edits := [(range, replacement)] }

def pop : Rewrite Unit := modify popped

def replaceWithView (range : Span) (replacement : Text) : Rewrite Unit :=
  modify fun r => r.replaced range replacement

/-! ### Reading the current text -/

def view (r : OrgRewriter) : Except OrgError OrgFile := OrgFile.parse r.currentText r.fileName

def parseView : Rewrite OrgFile := fun r =>
  match r.view with
  | .ok view => .ok view r
  | .error e => .error e r

def headingOrErr (view : OrgFile) (headingId : Text) : Rewrite Heading := fun r =>
  match view.findById headingId with
  | some heading => .ok heading r
  | none => .error (.headingNotFound r.fileName (":ID: ".toList ++ headingId)) r

def sectionOrErr (heading : Heading) (headingId title : Text) : Rewrite Heading := fun r =>
  match heading.section? title with
  | some s => .ok s r
  | none => .error (.sectionNotFound r.fileName title headingId) r

def entryOrErr (heading : Heading) (headingId key : Text) : Rewrite PropertyEntry := fun r =>
  match heading.propertyEntries.find? fun e => e.key = key with
  | some entry => .ok entry r
  | none => .error (.propertyNotFound r.fileName key headingId) r

/-! ### Guards -/

/-- Called right after an edit: the levels and ids must be as they were. -/
def assertStructuralInvariant (before : List (ℕ × Option Text)) : Rewrite Unit := fun r =>
  match r.view with
  | .ok after =>
      if headingStructureSnapshot after.headings = before then .ok () r
      else .error (.bodyHeadingInjection r.fileName) r.popped
  | .error _ => .error (.bodyHeadingInjection r.fileName) r.popped

/-- Called right after an edit: the target must read back as what was submitted. -/
def assertBodyRoundTrip (headingId : Text) (target : BodyTarget) (submitted : Text) :
    Rewrite Unit := fun r =>
  let stored := match r.view with
    | .ok view => (view.findById headingId).bind (target.read view)
    | .error _ => none
  if stored = some (trim submitted) then .ok () r
  else .error (.bodyRoundTripLoss r.fileName (target.describe headingId) (trim submitted).length
    ((stored.map List.length).getD 0)) r.popped

/-! ### Properties -/

def setProperty (headingId key value : Text) : Rewrite Unit := do
  let view ← parseView
  let heading ← headingOrErr view headingId
  let entry ← entryOrErr heading headingId key
  let valueSpan := entry.valueSpan
  -- filling an empty value needs a separating space
  if valueSpan.stop ≤ valueSpan.start && value ≠ [] then replaceWithView valueSpan (' ' :: value)
  else replaceWithView valueSpan value

def insertProperty (headingId key value : Text) : Rewrite Unit := do
  let view ← parseView
  let heading ← headingOrErr view headingId
  match heading.properties with
  | none => throw (.noPropertyDrawer (← get).fileName headingId)
  | some drawer =>
      let (insertAt, valueCol) := match drawer.entries.getLast? with
        | some last => (last.span.stop,
            some (byteLen (view.slice ⟨last.span.start, last.valueSpan.start⟩)))
        | none =>
            let opening := (view.slice drawer.span).takeWhile (· ≠ '\n')
            if '\n' ∈ view.slice drawer.span then (drawer.span.start + opening.length + 1, none)
            else (drawer.span.start, none)
      replaceWithView ⟨insertAt, insertAt⟩ (renderPropertyLine key value valueCol)

def removeProperty (headingId key : Text) : Rewrite Unit := do
  let view ← parseView
  let heading ← headingOrErr view headingId
  let entry ← entryOrErr heading headingId key
  replaceWithView entry.span []

def upsertProperty (headingId key value : Text) : Rewrite Unit := do
  let view ← parseView
  let heading ← headingOrErr view headingId
  if heading.propertyEntries.any fun e => e.key = key then setProperty headingId key value
  else insertProperty headingId key value

/-! ### Bodies and sections -/

def setSectionBody (headingId sectionTitle newBody : Text) : Rewrite Unit := do
  let view ← parseView
  let before := headingStructureSnapshot view.headings
  let heading ← headingOrErr view headingId
  let s ← sectionOrErr heading headingId sectionTitle
  replaceWithView s.body newBody
  assertStructuralInvariant before
  assertBodyRoundTrip headingId (.ofSection sectionTitle) newBody

/-- The new text of a body span that held `body`: its surrounding blank lines are kept. -/
def nodeBodyReplacement (body content : Text) : Text :=
  let lead := body.take (body.length - (trimStart body).length)
  let tail := body.drop (trimEnd body).length
  let (start, stop) := if trim body = [] then (['\n'], ['\n', '\n']) else (lead, tail)
  if trimEnd content = [] then if trim body = [] then body else stop
  else start ++ trimEnd content ++ stop

def setNodeBody (headingId content : Text) : Rewrite Unit := do
  let view ← parseView
  let before := headingStructureSnapshot view.headings
  let heading ← headingOrErr view headingId
  replaceWithView heading.body (nodeBodyReplacement (view.slice heading.body) content)
  assertStructuralInvariant before
  assertBodyRoundTrip headingId .node (trimEnd content)

/-- The levels and ids once `header` stands at `at_`; the edit is taken back. -/
def expectedStructure (at_ : ℕ) (header : Text) : Rewrite (List (ℕ × Option Text)) := do
  replaceWithView ⟨at_, at_⟩ header
  match (← get).view with
  | .ok view => do
      pop
      pure (headingStructureSnapshot view.headings)
  | .error e => do
      pop
      throw e

def appendSection (headingId title body : Text) : Rewrite Unit := do
  let view ← parseView
  let heading ← headingOrErr view headingId
  let at_ := heading.span.start + (trimEnd (view.slice heading.span)).length
  let level := heading.level + 1
  let expected ← expectedStructure at_ (renderSection title [] level)
  replaceWithView ⟨at_, at_⟩ (renderSection title body level)
  assertStructuralInvariant expected
  assertBodyRoundTrip headingId (.ofSection title) body

def removeSection (headingId sectionTitle : Text) : Rewrite Unit := do
  let view ← parseView
  let heading ← headingOrErr view headingId
  let s ← sectionOrErr heading headingId sectionTitle
  let stop := if ['\n', '\n'].isSuffixOf (view.slice s.span) then s.span.stop - 1 else s.span.stop
  replaceWithView ⟨s.span.start, stop⟩ []

def upsertSectionText (headingId sectionTitle content : Text) : Rewrite Unit := do
  let view ← parseView
  let heading ← headingOrErr view headingId
  match heading.section? sectionTitle with
  | some s =>
      let body := view.slice s.body
      let tail := body.drop (trimEnd body).length
      setSectionBody headingId sectionTitle (trimEnd content ++ if tail = [] then ['\n'] else tail)
  | none => appendSection headingId sectionTitle content

def removeHeading (headingId : Text) : Rewrite Unit := do
  let view ← parseView
  let heading ← headingOrErr view headingId
  replaceWithView heading.span []

/-! ### Title lines -/

def setTitleLine (headingId newTitleLine : Text) : Rewrite Unit := do
  let view ← parseView
  let heading ← headingOrErr view headingId
  replaceWithView heading.titleLine newTitleLine

/-- The line an edit asks for; a field it does not name is the current one. -/
def HeadingLineEdit.expected (edit : HeadingLineEdit) (current : HeadingLine) : HeadingLine :=
  ⟨current.level, current.todo, (edit.title.map trim).getD current.title,
    edit.tags.getD current.tags⟩

/-- The heading line that is read back, compared with the one that was meant. -/
def assertHeadingReadBack (headingId : Text) (expected : HeadingLine) : Rewrite Unit := fun r =>
  let readBack := match r.view with
    | .ok view => (view.findById headingId).map HeadingLine.of
    | .error _ => none
  if readBack = some expected then .ok () r
  else .error (.headingRoundTripLoss r.fileName headingId expected.render
    ((readBack.map HeadingLine.render).getD "no heading with that :ID:".toList)) r.popped

def editHeadingLine (headingId : Text) (edit : HeadingLineEdit) : Rewrite Unit := do
  let view ← parseView
  let before := headingStructureSnapshot view.headings
  let heading ← headingOrErr view headingId
  let expected := HeadingLineEdit.expected edit (HeadingLine.of heading)
  setTitleLine headingId expected.render
  let fileName := (← get).fileName
  (assertStructuralInvariant before).adaptExcept fun _ =>
    .headingRoundTripLoss fileName headingId expected.render "a different heading tree".toList
  assertHeadingReadBack headingId expected

end OrgRewriter

/-- The operations of the rewriter, with their arguments. -/
inductive RewriteOp where
  | setProperty (headingId key value : Text)
  | insertProperty (headingId key value : Text)
  | upsertProperty (headingId key value : Text)
  | removeProperty (headingId key : Text)
  | setNodeBody (headingId content : Text)
  | setSectionBody (headingId sectionTitle newBody : Text)
  | appendSection (headingId title body : Text)
  | upsertSectionText (headingId sectionTitle content : Text)
  | removeSection (headingId sectionTitle : Text)
  | removeHeading (headingId : Text)
  | setTitleLine (headingId newTitleLine : Text)
  | editHeadingLine (headingId : Text) (edit : HeadingLineEdit)

def RewriteOp.run : RewriteOp → Rewrite Unit
  | .setProperty headingId key value => OrgRewriter.setProperty headingId key value
  | .insertProperty headingId key value => OrgRewriter.insertProperty headingId key value
  | .upsertProperty headingId key value => OrgRewriter.upsertProperty headingId key value
  | .removeProperty headingId key => OrgRewriter.removeProperty headingId key
  | .setNodeBody headingId content => OrgRewriter.setNodeBody headingId content
  | .setSectionBody headingId sectionTitle newBody =>
      OrgRewriter.setSectionBody headingId sectionTitle newBody
  | .appendSection headingId title body => OrgRewriter.appendSection headingId title body
  | .upsertSectionText headingId sectionTitle content =>
      OrgRewriter.upsertSectionText headingId sectionTitle content
  | .removeSection headingId sectionTitle => OrgRewriter.removeSection headingId sectionTitle
  | .removeHeading headingId => OrgRewriter.removeHeading headingId
  | .setTitleLine headingId newTitleLine => OrgRewriter.setTitleLine headingId newTitleLine
  | .editHeadingLine headingId edit => OrgRewriter.editHeadingLine headingId edit

/-! ### Failing operations -/

namespace OrgRewriter

@[simp] theorem applyEdits_nil (source : Text) : applyEdits source [] = source := by
  simp [applyEdits]

@[simp] theorem applyEdits_singleton (source : Text) (e : Span × Text) :
    applyEdits source [e] = replaceRange source e.1 e.2 := by simp [applyEdits]

@[simp] theorem currentText_new (f : OrgFile) (fileName : Text) :
    (new f fileName).currentText = f.source := by simp [currentText, new]

@[simp] theorem currentText_replaced (r : OrgRewriter) (range : Span) (replacement : Text) :
    (r.replaced range replacement).currentText = replaceRange r.currentText range replacement := by
  simp [currentText, replaced]

/-- Taking an edit back restores the text it was made on. -/
@[simp] theorem currentText_popped_replaced (r : OrgRewriter) (range : Span) (replacement : Text) :
    ((r.replaced range replacement).popped).currentText = r.currentText := by
  simp [currentText, replaced, popped]

@[simp] theorem run_replaceWithView (range : Span) (replacement : Text) (r : OrgRewriter) :
    (replaceWithView range replacement).run r = .ok () (r.replaced range replacement) := rfl

section
variable {α β : Type}

/-- Did the operation fail? -/
def failed (m : Rewrite α) (r : OrgRewriter) : Bool :=
  match m.run r with
  | .ok _ _ => false
  | .error _ _ => true

theorem exists_of_failed {m : Rewrite α} {r : OrgRewriter} (h : failed m r = true) :
    ∃ e r', m.run r = .error e r' := by
  unfold failed at h
  cases hr : m.run r with
  | ok a r' => rw [hr] at h; cases h
  | error e r' => exact ⟨e, r', rfl⟩

/-- A step that changes nothing, whether it succeeds or fails. -/
def Reads (m : Rewrite α) : Prop := ∀ r, (∃ a, m.run r = .ok a r) ∨ ∃ e, m.run r = .error e r

/-- A check: on failure it takes the last edit back. -/
def Guards (m : Rewrite Unit) : Prop :=
  ∀ r, m.run r = .ok () r ∨ ∃ e, m.run r = .error e r.popped

/-- A failure leaves the text as it was. -/
def Keeps (m : Rewrite α) : Prop :=
  ∀ r e r', m.run r = .error e r' → r'.currentText = r.currentText

theorem Reads.bind_keeps {m : Rewrite α} {f : α → Rewrite β} (hm : Reads m)
    (hf : ∀ a, Keeps (f a)) : Keeps (m >>= f) := by
  intro r e r' h
  rw [EStateM.run_bind] at h
  rcases hm r with ⟨a, ha⟩ | ⟨e', he⟩
  · rw [ha] at h
    exact hf a r e r' h
  · rw [he] at h
    cases h
    rfl

theorem Guards.bind {m n : Rewrite Unit} (hm : Guards m) (hn : Guards n) :
    Guards (m >>= fun _ => n) := by
  intro r
  rw [EStateM.run_bind]
  rcases hm r with h | ⟨e, he⟩
  · rw [h]
    exact hn r
  · rw [he]
    exact .inr ⟨e, rfl⟩

theorem Guards.get_bind {f : OrgRewriter → Rewrite Unit} (hf : ∀ r, Guards (f r)) :
    Guards (get >>= f) := fun r => hf r r

/-- **One edit, then checks that take it back.** -/
theorem Guards.keeps {g : Rewrite Unit} (hg : Guards g) (range : Span) (replacement : Text) :
    Keeps (replaceWithView range replacement >>= fun _ => g) := by
  intro r e r' h
  have h : g.run (r.replaced range replacement) = .error e r' := h
  rcases hg (r.replaced range replacement) with h' | ⟨e', he⟩
  · rw [h'] at h
    cases h
  · rw [he] at h
    cases h
    exact currentText_popped_replaced r range replacement

theorem keeps_replaceWithView (range : Span) (replacement : Text) :
    Keeps (replaceWithView range replacement) := by
  intro r e r' h
  cases h

end

theorem reads_parseView : Reads parseView := by
  intro r
  cases h : r.view with
  | ok view => exact .inl ⟨view, by simp [parseView, EStateM.run, h]⟩
  | error e => exact .inr ⟨e, by simp [parseView, EStateM.run, h]⟩

theorem reads_headingOrErr (view : OrgFile) (headingId : Text) :
    Reads (headingOrErr view headingId) := by
  intro r
  cases h : view.findById headingId with
  | some heading => exact .inl ⟨heading, by simp [headingOrErr, EStateM.run, h]⟩
  | none => exact .inr ⟨_, by simp only [headingOrErr, EStateM.run, h]; rfl⟩

theorem reads_sectionOrErr (heading : Heading) (headingId title : Text) :
    Reads (sectionOrErr heading headingId title) := by
  intro r
  cases h : heading.section? title with
  | some s => exact .inl ⟨s, by simp [sectionOrErr, EStateM.run, h]⟩
  | none => exact .inr ⟨_, by simp only [sectionOrErr, EStateM.run, h]; rfl⟩

theorem reads_entryOrErr (heading : Heading) (headingId key : Text) :
    Reads (entryOrErr heading headingId key) := by
  intro r
  cases h : heading.propertyEntries.find? fun e => e.key = key with
  | some entry => exact .inl ⟨entry, by simp [entryOrErr, EStateM.run, h]⟩
  | none => exact .inr ⟨_, by simp only [entryOrErr, EStateM.run, h]; rfl⟩

theorem guards_assertStructuralInvariant (before : List (ℕ × Option Text)) :
    Guards (assertStructuralInvariant before) := by
  intro r
  cases h : r.view with
  | ok after =>
      by_cases hs : headingStructureSnapshot after.headings = before
      · exact .inl (by simp [assertStructuralInvariant, EStateM.run, h, hs])
      · exact .inr ⟨_, by simp only [assertStructuralInvariant, EStateM.run, h, if_neg hs]; rfl⟩
  | error e => exact .inr ⟨_, by simp only [assertStructuralInvariant, EStateM.run, h]; rfl⟩

theorem guards_assertBodyRoundTrip (headingId : Text) (target : BodyTarget) (submitted : Text) :
    Guards (assertBodyRoundTrip headingId target submitted) := by
  intro r
  simp only [assertBodyRoundTrip, EStateM.run]
  split_ifs
  · exact .inl rfl
  · exact .inr ⟨_, rfl⟩

theorem guards_assertHeadingReadBack (headingId : Text) (expected : HeadingLine) :
    Guards (assertHeadingReadBack headingId expected) := by
  intro r
  simp only [assertHeadingReadBack, EStateM.run]
  split_ifs
  · exact .inl rfl
  · exact .inr ⟨_, rfl⟩

theorem Guards.adaptExcept {m : Rewrite Unit} (h : Guards m) (f : OrgError → OrgError) :
    Guards (EStateM.adaptExcept f m) := by
  intro r
  rw [EStateM.run_adaptExcept]
  rcases h r with h | ⟨e, he⟩
  · rw [h]
    exact .inl rfl
  · rw [he]
    exact .inr ⟨f e, rfl⟩

/-- An operation that first finds a heading by its id. -/
theorem keeps_of_heading {α : Type} {headingId : Text} {f : OrgFile → Heading → Rewrite α}
    (hf : ∀ view heading, Keeps (f view heading)) :
    Keeps (do let view ← parseView; let heading ← headingOrErr view headingId; f view heading) :=
  reads_parseView.bind_keeps fun view =>
    (reads_headingOrErr view headingId).bind_keeps fun heading => hf view heading

theorem keeps_setProperty (headingId key value : Text) :
    Keeps (setProperty headingId key value) :=
  keeps_of_heading fun _ heading => (reads_entryOrErr heading headingId key).bind_keeps
    fun _ => by
      dsimp only
      split_ifs
      · exact keeps_replaceWithView _ _
      · exact keeps_replaceWithView _ _

theorem keeps_insertProperty (headingId key value : Text) :
    Keeps (insertProperty headingId key value) :=
  keeps_of_heading fun _ heading => by
    cases heading.properties with
    | none =>
        intro r e r' h
        cases h
        rfl
    | some drawer => exact keeps_replaceWithView _ _

theorem keeps_removeProperty (headingId key : Text) : Keeps (removeProperty headingId key) :=
  keeps_of_heading fun _ heading => (reads_entryOrErr heading headingId key).bind_keeps
    fun _ => keeps_replaceWithView _ _

theorem keeps_upsertProperty (headingId key value : Text) :
    Keeps (upsertProperty headingId key value) :=
  keeps_of_heading fun _ _ => by
    split_ifs
    · exact keeps_setProperty headingId key value
    · exact keeps_insertProperty headingId key value

theorem keeps_setSectionBody (headingId sectionTitle newBody : Text) :
    Keeps (setSectionBody headingId sectionTitle newBody) :=
  keeps_of_heading fun _ heading => (reads_sectionOrErr heading headingId sectionTitle).bind_keeps
    fun _ => ((guards_assertStructuralInvariant _).bind
      (guards_assertBodyRoundTrip headingId _ newBody)).keeps _ _

theorem keeps_setNodeBody (headingId content : Text) : Keeps (setNodeBody headingId content) :=
  keeps_of_heading fun _ _ => ((guards_assertStructuralInvariant _).bind
    (guards_assertBodyRoundTrip headingId _ _)).keeps _ _

/-- The trial edit is taken back, whether the text with it parses or not. -/
theorem run_expectedStructure (at_ : ℕ) (header : Text) (r : OrgRewriter) :
    (∃ expected, (expectedStructure at_ header).run r =
      .ok expected (r.replaced ⟨at_, at_⟩ header).popped) ∨
    ∃ e, (expectedStructure at_ header).run r =
      .error e (r.replaced ⟨at_, at_⟩ header).popped := by
  simp only [expectedStructure, EStateM.run_bind, run_replaceWithView, EStateM.run_get]
  cases (r.replaced ⟨at_, at_⟩ header).view with
  | ok view => exact .inl ⟨_, rfl⟩
  | error e => exact .inr ⟨e, rfl⟩

theorem keeps_appendSection (headingId title body : Text) :
    Keeps (appendSection headingId title body) :=
  keeps_of_heading fun view heading => by
    intro r e r' h
    rw [EStateM.run_bind] at h
    rcases run_expectedStructure (heading.span.start + (trimEnd (view.slice heading.span)).length)
      (renderSection title [] (heading.level + 1)) r with ⟨expected, hx⟩ | ⟨e', hx⟩
    · rw [hx] at h
      rw [((guards_assertStructuralInvariant _).bind
        (guards_assertBodyRoundTrip headingId _ body)).keeps _ _ _ _ _ h,
        currentText_popped_replaced]
    · rw [hx] at h
      cases h
      exact currentText_popped_replaced _ _ _

theorem keeps_upsertSectionText (headingId sectionTitle content : Text) :
    Keeps (upsertSectionText headingId sectionTitle content) :=
  keeps_of_heading fun _ heading => by
    cases heading.section? sectionTitle with
    | some s => exact keeps_setSectionBody headingId sectionTitle _
    | none => exact keeps_appendSection headingId sectionTitle content

theorem keeps_removeSection (headingId sectionTitle : Text) :
    Keeps (removeSection headingId sectionTitle) :=
  keeps_of_heading fun _ heading =>
    (reads_sectionOrErr heading headingId sectionTitle).bind_keeps fun _ => keeps_replaceWithView _ _

theorem keeps_removeHeading (headingId : Text) : Keeps (removeHeading headingId) :=
  keeps_of_heading fun _ _ => keeps_replaceWithView _ _

theorem keeps_setTitleLine (headingId newTitleLine : Text) :
    Keeps (setTitleLine headingId newTitleLine) :=
  keeps_of_heading fun _ _ => keeps_replaceWithView _ _

theorem keeps_editHeadingLine (headingId : Text) (edit : HeadingLineEdit) :
    Keeps (editHeadingLine headingId edit) :=
  keeps_of_heading fun _ _ => by
    simp only [setTitleLine, bind_assoc]
    exact keeps_of_heading fun _ _ => (Guards.get_bind fun _ =>
      ((guards_assertStructuralInvariant _).adaptExcept _).bind
        (guards_assertHeadingReadBack headingId _)).keeps _ _

end OrgRewriter

/-- **An operation that fails leaves the text as it was.** -/
theorem RewriteOp.run_error (op : RewriteOp) (r : OrgRewriter) (e : OrgError) (r' : OrgRewriter)
    (h : op.run.run r = .error e r') : r'.currentText = r.currentText := by
  cases op with
  | setProperty headingId key value => exact OrgRewriter.keeps_setProperty _ _ _ r e r' h
  | insertProperty headingId key value => exact OrgRewriter.keeps_insertProperty _ _ _ r e r' h
  | upsertProperty headingId key value => exact OrgRewriter.keeps_upsertProperty _ _ _ r e r' h
  | removeProperty headingId key => exact OrgRewriter.keeps_removeProperty _ _ r e r' h
  | setNodeBody headingId content => exact OrgRewriter.keeps_setNodeBody _ _ r e r' h
  | setSectionBody headingId title body => exact OrgRewriter.keeps_setSectionBody _ _ _ r e r' h
  | appendSection headingId title body => exact OrgRewriter.keeps_appendSection _ _ _ r e r' h
  | upsertSectionText headingId title content =>
      exact OrgRewriter.keeps_upsertSectionText _ _ _ r e r' h
  | removeSection headingId title => exact OrgRewriter.keeps_removeSection _ _ r e r' h
  | removeHeading headingId => exact OrgRewriter.keeps_removeHeading _ r e r' h
  | setTitleLine headingId line => exact OrgRewriter.keeps_setTitleLine _ _ r e r' h
  | editHeadingLine headingId edit => exact OrgRewriter.keeps_editHeadingLine _ _ r e r' h

/-- A title that would grow a heading is refused, and the edit made before it stays. -/
theorem RewriteOp.run_error_sample : ∃ e r',
    (RewriteOp.editHeadingLine "a".toList ⟨some "x\n* y".toList, none⟩).run.run
      ⟨"* A\n:PROPERTIES:\n:ID: a\n:END:\n".toList, [(⟨2, 3⟩, "B".toList)], "f".toList⟩ =
        .error e r' ∧
      r'.currentText = "* B\n:PROPERTIES:\n:ID: a\n:END:\n".toList := by
  obtain ⟨e, r', h⟩ := OrgRewriter.exists_of_failed (m := (RewriteOp.editHeadingLine "a".toList
    ⟨some "x\n* y".toList, none⟩).run) (r := ⟨"* A\n:PROPERTIES:\n:ID: a\n:END:\n".toList,
      [(⟨2, 3⟩, "B".toList)], "f".toList⟩) (by decide +kernel)
  exact ⟨e, r', h, (RewriteOp.run_error _ _ e r' h).trans (by decide +kernel)⟩

end Orgasmic
