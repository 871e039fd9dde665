import Orgasmic.Slots
import Orgasmic.OrgParser

/-! # The prompt compiler

`compile_resolved` of `prompt_compiler.rs`, from a resolved prompt spec to the compiled prompt.

* **Surroundings.** `PromptHome` answers for the files of the prompt home, `ProjectFiles` for those of
  the project.
* **Context packs.** `renderContextPack` includes a file of the project, refers to it or gives the
  pack's own body.
* **The prompt.** `promptStage` is what the compiler has when it starts to read slots,
  `compileResolved` the rest. -/

namespace Orgasmic

open Text

/-! ### Data -/

structure PromptSpecView where
  id : Text
  kind : Text
  defaultRenderer : Option Text
  usesParts : List Text
  contextPacks : List Text

structure PromptDiagnostic where
  level : Text
  message : Text
  inSection : Option Text
deriving DecidableEq

structure ResolvedPromptSpec where
  view : PromptSpecView
  sections : Text → Option Text
  order : List Text
  diagnostics : List PromptDiagnostic

structure LoadedPromptPart where
  targetSection : Text
  body : Text

structure LoadedContextPack where
  id : Text
  renderPolicy : Option Text
  file : Option Text
  body : Text

structure PromptCompileRequest where
  project : Option Text
  worker : Option Text
  harness : Option Text
  renderer : Option Text
  reason : Option Text
  contextOverrides : SlotValues
  values : SlotValues

/-- What the prompt home has; an error is its text. -/
structure PromptHome where
  source : Text
  promptPart : Text → Except Text LoadedPromptPart
  contextPack : Text → Except Text LoadedContextPack
  skillManifest : Except Text Text
  namedPayload : (family name : Text) → Except Text Text
  skillPath : Text → Option Text

inductive SourceRead where
  | ok (source : Text)
  | notFound
  | failed (error : Text)
deriving DecidableEq

/-- The project's files: the names in a directory and what reading a path gives. -/
structure ProjectFiles where
  entries : Text → Option (List Text)
  read : Text → SourceRead

structure CompiledPrompt where
  renderer : Text
  text : Text
  diagnostics : List PromptDiagnostic
  includedContextPacks : List Text
  charCount : ℕ
  approxTokens : ℕ

inductive PromptError where
  | content (error : Text)
  | slots (error : SlotError)
deriving DecidableEq

/-- `REQUIRED_SECTIONS`. -/
def requiredSections : List Text :=
  ["Role".toList, "Goal".toList, "Boundaries".toList, "Inputs".toList, "Policies".toList,
    "Output Contract".toList, "Security".toList]

def errorDiagnostic (message : Text) (inSection : Option Text) : PromptDiagnostic :=
  ⟨"error".toList, message, inSection⟩

def hasError (diagnostics : List PromptDiagnostic) : Bool :=
  diagnostics.any fun d => d.level = "error".toList

/-! ### Parts and values -/

/-- `apply_prompt_parts`, with the parts seen so far. -/
def applyPromptParts (home : PromptHome) (seen : List Text) :
    List Text → ResolvedPromptSpec → ResolvedPromptSpec
  | [], spec => spec
  | partId :: partIds, spec =>
      if partId ∈ seen then
        applyPromptParts home seen partIds { spec with
          diagnostics := spec.diagnostics ++
            [errorDiagnostic ("duplicate prompt part id: ".toList ++ partId)
              (some "PROMPT-SPEC".toList)] }
      else match home.promptPart partId with
        | .ok part => match spec.sections part.targetSection with
          | some body =>
              let gap := if trim body ≠ [] ∧ trim part.body ≠ [] then ['\n', '\n'] else []
              applyPromptParts home (partId :: seen) partIds { spec with
                sections := fun title => if title = part.targetSection then
                  some (body ++ gap ++ trim part.body) else spec.sections title }
          | none => applyPromptParts home (partId :: seen) partIds { spec with
              diagnostics := spec.diagnostics ++
                [errorDiagnostic ("prompt part ".toList ++ partId ++ " targets missing section ".toList ++
                  part.targetSection) (some part.targetSection)] }
        | .error error => applyPromptParts home (partId :: seen) partIds { spec with
            diagnostics := spec.diagnostics ++
              [errorDiagnostic ("prompt part ".toList ++ partId ++ " failed to load: ".toList ++ error)
                none] }

def missingSections (spec : ResolvedPromptSpec) : List PromptDiagnostic :=
  (requiredSections.filter fun title => (spec.sections title).isNone).map fun title =>
    errorDiagnostic ("missing required section: ".toList ++ title) (some title)

def SlotValues.orInsert (values : SlotValues) (name value : Text) : SlotValues :=
  fun key => if key = name then some ((values name).getD value) else values key

def SlotValues.orInsertAll (values : SlotValues) (defaults : List (Text × Text)) : SlotValues :=
  defaults.foldl (fun values d => values.orInsert d.1 d.2) values

/-- `compile_values`. -/
def compileValues (view : PromptSpecView) (req : PromptCompileRequest) : SlotValues :=
  let given : SlotValues := fun name => (req.contextOverrides name).or (req.values name)
  let values := given.orInsertAll
    [("worker.id".toList, req.worker.getD view.id), ("worker.kind".toList, view.kind),
      ("project.id".toList, req.project.getD "orgasmic".toList),
      ("project.name".toList, req.project.getD "orgasmic".toList), ("project.path".toList, []),
      ("project.test_cmd".toList, []), ("project.lint_cmd".toList, []),
      ("project.build_cmd".toList, []), ("project.default_branch".toList, []),
      ("task.id".toList, []), ("task.title".toList, []),
      ("task.description".toList, req.reason.getD []), ("task.priority".toList, []),
      ("task.tags".toList, []), ("task.acceptance".toList, []), ("task.write_scope".toList, []),
      ("task.test_cmd".toList, []), ("task.read_scope".toList, []), ("task.depends_on".toList, []),
      ("task.activity".toList, []), ("dispatch.brief".toList, "not set".toList)]
  let noWorktreeWorkdir := "- Project: ".toList ++ (values "project.name".toList).getD [] ++
    " at ".toList ++ (values "project.path".toList).getD [] ++ ".".toList
  values.orInsertAll
    [("dispatch.workdir".toList, noWorktreeWorkdir), ("run.id".toList, []),
      ("run.iteration_count".toList, []), ("run.previous_state".toList, []),
      ("evidence.so_far".toList, []), ("worklog.tail".toList, []), ("node.id".toList, []),
      ("node.type".toList, []), ("node.content".toList, "not set".toList),
      ("node.comments".toList, "not set".toList), ("node.extra_prompt".toList, "not set".toList),
      ("node.links".toList, "none".toList), ("conversation.purpose".toList, [])]

/-- `hydrate_dynamic_slots`. -/
def hydrateDynamicSlots (home : PromptHome) (values : SlotValues) : Except Text SlotValues := do
  let values ← match values "skills.all".toList with
    | some _ => .ok values
    | none => (home.skillManifest).map fun manifest => values.insert "skills.all".toList manifest
  if ((values "project.path".toList).getD []) = [] then
    .ok (values.insert "project.path".toList home.source)
  else .ok values

/-! ### Context packs -/

/-- `Path::join`. -/
def pathJoin (base file : Text) : Text :=
  if file.head? = some '/' ∨ base = [] then file
  else if base.getLast? = some '/' then base ++ file
  else base ++ '/' :: file

/-- `YYYY-MM.org`. -/
def isMonthlyLedgerName (name : Text) : Bool :=
  match name with
  | [a, b, c, d, '-', e, f, '.', 'o', 'r', 'g'] => [a, b, c, d, e, f].all Char.isDigit
  | _ => false

def latestOrgFile (files : ProjectFiles) (dir : Text) : Option Text :=
  (files.entries dir).bind fun names =>
    (((names.filter isMonthlyLedgerName).insertionSort (· ≤ ·)).getLast?).map (pathJoin dir)

def truncateChars (value : Text) (max : ℕ) : Text :=
  if value.length ≤ max then value else value.take max ++ "\n[truncated]".toList

def sourceLine (path : Text) : Text := "Source: ".toList ++ path

/-- What stands of a file that is included, or could not be read. -/
def renderRead (path : Text) : SourceRead → Text
  | .ok source => sourceLine path ++ "\n\n".toList ++ truncateChars (trim source) 12000
  | .notFound => sourceLine path ++ "\n\nNot present.".toList
  | .failed error => sourceLine path ++ "\n\nRead failed: ".toList ++ error

def headingIndexLine (heading : Heading) : Text :=
  "\n- ".toList ++ ((heading.todo.map (· ++ [' '])).getD []) ++ heading.title ++
    (((heading.property "ID".toList).map fun id => " [".toList ++ id ++ "]".toList).getD [])

/-- The first headings of a file that can be read as Org. -/
def headingIndex (path source : Text) : Text :=
  match OrgFile.parse source path with
  | .error _ => []
  | .ok file =>
      if file.headings = [] then []
      else "\n\nTop-level heading index:".toList ++
        (file.headings.take 12).flatMap headingIndexLine ++
          if 12 < file.headings.length then
            "\n- ... ".toList ++ Nat.toDigits 10 (file.headings.length - 12) ++
              " more top-level headings".toList
          else []

/-- The reference to a file, behind the pack's own text. -/
def referenceTo (path : Text) (source : Option Text) : Text :=
  sourceLine path ++
    "\nRender policy: reference only; inspect this source when exact content is needed.".toList ++
      (source.map (headingIndex path)).getD []

def renderReferencePack (intro path : Text) (source : Option Text) : Text :=
  trim intro ++ "\n\n".toList ++ referenceTo path source

/-- Whether the pack's policy is to include. -/
def LoadedContextPack.includes (pack : LoadedContextPack) : Bool :=
  let policy := pack.renderPolicy.getD "reference".toList
  policy = "include-full".toList || policy = "include-truncated".toList

def renderContextPack (files : ProjectFiles) (pack : LoadedContextPack) (values : SlotValues) : Text :=
  let projectPath := (values "project.path".toList).getD []
  if pack.id = "tx_session_telemetry".toList then
    if trim projectPath = [] then "project.path is not available".toList
    else
      let txDir := pathJoin projectPath ".orgasmic/tx".toList
      match latestOrgFile files txDir with
      | none => sourceLine txDir ++ "\n\nNo tx files found.".toList
      | some path =>
          if pack.includes then renderRead path (files.read path)
          else renderReferencePack pack.body path none
  else match pack.file with
    | some file =>
        if trim projectPath = [] then trim pack.body ++ ":\nproject.path is not available".toList
        else
          let path := pathJoin projectPath file
          match files.read path with
          | .ok source =>
              if pack.includes then renderRead path (.ok source)
              else renderReferencePack pack.body path (some source)
          | .notFound => renderRead path .notFound
          | .failed error => renderRead path (.failed error)
    | none => trim pack.body

/-! ### The template -/

def escapeXml (value : Text) : Text :=
  value.flatMap fun c =>
    if c = '&' then "&amp;".toList else if c = '<' then "&lt;".toList
    else if c = '>' then "&gt;".toList else if c = '"' then "&quot;".toList else [c]

/-- The sections, in order. -/
def renderSections (spec : ResolvedPromptSpec) (shown : (title body : Text) → Text) : Text :=
  spec.order.flatMap fun title => match spec.sections title with
    | some body => shown title (trim body)
    | none => []

/-- `render_prompt_template`, with the id and the text of each context pack. -/
def renderPromptTemplate (spec : ResolvedPromptSpec) (renderer : Text)
    (contextBlocks : List (Text × Text)) : Text :=
  if renderer = "claude-xml".toList ∨ renderer = "xml".toList then
    "<prompt_spec id=\"".toList ++ spec.view.id ++ "\">\n".toList ++
      renderSections spec (fun title body => "<section name=\"".toList ++ escapeXml title ++
        "\">\n".toList ++ body ++ "\n</section>\n".toList) ++
      (if contextBlocks = [] then []
        else "<runtime_context>\n".toList ++
          (contextBlocks.flatMap fun block => "<context_pack id=\"".toList ++ escapeXml block.1 ++
            "\">\n".toList ++ trim block.2 ++ "\n</context_pack>\n".toList) ++
          "</runtime_context>\n".toList) ++
      "</prompt_spec>\n".toList
  else
    "# Prompt Spec: ".toList ++ spec.view.id ++ "\n\n".toList ++
      renderSections spec (fun title body => "# ".toList ++ title ++ "\n".toList ++ body ++
        "\n\n".toList) ++
      if contextBlocks = [] then []
      else "# Runtime Context\n".toList ++
        contextBlocks.flatMap fun block =>
          "\n## ".toList ++ block.1 ++ "\n".toList ++ trim block.2 ++ "\n".toList

/-! ### Slots of the template -/

/-- Where the value of a slot without one is looked for, or how the message about it ends. -/
def dynamicSlot (home : PromptHome) (name : Text) : Option (Except Text Text) :=
  match name.dropPrefix? "conventions.".toList with
  | some rest => some ((home.namedPayload "conventions".toList rest).mapError (": ".toList ++ ·))
  | none => match name.dropPrefix? "skills.".toList with
    | some rest => if rest = "all".toList then none
        else some ((home.namedPayload "skills".toList rest).mapError (": ".toList ++ ·))
    | none => match name.dropPrefix? "skill_path.".toList with
      | some rest => some (match home.skillPath rest with
          | some path => .ok path
          | none => .error [])
      | none => none

/-- `hydrate_dynamic_slots_from_template`, over what the scan found. -/
def hydrateSlots (home : PromptHome) : List SlotRef → SlotValues → List PromptDiagnostic →
    SlotValues × List PromptDiagnostic
  | [], values, diagnostics => (values, diagnostics)
  | slot :: slots, values, diagnostics =>
      match values slot.name with
      | some _ => hydrateSlots home slots values diagnostics
      | none => match dynamicSlot home slot.name with
        | none => hydrateSlots home slots values diagnostics
        | some (.ok body) => hydrateSlots home slots (values.insert slot.name body) diagnostics
        | some (.error error) => hydrateSlots home slots values (diagnostics ++
            [errorDiagnostic ("unresolved slot ".toList ++ slot.name ++ error) none])

def slotDiagnostics (report : DryRunReport) : List PromptDiagnostic :=
  report.unknown.map (fun slot => errorDiagnostic ("unknown slot: ".toList ++ slot) none) ++
    report.unfilled.map fun slot => errorDiagnostic ("unfilled slot: ".toList ++ slot) none

/-! ### Compiling -/

/-- The context packs that load, and what is said about the others. -/
def loadContextPacks (home : PromptHome) :
    List Text → List LoadedContextPack × List PromptDiagnostic
  | [] => ([], [])
  | packId :: packIds =>
      let (packs, diagnostics) := loadContextPacks home packIds
      match home.contextPack packId with
      | .ok pack => (pack :: packs, diagnostics)
      | .error error => (packs, errorDiagnostic ("context pack ".toList ++ packId ++
          " failed to load: ".toList ++ error) (some "Inputs".toList) :: diagnostics)

/-- What `compile_resolved` has when the template is rendered. -/
structure PromptStage where
  spec : ResolvedPromptSpec
  renderer : Text
  values : SlotValues
  packs : List LoadedContextPack
  diagnostics : List PromptDiagnostic

def promptStage (home : PromptHome) (resolved : ResolvedPromptSpec) (req : PromptCompileRequest) :
    Except Text PromptStage := do
  let spec := applyPromptParts home [] resolved.view.usesParts resolved
  let renderer := ((req.renderer.or req.harness).or spec.view.defaultRenderer).getD "markdown".toList
  let values ← hydrateDynamicSlots home (compileValues spec.view req)
  let (packs, diagnostics) := loadContextPacks home spec.view.contextPacks
  .ok ⟨spec, renderer, values, packs, spec.diagnostics ++ missingSections spec ++ diagnostics⟩

def PromptStage.template (stage : PromptStage) (files : ProjectFiles) : Text :=
  renderPromptTemplate stage.spec stage.renderer
    (stage.packs.map fun pack => (pack.id, renderContextPack files pack stage.values))

/-- The rest of `compile_resolved`, behind the template. -/
def PromptStage.compile (stage : PromptStage) (home : PromptHome) (files : ProjectFiles) :
    Except SlotError CompiledPrompt := do
  let template := stage.template files
  let slots ← scan template
  let (values, diagnostics) := hydrateSlots home slots stage.values stage.diagnostics
  let report ← dryRun template values defaultRegistry
  let diagnostics := diagnostics ++ slotDiagnostics report
  let text ← if hasError diagnostics then .ok template
    else compileSlots template values defaultRegistry
  .ok ⟨stage.renderer, text, diagnostics, stage.packs.map (·.id), text.length,
    (text.length + 3) / 4⟩

def compileResolved (home : PromptHome) (files : ProjectFiles) (resolved : ResolvedPromptSpec)
    (req : PromptCompileRequest) : Except PromptError CompiledPrompt := do
  let stage ← (promptStage home resolved req).mapError .content
  (stage.compile home files).mapError .slots

/-- The text of a prompt that compiles without an error. -/
def compiledText (home : PromptHome) (files : ProjectFiles) (resolved : ResolvedPromptSpec)
    (req : PromptCompileRequest) : Option Text :=
  match compileResolved home files resolved req with
  | .ok prompt => if hasError prompt.diagnostics then none else some prompt.text
  | .error _ => none

end Orgasmic
