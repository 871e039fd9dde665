import Orgasmic.PromptCompiler

/-! # What is read of included data

The template of a prompt as pieces of its own text and of data, and what the slot compiler makes of
each.

* **Pieces.** `PromptStage.pieces` are the pieces of the template (`template_pieces`), one below the
  other.
* **Own text.** `opaqueText` compiles the own text alone and leaves data as it stands.
* **Compiling.** `compiledText_eq` says what the four passes over the template come to; it is
  `opaqueText` where no piece of data has double braces (`compiled_opaque`). -/

namespace Orgasmic

open Text

/-! ### Pieces -/

/-- A piece of a template: text of the spec, its parts and packs, or what the project gives. -/
inductive PromptPiece where
  | own (t : Text)
  | data (t : Text)
deriving DecidableEq

namespace PromptPiece

def text : PromptPiece → Text
  | own t => t
  | data t => t

/-- The text of pieces, each on lines of its own. -/
def below (ps : List PromptPiece) : Text := ps.flatMap fun p => '\n' :: p.text

def isOwn : PromptPiece → Bool
  | own _ => true
  | data _ => false

/-- Both the same own text, or both data. -/
def Alike : PromptPiece → PromptPiece → Prop
  | own t, own u => t = u
  | data _, data _ => True
  | _, _ => False

/-- The data of pieces. -/
def dataOf (ps : List PromptPiece) : List Text :=
  ps.filterMap fun
    | own _ => none
    | data t => some t

/-- The pieces with the own text compiled and the data verbatim. -/
def opaqueBelow (compileOwn : Text → Option Text) : List PromptPiece → Option Text
  | [] => some []
  | own t :: ps =>
      (compileOwn t).bind fun a => (opaqueBelow compileOwn ps).map fun b => '\n' :: (a ++ b)
  | data t :: ps => (opaqueBelow compileOwn ps).map fun b => '\n' :: (t ++ b)

end PromptPiece

open PromptPiece

/-- The pieces of a context pack. -/
def packPieces (files : ProjectFiles) (pack : LoadedContextPack) (values : SlotValues) :
    List PromptPiece :=
  let projectPath := (values "project.path".toList).getD []
  let intro := if trim pack.body = [] then [] else [own (trim pack.body), own []]
  let reference := fun path source => intro ++ [data (trim (referenceTo path source))]
  if pack.id = "tx_session_telemetry".toList then
    if trim projectPath = [] then [own (trim (renderContextPack files pack values))]
    else match latestOrgFile files (pathJoin projectPath ".orgasmic/tx".toList) with
      | none => [data (trim (renderContextPack files pack values))]
      | some path =>
          if pack.includes then [data (trim (renderContextPack files pack values))]
          else reference path none
  else match pack.file with
    | some file =>
        if trim projectPath = [] then [own (trim (renderContextPack files pack values))]
        else match files.read (pathJoin projectPath file) with
          | .ok source =>
              if pack.includes then [data (trim (renderContextPack files pack values))]
              else reference (pathJoin projectPath file) (some source)
          | _ => [data (trim (renderContextPack files pack values))]
    | none => [own (trim (renderContextPack files pack values))]

namespace PromptStage

/-- The own text in front of the context packs. -/
def head (stage : PromptStage) : Text :=
  let spec := stage.spec
  if stage.renderer = "claude-xml".toList ∨ stage.renderer = "xml".toList then
    "<prompt_spec id=\"".toList ++ spec.view.id ++ "\">\n".toList ++
      renderSections spec (fun title body => "<section name=\"".toList ++ escapeXml title ++
        "\">\n".toList ++ body ++ "\n</section>\n".toList) ++
      if stage.packs = [] then "</prompt_spec>\n".toList else "<runtime_context>".toList
  else
    "# Prompt Spec: ".toList ++ spec.view.id ++ "\n\n".toList ++
      renderSections spec (fun title body => "# ".toList ++ title ++ "\n".toList ++ body ++
        "\n\n".toList) ++
      if stage.packs = [] then [] else "# Runtime Context".toList

/-- The pieces below. -/
def pieces (stage : PromptStage) (files : ProjectFiles) : List PromptPiece :=
  if stage.packs = [] then []
  else if stage.renderer = "claude-xml".toList ∨ stage.renderer = "xml".toList then
    (stage.packs.flatMap fun pack =>
      own ("<context_pack id=\"".toList ++ escapeXml pack.id ++ "\">".toList) ::
        (packPieces files pack stage.values ++ [own "</context_pack>".toList])) ++
      [own "</runtime_context>\n</prompt_spec>\n".toList]
  else
    (stage.packs.flatMap fun pack =>
      own ("\n## ".toList ++ pack.id) :: packPieces files pack stage.values) ++ [own []]

/-- The template without its data. -/
def ownText (stage : PromptStage) (files : ProjectFiles) : Text :=
  stage.head ++ below ((stage.pieces files).filter isOwn)

end PromptStage

/-- The value of a slot, its own or one that is loaded for it. -/
def slotValue (home : PromptHome) (values : SlotValues) : SlotValues := fun name =>
  (values name).or ((dynamicSlot home name).bind Except.toOption)

/-- The prompt with the slots of its own text replaced and its data verbatim. -/
def opaqueText (home : PromptHome) (files : ProjectFiles) (stage : PromptStage) : Option Text :=
  let compileOwn := fun t =>
    (compileSlots t (slotValue home stage.values) defaultRegistry).toOption
  if hasError stage.diagnostics then none
  else (compileOwn stage.head).bind fun a =>
    (opaqueBelow compileOwn (stage.pieces files)).map (a ++ ·)

/-- Files of other contents. -/
def OtherContents (files files' : ProjectFiles) : Prop :=
  files.entries = files'.entries ∧ ∀ path, files.read path = files'.read path ∨
    ∃ source source', files.read path = .ok source ∧ files'.read path = .ok source'

/-- No data of a prompt has double braces. -/
def CleanData (stage : PromptStage) (files : ProjectFiles) : Prop :=
  ∀ t ∈ dataOf (stage.pieces files), NoBraces t

/-- **Included data is opaque**: only references of own text are read, data stands verbatim, and
other contents of the files without braces change nothing else. -/
structure IncludedOpaque (home : PromptHome) (files : ProjectFiles) (resolved : ResolvedPromptSpec)
    (req : PromptCompileRequest) (stage : PromptStage) : Prop where
  unread : scannedNames (stage.template files) = scannedNames (stage.ownText files)
  verbatim : compiledText home files resolved req = opaqueText home files stage
  kept : ∀ files', OtherContents files files' → CleanData stage files' →
    (compiledText home files' resolved req).isSome = (compiledText home files resolved req).isSome ∧
      List.Forall₂ Alike (stage.pieces files) (stage.pieces files')

/-! ### The pieces are the template -/

theorem trim_reference (intro path : Text) (source : Option Text) :
    trim (renderReferencePack intro path source) =
      if trim intro = [] then trim (referenceTo path source)
      else trim intro ++ '\n' :: '\n' :: trim (referenceTo path source) := by
  have hink : isWhitespace 'S' = false := by decide
  obtain ⟨rest, hrest⟩ : ∃ rest, referenceTo path source = 'S' :: rest := ⟨_, rfl⟩
  have hnotBlank : ¬Blank (referenceTo path source) := by
    rw [hrest]
    intro h
    exact absurd (h 'S' List.mem_cons_self) (by rw [hink]; exact Bool.false_ne_true)
  have hstart : trimStart (referenceTo path source) = referenceTo path source := by
    rw [hrest, trimStart_cons_of_not_ws hink]
  have hend : trim (referenceTo path source) = trimEnd (referenceTo path source) :=
    congrArg trimEnd hstart
  split_ifs with hblank
  · have hnewlines : Blank ['\n', '\n'] := by
      intro c hc
      obtain rfl : c = '\n' := by simpa using hc
      decide
    rw [renderReferencePack, hblank]
    exact trim_blank_append hnewlines _
  · have hintro : ¬Blank (trim intro) := by
      rw [← trim_eq_nil_iff, trim_trim]
      exact hblank
    calc trim (renderReferencePack intro path source)
      _ = trimEnd (trimStart (trim intro ++ ('\n' :: '\n' :: referenceTo path source))) := by
          rw [renderReferencePack, List.append_assoc]
          rfl
      _ = trimEnd ((trim intro ++ ['\n', '\n']) ++ referenceTo path source) := by
          rw [trimStart_append hintro, trimStart_of_trim_eq (trim_trim intro), List.append_assoc]
          rfl
      _ = trim intro ++ '\n' :: '\n' :: trim (referenceTo path source) := by
          rw [trimEnd_append hnotBlank, List.append_assoc, hend]
          rfl

theorem below_append (ps qs : List PromptPiece) : below (ps ++ qs) = below ps ++ below qs :=
  List.flatMap_append

theorem below_cons (p : PromptPiece) (ps : List PromptPiece) :
    below (p :: ps) = '\n' :: (p.text ++ below ps) := rfl

theorem below_single (p : PromptPiece) : below [p] = '\n' :: p.text := by
  rw [below_cons]
  exact congrArg ('\n' :: ·) (List.append_nil p.text)

/-- The pieces of a reference to a file. -/
theorem below_reference (body path : Text) (source : Option Text) :
    below ((if trim body = [] then [] else [own (trim body), own []]) ++
      [data (trim (referenceTo path source))]) =
        '\n' :: trim (renderReferencePack body path source) := by
  rw [below_append, below_single, trim_reference]
  split_ifs
  · rfl
  · rw [below_cons, below_single, List.cons_append, List.append_assoc]
    rfl

theorem below_packPieces (files : ProjectFiles) (pack : LoadedContextPack) (values : SlotValues) :
    below (packPieces files pack values) = '\n' :: trim (renderContextPack files pack values) := by
  rw [packPieces]
  dsimp only
  by_cases hid : pack.id = "tx_session_telemetry".toList
  · rw [if_pos hid]
    by_cases hpath : trim ((values "project.path".toList).getD []) = []
    · rw [if_pos hpath, below_single]
      rfl
    · rw [if_neg hpath]
      cases hlatest : latestOrgFile files (pathJoin ((values "project.path".toList).getD [])
        ".orgasmic/tx".toList) with
      | none => exact below_single _
      | some path =>
          dsimp only
          cases hincludes : pack.includes with
          | true => exact below_single _
          | false =>
              rw [if_neg Bool.false_ne_true, below_reference, renderContextPack]
              dsimp only
              rw [if_pos hid, if_neg hpath, hlatest]
              dsimp only
              rw [hincludes, if_neg Bool.false_ne_true]
  · rw [if_neg hid]
    cases hfile : pack.file with
    | none => exact below_single _
    | some file =>
        dsimp only
        by_cases hpath : trim ((values "project.path".toList).getD []) = []
        · rw [if_pos hpath]
          exact below_single _
        · rw [if_neg hpath]
          cases hread : files.read (pathJoin ((values "project.path".toList).getD []) file) with
          | notFound => exact below_single _
          | failed error => exact below_single _
          | ok source =>
              dsimp only
              cases hincludes : pack.includes with
              | true => exact below_single _
              | false =>
                  rw [if_neg Bool.false_ne_true, below_reference, renderContextPack]
                  dsimp only
                  rw [if_neg hid, hfile]
                  dsimp only
                  rw [if_neg hpath, hread]
                  dsimp only
                  rw [hincludes, if_neg Bool.false_ne_true]

/-- Context packs, each between a line of its own and what ends it. -/
theorem below_packs (files : ProjectFiles) (values : SlotValues) (packTop : LoadedContextPack → Text)
    (packEnd : List PromptPiece) (packs : List LoadedContextPack) :
    below (packs.flatMap fun pack =>
      own (packTop pack) :: (packPieces files pack values ++ packEnd)) ++ ['\n'] =
        '\n' :: packs.flatMap fun pack => packTop pack ++ '\n' ::
          (trim (renderContextPack files pack values) ++ (below packEnd ++ ['\n'])) := by
  induction packs with
  | nil => rfl
  | cons pack packs ih =>
      rw [List.flatMap_cons, below_append, List.append_assoc, ih, below_cons, below_append,
        below_packPieces, List.flatMap_cons]
      simp only [PromptPiece.text, List.cons_append, List.append_assoc, List.nil_append]

/-- **The template is its pieces.** -/
theorem template_pieces (files : ProjectFiles) (stage : PromptStage) :
    stage.template files = stage.head ++ below (stage.pieces files) := by
  have hblocks : (stage.packs.map fun pack =>
      (pack.id, renderContextPack files pack stage.values)) = [] ↔ stage.packs = [] :=
    List.map_eq_nil_iff
  have hbelow : below [] = [] := rfl
  rw [PromptStage.template, renderPromptTemplate, PromptStage.head, PromptStage.pieces]
  simp only [hblocks]
  split_ifs with hxml hpacks hpacks
  · rw [hbelow, List.append_nil, List.append_nil]
  · have hlines := below_packs files stage.values
      (fun pack => "<context_pack id=\"".toList ++ escapeXml pack.id ++ "\">".toList)
      [own "</context_pack>".toList] stage.packs
    have hclose : below [own "</runtime_context>\n</prompt_spec>\n".toList] =
        ['\n'] ++ ("</runtime_context>\n".toList ++ "</prompt_spec>\n".toList) := rfl
    have hend : below [own "</context_pack>".toList] ++ ['\n'] =
        "\n</context_pack>\n".toList := rfl
    have htop : "<runtime_context>\n".toList = "<runtime_context>".toList ++ ['\n'] := rfl
    have hpackTop : "\">\n".toList = "\">".toList ++ ['\n'] := rfl
    rw [below_append, hclose, ← List.append_assoc (below _), hlines, List.flatMap_map, hend, htop,
      hpackTop]
    simp only [List.append_assoc, List.cons_append, List.nil_append]
  · rw [hbelow, List.append_nil, List.append_nil]
  · have hlines := below_packs files stage.values (fun pack => "\n## ".toList ++ pack.id) []
      stage.packs
    have htop : "# Runtime Context\n".toList = "# Runtime Context".toList ++ ['\n'] := rfl
    have hnewline : "\n".toList = ['\n'] := rfl
    have hlast : below [own []] = ['\n'] := rfl
    simp only [List.append_nil, hbelow, List.nil_append] at hlines
    rw [below_append, hlast, hlines, List.flatMap_map, htop, hnewline]
    simp only [List.append_assoc, List.cons_append, List.nil_append]

/-! ### What the passes over a template come to -/

theorem hasError_append (a b : List PromptDiagnostic) :
    hasError (a ++ b) = (hasError a || hasError b) := List.any_append

theorem hasError_error (a : List PromptDiagnostic) (message : Text) (inSection : Option Text) :
    hasError (a ++ [errorDiagnostic message inSection]) = true := by
  rw [hasError_append, Bool.or_eq_true]
  exact .inr (by rw [hasError, List.any_cons, errorDiagnostic, decide_eq_true rfl, Bool.true_or])

theorem hasError_slotDiagnostics (report : DryRunReport) :
    hasError (slotDiagnostics report) = !report.ok := by
  rw [slotDiagnostics, hasError_append, DryRunReport.ok]
  cases report.unknown <;> cases report.unfilled <;> rfl

/-- What is known of the values once a reference was seen to. -/
theorem seen_value {home : PromptHome} {values seen : SlotValues} {first : Text} {names : List Text}
    (hslot : slotValue home seen = slotValue home values)
    (hfirst : seen first = slotValue home values first)
    (hothers : ∀ other, other ≠ first → seen other = values other) (name : Text) :
    (if name ∈ names then slotValue home seen name else seen name) =
      if name ∈ first :: names then slotValue home values name else values name := by
  by_cases hname : name ∈ names
  · rw [if_pos hname, if_pos (List.mem_cons_of_mem _ hname), hslot]
  · rw [if_neg hname]
    by_cases heq : name = first
    · rw [heq, if_pos List.mem_cons_self, hfirst]
    · rw [if_neg fun h => (List.mem_cons.mp h).elim heq hname, hothers name heq]

theorem slotValue_of_none (home : PromptHome) {values : SlotValues} {name : Text}
    (h : values name = none) :
    slotValue home values name = (dynamicSlot home name).bind Except.toOption := by
  rw [slotValue, h, Option.none_or]

/-- **Hydration** gives the references of the template their values. -/
theorem hydrateSlots_values (home : PromptHome) (slots : List SlotRef) (values : SlotValues)
    (diagnostics : List PromptDiagnostic) (name : Text) :
    (hydrateSlots home slots values diagnostics).1 name =
      if name ∈ slots.map SlotRef.name then slotValue home values name else values name := by
  induction slots generalizing values diagnostics with
  | nil => rfl
  | cons slot slots ih =>
      rw [hydrateSlots, List.map_cons]
      cases hvalue : values slot.name with
      | some value =>
          have hfirst : values slot.name = slotValue home values slot.name := by
            rw [slotValue, hvalue, Option.some_or]
          rw [← seen_value rfl hfirst (fun _ _ => rfl)]
          exact ih values diagnostics
      | none =>
          have hslot := slotValue_of_none home hvalue
          cases hdynamic : dynamicSlot home slot.name with
          | none =>
              rw [hdynamic] at hslot
              rw [← seen_value rfl (hvalue.trans hslot.symm) (fun _ _ => rfl)]
              exact ih values diagnostics
          | some answer =>
              rw [hdynamic] at hslot
              cases answer with
              | error error =>
                  rw [← seen_value rfl (hvalue.trans hslot.symm) (fun _ _ => rfl)]
                  exact ih values _
              | ok body =>
                  have hbody : (values.insert slot.name body) slot.name = some body := if_pos rfl
                  have hothers : ∀ other, other ≠ slot.name →
                      (values.insert slot.name body) other = values other := fun _ h => if_neg h
                  have hsame : slotValue home (values.insert slot.name body) =
                      slotValue home values := by
                    funext other
                    by_cases h : other = slot.name
                    · rw [h, slotValue, hbody]
                      exact hslot.symm
                    · rw [slotValue, slotValue, hothers other h]
                  rw [← seen_value hsame (hbody.trans hslot.symm) hothers]
                  exact ih _ diagnostics

/-- Hydration only adds to what is complained about. -/
theorem hydrateSlots_errors (home : PromptHome) (slots : List SlotRef) (values : SlotValues)
    {diagnostics : List PromptDiagnostic}
    (h : hasError (hydrateSlots home slots values diagnostics).2 = false) :
    hasError diagnostics = false := by
  induction slots generalizing values diagnostics with
  | nil => exact h
  | cons slot slots ih =>
      rw [hydrateSlots] at h
      split at h
      · exact ih _ h
      · split at h
        · exact ih _ h
        · exact ih _ h
        · have herror := ih _ h
          rw [hasError_error] at herror
          cases herror

/-- References that all have values are no reason to complain. -/
theorem hydrateSlots_filled {home : PromptHome} {slots : List SlotRef} {values : SlotValues}
    {diagnostics : List PromptDiagnostic} (hdiagnostics : hasError diagnostics = false)
    (h : ∀ name ∈ slots.map SlotRef.name, (slotValue home values name).isSome) :
    hasError (hydrateSlots home slots values diagnostics).2 = false := by
  induction slots generalizing values with
  | nil => exact hdiagnostics
  | cons slot slots ih =>
      obtain ⟨hslot, hslots⟩ := List.forall_mem_cons.mp h
      rw [hydrateSlots]
      cases hvalue : values slot.name with
      | some value => exact ih hslots
      | none =>
          rw [slotValue_of_none home hvalue] at hslot
          cases hdynamic : dynamicSlot home slot.name with
          | none => exact ih hslots
          | some answer =>
              rw [hdynamic] at hslot
              cases answer with
              | error error => cases hslot
              | ok body =>
                  refine ih fun name hname => ?_
                  have hname := hslots name hname
                  by_cases heq : name = slot.name
                  · rw [heq, slotValue, show (values.insert slot.name body) slot.name = some body
                      from if_pos rfl]
                    rfl
                  · rw [slotValue, show (values.insert slot.name body) name = values name
                      from if_neg heq]
                    exact hname

/-- The text of a prompt from its stage. -/
theorem compiledText_stage {home : PromptHome} {resolved : ResolvedPromptSpec}
    {req : PromptCompileRequest} {stage : PromptStage}
    (h : promptStage home resolved req = .ok stage) (files : ProjectFiles) :
    compiledText home files resolved req = match stage.compile home files with
      | .ok prompt => if hasError prompt.diagnostics then none else some prompt.text
      | .error _ => none := by
  rw [compiledText, compileResolved, h]
  cases hcompile : stage.compile home files with
  | ok prompt =>
      simp only [Except.mapError, bind, Except.bind, hcompile]
  | error e => simp only [Except.mapError, bind, Except.bind, hcompile]

/-- **Compiling** fills the template's references in, wherever they come from. -/
theorem compiledText_eq {home : PromptHome} {resolved : ResolvedPromptSpec}
    {req : PromptCompileRequest} {stage : PromptStage}
    (h : promptStage home resolved req = .ok stage) (files : ProjectFiles) :
    compiledText home files resolved req = if hasError stage.diagnostics then none
      else (parts none (stage.template files)).bind
        (fill (knownValue (slotValue home stage.values) defaultRegistry)) := by
  rw [compiledText_stage h, PromptStage.compile]
  set template := stage.template files with htemplate
  have hnames := scannedNames_eq template
  cases hscan : scan template with
  | error e =>
      rw [scannedNames, hscan] at hnames
      rw [Option.map_eq_none_iff.mp hnames.symm, Option.bind_none, ite_self]
      simp only [bind, Except.bind]
  | ok slots =>
      have hvalues := hydrateSlots_values home slots stage.values stage.diagnostics
      cases hhydrated : hydrateSlots home slots stage.values stage.diagnostics with
      | mk values diagnostics =>
      obtain ⟨report, hreport, hok⟩ := dryRun_ok values defaultRegistry hscan
      rw [scannedNames, hscan] at hnames
      obtain ⟨ps, hps, hpsNames⟩ := Option.map_eq_some_iff.mp hnames.symm
      have hlook : ∀ name ∈ slotNames ps, knownValue values defaultRegistry name =
          knownValue (slotValue home stage.values) defaultRegistry name := by
        intro name hname
        have hvalue := hvalues name
        rw [hhydrated, if_pos (hpsNames ▸ hname)] at hvalue
        rw [knownValue, knownValue, ← hvalue]
      have hall : report.ok = true ↔ ∀ name ∈ slotNames ps,
          (knownValue (slotValue home stage.values) defaultRegistry name).isSome := by
        have hrefs : report.ok = true ↔ ∀ name ∈ slots.map SlotRef.name,
            (knownValue values defaultRegistry name).isSome := by rw [hok, List.forall_mem_map]
        rw [hrefs, ← hpsNames]
        exact forall₂_congr fun name hname => by rw [hlook name hname]
      have hcompiled := compileSlots_toOption template values defaultRegistry
      rw [hps, Option.bind_some, fill_congr hlook] at hcompiled
      rw [hps, Option.bind_some]
      simp only [bind, Except.bind, hhydrated, hreport]
      by_cases herror : hasError (diagnostics ++ slotDiagnostics report) = true
      · -- The template is shown as it stands: a slot has no value, or the stage had an error.
        rw [if_pos herror]
        dsimp only
        rw [if_pos herror]
        split_ifs with hstage
        · rfl
        · refine ((if_neg fun hfilled => ?_ : fill _ ps = none)).symm
          have hquiet : hasError diagnostics = false := by
            rw [show diagnostics = (hydrateSlots home slots stage.values stage.diagnostics).2 by
              rw [hhydrated]]
            refine hydrateSlots_filled (by simpa using hstage) fun name hname => ?_
            have hname := hfilled name (hpsNames ▸ hname)
            rw [knownValue_of_isSome hname] at hname
            exact hname
          rw [hasError_append, hquiet, hasError_slotDiagnostics, hall.mpr hfilled] at herror
          cases herror
      · rw [if_neg herror]
        rw [hasError_append, hasError_slotDiagnostics, Bool.or_eq_true, not_or] at herror
        obtain ⟨hquiet, hreportOk⟩ := herror
        have hfilled := hall.mp (by simpa using hreportOk)
        have hstage : hasError stage.diagnostics = false := hydrateSlots_errors home slots
          stage.values (by rw [hhydrated]; simpa using hquiet)
        rw [hstage, if_neg Bool.false_ne_true]
        rw [fill, if_pos hfilled] at hcompiled ⊢
        cases hslots : compileSlots template values defaultRegistry with
        | error e =>
            rw [hslots] at hcompiled
            cases hcompiled
        | ok text =>
            rw [hslots] at hcompiled
            obtain rfl := Option.some.inj hcompiled
            dsimp only
            rw [hasError_append, hasError_slotDiagnostics, if_neg]
            simpa using ⟨by simpa using hquiet, by simpa using hreportOk⟩

/-! ### Data without double braces -/

/-- The parts of pieces. -/
def belowParts : List PromptPiece → Option (List TemplatePart)
  | [] => some []
  | p :: ps =>
      (parts none p.text).bind fun a => (belowParts ps).map fun b => .char '\n' :: (a ++ b)

/-- The pieces of a template are read one by one. -/
theorem parts_pieces (t : Text) (ps : List PromptPiece) :
    parts none (t ++ below ps) =
      (parts none t).bind fun a => (belowParts ps).map fun b => a ++ b := by
  induction ps generalizing t with
  | nil =>
      rw [show below [] = [] from rfl, List.append_nil]
      cases parts none t with
      | none => rfl
      | some a => exact congrArg some (List.append_nil a).symm
  | cons p ps ih =>
      rw [below_cons, parts_line, ih, belowParts]
      congr 1
      funext a
      cases parts none p.text with
      | none => rfl
      | some b => cases belowParts ps <;> rfl

/-- The pieces that were read have the references of their own text, and others if data has
braces. -/
theorem names_own {ps : List PromptPiece} {a : List TemplatePart} (h : belowParts ps = some a) :
    ∃ o, belowParts (ps.filter isOwn) = some o ∧
      (slotNames o).length ≤ (slotNames a).length ∧
      ((slotNames a).length ≤ (slotNames o).length → ∀ t ∈ dataOf ps, NoBraces t) := by
  induction ps generalizing a with
  | nil => exact ⟨[], rfl, Nat.zero_le _, fun _ t ht => absurd ht List.not_mem_nil⟩
  | cons p ps ih =>
      obtain ⟨b, hb, h⟩ := Option.bind_eq_some_iff.mp h
      obtain ⟨c, hc, rfl⟩ := Option.map_eq_some_iff.mp h
      obtain ⟨o, ho, hle, hclean⟩ := ih hc
      have hnames : slotNames (.char '\n' :: (b ++ c)) = slotNames b ++ slotNames c :=
        slotNames_append b c
      rw [hnames, List.length_append]
      cases p with
      | own t =>
          refine ⟨.char '\n' :: (b ++ o), ?_, ?_, ?_⟩
          · rw [List.filter_cons_of_pos rfl, belowParts, ho]
            exact Option.bind_eq_some_iff.mpr ⟨b, hb, rfl⟩
          · rw [show slotNames (.char '\n' :: (b ++ o)) = slotNames b ++ slotNames o from
              slotNames_append b o, List.length_append]
            omega
          · rw [show slotNames (.char '\n' :: (b ++ o)) = slotNames b ++ slotNames o from
              slotNames_append b o, List.length_append]
            exact fun h => hclean (by omega)
      | data t =>
          refine ⟨o, by rw [List.filter_cons_of_neg (by simp [isOwn]), ho], by omega, fun h => ?_⟩
          refine List.forall_mem_cons.mpr ⟨?_, hclean (by omega)⟩
          rw [parts_noBraces, show parts none t = some b from hb, Option.map_some]
          exact congrArg some (List.length_eq_zero_iff.mp (by omega))

/-- Data without braces has no references. -/
theorem names_clean {ps : List PromptPiece} (h : ∀ t ∈ dataOf ps, NoBraces t) :
    (belowParts ps).map slotNames = (belowParts (ps.filter isOwn)).map slotNames := by
  induction ps with
  | nil => rfl
  | cons p ps ih =>
      cases p with
      | own t =>
          have ih := ih h
          rw [List.filter_cons_of_pos rfl, belowParts, belowParts]
          cases parts none (own t).text with
          | none => rfl
          | some a =>
              have hnames : ∀ b, slotNames (.char '\n' :: (a ++ b)) = slotNames a ++ slotNames b :=
                slotNames_append a
              rw [Option.bind_some, Option.bind_some, Option.map_map, Option.map_map]
              simp only [Function.comp_def, hnames]
              have hcomp : ∀ x : Option (List TemplatePart),
                  x.map (fun b => slotNames a ++ slotNames b) =
                    (x.map slotNames).map (slotNames a ++ ·) := fun x => by
                rw [Option.map_map, Function.comp_def]
              rw [hcomp, hcomp, ih]
      | data t =>
          obtain ⟨hown, h⟩ := List.forall_mem_cons.mp h
          rw [List.filter_cons_of_neg (by simp [isOwn]), ← ih h, belowParts,
            show parts none (data t).text = some (verbatim t) from parts_verbatim hown,
            Option.bind_some, Option.map_map]
          congr 1
          funext b
          show slotNames (verbatim t ++ b) = slotNames b
          rw [slotNames_append, slotNames_verbatim, List.nil_append]

section reading
variable {look : Text → Option Text} {ps qs : List PromptPiece}

/-- Pieces whose data has no braces are read as they are meant. -/
theorem opaqueBelow_clean (h : ∀ t ∈ dataOf ps, NoBraces t) :
    opaqueBelow (fun t => (parts none t).bind (fill look)) ps = (belowParts ps).bind (fill look) := by
  have hline : ∀ a : List TemplatePart, fill look (.char '\n' :: a) = (fill look a).map ('\n' :: ·) :=
    fill_append look [.char '\n']
  induction ps with
  | nil => rfl
  | cons p ps ih =>
      cases p with
      | own t =>
          rw [opaqueBelow, belowParts, ih h, PromptPiece.text]
          cases parts none t with
          | none => rfl
          | some a =>
              cases belowParts ps with
              | none => cases h : fill look a <;> simp [h]
              | some b =>
                  simp only [Option.bind_some, Option.map_some, hline, fill_append, Option.map_bind]
                  congr 1
                  funext s
                  cases fill look b <;> rfl
      | data t =>
          obtain ⟨hown, h⟩ := List.forall_mem_cons.mp h
          rw [opaqueBelow, belowParts, ih h,
            show parts none (data t).text = some (verbatim t) from parts_verbatim hown]
          cases belowParts ps with
          | none => rfl
          | some b =>
              simp only [Option.bind_some, Option.map_some, hline, fill_append, fill_verbatim]
              cases fill look b <;> rfl

/-- Own text that cannot be read cannot be compiled. -/
theorem opaqueBelow_malformed (h : belowParts (ps.filter isOwn) = none) :
    opaqueBelow (fun t => (parts none t).bind (fill look)) ps = none := by
  induction ps with
  | nil => cases h
  | cons p ps ih =>
      cases p with
      | own t =>
          rw [List.filter_cons_of_pos rfl, belowParts] at h
          rw [opaqueBelow]
          cases hparts : parts none t with
          | none => rfl
          | some a =>
              rw [show parts none (own t).text = some a from hparts, Option.bind_some,
                Option.map_eq_none_iff] at h
              rw [ih h]
              cases fill look a <;> simp
      | data t =>
          rw [List.filter_cons_of_neg (by simp [isOwn])] at h
          rw [opaqueBelow, ih h]
          rfl

/-- Whether own text compiles does not depend on the data. -/
theorem alike_isSome (compileOwn : Text → Option Text) (h : List.Forall₂ Alike ps qs) :
    (opaqueBelow compileOwn ps).isSome = (opaqueBelow compileOwn qs).isSome := by
  induction h with
  | nil => rfl
  | @cons p q ps qs hpq _ ih =>
      cases p <;> cases q
      · rw [show _ = _ from hpq, opaqueBelow, opaqueBelow]
        cases compileOwn _ with
        | none => rfl
        | some a => rw [Option.bind_some, Option.bind_some, Option.isSome_map, Option.isSome_map, ih]
      · exact hpq.elim
      · exact hpq.elim
      · rw [opaqueBelow, opaqueBelow, Option.isSome_map, Option.isSome_map, ih]

end reading

/-! ### Other contents of the files -/

theorem Alike.refl (p : PromptPiece) : Alike p p := by
  cases p with
  | own t => exact rfl
  | data t => trivial

theorem alike_refl (ps : List PromptPiece) : List.Forall₂ Alike ps ps := by
  induction ps with
  | nil => exact .nil
  | cons p ps ih => exact .cons (Alike.refl p) ih

theorem alike_append {ps qs ps' qs' : List PromptPiece} (h : List.Forall₂ Alike ps qs)
    (h' : List.Forall₂ Alike ps' qs') : List.Forall₂ Alike (ps ++ ps') (qs ++ qs') :=
  List.rel_append h h'

/-- A pack has the same own text beside other contents of the files. -/
theorem packPieces_alike {files files' : ProjectFiles} (h : OtherContents files files')
    (pack : LoadedContextPack) (values : SlotValues) :
    List.Forall₂ Alike (packPieces files pack values) (packPieces files' pack values) := by
  obtain ⟨hentries, hread⟩ := h
  have hdata : ∀ t u, List.Forall₂ Alike [data t] [data u] := fun _ _ => .cons trivial .nil
  have hlatest : latestOrgFile files' = latestOrgFile files := by
    funext dir
    rw [latestOrgFile, latestOrgFile, hentries]
  have hreference : ∀ path source source', List.Forall₂ Alike
      ((if trim pack.body = [] then [] else [own (trim pack.body), own []]) ++
        [data (trim (referenceTo path source))])
      ((if trim pack.body = [] then [] else [own (trim pack.body), own []]) ++
        [data (trim (referenceTo path source'))]) :=
    fun _ _ _ => alike_append (alike_refl _) (hdata _ _)
  by_cases hid : pack.id = "tx_session_telemetry".toList
  · by_cases hpath : trim ((values "project.path".toList).getD []) = []
    · have hown : renderContextPack files pack values = renderContextPack files' pack values := by
        simp only [renderContextPack, if_pos hid, if_pos hpath]
      simp only [packPieces, if_pos hid, if_pos hpath, hown]
      exact alike_refl _
    · simp only [packPieces, if_pos hid, if_neg hpath, hlatest]
      cases latestOrgFile files (pathJoin ((values "project.path".toList).getD [])
        ".orgasmic/tx".toList) with
      | none => exact hdata _ _
      | some path =>
          cases pack.includes with
          | true => exact hdata _ _
          | false => exact hreference _ _ _
  · cases hfile : pack.file with
    | none =>
        have hown : renderContextPack files pack values = renderContextPack files' pack values := by
          simp only [renderContextPack, if_neg hid, hfile]
        simp only [packPieces, if_neg hid, hfile, hown]
        exact alike_refl _
    | some file =>
        by_cases hpath : trim ((values "project.path".toList).getD []) = []
        · have hown : renderContextPack files pack values = renderContextPack files' pack values := by
            simp only [renderContextPack, if_neg hid, hfile, if_pos hpath]
          simp only [packPieces, if_neg hid, hfile, if_pos hpath, hown]
          exact alike_refl _
        · simp only [packPieces, if_neg hid, hfile, if_neg hpath]
          obtain heq | ⟨source, source', hsource, hsource'⟩ :=
            hread (pathJoin ((values "project.path".toList).getD []) file)
          · rw [← heq]
            cases files.read (pathJoin ((values "project.path".toList).getD []) file) with
            | notFound => exact hdata _ _
            | failed error => exact hdata _ _
            | ok source =>
                cases pack.includes with
                | true => exact hdata _ _
                | false => exact hreference _ _ _
          · rw [hsource, hsource']
            cases pack.includes with
            | true => exact hdata _ _
            | false => exact hreference _ _ _

theorem pieces_alike {files files' : ProjectFiles} (h : OtherContents files files')
    (stage : PromptStage) : List.Forall₂ Alike (stage.pieces files) (stage.pieces files') := by
  have hpacks : ∀ (top : LoadedContextPack → PromptPiece) (ends : List PromptPiece)
      (packs : List LoadedContextPack), List.Forall₂ Alike
        (packs.flatMap fun pack => top pack :: (packPieces files pack stage.values ++ ends))
        (packs.flatMap fun pack => top pack :: (packPieces files' pack stage.values ++ ends)) := by
    intro top ends packs
    induction packs with
    | nil => exact .nil
    | cons pack packs ih =>
        rw [List.flatMap_cons, List.flatMap_cons]
        exact alike_append (.cons (Alike.refl _)
          (alike_append (packPieces_alike h pack stage.values) (alike_refl ends))) ih
  rw [PromptStage.pieces, PromptStage.pieces]
  split_ifs
  · exact .nil
  · exact alike_append (hpacks _ _ _) (alike_refl _)
  · have hmarkdown := hpacks (fun pack => own ("\n## ".toList ++ pack.id)) [] stage.packs
    simp only [List.append_nil] at hmarkdown
    exact alike_append hmarkdown (alike_refl _)

/-! ### When included data is opaque -/

section opaqueText
variable {home : PromptHome} {files : ProjectFiles} {resolved : ResolvedPromptSpec}
  {req : PromptCompileRequest} {stage : PromptStage}

theorem opaqueText_eq (home : PromptHome) (files : ProjectFiles) (stage : PromptStage) :
    opaqueText home files stage = if hasError stage.diagnostics then none
      else ((parts none stage.head).bind
          (fill (knownValue (slotValue home stage.values) defaultRegistry))).bind fun a =>
        (opaqueBelow (fun t => (parts none t).bind
          (fill (knownValue (slotValue home stage.values) defaultRegistry)))
          (stage.pieces files)).map (a ++ ·) := by
  simp only [opaqueText, compileSlots_toOption]

/-- Data without braces is left as it is. -/
theorem compiled_clean (h : promptStage home resolved req = .ok stage)
    (hclean : CleanData stage files) :
    compiledText home files resolved req = opaqueText home files stage := by
  rw [compiledText_eq h, opaqueText_eq, template_pieces, parts_pieces, opaqueBelow_clean hclean]
  split_ifs
  · rfl
  · cases parts none stage.head with
    | none => rfl
    | some a =>
        cases belowParts (stage.pieces files) with
        | none => simp
        | some b =>
            simp only [Option.bind_some, Option.map_some, fill_append]

/-- Own text that cannot be read fails the prompt, whatever the data. -/
theorem compiled_malformed (h : promptStage home resolved req = .ok stage)
    (hown : scannedNames (stage.ownText files) = none) :
    scannedNames (stage.template files) = none ∧ compiledText home files resolved req = none ∧
      opaqueText home files stage = none := by
  rw [scannedNames_eq, Option.map_eq_none_iff, PromptStage.ownText, parts_pieces] at hown
  have htemplate : parts none (stage.template files) = none := by
    rw [template_pieces, parts_pieces]
    cases hhead : parts none stage.head with
    | none => rfl
    | some a =>
        rw [hhead, Option.bind_some, Option.map_eq_none_iff] at hown
        cases hbelow : belowParts (stage.pieces files) with
        | none => rfl
        | some b =>
            obtain ⟨o, ho, -⟩ := names_own hbelow
            rw [hown] at ho
            cases ho
  refine ⟨by rw [scannedNames_eq, htemplate]; rfl, ?_, ?_⟩
  · rw [compiledText_eq h, htemplate, Option.bind_none, ite_self]
  · rw [opaqueText_eq]
    split_ifs
    · rfl
    · cases hhead : parts none stage.head with
      | none => rfl
      | some a =>
          rw [hhead, Option.bind_some, Option.map_eq_none_iff] at hown
          rw [opaqueBelow_malformed hown]
          simp

/-- Whether a prompt compiles is up to its own text where its data is opaque. -/
theorem opaqueText_isSome {files' : ProjectFiles}
    (h : List.Forall₂ Alike (stage.pieces files) (stage.pieces files')) :
    (opaqueText home files' stage).isSome = (opaqueText home files stage).isSome := by
  simp only [opaqueText]
  split_ifs
  · rfl
  · cases (compileSlots stage.head (slotValue home stage.values) defaultRegistry).toOption with
    | none => rfl
    | some a =>
        rw [Option.bind_some, Option.bind_some, Option.isSome_map, Option.isSome_map,
          alike_isSome _ h]

end opaqueText

/-- **Included data is opaque exactly where it has no double braces**, or where the prompt's own text
is malformed anyway. -/
theorem included_opaque_iff (home : PromptHome) (files : ProjectFiles)
    (resolved : ResolvedPromptSpec) (req : PromptCompileRequest) {stage : PromptStage}
    (h : promptStage home resolved req = .ok stage) :
    IncludedOpaque home files resolved req stage ↔
      scannedNames (stage.ownText files) = none ∨ CleanData stage files := by
  constructor
  · intro hheld
    by_cases hown : scannedNames (stage.ownText files) = none
    · exact .inl hown
    · right
      have hunread := hheld.unread
      obtain ⟨names, hnames⟩ := Option.ne_none_iff_exists'.mp hown
      rw [hnames, scannedNames_eq, template_pieces, parts_pieces] at hunread
      rw [scannedNames_eq, PromptStage.ownText, parts_pieces] at hnames
      obtain ⟨c, hc, hcNames⟩ := Option.map_eq_some_iff.mp hunread
      obtain ⟨a, ha, hc⟩ := Option.bind_eq_some_iff.mp hc
      obtain ⟨b, hb, rfl⟩ := Option.map_eq_some_iff.mp hc
      obtain ⟨o, ho, -, hclean⟩ := names_own hb
      rw [ha, ho, Option.bind_some, Option.map_some, Option.map_some] at hnames
      have hlength := congrArg List.length ((Option.some.inj hnames).trans hcNames.symm)
      rw [slotNames_append, slotNames_append, List.length_append, List.length_append] at hlength
      exact hclean (by omega)
  · intro hcondition
    have hverbatim : compiledText home files resolved req = opaqueText home files stage := by
      obtain hown | hclean := hcondition
      · obtain ⟨-, hcompiled, hheld⟩ := compiled_malformed h hown
        rw [hcompiled, hheld]
      · exact compiled_clean h hclean
    refine ⟨?_, hverbatim, fun files' hfiles hclean' => ?_⟩
    · obtain hown | hclean := hcondition
      · rw [(compiled_malformed h hown).1, hown]
      · have hnames := names_clean hclean
        rw [scannedNames_eq, scannedNames_eq, template_pieces, PromptStage.ownText, parts_pieces,
          parts_pieces]
        cases parts none stage.head with
        | none => rfl
        | some a =>
            have hcomp : ∀ x : Option (List TemplatePart),
                (x.map fun b => a ++ b).map slotNames = (x.map slotNames).map (slotNames a ++ ·) :=
              fun x => by
                rw [Option.map_map, Option.map_map]
                congr 1
                funext b
                exact slotNames_append a b
            rw [Option.bind_some, Option.bind_some, hcomp, hcomp, hnames]
    · have halike := pieces_alike hfiles stage
      rw [compiled_clean h hclean', hverbatim, opaqueText_isSome halike]
      exact ⟨rfl, halike⟩

/-! ### An included file -/

/-- A prompt home with a pack that includes `notes.md`. -/
def notesHome : PromptHome where
  source := "/home".toList
  promptPart _ := .error "not found".toList
  contextPack packId := .ok ⟨packId, some "include-full".toList, some "notes.md".toList, []⟩
  skillManifest := .ok []
  namedPayload _ _ := .error "not found".toList
  skillPath _ := none

def notesSpec : ResolvedPromptSpec where
  view := ⟨"w".toList, "worker".toList, none, [], ["notes".toList]⟩
  sections title := if title ∈ requiredSections then some [] else none
  order := requiredSections
  diagnostics := []

def notesRequest : PromptCompileRequest :=
  ⟨none, none, none, none, none, fun _ => none,
    fun name => if name = "task.id".toList then some "T-1".toList else none⟩

def notesFiles (content : Text) : ProjectFiles := ⟨fun _ => none, fun _ => .ok content⟩

theorem included_opaque_iff_sample : ∃ stage,
    promptStage notesHome notesSpec notesRequest = .ok stage ∧
      CleanData stage (notesFiles "a \x7bb\x7d".toList) ∧
      IncludedOpaque notesHome (notesFiles "a \x7bb\x7d".toList) notesSpec notesRequest stage := by
  have hstage : ∃ stage, promptStage notesHome notesSpec notesRequest = .ok stage ∧
      CleanData stage (notesFiles "a \x7bb\x7d".toList) := ⟨_, rfl, by unfold CleanData; decide +kernel⟩
  obtain ⟨stage, hstage, hclean⟩ := hstage
  exact ⟨stage, hstage, hclean,
    (included_opaque_iff notesHome _ notesSpec notesRequest hstage).mpr (.inr hclean)⟩

/-- Braces in an included file fail the prompt, or are replaced by a value. -/
theorem included_braces_read :
    OtherContents (notesFiles "a".toList) (notesFiles "\x7b\x7b".toList) ∧
      (compiledText notesHome (notesFiles "a".toList) notesSpec notesRequest).isSome = true ∧
      compiledText notesHome (notesFiles "\x7b\x7b".toList) notesSpec notesRequest = none ∧
      compiledText notesHome (notesFiles "\x7b\x7btask.id\x7d\x7d".toList) notesSpec notesRequest =
        compiledText notesHome (notesFiles "T-1".toList) notesSpec notesRequest :=
  ⟨⟨rfl, fun _ => .inr ⟨_, _, rfl, rfl⟩⟩, by decide +kernel, by decide +kernel, by decide +kernel⟩

end Orgasmic
