import Mathlib.Data.Char
import Mathlib.Data.List.Dedup
import Mathlib.Data.List.Lex
import Mathlib.Data.List.Sort
import Orgasmic.Text

/-! # Slots of prompt templates

The strict slot compiler of `slots.rs`: references between double braces are located, classified and
replaced.

* **Functions.** `scanFrom` reads a template from a position on, outside of a reference or inside of
  one; `compileSlots` replaces what it finds.
* **Parts.** `parts` is the template as its characters and references (`meant_scanFrom`); compiling
  fills them in (`compileSlots_toOption`).
* **Lines.** A reference does not cross a line, so that a template has the parts of its lines
  (`parts_line`). -/

namespace Orgasmic

open Text

/-! ### The functions -/

/-- `SlotValues`. -/
abbrev SlotValues := Text → Option Text

def SlotValues.insert (values : SlotValues) (name value : Text) : SlotValues :=
  fun key => if key = name then some value else values key

inductive SlotError where
  | malformed (offset : ℕ) (detail : Text)
  | dryRunFailed (unknown unfilled : List Text)
deriving DecidableEq, Repr

/-- A located reference; positions count characters. -/
structure SlotRef where
  name : Text
  start : ℕ
  stop : ℕ
deriving DecidableEq, Repr

/-- `default_registry`. -/
def defaultRegistry : List Text :=
  ["task.id".toList, "task.title".toList, "task.description".toList, "task.priority".toList,
    "task.tags".toList, "task.acceptance".toList, "task.write_scope".toList,
    "task.read_scope".toList, "task.depends_on".toList, "task.activity".toList,
    "dispatch.brief".toList, "dispatch.workdir".toList, "project.id".toList,
    "project.name".toList, "project.path".toList, "project.test_cmd".toList,
    "project.lint_cmd".toList, "project.build_cmd".toList, "project.default_branch".toList,
    "worker.id".toList, "worker.kind".toList, "skills.all".toList, "run.id".toList,
    "run.iteration_count".toList, "run.previous_state".toList, "evidence.so_far".toList,
    "worklog.tail".toList, "artifact.subject_nodes".toList, "artifact.user_prompt".toList,
    "node.id".toList, "node.type".toList, "node.content".toList, "node.comments".toList,
    "node.extra_prompt".toList, "node.links".toList, "conversation.purpose".toList]

/-- The families whose payloads are loaded by name, and the task activity. -/
def isDynamicSkillSlot (name : Text) : Bool :=
  name = "task.activity".toList ||
    match splitOnce '.' name with
    | some (ns, rest) =>
        (ns = "skills".toList || ns = "skill_path".toList || ns = "conventions".toList) && rest ≠ []
    | none => false

/-- `is_known_slot` without linked skills. -/
def isKnownSlot (name : Text) (registry : List Text) : Bool :=
  name ∈ registry || isDynamicSkillSlot name

/-- `namespace.field`. -/
def isValidName (s : Text) : Bool :=
  match splitOnce '.' s with
  | none => false
  | some ([], _) => false
  | some (first :: chars, field) =>
      field ≠ [] && (first.isAlpha || first = '_') &&
        chars.all (fun c => c.isAlphanum || c = '_') &&
        field.all fun c => c.isAlphanum || c = '_' || c = '-'

/-- What stands between the braces. -/
def closeSlot (start : ℕ) (read : Text) (stop : ℕ) : Except SlotError SlotRef :=
  let inside := trim read
  if inside = [] then .error (.malformed start "empty slot reference".toList)
  else if isValidName inside = false then
    .error (.malformed start ("invalid slot name `".toList ++ inside ++ "`".toList))
  else if '#' ∈ inside ∨ ' ' ∈ inside ∨ '|' ∈ inside then
    .error (.malformed start ("control syntax not allowed in slot `".toList ++ inside ++ "`".toList))
  else .ok ⟨inside, start, stop⟩

/-- Where the scan stands: outside of a reference, or behind the braces at `start` and what was read
since. -/
inductive ScanState where
  | outside
  | inside (start : ℕ) (read : Text)
deriving DecidableEq

/-- The loops of `scan`, from `pos` on. -/
def scanFrom (pos : ℕ) : ScanState → Text → Except SlotError (List SlotRef)
  | .outside, '{' :: '{' :: rest => scanFrom (pos + 2) (.inside pos []) rest
  | .outside, _ :: rest => scanFrom (pos + 1) .outside rest
  | .outside, [] => .ok []
  | .inside start read, '}' :: '}' :: rest =>
      match closeSlot start read (pos + 2) with
      | .error e => .error e
      | .ok r =>
          match scanFrom (pos + 2) .outside rest with
          | .error e => .error e
          | .ok rs => .ok (r :: rs)
  | .inside start read, c :: d :: rest =>
      if c = '\n' then .error (.malformed start "newline inside slot reference".toList)
      else scanFrom (pos + 1) (.inside start (read ++ [c])) (d :: rest)
  | .inside start _, _ => .error (.malformed start "unterminated `\x7b\x7b`".toList)

def scan (template : Text) : Except SlotError (List SlotRef) := scanFrom 0 .outside template

structure DryRunReport where
  filled : List Text
  unfilled : List Text
  unknown : List Text
deriving DecidableEq

def DryRunReport.ok (report : DryRunReport) : Bool := report.unfilled = [] && report.unknown = []

/-- A `BTreeSet` of names as a list. -/
def nameSet (names : List Text) : List Text := names.dedup.insertionSort (· ≤ ·)

def dryRun (template : Text) (values : SlotValues) (registry : List Text) :
    Except SlotError DryRunReport :=
  match scan template with
  | .error e => .error e
  | .ok refs =>
      let names := refs.map SlotRef.name
      .ok {
        filled := nameSet (names.filter fun n => isKnownSlot n registry && (values n).isSome)
        unfilled := nameSet (names.filter fun n => isKnownSlot n registry && (values n).isNone)
        unknown := nameSet (names.filter fun n => !isKnownSlot n registry) }

/-- The template from `cursor` on with these references replaced. -/
def substitute (template : Text) (values : SlotValues) (cursor : ℕ) : List SlotRef → Text
  | [] => template.drop cursor
  | r :: rs => slice template ⟨cursor, r.start⟩ ++ (values r.name).getD [] ++
      substitute template values r.stop rs

/-- `compile`. -/
def compileSlots (template : Text) (values : SlotValues) (registry : List Text) :
    Except SlotError Text :=
  match dryRun template values registry with
  | .error e => .error e
  | .ok report =>
      if report.ok = false then .error (.dryRunFailed report.unknown report.unfilled)
      else match scan template with
        | .error e => .error e
        | .ok refs => .ok (substitute template values 0 refs)

/-! ### The parts of a template -/

/-- What stands in a template. -/
inductive TemplatePart where
  | char (c : Char)
  | slot (name : Text)
deriving DecidableEq

/-- The name that stands between the braces. -/
def slotName? (read : Text) : Option Text := (closeSlot 0 read 0).toOption.map SlotRef.name

/-- The parts of a text, from outside of a reference or from inside of one. -/
def parts : Option Text → Text → Option (List TemplatePart)
  | none, '{' :: '{' :: rest => parts (some []) rest
  | none, c :: rest => (parts none rest).map (.char c :: ·)
  | none, [] => some []
  | some read, '}' :: '}' :: rest =>
      (slotName? read).bind fun name => (parts none rest).map (.slot name :: ·)
  | some read, c :: d :: rest =>
      if c = '\n' then none else parts (some (read ++ [c])) (d :: rest)
  | some _, _ => none

/-- The names of the references. -/
def slotNames (ps : List TemplatePart) : List Text :=
  ps.filterMap fun
    | .char _ => none
    | .slot name => some name

/-- The text with a value for every reference. -/
def rendered (look : Text → Text) (ps : List TemplatePart) : Text :=
  ps.flatMap fun
    | .char c => [c]
    | .slot name => look name

/-- The text, if every reference has a value. -/
def fill (look : Text → Option Text) (ps : List TemplatePart) : Option Text :=
  if ∀ name ∈ slotNames ps, (look name).isSome then
    some (rendered (fun name => (look name).getD []) ps) else none

/-- A text that nothing is read in. -/
def verbatim (t : Text) : List TemplatePart := t.map .char

theorem closeSlot_toOption (start : ℕ) (read : Text) (stop : ℕ) :
    (closeSlot start read stop).toOption =
      (slotName? read).map fun name => ⟨name, start, stop⟩ := by
  unfold slotName? closeSlot
  dsimp only
  split_ifs <;> rfl

theorem parts_skip {c : Char} {rest : Text} (h : ∀ u, c = '{' → rest = '{' :: u → False) :
    parts none (c :: rest) = (parts none rest).map (.char c :: ·) := by
  rw [parts]
  exact h

theorem parts_read {read rest : Text} {c d : Char} (h : c = '}' → d = '}' → False) :
    parts (some read) (c :: d :: rest) =
      if c = '\n' then none else parts (some (read ++ [c])) (d :: rest) := by
  rw [parts]
  exact h

/-- A reference ends on its line. -/
theorem parts_line (state : Option Text) (x y : Text) :
    parts state (x ++ '\n' :: y) = (parts state x).bind fun a =>
      (parts none y).map fun b => a ++ .char '\n' :: b := by
  fun_induction parts state x with
  | case1 rest ih => rw [List.cons_append, List.cons_append, parts, ih]
  | case2 c rest hskip ih =>
      rw [List.cons_append, parts_skip, ih, Option.map_bind, Option.bind_map]
      · congr 1
        funext a
        rw [Function.comp_apply, Option.map_map]
        rfl
      · intro u hc hu
        cases rest with
        | nil => exact absurd (List.cons.inj hu).1 (by decide)
        | cons d rest =>
            obtain rfl := (List.cons.inj hu).1
            exact hskip rest hc rfl
  | case3 =>
      rw [List.nil_append, parts_skip fun u hc _ => absurd hc (by decide)]
      rfl
  | case4 read rest ih =>
      rw [List.cons_append, List.cons_append, parts, ih]
      cases slotName? read with
      | none => rfl
      | some name =>
          simp only [Option.bind_some, Option.map_bind, Option.bind_map]
          congr 1
          funext a
          simp only [Function.comp_apply, Option.map_map, Function.comp_def, List.cons_append]
  | case5 read d rest h =>
      rw [List.cons_append, List.cons_append, parts_read h, if_pos rfl]
      rfl
  | case6 read c d rest h hc ih =>
      rw [List.cons_append, List.cons_append, parts_read h, if_neg hc, ← List.cons_append, ih]
  | case7 t read hclose hread =>
      rw [Option.bind_none]
      cases t with
      | nil =>
          cases y with
          | nil => rfl
          | cons d y =>
              rw [List.nil_append, parts_read fun h _ => absurd h (by decide), if_pos rfl]
      | cons c t =>
          cases t with
          | nil =>
              rw [List.cons_append, List.nil_append, parts_read fun _ h => absurd h (by decide)]
              split_ifs
              · rfl
              · cases y with
                | nil => rfl
                | cons d y => rw [parts_read fun h _ => absurd h (by decide), if_pos rfl]
          | cons d t => exact absurd rfl (hread c d t)

/-! ### Texts without references -/

/-- A text without double braces. -/
def NoBraces : Text → Prop
  | [] => True
  | c :: t => ¬(c = '{' ∧ t.head? = some '{') ∧ NoBraces t

instance (t : Text) : Decidable (NoBraces t) := by
  induction t with
  | nil => exact inferInstanceAs (Decidable True)
  | cons c t ih => exact inferInstanceAs (Decidable (_ ∧ _))

/-- Inside of a reference there is one. -/
theorem slotNames_inside {state : Option Text} {t : Text} {ps : List TemplatePart}
    (h : parts state t = some ps) (hinside : state ≠ none) : slotNames ps ≠ [] := by
  fun_induction parts state t generalizing ps with
  | case1 | case2 | case3 => exact absurd rfl hinside
  | case4 read rest =>
      obtain ⟨name, -, h⟩ := Option.bind_eq_some_iff.mp h
      obtain ⟨qs, -, rfl⟩ := Option.map_eq_some_iff.mp h
      exact List.cons_ne_nil _ _
  | case5 => cases h
  | case6 read c d rest _ _ ih => exact ih h (Option.some_ne_none _)
  | case7 => cases h

/-- A text without braces stands verbatim, and no other has no references. -/
theorem parts_noBraces (t : Text) : NoBraces t ↔ (parts none t).map slotNames = some [] := by
  induction t with
  | nil => exact ⟨fun _ => rfl, fun _ => trivial⟩
  | cons c t ih =>
      by_cases hbraces : c = '{' ∧ t.head? = some '{'
      · refine ⟨fun h => absurd hbraces h.1, fun h => ?_⟩
        obtain ⟨rfl, hhead⟩ := hbraces
        obtain ⟨u, rfl⟩ := List.head?_eq_some_iff.mp hhead
        rw [parts] at h
        obtain ⟨ps, hps, hnames⟩ := Option.map_eq_some_iff.mp h
        exact absurd hnames (slotNames_inside hps (Option.some_ne_none _))
      · rw [NoBraces, parts_skip, Option.map_map, ih]
        · exact ⟨fun h => h.2, fun h => ⟨hbraces, h⟩⟩
        · rintro u rfl rfl
          exact hbraces ⟨rfl, rfl⟩

theorem parts_verbatim {t : Text} (h : NoBraces t) : parts none t = some (verbatim t) := by
  induction t with
  | nil => rfl
  | cons c t ih =>
      obtain ⟨hown, h⟩ := h
      rw [parts_skip, ih h]
      · rfl
      · rintro u rfl rfl
        exact hown ⟨rfl, rfl⟩

/-! ### What a scan finds -/

/-- What was read since the braces. -/
def ScanState.read? : ScanState → Option Text
  | .outside => none
  | .inside _ read => some read

/-- The text that is still to come of a scan at `pos`. -/
def comingText (whole : Text) (look : SlotValues) (pos : ℕ) : ScanState → List SlotRef → Text
  | .outside, refs => substitute whole look pos refs
  | .inside .., [] => []
  | .inside .., r :: refs => (look r.name).getD [] ++ substitute whole look r.stop refs

/-- Where the first reference of a scan stands. -/
def FirstAt (pos : ℕ) : ScanState → List SlotRef → Prop
  | .outside, refs => ∀ r ∈ refs.head?, pos ≤ r.start
  | .inside start _, refs => ∃ r ∈ refs.head?, r.start = start

/-- What a scan of `t`, the text from `pos` on, means. -/
def Meant (look : SlotValues) (whole t : Text) (pos : ℕ) (state : ScanState) :
    Except SlotError (List SlotRef) → Prop
  | .error _ => parts state.read? t = none
  | .ok refs => FirstAt pos state refs ∧ ∃ ps, parts state.read? t = some ps ∧
      slotNames ps = refs.map SlotRef.name ∧
      rendered (fun name => (look name).getD []) ps = comingText whole look pos state refs

theorem drop_next {whole a rest : Text} {pos : ℕ} (h : whole.drop pos = a ++ rest) :
    whole.drop (pos + a.length) = rest := by
  rw [← List.drop_drop, h, List.drop_left]

/-- **A scan finds the references among the parts**, and where they stand. -/
theorem meant_scanFrom (look : SlotValues) (pos : ℕ) (state : ScanState) (t : Text) {whole : Text}
    (hwhole : whole.drop pos = t) : Meant look whole t pos state (scanFrom pos state t) := by
  fun_induction scanFrom pos state t with
  | case1 pos rest ih =>
      have hnext := ih (drop_next (a := ['{', '{']) hwhole)
      cases hscan : scanFrom (pos + 2) (.inside pos []) rest with
      | error e =>
          rw [hscan] at hnext
          exact hnext
      | ok refs =>
          rw [hscan] at hnext
          obtain ⟨⟨r, hr, hstart⟩, ps, hps, hnames, htext⟩ := hnext
          obtain ⟨refs, rfl⟩ := List.head?_eq_some_iff.mp hr
          refine ⟨fun r' hr' => ?_, ps, hps, hnames, htext.trans ?_⟩
          · obtain rfl := Option.some.inj hr'
            exact hstart.ge
          · have hempty : slice whole ⟨pos, r.start⟩ = [] := by rw [hstart, slice_empty]
            rw [comingText, comingText, substitute, hempty, List.nil_append]
  | case2 pos c rest hskip ih =>
      have hdrop : whole.drop (pos + 1) = rest := drop_next (a := [c]) hwhole
      have hnext := ih hdrop
      cases hscan : scanFrom (pos + 1) .outside rest with
      | error e =>
          rw [hscan] at hnext
          show parts none (c :: rest) = none
          rw [parts_skip hskip, show parts none rest = none from hnext]
          rfl
      | ok refs =>
          rw [hscan] at hnext
          obtain ⟨hfirst, ps, hps, hnames, htext⟩ := hnext
          refine ⟨fun r hr => (Nat.le_succ pos).trans (hfirst r hr), .char c :: ps, ?_, hnames, ?_⟩
          · show parts none (c :: rest) = _
            rw [parts_skip hskip, show parts none rest = some ps from hps]
            rfl
          · show c :: rendered _ ps = _
            rw [htext]
            cases refs with
            | nil => rw [comingText, comingText, substitute, substitute, hwhole, hdrop]
            | cons r refs =>
                have hle : pos + 1 ≤ r.start := hfirst r rfl
                obtain ⟨k, hk⟩ := Nat.exists_eq_add_of_le hle
                rw [comingText, comingText, substitute, substitute, slice, slice, hwhole, hdrop, hk,
                  show pos + 1 + k - pos = k + 1 by omega, show pos + 1 + k - (pos + 1) = k by omega,
                  List.take_succ_cons]
                rfl
  | case3 pos =>
      refine ⟨?_, [], rfl, rfl, ?_⟩
      · intro r hr
        cases hr
      · rw [comingText, substitute, hwhole]
        rfl
  | case4 pos start read rest e he =>
      have hname : slotName? read = none := by
        have hnone := closeSlot_toOption start read (pos + 2)
        rw [he] at hnone
        exact Option.map_eq_none_iff.mp hnone.symm
      show parts (some read) _ = none
      rw [parts, hname]
      rfl
  | case5 pos start read rest r hr e he ih =>
      have hnext := ih (drop_next (a := ['}', '}']) hwhole)
      rw [he] at hnext
      show parts (some read) _ = none
      rw [parts, show parts none rest = none from hnext]
      cases slotName? read with
      | none => rfl
      | some name => rfl
  | case6 pos start read rest r hr refs hrefs ih =>
      have hnext := ih (drop_next (a := ['}', '}']) hwhole)
      rw [hrefs] at hnext
      obtain ⟨-, ps, hps, hnames, htext⟩ := hnext
      have hclose := closeSlot_toOption start read (pos + 2)
      rw [hr] at hclose
      obtain ⟨name, hname, hslot⟩ := Option.map_eq_some_iff.mp hclose.symm
      obtain rfl := hslot
      refine ⟨⟨_, rfl, rfl⟩, .slot name :: ps, ?_, ?_, ?_⟩
      · show parts (some read) _ = _
        rw [parts, hname, Option.bind_some, show parts none rest = some ps from hps]
        rfl
      · show name :: slotNames ps = _
        rw [hnames, List.map_cons]
      · show (look name).getD [] ++ rendered _ ps = _
        rw [htext, comingText, comingText]
  | case7 pos start read d rest h =>
      show parts (some read) _ = none
      rw [parts_read h, if_pos rfl]
  | case8 pos start read c d rest h hc ih =>
      have hnext := ih (drop_next (a := [c]) hwhole)
      have hread : parts (some read) (c :: d :: rest) =
          parts (some (read ++ [c])) (d :: rest) := by rw [parts_read h, if_neg hc]
      cases hscan : scanFrom (pos + 1) (.inside start (read ++ [c])) (d :: rest) with
      | error e =>
          rw [hscan] at hnext
          exact hread.trans hnext
      | ok refs =>
          rw [hscan] at hnext
          obtain ⟨hfirst, ps, hps, hnames, htext⟩ := hnext
          refine ⟨hfirst, ps, hread.trans hps, hnames, htext.trans ?_⟩
          cases refs with
          | nil => rfl
          | cons r refs => rfl
  | case9 t pos start read h h' =>
      show parts (some read) _ = none
      rw [parts]
      · exact h
      · exact h'

/-- The names that a scan finds. -/
def scannedNames (template : Text) : Option (List Text) :=
  (scan template).toOption.map (List.map SlotRef.name)

theorem scannedNames_eq (template : Text) :
    scannedNames template = (parts none template).map slotNames := by
  have hmeant := meant_scanFrom (fun _ => none) 0 .outside template
    (show template.drop 0 = template from rfl)
  cases hscan : scan template with
  | error e =>
      rw [show scanFrom 0 .outside template = .error e from hscan] at hmeant
      rw [scannedNames, hscan, show parts none template = none from hmeant]
      rfl
  | ok refs =>
      rw [show scanFrom 0 .outside template = .ok refs from hscan] at hmeant
      obtain ⟨-, ps, hps, hnames, -⟩ := hmeant
      rw [scannedNames, hscan, show parts none template = some ps from hps, Option.map_some, hnames]
      rfl

/-! ### Compiling -/

/-- The value of a known slot. -/
def knownValue (values : SlotValues) (registry : List Text) (name : Text) : Option Text :=
  if isKnownSlot name registry then values name else none

theorem nameSet_eq_nil_iff (names : List Text) : nameSet names = [] ↔ names = [] := by
  rw [nameSet, ← List.length_eq_zero_iff, List.length_insertionSort, List.length_eq_zero_iff]
  simp only [List.eq_nil_iff_forall_not_mem, List.mem_dedup]

/-- The report of a dry run has nothing to say against the references. -/
theorem dryRun_ok {template : Text} (values : SlotValues) (registry : List Text)
    {refs : List SlotRef} (h : scan template = .ok refs) : ∃ report,
    dryRun template values registry = .ok report ∧
      (report.ok = true ↔ ∀ r ∈ refs, (knownValue values registry r.name).isSome = true) := by
  refine ⟨_, by rw [dryRun, h], ?_⟩
  simp only [DryRunReport.ok, Bool.and_eq_true, decide_eq_true_eq, nameSet_eq_nil_iff,
    List.filter_eq_nil_iff, List.forall_mem_map]
  rw [← forall₂_and]
  refine forall₂_congr fun r _ => ?_
  rw [knownValue]
  cases isKnownSlot r.name registry with
  | false => simp
  | true => cases values r.name <;> simp

theorem knownValue_of_isSome {values : SlotValues} {registry : List Text} {name : Text}
    (h : (knownValue values registry name).isSome) :
    knownValue values registry name = values name := by
  rw [knownValue] at h ⊢
  split_ifs at h ⊢
  · rfl
  · cases h

theorem rendered_congr {look look' : Text → Text} {ps : List TemplatePart}
    (h : ∀ name ∈ slotNames ps, look name = look' name) : rendered look ps = rendered look' ps := by
  induction ps with
  | nil => rfl
  | cons p ps ih =>
      cases p with
      | char c => exact congrArg (c :: ·) (ih h)
      | slot name =>
          obtain ⟨hname, hps⟩ := List.forall_mem_cons.mp h
          exact congrArg₂ (· ++ ·) hname (ih hps)

theorem fill_congr {look look' : Text → Option Text} {ps : List TemplatePart}
    (h : ∀ name ∈ slotNames ps, look name = look' name) : fill look ps = fill look' ps := by
  rw [fill, fill, rendered_congr fun name hname => congrArg (Option.getD · []) (h name hname)]
  congr 1
  exact propext (forall₂_congr fun name hname => by rw [h name hname])

theorem slotNames_append (a b : List TemplatePart) :
    slotNames (a ++ b) = slotNames a ++ slotNames b := List.filterMap_append

theorem slotNames_verbatim (t : Text) : slotNames (verbatim t) = [] := by
  rw [slotNames, verbatim, List.filterMap_map]
  exact List.filterMap_eq_nil_iff.mpr fun _ _ => rfl

theorem fill_append (look : Text → Option Text) (a b : List TemplatePart) :
    fill look (a ++ b) = (fill look a).bind fun s => (fill look b).map (s ++ ·) := by
  simp only [fill, slotNames_append, List.forall_mem_append]
  by_cases ha : ∀ name ∈ slotNames a, (look name).isSome
  · by_cases hb : ∀ name ∈ slotNames b, (look name).isSome
    · rw [if_pos ⟨ha, hb⟩, if_pos ha, if_pos hb]
      exact congrArg some List.flatMap_append
    · rw [if_neg fun h => hb h.2, if_neg hb, if_pos ha]
      rfl
  · rw [if_neg fun h => ha h.1, if_neg ha]
    rfl

theorem fill_verbatim (look : Text → Option Text) (t : Text) : fill look (verbatim t) = some t := by
  rw [fill, slotNames_verbatim, if_pos (by simp), rendered, verbatim, List.flatMap_map]
  exact congrArg some (List.flatMap_singleton' t)

/-- **Compiling a template** fills in its parts, if all slots are known and have values. -/
theorem compileSlots_toOption (template : Text) (values : SlotValues) (registry : List Text) :
    (compileSlots template values registry).toOption =
      (parts none template).bind (fill (knownValue values registry)) := by
  have hmeant := meant_scanFrom values 0 .outside template
    (show template.drop 0 = template from rfl)
  cases hscan : scan template with
  | error e =>
      rw [show scanFrom 0 .outside template = .error e from hscan] at hmeant
      rw [compileSlots, dryRun, hscan, show parts none template = none from hmeant]
      rfl
  | ok refs =>
      rw [show scanFrom 0 .outside template = .ok refs from hscan] at hmeant
      obtain ⟨-, ps, hps, hnames, htext⟩ := hmeant
      obtain ⟨report, hreport, hok⟩ := dryRun_ok values registry hscan
      have hall : report.ok = true ↔
          ∀ name ∈ slotNames ps, (knownValue values registry name).isSome := by
        rw [hok, hnames, List.forall_mem_map]
      rw [show parts none template = some ps from hps, Option.bind_some, compileSlots, hreport, hscan,
        fill]
      dsimp only
      split_ifs with hbad hvalues hvalues
      · exact absurd (hall.mpr hvalues) (by rw [hbad]; exact Bool.false_ne_true)
      · rfl
      · rw [rendered_congr fun name hname =>
          congrArg (Option.getD · []) (knownValue_of_isSome (hvalues name hname)), htext]
        rfl
      · exact absurd (hall.mp (by simpa using hbad)) hvalues

end Orgasmic
