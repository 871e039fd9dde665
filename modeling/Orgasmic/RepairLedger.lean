import Orgasmic.RepairPlan

/-! # Task-id repair of a ledger

`apply_plan` renames directories, writes texts through staged files, adds a record and commits.  It
can be cut short after any of these steps; the next run starts from what is there.

* **Git.** The index and `HEAD`, each git command in one step.  A failed command changes nothing.
* **Directories** are those of their files, apart from the one of the record.
* **`verifyState`** is what a run checks at its start, before the commit and at its end. -/

namespace Orgasmic

open Text

structure WorkFile where
  bytes : Bytes
  executable : Bool
deriving DecidableEq, Repr

structure Commit where
  id : Text
  parent : Option Text
  tree : Inventory FilePath GitBlob

structure RepairLedger where
  files : Inventory FilePath WorkFile
  /-- The directory of the record has been created. -/
  recordDir : Bool
  index : Inventory FilePath GitBlob
  head : Commit

def gitMode (executable : Bool) : Text := if executable then "100755".toList else "100644".toList

/-- What `git add` makes of a file. -/
def WorkFile.blob (file : WorkFile) : GitBlob := ⟨gitMode file.executable, file.bytes⟩

def GitBlob.stamp (tools : RepairTools) (blob : GitBlob) : Text × Text :=
  (blob.mode, tools.blobOid blob.bytes)

/-- `TaskHeading::from_heading` of the one heading of a file, for its id. -/
def taskHeadingId (file : OrgFile) : Option Text :=
  match file.headings with
  | [heading] =>
      match heading.property "ID".toList, heading.todo with
      | some id, some todo =>
          let stages := ["backlog", "todo", "in_progress", "in_review", "done", "cancelled"]
          let flags := ["allow_exec", "allow_patch", "allow_network", "allow_writes_outside_cwd"]
          let sandbox := match heading.property "SANDBOX_PERMISSIONS".toList with
            | none => true
            | some csv => trim csv ≠ [] && ((trim csv).splitOn ',').all fun part =>
                trim part = [] || match (trim part).span (· ≠ '=') with
                  | (key, '=' :: value) => trim key ∈ flags.map String.toList &&
                      trim value ∈ ["true".toList, "false".toList]
                  | _ => false
          if todo.map Char.toLower ∈ stages.map String.toList && sandbox then some id else none
      | _, _ => none
  | _ => none

namespace RepairLedger

def present (s : RepairLedger) (path : FilePath) : Bool := (s.files.find path).isSome

/-- The directory has something in it. -/
def hasDir (s : RepairLedger) (dir : FilePath) : Bool :=
  s.files.any fun path _ => (below? dir path).isSome

/-- Where a planned file is. -/
def place (s : RepairLedger) (file : PlannedFile) : FilePath :=
  if file.source ≠ file.target && !s.present file.source then file.target else file.source

/-- `git diff --cached` has nothing to say. -/
def nothingStaged (tools : RepairTools) (s : RepairLedger) : Bool :=
  (Plan.stamps tools s.index).agrees (Plan.stamps tools s.head.tree)

/-- `git status` has nothing to say. -/
def statusClean (tools : RepairTools) (s : RepairLedger) : Bool :=
  s.nothingStaged tools &&
    (s.index.all fun path blob =>
      (s.files.find path).any fun file => file.blob.stamp tools = blob.stamp tools) &&
    s.files.all fun path _ => (s.index.find path).isSome || tools.ignored path

/-! ### The checks of a run -/

variable (tools : RepairTools) (plan : Plan)

/-- The paths that the repair knows, in this state. -/
def actualPaths (s : RepairLedger) : List FilePath :=
  plan.files.map s.place ++ [plan.recordPath].filter s.present ++
    (plan.plannedWrites.map fun write => plan.stagingPath tools write.1).filter s.present

def headOk (s : RepairLedger) : Bool :=
  s.head.id = plan.checkpoint ||
    (s.head.parent = some plan.checkpoint &&
      ((s.head.tree.find plan.recordPath).bind fun blob => readToString blob.bytes) =
        some plan.record &&
      s.statusClean tools)

def fileOk (final : Bool) (s : RepairLedger) (file : PlannedFile) : Bool :=
  (file.source = file.target ||
    (s.present file.source != s.present file.target && !(s.present file.source && final))) &&
  (s.files.find (s.place file)).any fun found =>
    found.executable = decide (file.mode = "100755".toList) &&
      let before : Bool := tools.sha256 found.bytes = file.sha256
      let after : Bool := file.after.any fun text => found.bytes = utf8 text
      (before && (!final || file.after.isNone)) || after

def recordOk (final : Bool) (s : RepairLedger) : Bool :=
  match s.files.find plan.recordPath with
  | some found => found.bytes = utf8 plan.record
  | none => !final

/-- The index before `git add`. -/
def expectedInitial : Inventory FilePath (Text × Text) :=
  .ofList (plan.files.map fun file => (file.source, file.mode, file.oid))

/-- The index after it. -/
def expectedFinal : Inventory FilePath (Text × Text) :=
  .ofList ((plan.recordPath, "100644".toList, plan.recordOid) ::
    plan.files.map fun file => (file.target, file.mode, file.afterOid))

def indexOk (s : RepairLedger) : Bool :=
  (s.index.all fun path blob => safeRelative path &&
    blob.mode ∈ ["100644".toList, "100755".toList]) &&
  ((Plan.stamps tools s.index).agrees (expectedInitial plan) ||
    (Plan.stamps tools s.index).agrees (expectedFinal plan))

def stagingOk (final : Bool) (s : RepairLedger) (write : FilePath × Text) : Bool :=
  match s.files.find (plan.stagingPath tools write.1) with
  | some found => found.bytes.isPrefixOf (utf8 write.2) && !final
  | none => true

def untrackedOk (s : RepairLedger) : Bool :=
  s.files.all fun path _ => (s.index.find path).isSome || tools.ignored path ||
    path ∈ s.actualPaths tools plan

/-- `verify_directory` of a task. -/
def directoryOk (s : RepairLedger) (id : Text) : Bool :=
  s.files.all fun path _ => !(taskDir id).isPrefixOf path ||
    (path ≠ taskDir id && path ∈ s.actualPaths tools plan)

/-- The new nodes have their ids, and no current file has a malformed reference. -/
def contentOk (s : RepairLedger) : Bool :=
  let read (path : FilePath) := (s.files.find path).bind fun found => readToString found.bytes
  (plan.mapping.all fun m =>
    match read (taskDir m.2 ++ ["node.org".toList]) with
    | some text =>
        match OrgFile.parse text [] with
        | .ok file => taskHeadingId file = some m.2 && isValidTaskPathId m.2
        | .error _ => false
    | none => false) &&
  plan.files.all fun file => !currentFile file.target ||
    (read file.target).any fun text => replaceRefs text plan.mapping plan.project = text

def verifyState (s : RepairLedger) (final : Bool) : Bool :=
  s.headOk tools plan && plan.files.all (fileOk tools final s) && s.recordOk plan final &&
    s.indexOk tools plan && plan.plannedWrites.all (s.stagingOk tools plan final) &&
    s.untrackedOk tools plan &&
    (plan.mapping.all fun m => s.directoryOk tools plan m.1 && s.directoryOk tools plan m.2) &&
    (!final || s.contentOk plan)

/-! ### The steps of a run -/

/-- Something is there, a file or a directory with files. -/
def holds (s : RepairLedger) (dir : FilePath) : Bool :=
  s.files.any fun path _ => dir.isPrefixOf path

def moveTo (old new path : FilePath) : FilePath :=
  match old.isPrefixOf? path with
  | some tail => new ++ tail
  | none => path

/-- Where a path comes from when `old` has become `new`. -/
def moveBack (old new path : FilePath) : Option FilePath :=
  match new.isPrefixOf? path with
  | some tail => some (old ++ tail)
  | none => if old.isPrefixOf path then none else some path

theorem moveTo_of_moveBack {old new path path' : FilePath} (h : moveBack old new path = some path') :
    moveTo old new path' = path := by
  unfold moveBack at h
  split at h
  · next tail was =>
      obtain rfl := Option.some.inj h
      rw [List.isPrefixOf?_eq_some_iff_append_eq] at was
      have tail' : old.isPrefixOf? (old ++ tail) = some tail := by
        rw [List.isPrefixOf?_eq_some_iff_append_eq]
      unfold moveTo
      rw [tail']
      exact was
  · split at h
    · cases h
    · next outside =>
        obtain rfl := Option.some.inj h
        unfold moveTo
        split
        · next tail inside =>
            rw [List.isPrefixOf?_eq_some_iff_append_eq] at inside
            exact absurd (List.isPrefixOf_iff_prefix.mpr ⟨tail, inside⟩) outside
        · rfl

/-- The directory `old` renamed. -/
def moved (s : RepairLedger) (old new : FilePath) : RepairLedger :=
  { s with files := s.files.rename (moveTo old new) (moveBack old new) moveTo_of_moveBack }

/-- The staged text at its place. -/
def persisted (s : RepairLedger) (path : FilePath) (text : Text) (executable : Bool) :
    RepairLedger :=
  { s with
    files := (s.files.remove (plan.stagingPath tools path)).put path ⟨utf8 text, executable⟩ }

def staged (s : RepairLedger) (path : FilePath) (file : WorkFile) : RepairLedger :=
  { s with files := s.files.put (plan.stagingPath tools path) file }

/-- `repair_atomic_write`: the states that it goes through, and whether it succeeds. -/
def repairAtomicWrite (s : RepairLedger) (path : FilePath) (text : Text) (executable : Bool) :
    List RepairLedger × Bool :=
  let opened := (s.files.find (plan.stagingPath tools path)).getD ⟨[], false⟩
  if opened.bytes.isPrefixOf (utf8 text) then
    ([s.staged tools plan path opened, s.staged tools plan path ⟨opened.bytes, executable⟩] ++
      ((List.range ((utf8 text).length + 1)).map fun n =>
        s.staged tools plan path ⟨(utf8 text).take n, executable⟩) ++
      [s.persisted tools plan path text executable], true)
  else ([], false)

/-- What a repair adds to the index. -/
def changedPaths : List FilePath :=
  plan.recordPath :: (plan.files.filter fun file =>
    decide (file.source ≠ file.target) || file.after.isSome).flatMap fun file =>
      [file.source, file.target]

/-- `git add -A` of some paths. -/
def gitAdd (s : RepairLedger) (paths : List FilePath) : Option RepairLedger :=
  if paths.all fun path => (s.index.find path).isSome ||
      (s.present path && !tools.ignored path) then
    some { s with
      index := s.index.replace paths fun path => (s.files.find path).map WorkFile.blob }
  else none

def gitCommit (s : RepairLedger) : Option RepairLedger :=
  if s.nothingStaged tools then none
  else some { s with head := ⟨tools.commitId s.head.id s.index, some s.head.id, s.index⟩ }

end RepairLedger

inductive RepairStep
  | verify
  | move (old new : Text)
  | write (path : FilePath) (text : Text)
  | createRecordDir
  | writeRecord
  | add
  | commit
  | finish
deriving DecidableEq, Repr

namespace RepairStep

variable (tools : RepairTools) (plan : Plan)

/-- The states that a step goes through, and whether the run goes on. -/
def trace (s : RepairLedger) : RepairStep → List RepairLedger × Bool
  | .verify => ([], s.verifyState tools plan false)
  | .move old new =>
      if !s.holds (taskDir old) then ([], true)
      else if s.holds (taskDir new) then ([], false)
      else ([s.moved (taskDir old) (taskDir new)], true)
  | .write path text =>
      match s.files.find path with
      | none => ([], false)
      | some found =>
          if found.bytes ≠ utf8 text ∨ s.present (plan.stagingPath tools path) then
            s.repairAtomicWrite tools plan path text found.executable
          else ([], true)
  | .createRecordDir =>
      let parent := plan.recordPath.dropLast
      if s.hasDir parent || s.recordDir then ([], true)
      else if s.hasDir parent.dropLast then ([{ s with recordDir := true }], true)
      else ([], false)
  | .writeRecord =>
      if !s.present plan.recordPath || s.present (plan.stagingPath tools plan.recordPath) then
        s.repairAtomicWrite tools plan plan.recordPath plan.record false
      else ([], true)
  | .add =>
      if !s.verifyState tools plan true then ([], false)
      else if s.head.id = plan.checkpoint ∧ s.nothingStaged tools then
        match s.gitAdd tools (RepairLedger.changedPaths plan) with
        | some t => ([t], true)
        | none => ([], false)
      else ([], true)
  | .commit =>
      if s.head.id ≠ plan.checkpoint then ([], true)
      else if !s.verifyState tools plan true then ([], false)
      else
        match s.gitCommit tools with
        | some t => ([t], true)
        | none => ([], false)
  | .finish => ([], s.verifyState tools plan true && s.statusClean tools)

/-- The states that some steps go through, up to the first that fails. -/
def traceAll : List RepairStep → RepairLedger → List RepairLedger × Bool
  | [], _ => ([], true)
  | step :: rest, s =>
      let (states, goesOn) := step.trace tools plan s
      if goesOn then
        let (later, ends) := traceAll rest (states.getLastD s)
        (states ++ later, ends)
      else (states, false)

end RepairStep

namespace Plan

variable (tools : RepairTools) (plan : Plan)

def steps : List RepairStep :=
  [.verify] ++ (plan.mapping.map fun m => .move m.1 m.2) ++
    (plan.files.filterMap fun file => file.after.map fun text => .write file.target text) ++
    [.createRecordDir, .writeRecord, .add, .commit, .finish]

/-- `apply_plan`. -/
def apply (s : RepairLedger) : List RepairLedger × Bool :=
  RepairStep.traceAll tools plan plan.steps s

/-- Where a run can be cut short. -/
def cuts (s : RepairLedger) : List RepairLedger := s :: (plan.apply tools s).1

/-- The state that a run leaves if it completes. -/
def completed (s : RepairLedger) : Option RepairLedger :=
  if (plan.apply tools s).2 then some ((plan.apply tools s).1.getLastD s) else none

/-- The next run starts where the last one was cut. -/
def resume (s : RepairLedger) (cut : ℕ) : Option RepairLedger := (plan.cuts tools s)[cut]?

end Plan

end Orgasmic
