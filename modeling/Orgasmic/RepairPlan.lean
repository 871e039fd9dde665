import Orgasmic.Inventory
import Orgasmic.LedgerHandles
import Orgasmic.OrgParser

/-! # Plans of a task-id repair

A plan gives each malformed task id a new one and lists every file of the checkpoint: where it goes,
and its text after the rewrite of the references in it.

* **Ids.** `isValidTaskPathId`; `replaceRefs` replaces the exact local references.
* **Writes.** `plannedWrites`, each with a reserved `stagingPath` beside it.
* **Validation.** `validatePlan` compares a plan with the tree of its checkpoint. -/

namespace Orgasmic

open Text

/-! ### Ids and references -/

def isCrockfordChar (c : Char) : Bool :=
  c.isDigit || (c.isUpper && c ≠ 'I' && c ≠ 'L' && c ≠ 'O' && c ≠ 'U')

def isMintedStem (stem : Text) : Bool :=
  stem.length = 5 && stem.all isCrockfordChar && stem.any Char.isAlpha

def isLegacyNumericTaskStem (stem : Text) : Bool := stem ≠ [] && stem.all Char.isDigit

/-- `TASK-<stem>` or `TASK-<stem>.<n>…`. -/
def isValidTaskPathId (value : Text) : Bool :=
  match "TASK-".toList.isPrefixOf? value with
  | none => false
  | some rest =>
      match rest.splitOn '.' with
      | [] => false
      | first :: parts =>
          (isLegacyNumericTaskStem first || isMintedStem first) &&
            parts.all fun part => part ≠ [] && part.all Char.isDigit

def validateComponent (value : Text) : Bool :=
  value ≠ [] && value ≠ ".".toList && value ≠ "..".toList &&
    value.all fun c => c ≠ '/' && c ≠ '\\' && !isControl c

/-- The directories of a ledger that are no collections of nodes. -/
def infrastructure : List Text :=
  ["machines", "project", "goal", "handoff", "task", "decision", "term", "artifact", "tx", "tmp",
    "views", "attachments", "chat", "conventions", "schema", "skills", "prompts", "plugins",
    "sessions", "runs", "dispatches", "dispatch-records", "repairs", "claims", "hooks", "config",
    "history"].map String.toList

def isNodeCollection (name : Text) : Bool :=
  validateComponent name && name ∉ infrastructure && name.head? ≠ some '.'

/-- Whether the references in a file are current ones. -/
def currentFile : FilePath → Bool
  | [dotorg, collection, _, file] =>
      dotorg = ".orgasmic".toList && file = "node.org".toList && isNodeCollection collection
  | [dotorg, collection, file] =>
      dotorg = ".orgasmic".toList &&
        collection ∈ ["tasks".toList, "decisions".toList, "glossary".toList] &&
        ".org".toList.isSuffixOf file
  | _ => false

def refToken (c : Char) : Bool := c.isAlphanum || c = '_' || c = '-' || c = '.'

/-- Whether a match is left as it is; `seen` is the text before it, backwards. -/
def keepsRef (project seen suffix : Text) : Bool :=
  let continuation := match suffix with
    | [] => false
    | c :: rest => (refToken c && c ≠ '.') || (c = '.' && rest.head?.any refToken)
  let foreign := match seen with
    | ':' :: before =>
        let owner := (before.takeWhile refToken).reverse
        owner ≠ [] && owner ≠ project
    | _ => false
  seen.head?.any refToken || continuation || foreign

/-- Replace `old` by `new`; `n` is what is left of a match that is kept or replaced. -/
def replaceRef (project old new : Text) : ℕ → Bool → Text → Text → Text
  | _, _, _, [] => []
  | n + 1, kept, seen, c :: rest =>
      let out := replaceRef project old new n kept (c :: seen) rest
      if kept then c :: out else out
  | 0, _, seen, c :: rest =>
      match old.isPrefixOf? (c :: rest) with
      | none => c :: replaceRef project old new 0 true (c :: seen) rest
      | some suffix =>
          if keepsRef project seen suffix then
            c :: replaceRef project old new (old.length - 1) true (c :: seen) rest
          else new ++ replaceRef project old new (old.length - 1) false (c :: seen) rest

/-- Exact local ids only: no descendants, no prefixes and no references to other projects. -/
def replaceRefs (source : Text) (mapping : List (Text × Text)) (project : Text) : Text :=
  mapping.foldl (fun out m => replaceRef project m.1 m.2 0 true [] out) source

example : replaceRefs "TASK-CLM6W. TASK-CLM6W.1 TASK-CLM6WX xTASK-CLM6W other:TASK-CLM6W".toList
    [("TASK-CLM6W".toList, "TASK-ABCDE".toList)] "p".toList =
      "TASK-ABCDE. TASK-CLM6W.1 TASK-CLM6WX xTASK-CLM6W other:TASK-CLM6W".toList := by
  decide

/-! ### Plans -/

structure PlannedFile where
  source : FilePath
  target : FilePath
  sha256 : Text
  mode : Text
  oid : Text
  after : Option Text
  afterOid : Text
deriving DecidableEq, Repr

structure Plan where
  project : Text
  checkpoint : Text
  mapping : List (Text × Text)
  files : List PlannedFile
  recordPath : FilePath
  record : Text
  recordOid : Text
  distinct : (mapping.map Prod.fst).Nodup

/-- An entry of a git tree or of the index. -/
structure GitBlob where
  mode : Text
  bytes : Bytes
deriving DecidableEq, Repr

/-- What the repair calls. -/
structure RepairTools where
  sha256 : Bytes → Text
  /-- `git hash-object`. -/
  blobOid : Bytes → Text
  /-- `--exclude-standard`. -/
  ignored : FilePath → Bool
  /-- The id of a commit, of its parent and its tree. -/
  commitId : Text → Inventory FilePath GitBlob → Text

/-- The directory of a task. -/
def taskDir (id : Text) : FilePath := [".orgasmic".toList, "tasks".toList, id]

/-- The way from a directory to what is below it. -/
def below? (dir path : FilePath) : Option FilePath :=
  (dir.isPrefixOf? path).filter (· ≠ [])

def pathText (path : FilePath) : Text := ['/'].intercalate path

def safeRelative (path : FilePath) : Bool :=
  path ≠ [] && path.all fun c => c ≠ [] && c ≠ ".".toList && c ≠ "..".toList && '/' ∉ c

namespace Plan

/-- Every text that a repair writes, with its path. -/
def plannedWrites (plan : Plan) : List (FilePath × Text) :=
  (plan.files.filterMap fun file => file.after.map fun text => (file.target, text)) ++
    [(plan.recordPath, plan.record)]

/-- Where a text is written first. -/
def stagingPath (tools : RepairTools) (plan : Plan) (path : FilePath) : FilePath :=
  path.dropLast ++ [".orgasmic-repair-".toList ++
    (tools.sha256 (utf8 (pathText plan.recordPath))).take 16 ++ "-".toList ++ path.getLastD []]

/-- Where the mapping moves a file. -/
def expectedTarget (mapping : List (Text × Text)) (source : FilePath) : FilePath :=
  mapping.foldl (fun expected m => match below? (taskDir m.1) source with
    | some tail => taskDir m.2 ++ tail
    | none => expected) source

/-- A malformed id and its new one. -/
def validMapping (m : Text × Text) : Bool :=
  m.1.length = 10 && "TASK-".toList.isPrefixOf m.1 && (m.1.drop 5).all Char.isAlphanum &&
    !isValidTaskPathId m.1 && isValidTaskPathId m.2

def validRecordPath (path : FilePath) : Bool :=
  safeRelative path && ".json".toList.isSuffixOf (path.getLastD []) &&
    match path with
    | dotorg :: repairs :: name :: _ =>
        dotorg = ".orgasmic".toList && repairs = "repairs".toList &&
          "task-ids-".toList.isPrefixOf name
    | _ => false

/-- The object ids of a tree, with the modes. -/
def stamps (tools : RepairTools) (tree : Inventory FilePath GitBlob) :
    Inventory FilePath (Text × Text) :=
  tree.map fun blob => (blob.mode, tools.blobOid blob.bytes)

def validFile (tools : RepairTools) (tree : Inventory FilePath GitBlob) (plan : Plan)
    (file : PlannedFile) : Bool :=
  safeRelative file.source && safeRelative file.target && plan.mapping.all validMapping &&
    (match file.after with
      | some after =>
          (match (tree.find file.source).bind fun blob => readToString blob.bytes with
            | some before =>
                tools.sha256 (utf8 before) = file.sha256 &&
                  replaceRefs before plan.mapping plan.project = after &&
                  tools.blobOid (utf8 after) = file.afterOid
            | none => false)
      | none => file.oid = file.afterOid) &&
    expectedTarget plan.mapping file.source = file.target &&
    (file.after.isNone || currentFile file.source)

/-- `validate_plan`; `tree` is that of the checkpoint. -/
def validatePlan (tools : RepairTools) (tree : Inventory FilePath GitBlob) (plan : Plan) : Bool :=
  validRecordPath plan.recordPath &&
    (plan.checkpoint.length = 40 || plan.checkpoint.length = 64) &&
    plan.checkpoint.all (fun c => c ∈ "0123456789abcdefABCDEF".toList) &&
    (plan.files.map PlannedFile.source).Nodup &&
    (Inventory.ofList (plan.files.map fun file => (file.source, file.mode, file.oid))).agrees
      (stamps tools tree) &&
    plan.files.all (validFile tools tree plan) &&
    (plan.files.map PlannedFile.target).Nodup &&
    plan.recordPath ∉ plan.files.map PlannedFile.target

end Plan

end Orgasmic
