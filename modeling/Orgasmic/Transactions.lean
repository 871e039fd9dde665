import Orgasmic.LedgerHandles

/-! # File rewrites with ledger rows

`transaction_multi_inner`: a list of file rewrites and a group of rows of one ledger, as one step of
the writer.

* **Answers.** What the file system answers at each step that may fail, and what is minted, is an
  argument (`Answers`); renames of the rollback and single appends succeed.
* **Phases.** Contents are staged beside their targets, the targets backed up, the staged files
  renamed over them, the rows appended and the ledger synced.  An error before the sync rolls the
  renamed files back. -/

namespace Orgasmic

open Text

structure FileRewrite where
  path : FilePath
  newContents : Bytes
deriving DecidableEq, Repr

structure StagedRewrite where
  target : FilePath
  tmp : FilePath
  backup : Option FilePath
deriving DecidableEq, Repr

/-- What the file system answers, by the index of the rewrite, and what is minted for each row. -/
structure Answers where
  /-- The target is a directory, or cannot be opened or locked. -/
  lockFails : ℕ → Bool
  createTmpFails : ℕ → Bool
  /-- What a write that fails leaves behind. -/
  writeTmpFails : ℕ → Option Bytes
  createBackupFails : ℕ → Bool
  copyBackupFails : ℕ → Option Bytes
  verifyFails : Bool
  renameFails : ℕ → Bool
  /-- The path of the ledger still names the file of its handle. -/
  namesWriter : Bool
  createDirFails : Bool
  openLedgerFails : Bool
  syncFails : Bool
  minted : ℕ → Minted

/-- Nothing fails. -/
def Answers.fair (minted : ℕ → Minted) : Answers where
  lockFails _ := false
  createTmpFails _ := false
  writeTmpFails _ := none
  createBackupFails _ := false
  copyBackupFails _ := none
  verifyFails := false
  renameFails _ := false
  namesWriter := true
  createDirFails := false
  openLedgerFails := false
  syncFails := false
  minted := minted

/-! ### Sidecars -/

def safeRequestId (requestId : Text) : Text :=
  requestId.map fun c => if c.isAlphanum || c = '-' || c = '_' || c = '.' then c else '_'

/-- `transaction_sidecar_path` of a path that has a file name. -/
def sidecarPath (path : FilePath) (kind requestId : Text) : FilePath :=
  path.dropLast ++
    [(fileName path).getD [] ++ ".".toList ++ kind ++ ".".toList ++ safeRequestId requestId]

def tmpPath (path : FilePath) (requestId : Text) : FilePath :=
  sidecarPath path "tmp".toList requestId

def backupPath (path : FilePath) (requestId : Text) : FilePath :=
  sidecarPath path "bak".toList requestId

/-! ### Phases -/

/-- The disk and the staged rewrites after a phase, and how it failed. -/
structure Phase where
  disk : Disk
  staged : List StagedRewrite
  failed : Option WriterError

section
variable (answers : Answers) (requestId : Text)

/-- New contents in sidecars, synced. -/
def stageRewrites : ℕ → List FileRewrite → Disk → List StagedRewrite → Phase
  | _, [], disk, staged => ⟨disk, staged, none⟩
  | i, rewrite :: rest, disk, staged =>
      let tmp := tmpPath rewrite.path requestId
      if fileName rewrite.path = none then
        ⟨disk, staged, some (.message "rewrite target has no filename".toList)⟩
      else if answers.createTmpFails i ∨ (disk tmp).isSome then
        ⟨disk, staged, some (.io "create".toList)⟩
      else
        let staged := staged ++ [⟨rewrite.path, tmp, none⟩]
        match answers.writeTmpFails i with
        | some left => ⟨Function.update disk tmp (some left), staged, some (.io "write".toList)⟩
        | none =>
            stageRewrites (i + 1) rest (Function.update disk tmp (some rewrite.newContents)) staged

/-- Copies of the targets that are there. -/
def backUpTargets : ℕ → List StagedRewrite → Disk → List StagedRewrite → Phase
  | _, [], disk, staged => ⟨disk, staged, none⟩
  | i, rewrite :: rest, disk, staged =>
      match disk rewrite.target with
      | none => backUpTargets (i + 1) rest disk (staged ++ [rewrite])
      | some bytes =>
          let backup := backupPath rewrite.target requestId
          if answers.createBackupFails i ∨ (disk backup).isSome then
            ⟨disk, staged ++ rewrite :: rest, some (.io "create".toList)⟩
          else
            let rewrite := { rewrite with backup := some backup }
            match answers.copyBackupFails i with
            | some left =>
                ⟨Function.update disk backup (some left), staged ++ rewrite :: rest,
                  some (.io "copy".toList)⟩
            | none =>
                backUpTargets (i + 1) rest (Function.update disk backup (some bytes))
                  (staged ++ [rewrite])

/-- `rename`; nothing happens if there is no such file. -/
def renameFile (disk : Disk) (source target : FilePath) : Disk :=
  if source = target then disk
  else match disk source with
    | none => disk
    | some bytes => Function.update (Function.update disk target (some bytes)) source none

def removeFile (disk : Disk) (path : FilePath) : Disk := Function.update disk path none

/-- The staged files over their targets; those that were renamed, and how it failed. -/
def renameRewrites : ℕ → List StagedRewrite → Disk → List StagedRewrite → Phase
  | _, [], disk, renamed => ⟨disk, renamed, none⟩
  | i, rewrite :: rest, disk, renamed =>
      if answers.renameFails i ∨ disk rewrite.tmp = none then
        ⟨disk, renamed, some (.io "rename".toList)⟩
      else
        renameRewrites (i + 1) rest (renameFile disk rewrite.tmp rewrite.target)
          (renamed ++ [rewrite])

/-- One target as it was. -/
def restoreTarget (disk : Disk) (rewrite : StagedRewrite) : Disk :=
  match rewrite.backup with
  | some backup => renameFile disk backup rewrite.target
  | none => removeFile disk rewrite.target

def rollbackRenamedRewrites (renamed : List StagedRewrite) (disk : Disk) : Disk :=
  renamed.reverse.foldl restoreTarget disk

def cleanupBackup (disk : Disk) (rewrite : StagedRewrite) : Disk :=
  match rewrite.backup with
  | some backup => removeFile disk backup
  | none => disk

def cleanupStagedRewrites (staged : List StagedRewrite) (disk : Disk) : Disk :=
  staged.foldl (fun disk rewrite => cleanupBackup (removeFile disk rewrite.tmp) rewrite) disk

def cleanupCommittedBackups (staged : List StagedRewrite) (disk : Disk) : Disk :=
  staged.foldl cleanupBackup disk

end

/-! ### Rows -/

/-- The open handles by path. -/
abbrev TxHandles := FilePath → Option CachedTxWriter

/-- `tx_handles_detached_from_paths` for one path. -/
def detach (handles : TxHandles) (path : FilePath) (namesWriter : Bool) : TxHandles :=
  if namesWriter then handles else Function.update handles path none

/-- The handle of a ledger, opened if there is none. -/
def handleAt (handles : TxHandles) (disk : Disk) (path : FilePath) (openFails : Bool) :
    TxHandles × Disk × Except WriterError CachedTxWriter :=
  match handles path with
  | some w => (handles, disk, .ok w)
  | none =>
      if openFails then (handles, disk, .error (.io "open".toList))
      else match CachedTxWriter.openAt disk path with
        | (disk, .error e) => (handles, disk, .error e)
        | (disk, .ok w) => (Function.update handles path (some w), disk, .ok w)

/-- Text at the end of a file. -/
def appendText (disk : Disk) (path : FilePath) (text : Text) : Disk :=
  Function.update disk path (some ((disk path).getD [] ++ utf8 text))

section
variable (isUuid : Text → Bool)

def prepareTxEntries (minted : ℕ → Minted) : ℕ → List TxAppend → Except WriterError (List TxEntry)
  | _, [] => .ok []
  | i, req :: reqs =>
      match prepareTxEntry isUuid (minted i) req with
      | .error e => .error e
      | .ok entry => (prepareTxEntries minted (i + 1) reqs).map (entry :: ·)

/-- `append_txs_inner` for a group of one ledger. -/
def appendTxsInner (answers : Answers) (handles : TxHandles) (disk : Disk) (path : FilePath)
    (reqs : List TxAppend) : TxHandles × Disk × Except WriterError (List TxAppendResult) :=
  let handles := detach handles path answers.namesWriter
  match prepareTxEntries isUuid answers.minted 0 reqs with
  | .error e => (handles, disk, .error e)
  | .ok entries =>
      if answers.createDirFails then (handles, disk, .error (.io "create".toList))
      else match handleAt handles disk path answers.openLedgerFails with
      | (handles, disk, .error e) => (handles, disk, .error e)
      | (handles, disk, .ok w) =>
          let (w, text, result) := w.appendMany entries
          (Function.update handles path (some w), appendText disk path text,
            result.map fun ids => ids.map fun txId => ⟨txId, path⟩)

/-! ### The transaction -/

/-- `MultiTransactionCommit`. -/
structure MultiTransactionCommit where
  results : List TxAppendResult
  synced : Bool
deriving DecidableEq, Repr

structure TransactionOutcome where
  handles : TxHandles
  disk : Disk
  result : Except WriterError MultiTransactionCommit

/-- `transaction_multi_locked_inner`. -/
def transactionMultiLockedInner (answers : Answers) (handles : TxHandles) (disk : Disk)
    (rewrites : List FileRewrite) (path : FilePath) (txs : List TxAppend) (requestId : Text) :
    TransactionOutcome :=
  let abort := fun (handles : TxHandles) (disk : Disk) (staged : List StagedRewrite)
    (e : WriterError) =>
      (⟨handles, cleanupStagedRewrites staged disk, .error e⟩ : TransactionOutcome)
  let s := stageRewrites answers requestId 0 rewrites disk []
  match s.failed with
  | some e => abort handles s.disk s.staged e
  | none =>
      let b := backUpTargets answers requestId 0 s.staged s.disk []
      match b.failed with
      | some e => abort handles b.disk b.staged e
      | none =>
          if answers.verifyFails then
            abort handles b.disk b.staged (.message "verify before commit".toList)
          else
            let r := renameRewrites answers 0 b.staged b.disk []
            match r.failed with
            | some e =>
                abort handles (rollbackRenamedRewrites r.staged r.disk) b.staged e
            | none =>
                match appendTxsInner isUuid answers handles r.disk path txs with
                | (handles, disk, .error e) =>
                    abort handles (rollbackRenamedRewrites r.staged disk) b.staged e
                | (handles, disk, .ok results) =>
                    ⟨handles, cleanupCommittedBackups b.staged disk,
                      .ok ⟨results, !answers.syncFails⟩⟩

/-- The first request id that occurs twice. -/
def duplicateRequestId (txs : List TxAppend) : Option Text :=
  firstRepeated [] (txs.filterMap TxAppend.requestId)

/-- `transaction_multi_inner`. -/
def transactionMultiInner (answers : Answers) (handles : TxHandles) (disk : Disk)
    (rewrites : List FileRewrite) (txs : List TxAppend) (requestId : Text) : TransactionOutcome :=
  let refuse := fun e : WriterError => (⟨handles, disk, .error e⟩ : TransactionOutcome)
  match txs with
  | [] => refuse (.message "multi transaction requires at least one tx".toList)
  | first :: _ =>
      if ∃ tx ∈ txs, tx.txPath ≠ first.txPath then
        refuse (.message "multi transaction tx entries must target one ledger".toList)
      else match duplicateRequestId txs with
        | some id =>
            refuse (.message ("duplicate request_id in multi transaction: ".toList ++ id))
        | none =>
          match firstRepeated [] (rewrites.map FileRewrite.path) with
          | some target =>
              refuse (.message ("duplicate rewrite target: ".toList ++ displayPath target))
          | none =>
            if ∃ i ∈ List.range rewrites.length, answers.lockFails i = true then
              refuse (.io "flock contention".toList)
            else
              transactionMultiLockedInner isUuid answers handles disk rewrites first.txPath txs
                requestId

end

end Orgasmic
