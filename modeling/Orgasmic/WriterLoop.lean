import Orgasmic.RequestCache

/-! # The writer and its callers

Calls of the writer handle, the queue of the writer and the cache between them, as one system.

* **Calls.** A call looks into the cache and is answered there or queued (`WriterState.submit`).
* **Commands.** The writer runs appends in batches and everything else one by one
  (`runBatch`, `run`); what the file system answers is an argument.
* **Late answers.** `append_tx` and `rewrite_file` put their answer into the cache only when the
  reply has come back (`settle`), at any later moment.
* **Events.** Each step says what it wrote, synced and replied. -/

namespace Orgasmic

open Text

/-! ### Commands -/

/-- The files of a transaction: given, or one file transformed under the writer. -/
inductive FileChange where
  | rewrites (rewrites : List FileRewrite)
  | mutate (path : FilePath) (transform : Text → Except WriterError Bytes)

/-- `TransactionRequest` and `TransactionMutateRequest`. -/
structure TransactionRequest where
  files : FileChange
  tx : TxAppend
  requestId : Text
  mutation : MutationIdentity
  mutationId : Option Text

/-- The commands of the queue, with the request id that the caller keeps the answer under. -/
inductive WriterCommand where
  | tx (requestId : Text) (req : TxAppend)
  | rewrite (requestId : Text) (req : FileRewrite)
  | transaction (req : TransactionRequest)
  | transactionMulti (req : TransactionMultiRequest)
  | recoverMutation (requestId : Text) (mutation : MutationIdentity)

namespace WriterCommand

def tx? : WriterCommand → Option (Text × TxAppend)
  | tx requestId req => some (requestId, req)
  | _ => none

end WriterCommand

inductive WriterEvent where
  /-- A row of an append was written. -/
  | appended (requestId : Text)
  /-- The rewrites and the row of a transaction took effect. -/
  | committed (requestId : Text) (mutation : MutationIdentity) (txId : Text)
  /-- The file of a handle with these transactions was synced. -/
  | synced (txIds : List Text)
  /-- A transaction or its recovery was answered. -/
  | replied (requestId : Text) (mutation : MutationIdentity)
      (result : Except WriterError (Option Text))

/-! ### Batches -/

/-- What the file system answers to a batch, by the index of the append and by ledger. -/
structure BatchAnswers where
  namesWriter : FilePath → Bool
  createDirFails : ℕ → Bool
  openLedgerFails : ℕ → Bool
  syncFails : FilePath → Bool
  minted : ℕ → Minted

/-- Nothing fails. -/
def BatchAnswers.fair (minted : ℕ → Minted) : BatchAnswers :=
  ⟨fun _ => true, fun _ => false, fun _ => false, fun _ => false, minted⟩

/-- An append of a batch: was a row written, and its answer. -/
structure BatchItem where
  wrote : Bool
  result : Except WriterError TxAppendResult

section
variable (isUuid : Text → Bool) (answers : BatchAnswers)

def writeTxAppend (i : ℕ) (handles : TxHandles) (disk : Disk) (txPath : FilePath)
    (entry : TxEntry) : TxHandles × Disk × BatchItem :=
  if answers.createDirFails i then (handles, disk, ⟨false, .error (.io "create".toList)⟩)
  else match handleAt handles disk txPath (answers.openLedgerFails i) with
  | (handles, disk, .error e) => (handles, disk, ⟨false, .error e⟩)
  | (handles, disk, .ok w) =>
      match w.append entry with
      | .error e => (handles, disk, ⟨false, .error e⟩)
      | .ok (w, text, txId) =>
          (Function.update handles txPath (some w), appendText disk txPath text,
            ⟨!text.isEmpty, .ok ⟨txId, txPath⟩⟩)

/-- One append of a batch. -/
def batchItem (i : ℕ) (handles : TxHandles) (disk : Disk) (req : TxAppend) :
    TxHandles × Disk × BatchItem :=
  match prepareTxEntry isUuid (answers.minted i) req with
  | .error e => (handles, disk, ⟨false, .error e⟩)
  | .ok entry => writeTxAppend answers i handles disk req.txPath entry

def writeBatch (i : ℕ) (handles : TxHandles) (disk : Disk) :
    List TxAppend → TxHandles × Disk × List BatchItem
  | [] => (handles, disk, [])
  | req :: reqs =>
      let (handles, disk, item) := batchItem isUuid answers i handles disk req
      let (handles, disk, items) := writeBatch (i + 1) handles disk reqs
      (handles, disk, item :: items)

/-- An append that was accepted is answered with an error if its ledger could not be synced. -/
def syncedItem (req : TxAppend) (item : BatchItem) : BatchItem :=
  match item.result with
  | .error e => ⟨item.wrote, .error e⟩
  | .ok result =>
      ⟨item.wrote, if answers.syncFails req.txPath then
        .error (.message "tx append fsync failed".toList) else .ok result⟩

def processTxBatch (handles : TxHandles) (disk : Disk) (batch : List TxAppend) :
    TxHandles × Disk × List BatchItem :=
  let handles := fun path =>
    if path ∈ batch.map TxAppend.txPath ∧ answers.namesWriter path = false then none
    else handles path
  let (handles, disk, items) := writeBatch isUuid answers 0 handles disk batch
  (handles, disk, List.zipWith (syncedItem answers) batch items)

end

/-! ### The system -/

structure WriterState where
  cache : Cache
  handles : TxHandles
  disk : Disk
  queue : List WriterCommand
  /-- Answers that their callers have received and not yet kept. -/
  replies : List (Text × CachedResponse)

namespace WriterState

/-- A writer that has answered nothing yet. -/
def init (handles : TxHandles) (disk : Disk) : WriterState := ⟨fun _ => none, handles, disk, [], []⟩

def send (s : WriterState) (command : WriterCommand) : WriterState :=
  { s with queue := s.queue ++ [command] }

/-! ### Calls -/

/-- What the cache answers a call of `append_tx`. -/
def cachedAppend (cache : Cache) (requestId : Text) : Except WriterError (Option TxAppendResult) :=
  match cache requestId with
  | some (.tx cached) =>
      match cached.durability with
      | .syncUncertain => .error (.requestIdReuse requestId)
      | .durable => .ok (some cached.result)
  | _ => .ok none

/-- What the cache answers a transaction before it is queued. -/
def cachedTransaction (cache : Cache) (req : TransactionRequest) :
    Except WriterError (Option Text) :=
  match req.mutationId with
  | none => (cachedTransactionFromMap cache req.requestId req.mutation).map (·.map (·.txId))
  | some _ => (cachedMutationFromMap cache req.requestId req.mutation).map (·.map (·.txId))

/-- A call up to the queue. -/
def submit (s : WriterState) (command : WriterCommand) : WriterState × List WriterEvent :=
  match command with
  | .tx requestId _ =>
      match cachedAppend s.cache requestId with
      | .ok none => (s.send command, [])
      | _ => (s, [])
  | .rewrite requestId _ =>
      if s.cache requestId = some .rewrite then (s, []) else (s.send command, [])
  | .transaction req =>
      match cachedTransaction s.cache req with
      | .ok none => (s.send command, [])
      | result => (s, [.replied req.requestId req.mutation result])
  | .transactionMulti req =>
      match cachedMultiFromMap s.cache (multiCacheKey req.requestId) req.requestId req.mutation with
      | .ok none => (s.send command, [])
      | .ok (some (_, .syncUncertain)) => (s.send command, [])
      | _ => (s, [])
  | .recoverMutation requestId mutation =>
      match s.cache requestId, cachedMutationFromMap s.cache requestId mutation with
      | none, _ => (s, [.replied requestId mutation (.ok none)])
      | some _, .error e => (s, [.replied requestId mutation (.error e)])
      | some _, .ok _ => (s.send command, [])

/-- The answers of ledgers that were synced as they were read. -/
def recover (s : WriterState) (recovered : List (Text × CachedTx)) :
    WriterState × List WriterEvent :=
  match recoverTransactionHistory s.cache recovered with
  | .error _ => (s, [])
  | .ok cache => ({ s with cache }, [.synced (recovered.map fun p => p.2.result.txId)])

/-- A caller keeps the answer that it has received. -/
def settle (s : WriterState) (i : ℕ) : WriterState :=
  match s.replies[i]? with
  | none => s
  | some (requestId, response) =>
      { s with cache := Function.update s.cache requestId (some response),
               replies := s.replies.eraseIdx i }

section
variable (isUuid : Text → Bool) (sha256 : Text → Text)

/-! ### The writer -/

/-- What the callers of a batch keep. -/
def batchReplies (batch : List (Text × TxAppend)) (items : List BatchItem) :
    List (Text × CachedResponse) :=
  (batch.zip items).filterMap fun p =>
    match p.2.result with
    | .error _ => none
    | .ok result => some (p.1.1, .tx ⟨result, none, none, [p.1.2.txPath], none, .durable⟩)

def batchEvents (batch : List (Text × TxAppend)) (items : List BatchItem) : List WriterEvent :=
  (batch.zip items).filterMap fun p => if p.2.wrote then some (.appended p.1.1) else none

/-- The first appends of the queue, up to `n`. -/
def nextBatch (s : WriterState) (n : ℕ) : List (Text × TxAppend) :=
  ((s.queue.take n).takeWhile fun c => c.tx?.isSome).filterMap WriterCommand.tx?

/-- The first appends of the queue as one batch. -/
def runBatch (answers : BatchAnswers) (n : ℕ) (s : WriterState) :
    WriterState × List WriterEvent :=
  let batch := s.nextBatch n
  let (handles, disk, items) :=
    processTxBatch isUuid answers s.handles s.disk (batch.map Prod.snd)
  ({ s with handles, disk, queue := s.queue.drop batch.length,
            replies := s.replies ++ batchReplies batch items }, batchEvents batch items)

/-- `rewrite_file_inner`: the contents go to a file beside the target and over it. -/
def rewriteFileInner (answers : Answers) (disk : Disk) (req : FileRewrite) :
    Disk × Except WriterError Unit :=
  if answers.lockFails 0 then (disk, .error (.io "flock contention".toList))
  else
    let disk := Function.update disk req.path (some ((disk req.path).getD []))
    match fileName req.path with
    | none => (disk, .error (.message "rewrite target has no filename".toList))
    | some name =>
        let tmp := req.path.dropLast ++ [name ++ ".tmp".toList]
        match answers.writeTmpFails 0 with
        | some left => (Function.update disk tmp (some left), .error (.io "write".toList))
        | none =>
            let disk := Function.update disk tmp (some req.newContents)
            if answers.renameFails 0 then (disk, .error (.io "rename".toList))
            else (renameFile disk tmp req.path, .ok ())

/-- `transaction_mutate_file_inner`: opening the file creates it. -/
def transactionMutateFileInner (answers : Answers) (handles : TxHandles) (disk : Disk)
    (path : FilePath) (transform : Text → Except WriterError Bytes) (tx : TxAppend)
    (requestId : Text) : TransactionOutcome :=
  if answers.lockFails 0 then ⟨handles, disk, .error (.io "flock contention".toList)⟩
  else
    let bytes := (disk path).getD []
    let disk := Function.update disk path (some bytes)
    match readToString bytes with
    | none => ⟨handles, disk, .error (.io "read".toList)⟩
    | some source =>
        match transform source with
        | .error e => ⟨handles, disk, .error e⟩
        | .ok contents =>
            transactionMultiLockedInner isUuid answers handles disk [⟨path, contents⟩] tx.txPath
              [tx] requestId

/-- `transaction_inner` or `transaction_mutate_file_inner`. -/
def transactionInner (answers : Answers) (handles : TxHandles) (disk : Disk)
    (req : TransactionRequest) : TransactionOutcome :=
  match req.files with
  | .rewrites rewrites =>
      transactionMultiInner isUuid answers handles disk rewrites [req.tx] req.requestId
  | .mutate path transform =>
      transactionMutateFileInner isUuid answers handles disk path transform req.tx req.requestId

/-- The files that a transaction is kept with. -/
def writtenPaths (req : TransactionRequest) : List FilePath :=
  match req.files with
  | .rewrites rewrites => rewrites.map FileRewrite.path ++ [req.tx.txPath]
  | .mutate path _ => [path, req.tx.txPath]

/-- The transactions of a handle. -/
def held (handles : TxHandles) (path : FilePath) : List Text :=
  match handles path with
  | none => []
  | some w => w.eventIds.map Prod.snd

/-- What an executed transaction did. -/
def executedEvents (req : TransactionRequest) (out : TransactionOutcome) : List WriterEvent :=
  match out.result with
  | .ok ⟨result :: _, synced⟩ =>
      .committed req.requestId req.mutation result.txId ::
        if synced then [.synced (held out.handles req.tx.txPath)] else []
  | _ => []

/-- The sync that comes before an answer from the cache, if there was one. -/
def resumedEvents (cache : Cache) (handles : TxHandles) (requestId : Text) : List WriterEvent :=
  match cache requestId with
  | some (.tx cached) =>
      if cached.durability = .syncUncertain then [.synced (held handles cached.result.txPath)]
      else []
  | _ => []

/-- A transaction in the writer, and its answer. -/
def runTransaction (answers : Answers) (req : TransactionRequest) (s : WriterState) :
    WriterState × List WriterEvent × Except WriterError TxAppendResult :=
  match retrySingleTransaction answers.syncFails s.cache s.handles req.requestId req.mutation
      req.mutationId.isSome with
  | (cache, .ok (some result)) =>
      ({ s with cache }, resumedEvents s.cache s.handles req.requestId, .ok result)
  | (cache, .error e) => ({ s with cache }, [], .error e)
  | (cache, .ok none) =>
      let out := transactionInner isUuid answers s.handles s.disk req
      let (cache, reply) := finishSingleTransaction cache req.tx req.requestId req.mutation
        req.mutationId (writtenPaths req) out.result
      ({ s with cache, handles := out.handles, disk := out.disk }, executedEvents req out, reply)

def runRecoverMutation (answers : Answers) (requestId : Text) (mutation : MutationIdentity)
    (s : WriterState) : WriterState × List WriterEvent :=
  match retrySingleTransaction answers.syncFails s.cache s.handles requestId mutation true with
  | (cache, .error e) => ({ s with cache }, [.replied requestId mutation (.error e)])
  | (cache, .ok none) =>
      ({ s with cache }, [.replied requestId mutation
        ((cachedMutationFromMap cache requestId mutation).map (·.map (·.txId)))])
  | (cache, .ok (some _)) =>
      ({ s with cache }, resumedEvents s.cache s.handles requestId ++
        [.replied requestId mutation
          ((cachedMutationFromMap cache requestId mutation).map (·.map (·.txId)))])

def runTransactionMulti (answers : Answers) (req : TransactionMultiRequest) (s : WriterState) :
    WriterState × List WriterEvent :=
  let key := multiCacheKey req.requestId
  match cachedMultiFromMap s.cache key req.requestId req.mutation with
  | .error _ => (s, [])
  | .ok (some (_, .durable)) => (s, [])
  | .ok (some (results, .syncUncertain)) =>
      match results with
      | [] => (s, [])
      | result :: _ =>
          match syncCommittedTx answers.syncFails s.handles result with
          | .error _ => (s, [])
          | .ok () =>
              ({ s with cache := cacheDurableMulti sha256 s.cache req results },
                [.synced (held s.handles result.txPath)])
  | .ok none =>
      if ∃ requestId ∈ req.txs.filterMap TxAppend.requestId, (s.cache requestId).isSome then
        (s, [])
      else
        let out := transactionMultiInner isUuid answers s.handles s.disk req.rewrites req.txs
          req.requestId
        match out.result with
        | .error _ => ({ s with handles := out.handles, disk := out.disk }, [])
        | .ok ⟨results, false⟩ =>
            ({ s with
                cache := Function.update s.cache key
                  (some (.multi results req.mutation .syncUncertain)),
                handles := out.handles, disk := out.disk }, [])
        | .ok ⟨results, true⟩ =>
            ({ s with
                cache := cacheDurableMulti sha256 s.cache req results,
                handles := out.handles, disk := out.disk },
              [.synced (results.flatMap fun r => held out.handles r.txPath)])

/-- The head of the queue, if it is no append. -/
def run (answers : Answers) (s : WriterState) : WriterState × List WriterEvent :=
  match s.queue with
  | [] => (s, [])
  | .tx _ _ :: _ => (s, [])
  | .rewrite requestId req :: queue =>
      match rewriteFileInner answers s.disk req with
      | (disk, .error _) => ({ s with disk, queue }, [])
      | (disk, .ok ()) =>
          ({ s with disk, queue, replies := s.replies ++ [(requestId, .rewrite)] }, [])
  | .transaction req :: queue =>
      let (s, events, reply) := runTransaction isUuid answers req { s with queue }
      (s, events ++ [.replied req.requestId req.mutation (reply.map fun r => some r.txId)])
  | .transactionMulti req :: queue =>
      runTransactionMulti isUuid sha256 answers req { s with queue }
  | .recoverMutation requestId mutation :: queue =>
      runRecoverMutation answers requestId mutation { s with queue }

/-! ### Runs -/

inductive Action where
  | submit (command : WriterCommand)
  | recover (recovered : List (Text × CachedTx))
  | runBatch (answers : BatchAnswers) (n : ℕ)
  | run (answers : Answers)
  | settle (i : ℕ)
  /-- Other commands and other programs change files. -/
  | files (disk : Disk)

def step (s : WriterState) : Action → WriterState × List WriterEvent
  | .submit command => s.submit command
  | .recover recovered => s.recover recovered
  | .runBatch answers n => s.runBatch isUuid answers n
  | .run answers => s.run isUuid sha256 answers
  | .settle i => (s.settle i, [])
  | .files disk => ({ s with disk }, [])

/-- The state after the actions and everything that happened. -/
def runAll (s : WriterState) : List Action → WriterState × List WriterEvent
  | [] => (s, [])
  | action :: actions =>
      let (s', events) := s.step isUuid sha256 action
      let (s'', rest) := s'.runAll actions
      (s'', events ++ rest)

end

end WriterState

/-- Every step of the run meets the condition. -/
def Along (isUuid : Text → Bool) (sha256 : Text → Text)
    (P : WriterState → WriterState.Action → Prop) :
    WriterState → List WriterState.Action → Prop
  | _, [] => True
  | s, action :: actions =>
      P s action ∧ Along isUuid sha256 P (s.step isUuid sha256 action).1 actions

end Orgasmic
