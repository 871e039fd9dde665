import Orgasmic.Transactions

/-! # Answers kept by request id

The idempotency cache of the writer and the commands that read and fill it.

* **Identities.** A transaction is kept under its request id with a `MutationIdentity`; a lookup
  with another identity is a conflict (`cachedTransactionFromMap`, `cachedMutationFromMap`).
* **Durability.** An answer whose sync failed is kept as uncertain.  The fast path of the handle
  misses it; the writer syncs again before it answers (`retrySingleTransaction`).
* **Appends.** `appendTx` looks only at the request id, and keeps its answer after the reply. -/

namespace Orgasmic

open Text

/-! ### Identities -/

structure MutationIdentity where
  operation : Text
  projectId : Text
  payloadSha256 : Text
deriving DecidableEq, Repr

section
variable (sha256 : Text → Text)

def MutationIdentity.new (operation projectId payload : Text) : MutationIdentity :=
  ⟨operation, projectId, sha256 payload⟩

/-- `{:?}` of the bytes. -/
def debugBytes (bytes : Bytes) : Text :=
  "[".toList ++ List.intercalate ", ".toList (bytes.map fun b => (Nat.repr b.toNat).toList) ++
    "]".toList

/-- What the payload of a transaction says about its rewrites. -/
def rewritesPayload (rewrites : List FileRewrite) : Text :=
  List.intercalate "|".toList
    (rewrites.map fun r => displayPath r.path ++ ":".toList ++ debugBytes r.newContents)

/-- The type, the project and the rewrites; nothing else of the row. -/
def transactionIdentity (tx : TxAppend) (rewrites : List FileRewrite) : MutationIdentity :=
  .new sha256 tx.entry.ty (tx.projectId.getD "<none>".toList) (rewritesPayload rewrites)

end

/-! ### The cache -/

inductive TransactionDurability where
  | durable
  | syncUncertain
deriving DecidableEq, Repr

/-- `EventPayload::TxAppended`. -/
structure TxAppended where
  projectId : Option Text
  txId : Text
  ty : Text
deriving DecidableEq, Repr

/-- `CachedResponse::Tx`. -/
structure CachedTx where
  result : TxAppendResult
  mutation : Option MutationIdentity
  mutationId : Option Text
  writtenPaths : List FilePath
  event : Option TxAppended
  durability : TransactionDurability
deriving DecidableEq, Repr

inductive CachedResponse where
  | tx (cached : CachedTx)
  | multi (results : List TxAppendResult) (mutation : MutationIdentity)
      (durability : TransactionDurability)
  | rewrite
deriving DecidableEq, Repr

abbrev Cache := Text → Option CachedResponse

structure CachedMutation where
  txId : Text
  mutationId : Text
deriving DecidableEq, Repr

section
variable (cache : Cache) (requestId : Text) (expected : MutationIdentity)

/-- The answer kept under the request id, if it is this transaction's. -/
def cachedFor : Except WriterError (Option CachedTx) :=
  match cache requestId with
  | none => .ok none
  | some (.tx cached) =>
      if cached.mutation = some expected then .ok (some cached)
      else .error (.requestIdReuse requestId)
  | some _ => .error (.requestIdReuse requestId)

def cachedMutationFromMap : Except WriterError (Option CachedMutation) :=
  match cachedFor cache requestId expected with
  | .error e => .error e
  | .ok none => .ok none
  | .ok (some cached) =>
      match cached.mutationId with
      | none => .error (.mutationIdentity requestId)
      | some mutationId =>
          match cached.durability with
          | .syncUncertain => .ok none
          | .durable => .ok (some ⟨cached.result.txId, mutationId⟩)

def cachedTransactionFromMap : Except WriterError (Option TxAppendResult) :=
  match cachedFor cache requestId expected with
  | .error e => .error e
  | .ok none => .ok none
  | .ok (some cached) =>
      match cached.durability with
      | .syncUncertain => .ok none
      | .durable => .ok (some cached.result)

end

def multiCacheKey (requestId : Text) : Text := "transaction-multi:".toList ++ requestId

def cachedMultiFromMap (cache : Cache) (cacheKey requestId : Text) (expected : MutationIdentity) :
    Except WriterError (Option (List TxAppendResult × TransactionDurability)) :=
  match cache cacheKey with
  | none => .ok none
  | some (.multi results mutation durability) =>
      if mutation = expected then .ok (some (results, durability))
      else .error (.requestIdReuse requestId)
  | some _ => .error (.requestIdReuse requestId)

/-! ### Recovered answers -/

def validateRecoveredReplay : CachedResponse → CachedResponse → Except WriterError Unit
  | .tx a, .tx b =>
      if a.result.txId = b.result.txId ∧ a.mutation = b.mutation ∧ a.mutationId = b.mutationId ∧
          a.writtenPaths = b.writtenPaths ∧ a.event = b.event then .ok ()
      else .error (.message "conflicting durable replay records".toList)
  | _, _ => .error (.message "conflicting durable replay records".toList)

/-- The answers read from ledgers go into the cache where it has none, unless one of them conflicts
with what the cache has. -/
def recoverTransactionHistory (cache : Cache) (recovered : List (Text × CachedTx)) :
    Except WriterError Cache :=
  if ∃ p ∈ recovered, ∃ prior ∈ cache p.1,
      (validateRecoveredReplay prior (.tx p.2)).isOk = false then
    .error (.message "conflicting durable replay records".toList)
  else
    .ok (recovered.foldl (fun cache p =>
      if (cache p.1).isSome then cache else Function.update cache p.1 (some (.tx p.2))) cache)

/-- Recovery only adds answers that were read from ledgers. -/
theorem recoverTransactionHistory_at {cache cache' : Cache} {recovered : List (Text × CachedTx)}
    (h : recoverTransactionHistory cache recovered = .ok cache') (requestId : Text) :
    cache' requestId = cache requestId ∨ cache requestId = none ∧
      ∃ p ∈ recovered, p.1 = requestId ∧ cache' requestId = some (.tx p.2) := by
  unfold recoverTransactionHistory at h
  split_ifs at h with hconflict
  clear hconflict
  cases h
  induction recovered generalizing cache with
  | nil => exact .inl rfl
  | cons p recovered ih =>
      rw [List.foldl_cons]
      by_cases hkept : (cache p.1).isSome
      · rw [if_pos hkept]
        rcases @ih cache with hsame | ⟨hnone, q, hq, hid, hat⟩
        · exact .inl hsame
        · exact .inr ⟨hnone, q, List.mem_cons_of_mem _ hq, hid, hat⟩
      · rw [if_neg hkept]
        by_cases hid : p.1 = requestId
        · subst hid
          refine .inr ⟨Option.not_isSome_iff_eq_none.mp hkept, p, List.mem_cons_self, rfl, ?_⟩
          rcases @ih (Function.update cache p.1 (some (.tx p.2))) with hsame | ⟨hnone, -⟩
          · rw [hsame, Function.update_self]
          · rw [Function.update_self] at hnone
            cases hnone
        · have haway : Function.update cache p.1 (some (.tx p.2)) requestId = cache requestId :=
            Function.update_of_ne (Ne.symm hid) _ _
          rcases @ih (Function.update cache p.1 (some (.tx p.2))) with hsame | ⟨hnone, q, hq, hat⟩
          · exact .inl (hsame.trans haway)
          · exact .inr ⟨haway ▸ hnone, q, List.mem_cons_of_mem _ hq, hat⟩

/-! ### Syncs -/

/-- The handle still has the row of the result, and the file of its ledger is synced. -/
def syncCommittedTx (syncFails : Bool) (handles : TxHandles) (result : TxAppendResult) :
    Except WriterError Unit :=
  match handles result.txPath with
  | none => .error (.message "retained ledger descriptor no longer contains transaction".toList)
  | some w =>
      if result.txId ∈ w.eventIds.map Prod.snd then
        if syncFails then .error (.io "fsync".toList) else .ok ()
      else .error (.message "retained ledger descriptor no longer contains transaction".toList)

/-! ### Single transactions -/

/-- What the cache answers a transaction in the writer: an uncertain answer is synced first. -/
def retrySingleTransaction (syncFails : Bool) (cache : Cache) (handles : TxHandles)
    (requestId : Text) (mutation : MutationIdentity) (needsMutationId : Bool) :
    Cache × Except WriterError (Option TxAppendResult) :=
  let checked : Except WriterError Unit :=
    if needsMutationId then (cachedMutationFromMap cache requestId mutation).map fun _ => ()
    else (cachedTransactionFromMap cache requestId mutation).map fun _ => ()
  match checked with
  | .error e => (cache, .error e)
  | .ok () =>
      match cache requestId with
      | some (.tx cached) =>
          match cached.durability with
          | .durable => (cache, .ok (some cached.result))
          | .syncUncertain =>
              match cached.event with
              | none => (cache, .error (.message "pending transaction lacks its event".toList))
              | some _ =>
                  match syncCommittedTx syncFails handles cached.result with
                  | .error _ => (cache, .error (.syncUncertain true))
                  | .ok () =>
                      (Function.update cache requestId
                        (some (.tx { cached with durability := .durable })), .ok (some cached.result))
      | _ => (cache, .ok none)

/-- The answer of a transaction that was executed, and the cache with it. -/
def finishSingleTransaction (cache : Cache) (tx : TxAppend) (requestId : Text)
    (mutation : MutationIdentity) (mutationId : Option Text) (writtenPaths : List FilePath)
    (outcome : Except WriterError MultiTransactionCommit) :
    Cache × Except WriterError TxAppendResult :=
  match outcome with
  | .error e => (cache, .error e)
  | .ok ⟨[], _⟩ => (cache, .error (.message "no result".toList))
  | .ok ⟨result :: _, synced⟩ =>
      let cached : CachedTx :=
        ⟨result, some mutation, mutationId, writtenPaths,
          some ⟨tx.projectId, result.txId, tx.entry.ty⟩, if synced then .durable else .syncUncertain⟩
      (Function.update cache requestId (some (.tx cached)),
        if synced then .ok result else .error (.syncUncertain false))

theorem retrySingleTransaction_of_ne {syncFails : Bool} {cache : Cache} {handles : TxHandles}
    {requestId other : Text} {mutation : MutationIdentity} {needs : Bool} (h : other ≠ requestId) :
    (retrySingleTransaction syncFails cache handles requestId mutation needs).1 other =
      cache other := by
  unfold retrySingleTransaction
  dsimp only
  split
  · rfl
  · split
    · split
      · rfl
      · split
        · rfl
        · split
          · rfl
          · exact Function.update_of_ne h _ _
    · rfl

theorem finishSingleTransaction_of_ne {cache : Cache} {tx : TxAppend} {requestId other : Text}
    {mutation : MutationIdentity} {mutationId : Option Text} {paths : List FilePath}
    {outcome : Except WriterError MultiTransactionCommit} (h : other ≠ requestId) :
    (finishSingleTransaction cache tx requestId mutation mutationId paths outcome).1 other =
      cache other := by
  unfold finishSingleTransaction
  split
  · rfl
  · rfl
  · exact Function.update_of_ne h _ _

/-! ### Groups -/

structure TransactionMultiRequest where
  rewrites : List FileRewrite
  txs : List TxAppend
  requestId : Text
  mutation : MutationIdentity
deriving DecidableEq, Repr

section
variable (sha256 : Text → Text)

/-- A row of a group under its own request id. -/
def cacheRow (rewrites : List FileRewrite) (cache : Cache) (row : TxAppend × TxAppendResult) :
    Cache :=
  match row.1.requestId with
  | none => cache
  | some requestId =>
      Function.update cache requestId (some (.tx ⟨row.2,
        some (transactionIdentity sha256 row.1 rewrites), none,
        rewrites.map FileRewrite.path ++ [row.1.txPath], none, .durable⟩))

/-- Each row of the group under its own request id, and the group under its key. -/
def cacheDurableMulti (cache : Cache) (req : TransactionMultiRequest)
    (results : List TxAppendResult) : Cache :=
  Function.update ((req.txs.zip results).foldl (cacheRow sha256 req.rewrites) cache)
    (multiCacheKey req.requestId) (some (.multi results req.mutation .durable))

theorem cacheRow_of_ne {rewrites : List FileRewrite} {cache : Cache}
    {row : TxAppend × TxAppendResult} {other : Text} (h : row.1.requestId ≠ some other) :
    cacheRow sha256 rewrites cache row other = cache other := by
  unfold cacheRow
  cases hid : row.1.requestId with
  | none => rfl
  | some id =>
      refine Function.update_of_ne ?_ _ _
      rintro rfl
      exact h hid

theorem cacheDurableMulti_of_ne {cache : Cache} {req : TransactionMultiRequest}
    {results : List TxAppendResult} {other : Text} (hkey : multiCacheKey req.requestId ≠ other)
    (hrows : ∀ tx ∈ req.txs, tx.requestId ≠ some other) :
    cacheDurableMulti sha256 cache req results other = cache other := by
  unfold cacheDurableMulti
  rw [Function.update_of_ne (Ne.symm hkey)]
  have hrows' : ∀ p ∈ req.txs.zip results, p.1.requestId ≠ some other :=
    fun p hp => hrows p.1 (List.of_mem_zip hp).1
  generalize req.txs.zip results = rows at hrows'
  induction rows generalizing cache with
  | nil => rfl
  | cons p rows ih =>
      rw [List.foldl_cons, ih fun q hq => hrows' q (List.mem_cons_of_mem _ hq),
        cacheRow_of_ne sha256 (hrows' p List.mem_cons_self)]

end

end Orgasmic
