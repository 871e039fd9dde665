import Orgasmic.WriterLoop
import Mathlib.Data.List.Perm.Basic

/-! # Appends under one request id

How many rows `append_tx` calls with one request id write, over every run of the writer.

* **Condition.** `OneAtATime`: a call that misses the cache starts only when no other one with its
  id is under way, and the row of a call is synced.
* **Count.** `AppendInvariant` counts the calls under way and the rows written; a row that was
  written leaves an answer, in the cache or on its way there. -/

namespace Orgasmic

open Text

/-! ### Counts -/

/-- The command reads or fills the cache under the request id. -/
def WriterCommand.Names (requestId : Text) : WriterCommand → Prop
  | .tx id _ => id = requestId
  | .rewrite id _ => id = requestId
  | .transaction req => req.requestId = requestId
  | .transactionMulti req => multiCacheKey req.requestId = requestId ∨
      ∃ tx ∈ req.txs, tx.requestId = some requestId
  | .recoverMutation id _ => id = requestId

namespace WriterState

variable (requestId : Text)

/-- Nothing but appends goes under the request id. -/
def OnlyAppends (_ : WriterState) : Action → Prop
  | .submit command => command.Names requestId → command.tx?.isSome
  | .recover recovered => ∀ p ∈ recovered, p.1 ≠ requestId
  | _ => True

/-- Calls of `append_tx` with the request id that are queued. -/
def queued (s : WriterState) : ℕ :=
  s.queue.countP fun c => decide (c.tx?.map Prod.fst = some requestId)

/-- Answers under the request id that are not in the cache yet. -/
def unsettled (s : WriterState) : ℕ := s.replies.countP fun p => decide (p.1 = requestId)

/-- A call that misses the cache starts alone, and the rows of the calls are synced. -/
def OneAtATime (s : WriterState) : Action → Prop
  | .submit (.tx id _) => id = requestId → cachedAppend s.cache requestId = .ok none →
      s.queued requestId = 0 ∧ s.unsettled requestId = 0
  | .runBatch answers n => ∀ p ∈ s.nextBatch n, p.1 = requestId →
      answers.syncFails p.2.txPath = false
  | _ => True

/-- The rows that appends under the request id have written. -/
def appendedRows (events : List WriterEvent) : ℕ :=
  events.countP fun e => match e with
    | .appended id => decide (id = requestId)
    | _ => false

/-- What holds after every run, with `n` rows written. -/
structure AppendInvariant (s : WriterState) (n : ℕ) : Prop where
  alone : s.queued requestId + s.unsettled requestId ≤ 1
  once : n ≤ 1
  kept : n = 1 → s.queued requestId = 0 ∧
    (s.unsettled requestId = 1 ∨ ∃ cached, s.cache requestId = some (.tx cached))
  foreign : ∀ command ∈ s.queue, command.Names requestId → command.tx?.isSome
  replies : ∀ p ∈ s.replies, p.1 = requestId → ∃ cached, p.2 = .tx cached

/-! ### Batches -/

section
variable {requestId} {isUuid : Text → Bool} {answers : BatchAnswers}

/-- A row that was written was accepted. -/
theorem batchItem_wrote {i : ℕ} {handles : TxHandles} {disk : Disk} {req : TxAppend}
    (h : (batchItem isUuid answers i handles disk req).2.2.wrote = true) :
    ∃ result, (batchItem isUuid answers i handles disk req).2.2.result = .ok result := by
  unfold batchItem at h ⊢
  cases hprepare : prepareTxEntry isUuid (answers.minted i) req with
  | error e =>
      rw [hprepare] at h
      cases h
  | ok entry =>
      rw [hprepare] at h
      dsimp only at h ⊢
      unfold writeTxAppend at h ⊢
      by_cases hdir : answers.createDirFails i = true
      · rw [if_pos hdir] at h
        cases h
      · rw [if_neg hdir] at h ⊢
        revert h
        rcases handleAt handles disk req.txPath (answers.openLedgerFails i) with ⟨hs, d, e | w⟩
        · exact fun h => by cases h
        · dsimp only
          rcases w.append entry with e | ⟨w', text, txId⟩
          · exact fun h => by cases h
          · exact fun _ => ⟨_, rfl⟩

theorem writeBatch_spec (i : ℕ) (handles : TxHandles) (disk : Disk) (batch : List TxAppend) :
    (writeBatch isUuid answers i handles disk batch).2.2.length = batch.length ∧
      ∀ item ∈ (writeBatch isUuid answers i handles disk batch).2.2, item.wrote = true →
        ∃ result, item.result = .ok result := by
  induction batch generalizing i handles disk with
  | nil => exact ⟨rfl, by simp [writeBatch]⟩
  | cons req reqs ih =>
      obtain ⟨hlength, hall⟩ := ih (i + 1) (batchItem isUuid answers i handles disk req).1
        (batchItem isUuid answers i handles disk req).2.1
      exact ⟨congrArg (· + 1) hlength, List.forall_mem_cons.mpr ⟨batchItem_wrote, hall⟩⟩

/-- The answers of the batch that are not errors are no more than its calls, and a call whose row
was written and synced is answered. -/
theorem batch_counts (batch : List (Text × TxAppend)) (items : List BatchItem)
    (hwrote : ∀ item ∈ items, item.wrote = true → ∃ result, item.result = .ok result)
    (hsync : ∀ p ∈ batch, p.1 = requestId → answers.syncFails p.2.txPath = false) :
    let synced := List.zipWith (syncedItem answers) (batch.map Prod.snd) items
    appendedRows requestId (batchEvents batch synced) ≤
        (batchReplies batch synced).countP (fun p => decide (p.1 = requestId)) ∧
      (batchReplies batch synced).countP (fun p => decide (p.1 = requestId)) ≤
        batch.countP fun p => decide (p.1 = requestId) := by
  induction batch generalizing items with
  | nil => simp [appendedRows, batchEvents, batchReplies]
  | cons call batch ih =>
      cases items with
      | nil => simp [appendedRows, batchEvents, batchReplies]
      | cons item items =>
          obtain ⟨hrows, hreplies⟩ := ih items
            (fun item hitem => hwrote item (List.mem_cons_of_mem _ hitem))
            (fun p hp => hsync p (List.mem_cons_of_mem _ hp))
          have hitem := hwrote item List.mem_cons_self
          have hcall := hsync call List.mem_cons_self
          unfold appendedRows batchEvents batchReplies at *
          simp only [List.map_cons, List.zipWith_cons_cons, List.zip_cons_cons,
            List.filterMap_cons, List.countP_cons]
          cases hresult : item.result with
          | error e =>
              have hnot : item.wrote = false := by
                by_contra hne
                obtain ⟨result, hok⟩ := hitem (by simpa using hne)
                rw [hresult] at hok
                cases hok
              simp only [syncedItem, hresult, hnot, Bool.false_eq_true, if_false]
              exact ⟨hrows, hreplies.trans (Nat.le_add_right _ _)⟩
          | ok result =>
              by_cases hid : call.1 = requestId
              · simp only [syncedItem, hresult, hcall hid, hid, Bool.false_eq_true, if_false,
                  List.countP_cons, decide_true, if_true]
                refine ⟨?_, Nat.add_le_add_right hreplies 1⟩
                cases item.wrote with
                | true =>
                    simp only [if_true, List.countP_cons, decide_true]
                    exact Nat.add_le_add_right hrows 1
                | false =>
                    simp only [Bool.false_eq_true, if_false]
                    exact hrows.trans (Nat.le_add_right _ _)
              · simp only [syncedItem, hresult, hid, decide_false, Bool.false_eq_true, if_false,
                  Nat.add_zero]
                cases item.wrote with
                | true =>
                    cases answers.syncFails call.2.txPath with
                    | true =>
                        simp only [if_true, List.countP_cons, hid, decide_false,
                          Bool.false_eq_true, if_false, Nat.add_zero]
                        exact ⟨hrows, hreplies⟩
                    | false =>
                        simp only [Bool.false_eq_true, if_true, if_false, List.countP_cons, hid,
                          decide_false, Nat.add_zero]
                        exact ⟨hrows, hreplies⟩
                | false =>
                    cases answers.syncFails call.2.txPath with
                    | true =>
                        simp only [Bool.false_eq_true, if_true, if_false]
                        exact ⟨hrows, hreplies⟩
                    | false =>
                        simp only [Bool.false_eq_true, if_false, List.countP_cons, hid,
                          decide_false, Nat.add_zero]
                        exact ⟨hrows, hreplies⟩

variable (isUuid) in
/-- `batch_counts` of what the writer answers. -/
theorem processTxBatch_counts (handles : TxHandles) (disk : Disk) (batch : List (Text × TxAppend))
    (hsync : ∀ p ∈ batch, p.1 = requestId → answers.syncFails p.2.txPath = false) :
    let items := (processTxBatch isUuid answers handles disk (batch.map Prod.snd)).2.2
    appendedRows requestId (batchEvents batch items) ≤
        (batchReplies batch items).countP (fun p => decide (p.1 = requestId)) ∧
      (batchReplies batch items).countP (fun p => decide (p.1 = requestId)) ≤
        batch.countP fun p => decide (p.1 = requestId) :=
  batch_counts batch _ (writeBatch_spec 0 _ disk (batch.map Prod.snd)).2 hsync

end

/-- The batch is taken from the front of the queue. -/
theorem nextBatch_split (s : WriterState) (n : ℕ) :
    ∃ commands, s.queue = commands ++ s.queue.drop (s.nextBatch n).length ∧
      commands.filterMap WriterCommand.tx? = s.nextBatch n := by
  have hfront : (s.queue.take n).takeWhile (fun c => c.tx?.isSome) <+: s.queue :=
    (List.takeWhile_prefix _).trans (List.take_prefix n _)
  refine ⟨(s.queue.take n).takeWhile fun c => c.tx?.isSome, ?_, rfl⟩
  have hlength : ((s.queue.take n).takeWhile fun c => c.tx?.isSome).length =
      (s.nextBatch n).length := by
    have hall := fun c => List.mem_takeWhile_imp (p := fun c : WriterCommand => c.tx?.isSome)
      (l := s.queue.take n) (x := c)
    unfold nextBatch
    generalize (s.queue.take n).takeWhile (fun c => c.tx?.isSome) = commands at hall ⊢
    induction commands with
    | nil => rfl
    | cons c cs ih =>
        obtain ⟨call, hcall⟩ := Option.isSome_iff_exists.mp (hall c List.mem_cons_self)
        rw [List.filterMap_cons_some hcall, List.length_cons, List.length_cons,
          ih fun c hc => hall c (List.mem_cons_of_mem _ hc)]
  rw [← hlength]
  exact (List.prefix_iff_eq_append.mp hfront).symm

theorem countP_filterMap_tx (commands : List WriterCommand) :
    (commands.filterMap WriterCommand.tx?).countP (fun p => decide (p.1 = requestId)) =
      commands.countP fun c => decide (c.tx?.map Prod.fst = some requestId) := by
  induction commands with
  | nil => rfl
  | cons c cs ih =>
      cases hcall : c.tx? with
      | none =>
          rw [List.filterMap_cons_none hcall, List.countP_cons, ih, hcall]
          simp
      | some call =>
          rw [List.filterMap_cons_some hcall, List.countP_cons, List.countP_cons, ih, hcall]
          simp

/-! ### One step -/

section
variable {requestId} {isUuid : Text → Bool} {sha256 : Text → Text} {s : WriterState} {k : ℕ}

variable (requestId) in
/-- A call is answered at once or queued, an append only if it misses the cache. -/
theorem submit_cases (s : WriterState) (command : WriterCommand) :
    appendedRows requestId (s.submit command).2 = 0 ∧
      ((s.submit command).1 = s ∨ (s.submit command).1 = s.send command ∧
        ∀ id req, command = .tx id req → cachedAppend s.cache id = .ok none) := by
  unfold submit
  cases command with
  | tx id req =>
      dsimp only
      rcases hcached : cachedAppend s.cache id with e | _ | result
      · exact ⟨rfl, .inl rfl⟩
      · refine ⟨rfl, .inr ⟨rfl, fun id' req' he => ?_⟩⟩
        cases he
        exact hcached
      · exact ⟨rfl, .inl rfl⟩
  | rewrite id req =>
      dsimp only
      split
      · exact ⟨rfl, .inl rfl⟩
      · exact ⟨rfl, .inr ⟨rfl, fun _ _ he => by cases he⟩⟩
  | transaction req =>
      dsimp only
      rcases cachedTransaction s.cache req with e | _ | txId
      · exact ⟨rfl, .inl rfl⟩
      · exact ⟨rfl, .inr ⟨rfl, fun _ _ he => by cases he⟩⟩
      · exact ⟨rfl, .inl rfl⟩
  | transactionMulti req =>
      dsimp only
      rcases cachedMultiFromMap s.cache (multiCacheKey req.requestId) req.requestId req.mutation
        with e | _ | ⟨results, durability⟩
      · exact ⟨rfl, .inl rfl⟩
      · exact ⟨rfl, .inr ⟨rfl, fun _ _ he => by cases he⟩⟩
      · cases durability with
        | durable => exact ⟨rfl, .inl rfl⟩
        | syncUncertain => exact ⟨rfl, .inr ⟨rfl, fun _ _ he => by cases he⟩⟩
  | recoverMutation id mutation =>
      dsimp only
      rcases s.cache id with _ | kept
      · exact ⟨rfl, .inl rfl⟩
      · rcases cachedMutationFromMap s.cache id mutation with e | result
        · exact ⟨rfl, .inl rfl⟩
        · exact ⟨rfl, .inr ⟨rfl, fun _ _ he => by cases he⟩⟩

theorem AppendInvariant.submit (h : s.AppendInvariant requestId k) (command : WriterCommand)
    (honly : s.OnlyAppends requestId (.submit command))
    (hone : s.OneAtATime requestId (.submit command)) :
    (s.submit command).1.AppendInvariant requestId
      (k + appendedRows requestId (s.submit command).2) := by
  -- what is sent is an append that starts alone, or names another request
  have hsend : (∀ id req, command = .tx id req → id = requestId →
        cachedAppend s.cache requestId = .ok none) →
      (s.send command).AppendInvariant requestId k := by
    intro hmiss
    have hcount : (s.send command).queued requestId = s.queued requestId +
        if command.tx?.map Prod.fst = some requestId then 1 else 0 := by
      simp only [queued, send, List.countP_append, List.countP_singleton, decide_eq_true_eq]
    have hforeign : ∀ c ∈ s.queue ++ [command], c.Names requestId → c.tx?.isSome := by
      intro c hc
      rcases List.mem_append.mp hc with hc | hc
      · exact h.foreign c hc
      · rw [List.mem_singleton.mp hc]
        exact honly
    by_cases hmine : command.tx?.map Prod.fst = some requestId
    · rw [if_pos hmine] at hcount
      cases command with
      | tx id req =>
          have hid : id = requestId := by simpa [WriterCommand.tx?] using hmine
          have hnone := hmiss id req rfl hid
          obtain ⟨hq, hu⟩ := hone hid hnone
          refine ⟨?_, h.once, fun hk => ?_, hforeign, h.replies⟩
          · rw [hcount, hq]
            exact (Nat.add_le_add_left hu.le _).trans (by omega)
          · obtain ⟨-, hkept⟩ := h.kept hk
            rcases hkept with hu' | ⟨cached, hcached⟩
            · rw [hu] at hu'
              cases hu'
            · unfold cachedAppend at hnone
              rw [hcached] at hnone
              cases hd : cached.durability <;> simp [hd] at hnone
      | rewrite id req => simp [WriterCommand.tx?] at hmine
      | transaction req => simp [WriterCommand.tx?] at hmine
      | transactionMulti req => simp [WriterCommand.tx?] at hmine
      | recoverMutation id m => simp [WriterCommand.tx?] at hmine
    · rw [if_neg hmine] at hcount
      refine ⟨by rw [hcount]; exact h.alone, h.once, fun hk => ?_, hforeign, h.replies⟩
      rw [hcount]
      exact h.kept hk
  obtain ⟨hrows, hstate⟩ := submit_cases requestId s command
  rw [hrows, Nat.add_zero]
  rcases hstate with hsame | ⟨hsent, hmiss⟩
  · rw [hsame]
    exact h
  · rw [hsent]
    exact hsend fun id req he hid => hid ▸ hmiss id req he

theorem AppendInvariant.recover (h : s.AppendInvariant requestId k)
    (recovered : List (Text × CachedTx)) (honly : s.OnlyAppends requestId (.recover recovered)) :
    (s.recover recovered).1.AppendInvariant requestId
      (k + appendedRows requestId (s.recover recovered).2) := by
  unfold WriterState.recover
  cases hcache : recoverTransactionHistory s.cache recovered with
  | error e => exact h
  | ok cache =>
      have hsame : cache requestId = s.cache requestId := by
        rcases recoverTransactionHistory_at hcache requestId with hsame | ⟨-, p, hp, hid, -⟩
        · exact hsame
        · exact absurd hid (honly p hp)
      refine ⟨h.alone, h.once, fun hk => ?_, h.foreign, h.replies⟩
      dsimp only
      rw [hsame]
      exact h.kept hk

theorem AppendInvariant.settle (h : s.AppendInvariant requestId k) (i : ℕ) :
    (s.settle i).AppendInvariant requestId k := by
  unfold WriterState.settle
  cases hreply : s.replies[i]? with
  | none => exact h
  | some reply =>
      obtain ⟨id, response⟩ := reply
      obtain ⟨hi, hat⟩ := List.getElem?_eq_some_iff.mp hreply
      have hcount : s.unsettled requestId =
          (s.replies.eraseIdx i).countP (fun p => decide (p.1 = requestId)) +
            if id = requestId then 1 else 0 := by
        have hperm := List.getElem_cons_eraseIdx_perm hi
        rw [hat] at hperm
        rw [unsettled, ← hperm.countP_eq, List.countP_cons]
        simp only [decide_eq_true_eq]
      have hreplies : ∀ p ∈ s.replies.eraseIdx i, p.1 = requestId → ∃ cached, p.2 = .tx cached :=
        fun p hp => h.replies p (List.mem_of_mem_eraseIdx hp)
      have halone := h.alone
      by_cases hid : id = requestId
      · subst hid
        obtain ⟨cached, hcached⟩ := h.replies (id, response) (hat ▸ List.getElem_mem hi) rfl
        rw [if_pos rfl] at hcount
        refine ⟨by simp only [queued, unsettled] at *; omega, h.once, fun hk => ?_, h.foreign,
          hreplies⟩
        refine ⟨(h.kept hk).1, .inr ⟨cached, ?_⟩⟩
        dsimp only at hcached ⊢
        rw [Function.update_self, hcached]
      · rw [if_neg hid, Nat.add_zero] at hcount
        refine ⟨by rw [hcount] at halone; exact halone, h.once, fun hk => ?_, h.foreign, hreplies⟩
        have hkept := h.kept hk
        rw [hcount] at hkept
        refine ⟨hkept.1, hkept.2.imp_right fun ⟨cached, hcached⟩ => ⟨cached, ?_⟩⟩
        dsimp only
        rw [Function.update_of_ne (Ne.symm hid), hcached]

theorem AppendInvariant.runBatch (h : s.AppendInvariant requestId k) (answers : BatchAnswers)
    (n : ℕ) (hone : s.OneAtATime requestId (.runBatch answers n)) :
    (s.runBatch isUuid answers n).1.AppendInvariant requestId
      (k + appendedRows requestId (s.runBatch isUuid answers n).2) := by
  obtain ⟨commands, hqueue, hbatch⟩ := nextBatch_split s n
  obtain ⟨hrows, hreplies⟩ := processTxBatch_counts isUuid s.handles s.disk
    (s.nextBatch n) hone
  -- calls taken, answers given and rows written
  have hqueued : s.queued requestId =
      (s.nextBatch n).countP (fun p => decide (p.1 = requestId)) +
        (s.runBatch isUuid answers n).1.queued requestId := by
    conv_lhs => rw [queued, hqueue]
    rw [List.countP_append, ← countP_filterMap_tx, hbatch]
    rfl
  have hunsettled : (s.runBatch isUuid answers n).1.unsettled requestId =
      s.unsettled requestId + (batchReplies (s.nextBatch n) (processTxBatch isUuid answers s.handles
        s.disk ((s.nextBatch n).map Prod.snd)).2.2).countP fun p => decide (p.1 = requestId) :=
    List.countP_append
  have hevents : appendedRows requestId (s.runBatch isUuid answers n).2 =
      appendedRows requestId (batchEvents (s.nextBatch n) (processTxBatch isUuid answers s.handles
        s.disk ((s.nextBatch n).map Prod.snd)).2.2) := rfl
  have halone := h.alone
  have honce := h.once
  refine ⟨by omega, ?_, fun hk => ?_, fun c hc => ?_, fun p hp hid => ?_⟩
  · by_cases hk : k = 1
    · have := (h.kept hk).1
      omega
    · omega
  · by_cases hk' : k = 1
    · obtain ⟨hq, hkept⟩ := h.kept hk'
      refine ⟨by omega, hkept.imp (fun hu => by omega) id⟩
    · exact ⟨by omega, .inl (by omega)⟩
  · refine h.foreign c ?_
    rw [hqueue]
    exact List.mem_append_right _ hc
  · rcases List.mem_append.mp hp with hp | hp
    · exact h.replies p hp hid
    · obtain ⟨q, -, hq⟩ := List.mem_filterMap.mp hp
      revert hq
      rcases q.2.result with e | result
      · exact fun hq => by cases hq
      · rintro ⟨⟩
        exact ⟨_, rfl⟩

/-! ### Files that other commands change -/

/-- The commands but appends and rewrites write no row of an append, keep the queue and the
answers, and fill the cache under the ids that they name. -/
def Framed (requestId : Text) (names : Prop) (s : WriterState)
    (out : WriterState × List WriterEvent) : Prop :=
  appendedRows requestId out.2 = 0 ∧ out.1.queue = s.queue ∧ out.1.replies = s.replies ∧
    (¬names → out.1.cache requestId = s.cache requestId)

theorem appendedRows_resumed (cache : Cache) (handles : TxHandles) (id : Text) :
    appendedRows requestId (resumedEvents cache handles id) = 0 := by
  unfold resumedEvents
  split
  · split_ifs
    · rfl
    · rfl
  · rfl

variable (requestId isUuid) in
theorem runTransaction_framed (answers : Answers) (req : TransactionRequest) (s : WriterState) :
    Framed requestId (req.requestId = requestId) s
      ((s.runTransaction isUuid answers req).1, (s.runTransaction isUuid answers req).2.1) := by
  have haway : req.requestId ≠ requestId → (retrySingleTransaction answers.syncFails s.cache
      s.handles req.requestId req.mutation req.mutationId.isSome).1 requestId =
        s.cache requestId := fun hne => retrySingleTransaction_of_ne hne.symm
  unfold runTransaction
  revert haway
  rcases retrySingleTransaction answers.syncFails s.cache s.handles req.requestId req.mutation
    req.mutationId.isSome with ⟨cache, e | _ | result⟩
  · exact fun haway => ⟨rfl, rfl, rfl, haway⟩
  · intro haway
    refine ⟨?_, rfl, rfl, fun hne => (finishSingleTransaction_of_ne (Ne.symm hne)).trans (haway hne)⟩
    dsimp only [executedEvents]
    split
    · split_ifs
      · rfl
      · rfl
    · rfl
  · exact fun haway => ⟨appendedRows_resumed _ _ _, rfl, rfl, haway⟩

variable (requestId) in
theorem runRecoverMutation_framed (answers : Answers) (id : Text) (mutation : MutationIdentity)
    (s : WriterState) :
    Framed requestId (id = requestId) s (s.runRecoverMutation answers id mutation) := by
  have haway : id ≠ requestId → (retrySingleTransaction answers.syncFails s.cache
      s.handles id mutation true).1 requestId = s.cache requestId :=
    fun hne => retrySingleTransaction_of_ne hne.symm
  unfold runRecoverMutation
  revert haway
  rcases retrySingleTransaction answers.syncFails s.cache s.handles id mutation true
    with ⟨cache, e | _ | result⟩
  · exact fun haway => ⟨rfl, rfl, rfl, haway⟩
  · exact fun haway => ⟨rfl, rfl, rfl, haway⟩
  · refine fun haway => ⟨?_, rfl, rfl, haway⟩
    dsimp only
    rw [appendedRows, List.countP_append]
    exact congrArg (· + 0) (appendedRows_resumed _ _ _)

variable (requestId isUuid sha256) in
theorem runTransactionMulti_framed (answers : Answers) (req : TransactionMultiRequest)
    (s : WriterState) :
    Framed requestId (WriterCommand.transactionMulti req |>.Names requestId) s
      (s.runTransactionMulti isUuid sha256 answers req) := by
  have hsame : Framed requestId (WriterCommand.transactionMulti req |>.Names requestId) s (s, []) :=
    ⟨rfl, rfl, rfl, fun _ => rfl⟩
  have hdurable : ∀ results, ¬(WriterCommand.transactionMulti req).Names requestId →
      cacheDurableMulti sha256 s.cache req results requestId = s.cache requestId := by
    intro results hnames
    unfold WriterCommand.Names at hnames
    rw [not_or] at hnames
    exact cacheDurableMulti_of_ne sha256 hnames.1 fun tx htx hid => hnames.2 ⟨tx, htx, hid⟩
  unfold runTransactionMulti
  dsimp only
  rcases cachedMultiFromMap s.cache (multiCacheKey req.requestId) req.requestId req.mutation
    with e | _ | ⟨results, durability⟩
  · exact hsame
  · dsimp only
    split
    · exact hsame
    · rcases transactionMultiInner isUuid answers s.handles s.disk req.rewrites req.txs
        req.requestId with ⟨handles, disk, e | ⟨results, synced⟩⟩
      · exact ⟨rfl, rfl, rfl, fun _ => rfl⟩
      · cases synced with
        | true => exact ⟨rfl, rfl, rfl, hdurable results⟩
        | false =>
            refine ⟨rfl, rfl, rfl, fun hnames => Function.update_of_ne ?_ _ _⟩
            rintro rfl
            exact hnames (.inl rfl)
  · cases durability with
    | durable => exact hsame
    | syncUncertain =>
        cases results with
        | nil => exact hsame
        | cons result rest =>
            dsimp only
            rcases syncCommittedTx answers.syncFails s.handles result with e | u
            · exact hsame
            · exact ⟨rfl, rfl, rfl, hdurable _⟩

variable (requestId isUuid sha256) in
/-- What a command that is no append leaves of the cache and the answers. -/
theorem run_cases (answers : Answers) (s : WriterState) :
    appendedRows requestId (s.run isUuid sha256 answers).2 = 0 ∧
      (s.run isUuid sha256 answers = (s, []) ∨ ∃ command queue, s.queue = command :: queue ∧
        command.tx? = none ∧ (s.run isUuid sha256 answers).1.queue = queue ∧
          (¬command.Names requestId →
            (s.run isUuid sha256 answers).1.cache requestId = s.cache requestId ∧
              ∃ more, (s.run isUuid sha256 answers).1.replies = s.replies ++ more ∧
                ∀ p ∈ more, p.1 ≠ requestId)) := by
  unfold run
  rcases hqueue : s.queue with _ | ⟨command, queue⟩
  · exact ⟨rfl, .inl rfl⟩
  · cases command with
    | tx id req => exact ⟨rfl, .inl rfl⟩
    | rewrite id req =>
        dsimp only
        rcases rewriteFileInner answers s.disk req with ⟨disk, e | u⟩
        · exact ⟨rfl, .inr ⟨_, queue, rfl, rfl, rfl, fun _ => ⟨rfl, [], by simp, by simp⟩⟩⟩
        · refine ⟨rfl, .inr ⟨_, queue, rfl, rfl, rfl, fun hnames => ⟨rfl, _, rfl, ?_⟩⟩⟩
          intro p hp
          rw [List.mem_singleton.mp hp]
          exact hnames
    | transaction req =>
        obtain ⟨hrows, hq, hreplies, haway⟩ := runTransaction_framed requestId isUuid
          answers req { s with queue }
        refine ⟨?_, .inr ⟨_, queue, rfl, rfl, hq, fun hnames =>
          ⟨haway hnames, [], by rw [List.append_nil]; exact hreplies, by simp⟩⟩⟩
        dsimp only
        rw [appendedRows, List.countP_append]
        exact congrArg (· + 0) hrows
    | transactionMulti req =>
        obtain ⟨hrows, hq, hreplies, haway⟩ := runTransactionMulti_framed requestId isUuid
          sha256 answers req { s with queue }
        exact ⟨hrows, .inr ⟨_, queue, rfl, rfl, hq, fun hnames =>
          ⟨haway hnames, [], by rw [List.append_nil]; exact hreplies, by simp⟩⟩⟩
    | recoverMutation id mutation =>
        obtain ⟨hrows, hq, hreplies, haway⟩ := runRecoverMutation_framed requestId
          answers id mutation { s with queue }
        exact ⟨hrows, .inr ⟨_, queue, rfl, rfl, hq, fun hnames =>
          ⟨haway hnames, [], by rw [List.append_nil]; exact hreplies, by simp⟩⟩⟩

theorem AppendInvariant.run (h : s.AppendInvariant requestId k) (answers : Answers) :
    (s.run isUuid sha256 answers).1.AppendInvariant requestId
      (k + appendedRows requestId (s.run isUuid sha256 answers).2) := by
  obtain ⟨hrows, hcases⟩ := run_cases requestId isUuid sha256 answers s
  rw [hrows, Nat.add_zero]
  rcases hcases with hsame | ⟨command, queue, hqueue, htx, hq, haway⟩
  · rw [hsame]
    exact h
  · have hnames : ¬command.Names requestId := by
      intro hnames
      have hsome := h.foreign command (hqueue ▸ List.mem_cons_self) hnames
      rw [htx] at hsome
      cases hsome
    obtain ⟨hcache, more, hreplies, hmore⟩ := haway hnames
    have hqueued : (s.run isUuid sha256 answers).1.queued requestId = s.queued requestId := by
      rw [queued, queued, hqueue, hq, List.countP_cons, htx]
      rfl
    have hunsettled : (s.run isUuid sha256 answers).1.unsettled requestId =
        s.unsettled requestId := by
      have hzero : more.countP (fun p => decide (p.1 = requestId)) = 0 :=
        List.countP_eq_zero.mpr fun p hp => by simpa using hmore p hp
      rw [unsettled, hreplies, List.countP_append, hzero]
      rfl
    refine ⟨by rw [hqueued, hunsettled]; exact h.alone, h.once, fun hk => ?_, fun c hc => ?_,
      fun p hp hid => ?_⟩
    · rw [hqueued, hunsettled, hcache]
      exact h.kept hk
    · rw [hq] at hc
      exact h.foreign c (hqueue ▸ List.mem_cons_of_mem _ hc)
    · rw [hreplies] at hp
      rcases List.mem_append.mp hp with hp | hp
      · exact h.replies p hp hid
      · exact absurd hid (hmore p hp)

end

/-! ### Runs -/

section
variable {requestId} {isUuid : Text → Bool} {sha256 : Text → Text} {s : WriterState} {k : ℕ}

variable (isUuid sha256) in
theorem AppendInvariant.step (h : s.AppendInvariant requestId k) (action : Action)
    (honly : s.OnlyAppends requestId action) (hone : s.OneAtATime requestId action) :
    (s.step isUuid sha256 action).1.AppendInvariant requestId
      (k + appendedRows requestId (s.step isUuid sha256 action).2) := by
  cases action with
  | submit command => exact h.submit command honly hone
  | recover recovered => exact h.recover recovered honly
  | runBatch answers n => exact h.runBatch answers n hone
  | run answers => exact h.run answers
  | settle i => exact h.settle i
  | files disk => exact ⟨h.alone, h.once, h.kept, h.foreign, h.replies⟩

theorem AppendInvariant.runAll (h : s.AppendInvariant requestId k) (actions : List Action)
    (hsteps : Along isUuid sha256
      (fun s action => s.OnlyAppends requestId action ∧ s.OneAtATime requestId action) s actions) :
    (s.runAll isUuid sha256 actions).1.AppendInvariant requestId
      (k + appendedRows requestId (s.runAll isUuid sha256 actions).2) := by
  induction actions generalizing s k with
  | nil => exact h
  | cons action actions ih =>
      obtain ⟨⟨honly, hone⟩, hrest⟩ := hsteps
      have hrun := ih (h.step isUuid sha256 action honly hone) hrest
      rw [Nat.add_assoc] at hrun
      rw [WriterState.runAll]
      unfold appendedRows at hrun ⊢
      rw [List.countP_append]
      exact hrun

end

end WriterState

namespace Twice

def journal : FilePath := ["node-1".toList, "journal.org".toList]

def note : TxAppend :=
  ⟨journal, TxEntry.new "t".toList "n".toList "d".toList "a".toList "m".toList,
    none, .preserve, some "r".toList⟩

/-- An empty journal behind an open handle. -/
def handles : TxHandles := Function.update (fun _ => none) journal (some ⟨.journal, []⟩)

def disk : Disk :=
  Function.update (fun _ => none) journal (some (utf8 (journalHeader "node-1".toList)))

def answers : BatchAnswers := .fair fun i => ⟨[], List.replicate (i + 1) 'e'⟩

/-- One call, answered and kept. -/
def alone : List WriterState.Action :=
  [.submit (.tx "r".toList note), .runBatch answers 1, .settle 0]

end Twice

end Orgasmic
