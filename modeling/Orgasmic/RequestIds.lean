import Orgasmic.TransactionAtomic
import Orgasmic.WriterLoop

/-! # One request id, two requests

Two calls of `append_tx` or `transaction` under one request id, the second after the first has been
answered.

* **Calls.** `WriterHandle.appendTx` and `WriterHandle.transaction` from the checks of the handle to the answer.
* **Conflicts.** `answer_eq_conflict_iff`: a transaction is refused if the cache keeps anything but
  its own identity; an append only if the cache keeps a transaction whose sync failed. -/

namespace Orgasmic

open Text

/-! ### Calls -/

/-- Keys of the replay metadata are the writer's. -/
def rejectSuppliedReplay (tx : TxAppend) : Except WriterError Unit :=
  if ∃ p ∈ tx.entry.extra, "REQUEST_REPLAY_".toList <+: p.1.map Char.toUpper then
    .error (.message "transaction contains reserved replay metadata".toList)
  else .ok ()

/-- What a call meets. -/
structure CallAnswers where
  /-- Another machine has claimed the node of the path. -/
  guardFails : FilePath → Bool
  /-- The answers in ledgers that were registered since the last call. -/
  recovered : List (Text × CachedTx)
  /-- The replay metadata that the row is written with, if all files are under registered roots. -/
  retained : Option (List (Text × Text))
  batch : BatchAnswers
  writer : Answers

/-- Nothing fails, and nothing is recovered. -/
def CallAnswers.fair (minted : ℕ → Minted) : CallAnswers :=
  ⟨fun _ => false, [], some [], .fair minted, .fair minted⟩

/-- A call of `append_tx` or `transaction`. -/
inductive Request where
  | append (req : TxAppend)
  | transaction (rewrites : List FileRewrite) (tx : TxAppend)

/-- What the caller says in a request. -/
structure Content where
  rewrites : List FileRewrite
  ty : Text
  projectId : Option Text
  project : Option Text
  task : Option Text
  target : Option Text
  reason : Option Text
  extra : List (Text × Text)
deriving DecidableEq, Repr

def contentOf (rewrites : List FileRewrite) (tx : TxAppend) : Content :=
  ⟨rewrites, tx.entry.ty, tx.projectId, tx.entry.project, tx.entry.task, tx.entry.target,
    tx.entry.reason, tx.entry.extra.filter fun p => p.1 ≠ eventIdKey⟩

def Request.content : Request → Content
  | .append req => contentOf [] req
  | .transaction rewrites tx => contentOf rewrites tx

section
variable (isUuid : Text → Bool) (sha256 : Text → Text) (answers : CallAnswers) (s : WriterState)
variable (requestId : Text)

def WriterHandle.appendTx (req : TxAppend) : WriterState × Except WriterError Text :=
  match rejectSuppliedReplay req with
  | .error e => (s, .error e)
  | .ok () =>
      if answers.guardFails req.txPath then (s, .error (.message "claim conflict".toList))
      else match WriterState.cachedAppend s.cache requestId with
      | .error e => (s, .error e)
      | .ok (some result) => (s, .ok result.txId)
      | .ok none =>
          let (handles, disk, items) := processTxBatch isUuid answers.batch s.handles s.disk [req]
          let cache := (WriterState.batchReplies [(requestId, req)] items).foldl
            (fun (cache : Cache) p => Function.update cache p.1 (some p.2)) s.cache
          ({ s with cache, handles, disk },
            match items with
            | [] => .error (.message "writer reply dropped".toList)
            | item :: _ => item.result.map (·.txId))

def WriterHandle.transaction (rewrites : List FileRewrite) (tx : TxAppend) :
    WriterState × Except WriterError Text :=
  match recoverTransactionHistory s.cache answers.recovered with
  | .error e => (s, .error e)
  | .ok cache =>
      let s := { s with cache }
      let mutation := transactionIdentity sha256 tx rewrites
      if ∃ path ∈ rewrites.map FileRewrite.path ++ [tx.txPath], answers.guardFails path = true then
        (s, .error (.message "claim conflict".toList))
      else match cachedTransactionFromMap s.cache requestId mutation with
      | .error e => (s, .error e)
      | .ok (some result) => (s, .ok result.txId)
      | .ok none =>
          match rejectSuppliedReplay tx, answers.retained with
          | .error e, _ => (s, .error e)
          | .ok (), none =>
              (s, .error (.message "transaction replay path is outside registered roots".toList))
          | .ok (), some replay =>
              let tx := { tx with entry := { tx.entry with extra := tx.entry.extra ++ replay } }
              let (s, _, reply) := s.runTransaction isUuid answers.writer
                ⟨.rewrites rewrites, tx, requestId, mutation, none⟩
              (s, reply.map (·.txId))

/-- The state after a call, and its answer. -/
def Request.call : Request → WriterState × Except WriterError Text
  | .append req => WriterHandle.appendTx isUuid answers s requestId req
  | .transaction rewrites tx =>
      WriterHandle.transaction isUuid sha256 answers s requestId rewrites tx

end

/-! ### Errors that are no conflict -/

section
variable {isUuid : Text → Bool} {answers : Answers} {e : WriterError}

theorem prepareTxEntry_plain {minted : Minted} {req : TxAppend}
    (h : prepareTxEntry isUuid minted req = .error e) : e.Plain := by
  unfold prepareTxEntry at h
  dsimp only at h
  split at h
  · cases h
  · split_ifs at h
    cases h
    trivial
  · cases h
    trivial

theorem prepareTxEntries_plain {minted : ℕ → Minted} {i : ℕ} {reqs : List TxAppend}
    (h : prepareTxEntries isUuid minted i reqs = .error e) : e.Plain := by
  induction reqs generalizing i with
  | nil => cases h
  | cons req reqs ih =>
      rw [prepareTxEntries] at h
      cases hreq : prepareTxEntry isUuid (minted i) req with
      | error e' =>
          rw [hreq] at h
          cases h
          exact prepareTxEntry_plain hreq
      | ok entry =>
          simp only [hreq] at h
          cases hrest : prepareTxEntries isUuid minted (i + 1) reqs with
          | error e' =>
              rw [hrest] at h
              cases h
              exact ih hrest
          | ok entries =>
              rw [hrest] at h
              cases h

theorem openAt_plain {disk : Disk} {path : FilePath}
    (h : (CachedTxWriter.openAt disk path).2 = .error e) : e.Plain := by
  unfold CachedTxWriter.openAt at h
  cases hbytes : CachedTxWriter.openedBytes disk path with
  | none =>
      rw [hbytes] at h
      cases h
      trivial
  | some bytes =>
      rw [hbytes] at h
      dsimp only at h
      cases hread : readToString bytes with
      | none =>
          rw [hread] at h
          cases h
          trivial
      | some source =>
          rw [hread] at h
          dsimp only at h
          cases hids : readEventIds path source with
          | ok ids =>
              rw [hids] at h
              cases h
          | error e' =>
              rw [hids] at h
              cases h
              unfold readEventIds at hids
              split_ifs at hids
              · cases hparse : parseJournal source (displayPath path) with
                | ok entries =>
                    rw [hparse] at hids
                    cases hids
                | error e' =>
                    rw [hparse] at hids
                    cases hids
                    trivial
              · cases hparse : parseTxFile source (displayPath path) with
                | ok entries =>
                    rw [hparse] at hids
                    cases hids
                | error e' =>
                    rw [hparse] at hids
                    cases hids
                    trivial

theorem handleAt_plain {handles : TxHandles} {disk : Disk} {path : FilePath} {fails : Bool}
    (h : (handleAt handles disk path fails).2.2 = .error e) : e.Plain := by
  unfold handleAt at h
  cases hhandle : handles path with
  | some w =>
      rw [hhandle] at h
      cases h
  | none =>
      rw [hhandle] at h
      dsimp only at h
      split_ifs at h
      · cases h
        trivial
      · have hopen := @openAt_plain e disk path
        revert h hopen
        rcases CachedTxWriter.openAt disk path with ⟨d, result⟩
        cases result with
        | error e' => exact fun h hopen => hopen h
        | ok w => exact fun h _ => by cases h

theorem block_plain {w : LedgerWriter} {entry : TxEntry} (h : w.block entry = .error e) :
    e.Plain := by
  cases w with
  | journal =>
      simp only [LedgerWriter.block] at h
      split at h
      · cases h
        trivial
      · split at h
        · cases h
          trivial
        · cases h
  | tx blank =>
      simp only [LedgerWriter.block] at h
      split at h
      · cases h
        trivial
      · cases h

theorem append_plain {w : CachedTxWriter} {entry : TxEntry} (h : w.append entry = .error e) :
    e.Plain := by
  unfold CachedTxWriter.append at h
  split at h
  · cases h
  · split at h
    · next hblock =>
        cases h
        exact block_plain hblock
    · cases h

theorem appendMany_plain {w : CachedTxWriter} {entries : List TxEntry}
    (h : (w.appendMany entries).2.2 = .error e) : e.Plain := by
  induction entries generalizing w with
  | nil => cases h
  | cons entry entries ih =>
      rw [CachedTxWriter.appendMany] at h
      cases happend : w.append entry with
      | error e' =>
          rw [happend] at h
          cases h
          exact append_plain happend
      | ok out =>
          obtain ⟨w', text, txId⟩ := out
          rw [happend] at h
          dsimp only at h
          cases hrest : (w'.appendMany entries).2.2 with
          | error e' =>
              rw [hrest] at h
              cases h
              exact ih hrest
          | ok ids =>
              rw [hrest] at h
              cases h

theorem appendTxsInner_plain {handles : TxHandles} {disk : Disk} {path : FilePath}
    {reqs : List TxAppend}
    (h : (appendTxsInner isUuid answers handles disk path reqs).2.2 = .error e) : e.Plain := by
  unfold appendTxsInner at h
  dsimp only at h
  cases hprepare : prepareTxEntries isUuid answers.minted 0 reqs with
  | error e' =>
      rw [hprepare] at h
      cases h
      exact prepareTxEntries_plain hprepare
  | ok entries =>
      rw [hprepare] at h
      dsimp only at h
      split_ifs at h
      · cases h
        trivial
      · have hopen := @handleAt_plain e (detach handles path answers.namesWriter) disk path
          answers.openLedgerFails
        revert h hopen
        rcases handleAt (detach handles path answers.namesWriter) disk path answers.openLedgerFails
          with ⟨hs, d, result⟩
        cases result with
        | error e' => exact fun h hopen => hopen (by cases h; rfl)
        | ok w =>
            intro h _
            dsimp only at h
            cases hmany : (w.appendMany entries).2.2 with
            | error e' =>
                rw [hmany] at h
                cases h
                exact appendMany_plain hmany
            | ok ids =>
                rw [hmany] at h
                cases h

theorem stageRewrites_plain {rid : Text} {i : ℕ} {rewrites : List FileRewrite} {disk : Disk}
    {staged : List StagedRewrite}
    (h : (stageRewrites answers rid i rewrites disk staged).failed = some e) : e.Plain := by
  induction rewrites generalizing i disk staged with
  | nil => cases h
  | cons r rest ih =>
      unfold stageRewrites at h
      dsimp only at h
      split_ifs at h
      · cases h
        trivial
      · cases h
        trivial
      · split at h
        · cases h
          trivial
        · exact ih h

theorem backUpTargets_plain {rid : Text} {i : ℕ} {todo : List StagedRewrite} {disk : Disk}
    {staged : List StagedRewrite}
    (h : (backUpTargets answers rid i todo disk staged).failed = some e) : e.Plain := by
  induction todo generalizing i disk staged with
  | nil => cases h
  | cons r rest ih =>
      unfold backUpTargets at h
      dsimp only at h
      split at h
      · exact ih h
      · split_ifs at h
        · cases h
          trivial
        · split at h
          · cases h
            trivial
          · exact ih h

theorem renameRewrites_plain {i : ℕ} {todo : List StagedRewrite} {disk : Disk}
    {renamed : List StagedRewrite}
    (h : (renameRewrites answers i todo disk renamed).failed = some e) : e.Plain := by
  induction todo generalizing i disk renamed with
  | nil => cases h
  | cons r rest ih =>
      unfold renameRewrites at h
      split_ifs at h
      · cases h
        trivial
      · exact ih h

theorem transactionMultiLockedInner_plain {handles : TxHandles} {disk : Disk}
    {rewrites : List FileRewrite} {path : FilePath} {txs : List TxAppend} {rid : Text}
    (h : (transactionMultiLockedInner isUuid answers handles disk rewrites path txs rid).result =
      .error e) : e.Plain := by
  rw [locked_eq] at h
  dsimp only at h
  cases hs : (stageRewrites answers rid 0 rewrites disk []).failed with
  | some e' =>
      rw [hs] at h
      cases h
      exact stageRewrites_plain hs
  | none =>
      rw [hs] at h
      cases hb : (backupPhase answers rid disk rewrites).failed with
      | some e' =>
          rw [hb] at h
          cases h
          exact backUpTargets_plain hb
      | none =>
          rw [hb] at h
          dsimp only at h
          split_ifs at h
          · cases h
            trivial
          · cases hr : (renamePhase answers rid disk rewrites).failed with
            | some e' =>
                rw [hr] at h
                cases h
                exact renameRewrites_plain hr
            | none =>
                rw [hr] at h
                dsimp only at h
                have happend := @appendTxsInner_plain isUuid answers e handles
                  (renamePhase answers rid disk rewrites).disk path txs
                revert h happend
                rcases appendTxsInner isUuid answers handles
                  (renamePhase answers rid disk rewrites).disk path txs with ⟨hs, d, result⟩
                cases result with
                | error e' => exact fun h happend => happend (by cases h; rfl)
                | ok results => exact fun h _ => by cases h

theorem transactionMultiInner_plain {handles : TxHandles} {disk : Disk}
    {rewrites : List FileRewrite} {txs : List TxAppend} {rid : Text}
    (h : (transactionMultiInner isUuid answers handles disk rewrites txs rid).result = .error e) :
    e.Plain := by
  rcases transactionMultiInner_cases isUuid answers handles disk rewrites txs rid with ⟨e', he', hout⟩ | ⟨first, -, -, hout⟩
  · rw [hout] at h
    cases h
    exact he'
  · rw [hout] at h
    exact transactionMultiLockedInner_plain h

theorem batchItem_plain {answers : BatchAnswers} {i : ℕ} {handles : TxHandles} {disk : Disk}
    {req : TxAppend} (h : (batchItem isUuid answers i handles disk req).2.2.result = .error e) :
    e.Plain := by
  unfold batchItem at h
  cases hprepare : prepareTxEntry isUuid (answers.minted i) req with
  | error e' =>
      rw [hprepare] at h
      cases h
      exact prepareTxEntry_plain hprepare
  | ok entry =>
      rw [hprepare] at h
      dsimp only at h
      unfold writeTxAppend at h
      split at h
      · cases h
        exact plain_io _
      · split at h
        · next hopen =>
            cases h
            exact handleAt_plain (by rw [hopen])
        · split at h
          · next happend =>
              cases h
              exact append_plain happend
          · cases h

theorem syncedItem_plain {answers : BatchAnswers} {req : TxAppend} {item : BatchItem}
    (hitem : ∀ e, item.result = .error e → e.Plain)
    (h : (syncedItem answers req item).result = .error e) : e.Plain := by
  unfold syncedItem at h
  cases hresult : item.result with
  | error e' =>
      rw [hresult] at h
      cases h
      exact hitem e hresult
  | ok result =>
      rw [hresult] at h
      dsimp only at h
      split_ifs at h
      cases h
      exact plain_message _

/-- The answer of a batch of one append is no conflict. -/
theorem processTxBatch_plain {answers : BatchAnswers} {handles : TxHandles} {disk : Disk}
    {req : TxAppend} :
    ∃ item, (processTxBatch isUuid answers handles disk [req]).2.2 = [item] ∧
      ∀ e, item.result = .error e → e.Plain :=
  ⟨_, rfl, fun _ => syncedItem_plain fun _ => batchItem_plain⟩

end

/-! ### Conflicts -/

section
variable {isUuid : Text → Bool} {sha256 : Text → Text} {answers : CallAnswers} {requestId : Text}

/-- The cache keeps something else than a transaction of this identity. -/
def KeepsOther (cache : Cache) (requestId : Text) (mutation : MutationIdentity) : Prop :=
  ∃ kept, cache requestId = some kept ∧
    ∀ cached, kept = .tx cached → cached.mutation ≠ some mutation

theorem cachedFor_error_iff {cache : Cache} {mutation : MutationIdentity} {e : WriterError} :
    cachedFor cache requestId mutation = .error e ↔
      e = .requestIdReuse requestId ∧ KeepsOther cache requestId mutation := by
  unfold cachedFor KeepsOther
  rcases cache requestId with _ | kept
  · simp
  · cases kept with
    | tx cached =>
        by_cases hsame : cached.mutation = some mutation
        · simp [hsame]
        · simp [hsame, eq_comm]
    | multi results m d => simp [eq_comm]
    | rewrite => simp [eq_comm]

theorem cachedTransaction_error_iff {cache : Cache} {mutation : MutationIdentity}
    {e : WriterError} :
    cachedTransactionFromMap cache requestId mutation = .error e ↔
      e = .requestIdReuse requestId ∧ KeepsOther cache requestId mutation := by
  rw [← cachedFor_error_iff]
  unfold cachedTransactionFromMap
  rcases cachedFor cache requestId mutation with e' | _ | cached
  · simp
  · simp
  · cases hd : cached.durability with
    | durable => simp [hd]
    | syncUncertain => simp [hd]

/-- A transaction that the cache does not refuse is answered without a conflict. -/
theorem runTransaction_plain {answers : Answers} {s : WriterState} {rewrites : List FileRewrite}
    {tx : TxAppend} {mutation : MutationIdentity} {e : WriterError}
    (hcached : ∀ e, cachedTransactionFromMap s.cache requestId mutation ≠ .error e)
    (h : (s.runTransaction isUuid answers
      ⟨.rewrites rewrites, tx, requestId, mutation, none⟩).2.2 = .error e) : e.Plain := by
  have hchecked : ((cachedTransactionFromMap s.cache requestId mutation).map
      fun _ => ()) = (.ok () : Except WriterError Unit) := by
    cases hc : cachedTransactionFromMap s.cache requestId mutation with
    | error e' => exact absurd hc (hcached e')
    | ok kept => rfl
  unfold WriterState.runTransaction at h
  dsimp only at h
  have hretry : ∀ cache e', retrySingleTransaction answers.syncFails s.cache s.handles requestId
      mutation false = (cache, .error e') → e'.Plain := by
    intro cache e' hretry
    unfold retrySingleTransaction at hretry
    simp only [if_neg Bool.false_ne_true, hchecked] at hretry
    split at hretry
    · split at hretry
      · cases hretry
      · split at hretry
        · cases hretry
          exact plain_message _
        · split at hretry
          · cases hretry
            trivial
          · cases hretry
    · cases hretry
  cases hres : retrySingleTransaction answers.syncFails s.cache s.handles requestId mutation
      (none : Option Text).isSome with
  | mk cache result =>
      rw [hres] at h
      rcases result with e' | _ | kept
      · cases h
        exact hretry cache e hres
      · dsimp only at h
        unfold finishSingleTransaction at h
        split at h
        · next hout =>
            cases h
            exact transactionMultiInner_plain hout
        · cases h
          exact plain_message _
        · split_ifs at h
          cases h
          trivial
      · cases h

/-- Whether a request is refused, by what the cache keeps when it comes. -/
def ToldApart (sha256 : Text → Text) (answers : CallAnswers) (cache : Cache) (requestId : Text) :
    Request → Prop
  | .append req => rejectSuppliedReplay req = .ok () ∧ answers.guardFails req.txPath = false ∧
      ∃ cached, cache requestId = some (.tx cached) ∧ cached.durability = .syncUncertain
  | .transaction rewrites tx => ∃ cache',
      recoverTransactionHistory cache answers.recovered = .ok cache' ∧
        (∀ path ∈ rewrites.map FileRewrite.path ++ [tx.txPath], answers.guardFails path = false) ∧
          KeepsOther cache' requestId (transactionIdentity sha256 tx rewrites)

theorem rejectSuppliedReplay_plain {req : TxAppend} {e : WriterError}
    (h : rejectSuppliedReplay req = .error e) : e.Plain := by
  unfold rejectSuppliedReplay at h
  split_ifs at h
  cases h
  exact plain_message _

theorem appendTx_conflict_iff {s : WriterState} {req : TxAppend} :
    (WriterHandle.appendTx isUuid answers s requestId req).2 = .error (.requestIdReuse requestId) ↔
      ToldApart sha256 answers s.cache requestId (.append req) := by
  unfold WriterHandle.appendTx ToldApart
  cases hreject : rejectSuppliedReplay req with
  | error e =>
      refine iff_of_false ?_ fun h => by simp [hreject] at h
      have he := rejectSuppliedReplay_plain hreject
      rintro ⟨⟩
      exact he
  | ok u =>
      dsimp only
      cases hguard : answers.guardFails req.txPath with
      | true => simp
      | false =>
          rw [if_neg Bool.false_ne_true]
          obtain ⟨item, hitem, hplain⟩ := @processTxBatch_plain isUuid answers.batch s.handles
            s.disk req
          have hmiss : item.result.map (·.txId) ≠ .error (.requestIdReuse requestId) := by
            cases hresult : item.result with
            | ok result => simp [Except.map]
            | error e =>
                have he := hplain e hresult
                intro h
                cases h
                exact he
          revert hitem
          rcases processTxBatch isUuid answers.batch s.handles s.disk [req] with ⟨hs, d, items⟩
          intro hitem
          dsimp only at hitem
          subst hitem
          unfold WriterState.cachedAppend
          rcases s.cache requestId with _ | kept
          · simpa using hmiss
          · cases kept with
            | tx cached =>
                cases hd : cached.durability with
                | durable => simp [hd]
                | syncUncertain => simp [hd, hreject]
            | multi results m d => simpa using hmiss
            | rewrite => simpa using hmiss

theorem transaction_conflict_iff {s : WriterState} {rewrites : List FileRewrite} {tx : TxAppend} :
    (WriterHandle.transaction isUuid sha256 answers s requestId rewrites tx).2 =
        .error (.requestIdReuse requestId) ↔
      ToldApart sha256 answers s.cache requestId (.transaction rewrites tx) := by
  unfold WriterHandle.transaction ToldApart
  cases hrecover : recoverTransactionHistory s.cache answers.recovered with
  | error e =>
      unfold recoverTransactionHistory at hrecover
      split_ifs at hrecover
      cases hrecover
      simp
  | ok cache =>
      simp only [Except.ok.injEq, exists_eq_left']
      by_cases hguard : ∃ path ∈ rewrites.map FileRewrite.path ++ [tx.txPath],
          answers.guardFails path = true
      · rw [if_pos hguard]
        obtain ⟨path, hpath, hfails⟩ := hguard
        refine iff_of_false (by simp) fun h => ?_
        rw [h.1 path hpath] at hfails
        cases hfails
      · rw [if_neg hguard]
        have hclear : ∀ path ∈ rewrites.map FileRewrite.path ++ [tx.txPath],
            answers.guardFails path = false := by
          intro path hpath
          by_contra hfails
          exact hguard ⟨path, hpath, by simpa using hfails⟩
        rw [and_iff_right hclear]
        have hconflict := fun e => @cachedTransaction_error_iff requestId cache
          (transactionIdentity sha256 tx rewrites) e
        cases hcached : cachedTransactionFromMap cache requestId
            (transactionIdentity sha256 tx rewrites) with
        | error e =>
            obtain ⟨rfl, hother⟩ := (hconflict e).mp hcached
            exact iff_of_true rfl hother
        | ok kept =>
            have hsame : ¬KeepsOther cache requestId (transactionIdentity sha256 tx rewrites) := by
              intro hother
              rw [(hconflict _).mpr ⟨rfl, hother⟩] at hcached
              cases hcached
            refine iff_of_false ?_ hsame
            cases kept with
            | some result => simp
            | none =>
                dsimp only
                cases hreject : rejectSuppliedReplay tx with
                | error e =>
                    have he := rejectSuppliedReplay_plain hreject
                    rintro ⟨⟩
                    exact he
                | ok u =>
                    cases answers.retained with
                    | none => simp
                    | some replay =>
                        dsimp only
                        intro h
                        cases hreply : (WriterState.runTransaction isUuid answers.writer
                            ⟨.rewrites rewrites, { tx with entry := { tx.entry with
                              extra := tx.entry.extra ++ replay } }, requestId,
                              transactionIdentity sha256 tx rewrites, none⟩
                            { s with cache }).2.2 with
                        | ok result =>
                            rw [hreply] at h
                            cases h
                        | error e =>
                            have he := runTransaction_plain (s := { s with cache })
                              (fun e => by rw [hcached]; simp) hreply
                            rw [hreply] at h
                            cases h
                            exact he

/-- **Conflicts.** A request is refused exactly if the cache tells it apart from what it keeps. -/
theorem call_conflict_iff {s : WriterState} {request : Request} :
    (request.call isUuid sha256 answers s requestId).2 = .error (.requestIdReuse requestId) ↔
      ToldApart sha256 answers s.cache requestId request := by
  cases request with
  | append req => exact appendTx_conflict_iff
  | transaction rewrites tx => exact transaction_conflict_iff

end

section
variable (isUuid : Text → Bool) (sha256 : Text → Text) (s : WriterState) (requestId : Text)
variable (answers answers' : CallAnswers) (first second : Request)

/-- The second request under a request id is refused if it says something else than the first. -/
def NoSilentDrop : Prop :=
  let s' := (first.call isUuid sha256 answers s requestId).1
  first.content ≠ second.content →
    (second.call isUuid sha256 answers' s' requestId).2 = .error (.requestIdReuse requestId)

/-- **No silent drop** exactly if the cache, as the first request left it, keeps another identity
for a second transaction, or an uncertain transaction for a second append. -/
theorem noSilentDrop_iff :
    NoSilentDrop isUuid sha256 s requestId answers answers' first second ↔
      (first.content ≠ second.content → ToldApart sha256 answers'
        (first.call isUuid sha256 answers s requestId).1.cache requestId second) :=
  imp_congr_right fun _ => call_conflict_iff

end

namespace Collision

def journal : FilePath := ["node-1".toList, "journal.org".toList]

/-- A note whose reason is the caller's. -/
def note (reason : Text) : TxAppend :=
  ⟨journal, { TxEntry.new "tx-1".toList "note".toList "[2024-01-01]".toList "a".toList "m".toList with
    reason := some reason }, none, .preserve, some "r".toList⟩

def answers : CallAnswers := .fair fun i => ⟨[], List.replicate (i + 1) 'e'⟩

/-- An empty journal behind an open handle. -/
def state : WriterState :=
  .init (Function.update (fun _ => none) journal (some ⟨.journal, []⟩))
    (Function.update (fun _ => none) journal (some (utf8 (journalHeader "node-1".toList))))

end Collision

/-- Two transactions that differ in the reason: the second one gets the answer of the first. -/
theorem noSilentDrop_fails :
    ¬NoSilentDrop (fun _ => true) (fun payload => payload) Collision.state "r".toList
      Collision.answers Collision.answers (.transaction [] (Collision.note "x".toList))
      (.transaction [] (Collision.note "y".toList)) := by
  intro h
  have hdiffer : (Request.transaction [] (Collision.note "x".toList)).content ≠
      (Request.transaction [] (Collision.note "y".toList)).content := by decide
  have hconflict := h hdiffer
  have hanswer : ((Request.transaction [] (Collision.note "y".toList)).call (fun _ => true)
      (fun payload => payload) Collision.answers
      ((Request.transaction [] (Collision.note "x".toList)).call (fun _ => true)
        (fun payload => payload) Collision.answers Collision.state "r".toList).1
      "r".toList).2.isOk = true := by decide +kernel
  rw [hconflict] at hanswer
  cases hanswer

end Orgasmic
