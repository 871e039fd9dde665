import Orgasmic.TransactionAtomic
import Orgasmic.WriterLoop

/-! # Transactions take effect once

What is true of all transactions under one request id, over every run of the writer.

* **Property.** `ExactlyOnce`: one commit, one transaction id in all answers, a sync of the handle
  that has the row before each of them, and a conflict for every other identity.
* **Steps.** `Moved` lists what one step can do to the cached answer; the cache never forgets it.
* **Condition.** A group whose sync failed is kept under its own key only.  `ResumesCleanly`: when
  its sync is retried, the cache still has nothing under the request ids of its rows. -/

namespace Orgasmic

open Text

variable (requestId : Text)

/-! ### The property -/

/-- The transaction was executed, or answered with its id. -/
def WriterEvent.Uses (mutation : MutationIdentity) (txId : Text) (event : WriterEvent) : Prop :=
  event = .committed requestId mutation txId ∨ event = .replied requestId mutation (.ok (some txId))

/-- The request id served this transaction. -/
def Used (history : List WriterEvent) (mutation : MutationIdentity) (txId : Text) : Prop :=
  ∃ event ∈ history, event.Uses requestId mutation txId

def WriterEvent.isCommit : WriterEvent → Bool
  | .committed id _ _ => decide (id = requestId)
  | _ => false

/-- A handle that has the transaction was synced. -/
def Synced (history : List WriterEvent) (txId : Text) : Prop :=
  ∃ txIds, .synced txIds ∈ history ∧ txId ∈ txIds

/-- Each answer comes after a sync. -/
def AnswersSynced (history : List WriterEvent) : Prop :=
  ∀ past mutation txId future,
    history = past ++ .replied requestId mutation (.ok (some txId)) :: future → Synced past txId

/-- Nothing is executed or answered with a transaction. -/
def Silent (events : List WriterEvent) : Prop :=
  ∀ mutation txId, ¬Used requestId events mutation txId

/-- No transaction is served from this answer. -/
def Closed (kept : CachedResponse) : Prop := ∀ cached, kept = .tx cached → cached.mutation = none

inductive Moved : Option CachedResponse → Option CachedResponse → List WriterEvent → Prop where
  | silent {kept events} : Silent requestId events → Moved kept kept events
  | closed {kept kept' events} : Silent requestId events → Closed kept' →
      Moved kept (some kept') events
  | entered {cached events} : Silent requestId events → Synced events cached.result.txId →
      Moved none (some (.tx cached)) events
  | answered {cached mutation} : cached.mutation = some mutation → cached.durability = .durable →
      Moved (some (.tx cached)) (some (.tx cached))
        [.replied requestId mutation (.ok (some cached.result.txId))]
  | resumed {cached mutation txIds} : cached.mutation = some mutation →
      cached.result.txId ∈ txIds →
        Moved (some (.tx cached)) (some (.tx { cached with durability := .durable }))
          [.synced txIds, .replied requestId mutation (.ok (some cached.result.txId))]
  | executed {cached mutation txIds} : cached.mutation = some mutation →
      cached.result.txId ∈ txIds →
        Moved none (some (.tx cached)) [.committed requestId mutation cached.result.txId,
          .synced txIds, .replied requestId mutation (.ok (some cached.result.txId))]
  | uncertain {cached mutation e} : cached.mutation = some mutation →
      cached.durability = .syncUncertain →
        Moved none (some (.tx cached)) [.committed requestId mutation cached.result.txId,
          .replied requestId mutation (.error e)]

/-- What is true of the history, by the answer that the cache keeps. -/
structure Served (kept : Option CachedResponse) (history : List WriterEvent) : Prop where
  once : history.countP (WriterEvent.isCommit requestId) ≤ 1
  fresh : kept = none → Silent requestId history
  agree : ∀ mutation txId mutation' txId', Used requestId history mutation txId →
    Used requestId history mutation' txId' → mutation = mutation' ∧ txId = txId'
  cached : ∀ cached, kept = some (.tx cached) → ∀ own, cached.mutation = some own →
    ∀ mutation txId, Used requestId history mutation txId →
      mutation = own ∧ txId = cached.result.txId
  synced : ∀ cached, kept = some (.tx cached) → cached.mutation.isSome →
    cached.durability = .durable → Synced history cached.result.txId
  afterSync : AnswersSynced requestId history

variable {requestId}

theorem used_append {past events : List WriterEvent} {mutation : MutationIdentity} {txId : Text} :
    Used requestId (past ++ events) mutation txId ↔
      Used requestId past mutation txId ∨ Used requestId events mutation txId := by
  simp only [Used, List.mem_append, or_and_right, exists_or]

theorem used_cons {event : WriterEvent} {events : List WriterEvent} {mutation : MutationIdentity}
    {txId : Text} : Used requestId (event :: events) mutation txId ↔
      event.Uses requestId mutation txId ∨ Used requestId events mutation txId := by
  simp only [Used, List.mem_cons, or_and_right, exists_or, exists_eq_left]

theorem silent_nil : Silent requestId [] := fun _ _ ⟨_, h, _⟩ => by cases h

theorem Synced.append {past : List WriterEvent} {txId : Text} (h : Synced past txId)
    (events : List WriterEvent) : Synced (past ++ events) txId :=
  h.imp fun _ h => ⟨List.mem_append_left _ h.1, h.2⟩

/-- New answers are synced if each has its sync before it. -/
theorem AnswersSynced.append {past events : List WriterEvent} (h : AnswersSynced requestId past)
    (hevents : ∀ before mutation txId after,
      events = before ++ .replied requestId mutation (.ok (some txId)) :: after →
        Synced (past ++ before) txId) :
    AnswersSynced requestId (past ++ events) := by
  intro before mutation txId after hsplit
  rcases List.append_eq_append_iff.mp hsplit with ⟨more, rfl, hnew⟩ | ⟨more, hold, hnew⟩
  · exact hevents more mutation txId after hnew
  · cases more with
    | nil =>
        rw [List.append_nil] at hold
        subst hold
        have hsynced := hevents [] mutation txId after hnew.symm
        rw [List.append_nil] at hsynced
        exact hsynced
    | cons event more =>
        rw [List.cons_append, List.cons.injEq] at hnew
        obtain ⟨rfl, -⟩ := hnew
        exact h before mutation txId more hold

/-- One more event. -/
theorem AnswersSynced.snoc {past : List WriterEvent} {event : WriterEvent}
    (h : AnswersSynced requestId past)
    (hevent : ∀ mutation txId, event = .replied requestId mutation (.ok (some txId)) →
      Synced past txId) : AnswersSynced requestId (past ++ [event]) := by
  refine h.append fun before mutation txId after hsplit => ?_
  cases before with
  | nil =>
      rw [List.nil_append, List.cons.injEq] at hsplit
      rw [List.append_nil]
      exact hevent mutation txId hsplit.1
  | cons first before =>
      rw [List.cons_append, List.cons.injEq] at hsplit
      simp at hsplit

theorem Silent.commits {events : List WriterEvent} (h : Silent requestId events) :
    events.countP (WriterEvent.isCommit requestId) = 0 := by
  refine List.countP_eq_zero.mpr fun event hevent hcommit => ?_
  cases event with
  | committed id mutation txId =>
      have hid : id = requestId := by simpa [WriterEvent.isCommit] using hcommit
      subst hid
      exact h mutation txId ⟨_, hevent, .inl rfl⟩
  | appended id => cases hcommit
  | synced txIds => cases hcommit
  | replied id mutation result => cases hcommit

/-! ### Steps -/

variable {kept kept' : Option CachedResponse} {history events : List WriterEvent}

theorem Served.silent (h : Served requestId kept history) (hsilent : Silent requestId events) :
    Served requestId kept (history ++ events) := by
  have hold : ∀ {mutation txId}, Used requestId (history ++ events) mutation txId →
      Used requestId history mutation txId :=
    fun hused => (used_append.mp hused).resolve_right (hsilent _ _)
  refine ⟨?_, fun hnone _ _ hused => h.fresh hnone _ _ (hold hused),
    fun _ _ _ _ hused hused' => h.agree _ _ _ _ (hold hused) (hold hused'),
    fun cached hkept own hown _ _ hused => h.cached cached hkept own hown _ _ (hold hused),
    fun cached hkept hown hdurable => (h.synced cached hkept hown hdurable).append events,
    h.afterSync.append fun before mutation txId after hsplit => ?_⟩
  · rw [List.countP_append, hsilent.commits]
    exact h.once
  · refine absurd ⟨_, ?_, .inr rfl⟩ (hsilent mutation txId)
    rw [hsplit]
    exact List.mem_append_right _ List.mem_cons_self

/-- Everything so far was this transaction. -/
theorem Served.own {cached : CachedTx} {mutation : MutationIdentity}
    (hown : cached.mutation = some mutation)
    (honce : (history ++ events).countP (WriterEvent.isCommit requestId) ≤ 1)
    (hused : ∀ other txId, Used requestId (history ++ events) other txId →
      other = mutation ∧ txId = cached.result.txId)
    (hsynced : cached.durability = .durable → Synced (history ++ events) cached.result.txId)
    (hafter : AnswersSynced requestId (history ++ events)) :
    Served requestId (some (.tx cached)) (history ++ events) := by
  refine ⟨honce, nofun, fun _ _ _ _ h h' => ?_, fun cached' hkept own hown' _ _ h => ?_,
    fun cached' hkept _ hdurable => ?_, hafter⟩
  · obtain ⟨rfl, rfl⟩ := hused _ _ h
    obtain ⟨rfl, rfl⟩ := hused _ _ h'
    exact ⟨rfl, rfl⟩
  · cases hkept
    rw [hown] at hown'
    cases hown'
    exact hused _ _ h
  · cases hkept
    exact hsynced hdurable

theorem used_singleton_committed {mutation other : MutationIdentity} {txId txId' : Text}
    (h : (WriterEvent.committed requestId mutation txId).Uses requestId other txId') :
    other = mutation ∧ txId' = txId := by
  rcases h with h | h
  · cases h
    exact ⟨rfl, rfl⟩
  · cases h

theorem used_singleton_replied {mutation other : MutationIdentity} {txId txId' : Text}
    (h : (WriterEvent.replied requestId mutation (.ok (some txId))).Uses requestId other txId') :
    other = mutation ∧ txId' = txId := by
  rcases h with h | h
  · cases h
  · cases h
    exact ⟨rfl, rfl⟩

theorem not_uses_synced {txIds : List Text} {other : MutationIdentity} {txId : Text} :
    ¬(WriterEvent.synced txIds).Uses requestId other txId := by
  rintro (h | h)
  · cases h
  · cases h

theorem not_uses_error {mutation other : MutationIdentity} {txId : Text} {e : WriterError} :
    ¬(WriterEvent.replied requestId mutation (.error e)).Uses requestId other txId := by
  rintro (h | h)
  · cases h
  · cases h

theorem Served.moved (h : Served requestId kept history) (hmoved : Moved requestId kept kept' events) :
    Served requestId kept' (history ++ events) := by
  cases hmoved with
  | silent hsilent => exact h.silent hsilent
  | closed hsilent hclosed =>
      obtain ⟨once, -, agree, -, -, after⟩ := h.silent hsilent
      refine ⟨once, nofun, agree, fun cached hkept own hown => ?_, fun cached hkept hsome => ?_, after⟩
      · cases hkept
        rw [hclosed cached rfl] at hown
        cases hown
      · cases hkept
        rw [hclosed cached rfl] at hsome
        cases hsome
  | @entered cached events hsilent hsynced =>
      obtain ⟨once, fresh, agree, -, -, after⟩ := h.silent hsilent
      refine ⟨once, nofun, agree, fun _ _ _ _ _ _ hused => absurd hused (fresh rfl _ _),
        fun cached' hkept _ _ => ?_, after⟩
      cases hkept
      obtain ⟨txIds, hmem, htx⟩ := hsynced
      exact ⟨txIds, List.mem_append_right _ hmem, htx⟩
  | @answered cached mutation hown hdurable => 
      have hsynced := h.synced cached rfl (by rw [hown]; rfl) hdurable
      refine .own hown ?_ (fun other txId hused => ?_) (fun _ => hsynced.append _)
        (h.afterSync.snoc fun other txId he => ?_)
      · rw [List.countP_append]
        exact h.once
      · rcases used_append.mp hused with hused | hused
        · exact h.cached cached rfl mutation hown _ _ hused
        · rcases used_cons.mp hused with hused | hused
          · exact used_singleton_replied hused
          · exact absurd hused (silent_nil _ _)
      · cases he
        exact hsynced
  | @resumed cached mutation txIds hown htx =>
      have hsynced : Synced (history ++ [.synced txIds]) cached.result.txId :=
        ⟨txIds, List.mem_append_right _ List.mem_cons_self, htx⟩
      refine .own hown ?_ (fun other txId hused => ?_) (fun _ => ?_) ?_
      · rw [List.countP_append]
        exact h.once
      · rcases used_append.mp hused with hused | hused
        · exact h.cached cached rfl mutation hown _ _ hused
        · rcases used_cons.mp hused with hused | hused
          · exact absurd hused not_uses_synced
          · rcases used_cons.mp hused with hused | hused
            · exact used_singleton_replied hused
            · exact absurd hused (silent_nil _ _)
      · rw [List.append_cons]
        exact hsynced.append _
      · rw [List.append_cons]
        refine (h.afterSync.snoc fun _ _ he => by cases he).snoc fun other txId he => ?_
        cases he
        exact hsynced
  | @executed cached mutation txIds hown htx =>
      have hfresh := h.fresh rfl
      have hsynced : Synced (history ++ [.committed requestId mutation cached.result.txId] ++
          [.synced txIds]) cached.result.txId :=
        ⟨txIds, List.mem_append_right _ List.mem_cons_self, htx⟩
      refine .own hown ?_ (fun other txId hused => ?_) (fun _ => ?_) ?_
      · rw [List.countP_append, hfresh.commits, Nat.zero_add]
        simp [WriterEvent.isCommit]
      · rcases used_append.mp hused with hused | hused
        · exact absurd hused (hfresh _ _)
        · rcases used_cons.mp hused with hused | hused
          · exact used_singleton_committed hused
          · rcases used_cons.mp hused with hused | hused
            · exact absurd hused not_uses_synced
            · rcases used_cons.mp hused with hused | hused
              · exact used_singleton_replied hused
              · exact absurd hused (silent_nil _ _)
      · rw [List.append_cons, List.append_cons]
        exact hsynced.append _
      · rw [List.append_cons, List.append_cons]
        refine ((h.afterSync.snoc fun _ _ he => by cases he).snoc
          fun _ _ he => by cases he).snoc fun other txId he => ?_
        cases he
        exact hsynced
  | @uncertain cached mutation e hown huncertain =>
      have hfresh := h.fresh rfl
      refine .own hown ?_ (fun other txId hused => ?_) (fun hdurable => ?_) ?_
      · rw [List.countP_append, hfresh.commits, Nat.zero_add]
        simp [WriterEvent.isCommit]
      · rcases used_append.mp hused with hused | hused
        · exact absurd hused (hfresh _ _)
        · rcases used_cons.mp hused with hused | hused
          · exact used_singleton_committed hused
          · rcases used_cons.mp hused with hused | hused
            · exact absurd hused not_uses_error
            · exact absurd hused (silent_nil _ _)
      · rw [huncertain] at hdurable
        cases hdurable
      · rw [List.append_cons]
        exact (h.afterSync.snoc fun _ _ he => by cases he).snoc fun _ _ he => by cases he

/-! ### The steps of the writer -/

theorem silent_cons {event : WriterEvent} (h : ∀ mutation txId, ¬event.Uses requestId mutation txId)
    (hevents : Silent requestId events) : Silent requestId (event :: events) :=
  fun mutation txId hused => (used_cons.mp hused).elim (h mutation txId) (hevents mutation txId)

theorem silent_append {more : List WriterEvent} (h : Silent requestId events)
    (hmore : Silent requestId more) : Silent requestId (events ++ more) :=
  fun mutation txId hused => (used_append.mp hused).elim (h mutation txId) (hmore mutation txId)

theorem not_uses_of_ne {id : Text} {mutation other : MutationIdentity} {txId : Text}
    {result : Except WriterError (Option Text)} (h : id ≠ requestId) :
    ¬(WriterEvent.replied id mutation result).Uses requestId other txId := by
  rintro (he | he)
  · cases he
  · cases he
    exact h rfl

theorem not_uses_none {mutation other : MutationIdentity} {txId : Text} :
    ¬(WriterEvent.replied requestId mutation (.ok none)).Uses requestId other txId := by
  rintro (h | h)
  · cases h
  · cases h

theorem silent_synced (txIds : List Text) : Silent requestId [.synced txIds] :=
  silent_cons (fun _ _ => not_uses_synced) silent_nil

section
variable {cache : Cache} {handles : TxHandles} {mutation : MutationIdentity} {txId : Text}

theorem cachedFor_some {cached : CachedTx}
    (h : cachedFor cache requestId mutation = .ok (some cached)) :
    cache requestId = some (.tx cached) ∧ cached.mutation = some mutation := by
  unfold cachedFor at h
  split at h
  · cases h
  · split_ifs at h with hown
    cases h
    exact ⟨by assumption, hown⟩
  · cases h

/-- What the cache serves of a transaction. -/
def Serves (cache : Cache) (requestId : Text) (mutation : MutationIdentity) (txId : Text) : Prop :=
  ∃ cached, cache requestId = some (.tx cached) ∧ cached.mutation = some mutation ∧
    cached.durability = .durable ∧ cached.result.txId = txId

theorem cachedTransactionFromMap_some {result : TxAppendResult}
    (h : cachedTransactionFromMap cache requestId mutation = .ok (some result)) :
    Serves cache requestId mutation result.txId := by
  unfold cachedTransactionFromMap at h
  rcases hfor : cachedFor cache requestId mutation with e | _ | cached
  · rw [hfor] at h
    cases h
  · rw [hfor] at h
    cases h
  · rw [hfor] at h
    obtain ⟨hat, hown⟩ := cachedFor_some hfor
    cases hd : cached.durability with
    | syncUncertain => simp [hd] at h
    | durable =>
        simp only [hd, Except.ok.injEq, Option.some.injEq] at h
        exact ⟨cached, hat, hown, hd, congrArg _ h⟩

theorem cachedMutationFromMap_some {result : CachedMutation}
    (h : cachedMutationFromMap cache requestId mutation = .ok (some result)) :
    Serves cache requestId mutation result.txId := by
  unfold cachedMutationFromMap at h
  rcases hfor : cachedFor cache requestId mutation with e | _ | cached
  · rw [hfor] at h
    cases h
  · rw [hfor] at h
    cases h
  · rw [hfor] at h
    obtain ⟨hat, hown⟩ := cachedFor_some hfor
    dsimp only at h
    cases hm : cached.mutationId with
    | none =>
        rw [hm] at h
        cases h
    | some mutationId =>
        cases hd : cached.durability with
        | syncUncertain => simp [hm, hd] at h
        | durable =>
            simp only [hm, hd, Except.ok.injEq, Option.some.injEq] at h
            exact ⟨cached, hat, hown, hd, congrArg (·.txId) h⟩

theorem Serves.answered (h : Serves cache requestId mutation txId) :
    Moved requestId (cache requestId) (cache requestId)
      [.replied requestId mutation (.ok (some txId))] := by
  obtain ⟨cached, hat, hown, hdurable, rfl⟩ := h
  rw [hat]
  exact .answered hown hdurable

theorem cachedTransaction_some {req : TransactionRequest}
    (h : WriterState.cachedTransaction cache req = .ok (some txId)) :
    Serves cache req.requestId req.mutation txId := by
  unfold WriterState.cachedTransaction at h
  split at h
  · rcases hc : cachedTransactionFromMap cache req.requestId req.mutation with e | _ | result
    · simp [hc, Except.map] at h
    · simp [hc, Except.map] at h
    · simp only [hc, Except.map, Option.map_some, Except.ok.injEq, Option.some.injEq] at h
      exact h ▸ cachedTransactionFromMap_some hc
  · rcases hc : cachedMutationFromMap cache req.requestId req.mutation with e | _ | result
    · simp [hc, Except.map] at h
    · simp [hc, Except.map] at h
    · simp only [hc, Except.map, Option.map_some, Except.ok.injEq, Option.some.injEq] at h
      exact h ▸ cachedMutationFromMap_some hc

end

variable {s : WriterState}

theorem submit_moved (command : WriterCommand) :
    Moved requestId (s.cache requestId) ((s.submit command).1.cache requestId)
      (s.submit command).2 := by
  unfold WriterState.submit
  cases command with
  | tx id req =>
      dsimp only
      split
      · exact .silent silent_nil
      · exact .silent silent_nil
  | rewrite id req =>
      dsimp only
      split
      · exact .silent silent_nil
      · exact .silent silent_nil
  | transactionMulti req =>
      dsimp only
      split
      · exact .silent silent_nil
      · exact .silent silent_nil
      · exact .silent silent_nil
  | recoverMutation id mutation =>
      dsimp only
      by_cases hid : id = requestId
      · subst hid
        split
        · exact .silent (silent_cons (fun _ _ => not_uses_none) silent_nil)
        · exact .silent (silent_cons (fun _ _ => not_uses_error) silent_nil)
        · exact .silent silent_nil
      · split
        · exact .silent (silent_cons (fun _ _ => not_uses_of_ne hid) silent_nil)
        · exact .silent (silent_cons (fun _ _ => not_uses_of_ne hid) silent_nil)
        · exact .silent silent_nil
  | transaction req =>
      dsimp only
      rcases hcached : WriterState.cachedTransaction s.cache req with e | _ | txId
      · by_cases hid : req.requestId = requestId
        · subst hid
          exact .silent (silent_cons (fun _ _ => not_uses_error) silent_nil)
        · exact .silent (silent_cons (fun _ _ => not_uses_of_ne hid) silent_nil)
      · exact .silent silent_nil
      · by_cases hid : req.requestId = requestId
        · subst hid
          exact (cachedTransaction_some hcached).answered
        · exact .silent (silent_cons (fun _ _ => not_uses_of_ne hid) silent_nil)

theorem recover_moved (recovered : List (Text × CachedTx)) :
    Moved requestId (s.cache requestId) ((s.recover recovered).1.cache requestId)
      (s.recover recovered).2 := by
  unfold WriterState.recover
  cases hcache : recoverTransactionHistory s.cache recovered with
  | error e => exact .silent silent_nil
  | ok cache =>
      dsimp only
      rcases recoverTransactionHistory_at hcache requestId with hsame | ⟨hnone, p, hp, -, hat⟩
      · rw [hsame]
        exact .silent (silent_synced _)
      · rw [hnone, hat]
        exact .entered (silent_synced _)
          ⟨_, List.mem_cons_self, List.mem_map.mpr ⟨p, hp, rfl⟩⟩

theorem batchEvents_silent (batch : List (Text × TxAppend)) (items : List BatchItem) :
    Silent requestId (WriterState.batchEvents batch items) := by
  rintro mutation txId ⟨event, hevent, huses⟩
  obtain ⟨p, -, hp⟩ := List.mem_filterMap.mp hevent
  split_ifs at hp
  cases hp
  rcases huses with h | h
  · cases h
  · cases h

/-! ### Transactions -/

section
variable {cache cache' : Cache} {handles : TxHandles} {mutation : MutationIdentity}
variable {syncFails needs : Bool}

/-- What a retry finds in the cache, and what it leaves there. -/
def Retried (cache : Cache) (handles : TxHandles) (requestId : Text) (mutation : MutationIdentity)
    (needs : Bool) (out : Cache × Except WriterError (Option TxAppendResult)) : Prop :=
  match out.2 with
  | .error _ => out.1 = cache
  | .ok none => out.1 = cache ∧ cache requestId = none
  | .ok (some result) => ∃ cached, cache requestId = some (.tx cached) ∧
      cached.mutation = some mutation ∧ result = cached.result ∧
        (needs = true → cached.mutationId.isSome) ∧
          ((cached.durability = .durable ∧ out.1 = cache) ∨ cached.durability = .syncUncertain ∧
            result.txId ∈ WriterState.held handles result.txPath ∧
              out.1 = Function.update cache requestId
                (some (.tx { cached with durability := .durable })))

theorem syncCommittedTx_held {result : TxAppendResult}
    (h : syncCommittedTx syncFails handles result = .ok ()) :
    result.txId ∈ WriterState.held handles result.txPath := by
  unfold syncCommittedTx at h
  cases hw : handles result.txPath with
  | none =>
      rw [hw] at h
      cases h
  | some w =>
      have held : WriterState.held handles result.txPath = w.eventIds.map Prod.snd := by
        rw [WriterState.held, hw]
      rw [hw] at h
      dsimp only at h
      split_ifs at h with hmem
      rw [held]
      exact hmem

theorem retry_checked {e : WriterError}
    (h : cachedFor cache requestId mutation = .error e) :
    ((if needs then (cachedMutationFromMap cache requestId mutation).map fun _ => ()
      else (cachedTransactionFromMap cache requestId mutation).map fun _ => ()) :
        Except WriterError Unit) = .error e := by
  unfold cachedMutationFromMap cachedTransactionFromMap
  rw [h]
  cases needs with
  | true => rfl
  | false => rfl

theorem retry_spec : Retried cache handles requestId mutation needs
    (retrySingleTransaction syncFails cache handles requestId mutation needs) := by
  unfold retrySingleTransaction
  rcases hfor : cachedFor cache requestId mutation with e | _ | cached
  · rw [retry_checked hfor]
    exact rfl
  · have hnone : cache requestId = none := by
      unfold cachedFor at hfor
      split at hfor
      · assumption
      · split_ifs at hfor
        cases hfor
      · cases hfor
    dsimp only
    split
    · exact rfl
    · rw [hnone]
      exact ⟨rfl, hnone⟩
  · obtain ⟨hat, hown⟩ := cachedFor_some hfor
    dsimp only
    split
    · exact rfl
    · next hchecked =>
        have hneeds : needs = true → cached.mutationId.isSome := by
          rintro rfl
          unfold cachedMutationFromMap at hchecked
          rw [if_pos rfl, hfor] at hchecked
          cases hm : cached.mutationId with
          | none => simp [hm, Except.map] at hchecked
          | some mutationId => rfl
        rw [hat]
        dsimp only
        cases hd : cached.durability with
        | durable => exact ⟨cached, hat, hown, rfl, hneeds, .inl ⟨hd, rfl⟩⟩
        | syncUncertain =>
            dsimp only
            cases hevent : cached.event with
            | none => exact rfl
            | some event =>
                dsimp only
                cases hsync : syncCommittedTx syncFails handles cached.result with
                | error e => exact rfl
                | ok u =>
                    refine ⟨cached, hat, hown, rfl, hneeds,
                      .inr ⟨hd, syncCommittedTx_held hsync, ?_⟩⟩
                    rw [hevent]

/-- A retry that finds the transaction serves it. -/
theorem Retried.moved {result : TxAppendResult}
    (h : Retried cache handles requestId mutation needs (cache', .ok (some result))) :
    Moved requestId (cache requestId) (cache' requestId)
      (WriterState.resumedEvents cache handles requestId ++
        [.replied requestId mutation (.ok (some result.txId))]) := by
  obtain ⟨cached, hat, hown, rfl, -, ⟨hd, hsame⟩ | ⟨hd, hheld, hupdate⟩⟩ := h
  · dsimp only at hsame
    unfold WriterState.resumedEvents
    rw [hsame, hat]
    simp only [hd, reduceCtorEq, if_false, List.nil_append]
    exact .answered hown hd
  · dsimp only at hupdate
    unfold WriterState.resumedEvents
    rw [hupdate, Function.update_self, hat]
    simp only [hd, if_true]
    exact .resumed hown hheld

theorem Retried.recovered {result : TxAppendResult}
    (h : Retried cache handles requestId mutation true (cache', .ok (some result))) :
    (cachedMutationFromMap cache' requestId mutation).map (·.map (·.txId)) =
      .ok (some result.txId) := by
  obtain ⟨cached, hat, hown, rfl, hneeds, hcases⟩ := h
  obtain ⟨mutationId, hm⟩ := Option.isSome_iff_exists.mp (hneeds rfl)
  unfold cachedMutationFromMap cachedFor
  rcases hcases with ⟨hd, hsame⟩ | ⟨hd, hheld, hupdate⟩
  · dsimp only at hsame
    rw [hsame, hat]
    simp [hown, hm, hd, Except.map]
  · dsimp only at hupdate
    rw [hupdate, Function.update_self]
    simp [hown, hm, Except.map]

end

theorem resumedEvents_silent (cache : Cache) (handles : TxHandles) (id : Text) :
    Silent requestId (WriterState.resumedEvents cache handles id) := by
  unfold WriterState.resumedEvents
  split
  · split_ifs
    · exact silent_synced _
    · exact silent_nil
  · exact silent_nil

theorem runRecoverMutation_moved (answers : Answers) (id : Text) (mutation : MutationIdentity) :
    Moved requestId (s.cache requestId)
      ((s.runRecoverMutation answers id mutation).1.cache requestId)
        (s.runRecoverMutation answers id mutation).2 := by
  unfold WriterState.runRecoverMutation
  by_cases hid : id = requestId
  · subst hid
    have hspec := @retry_spec id s.cache s.handles mutation answers.syncFails true
    revert hspec
    rcases retrySingleTransaction answers.syncFails s.cache s.handles id mutation true
      with ⟨cache, e | _ | result⟩
    · intro hspec
      have hsame : cache = s.cache := hspec
      rw [hsame]
      exact .silent (silent_cons (fun _ _ => not_uses_error) silent_nil)
    · rintro ⟨hsame, hnone⟩
      dsimp only at hsame ⊢
      rw [hsame]
      have hreply : cachedMutationFromMap s.cache id mutation = .ok none := by
        unfold cachedMutationFromMap cachedFor
        rw [hnone]
      rw [hreply]
      exact .silent (silent_cons (fun _ _ => not_uses_none) silent_nil)
    · intro hspec
      dsimp only
      rw [hspec.recovered]
      exact hspec.moved
  · have haway : (retrySingleTransaction answers.syncFails s.cache s.handles id mutation true).1
        requestId = s.cache requestId := retrySingleTransaction_of_ne (Ne.symm hid)
    have hreplied : ∀ result, Silent requestId [.replied id mutation result] :=
      fun result => silent_cons (fun _ _ => not_uses_of_ne hid) silent_nil
    revert haway
    rcases retrySingleTransaction answers.syncFails s.cache s.handles id mutation true
      with ⟨cache, e | _ | result⟩
    · intro haway
      dsimp only at haway ⊢
      rw [haway]
      exact .silent (hreplied _)
    · intro haway
      dsimp only at haway ⊢
      rw [haway]
      exact .silent (hreplied _)
    · intro haway
      dsimp only at haway ⊢
      rw [haway]
      exact .silent (silent_append (resumedEvents_silent _ _ _) (hreplied _))

/-! ### Rows of a commit -/

section
variable {isUuid : Text → Bool} {answers : Answers} {handles : TxHandles} {disk : Disk}

theorem append_held {w w' : CachedTxWriter} {entry : TxEntry} {text txId : Text}
    (h : w.append entry = .ok (w', text, txId)) :
    txId ∈ w'.eventIds.map Prod.snd ∧ w.eventIds ⊆ w'.eventIds := by
  unfold CachedTxWriter.append at h
  cases hknown : w.known? (eventId entry) with
  | some existing =>
      rw [hknown] at h
      cases h
      unfold CachedTxWriter.known? at hknown
      obtain ⟨p, hp, rfl⟩ := Option.map_eq_some_iff.mp hknown
      exact ⟨List.mem_map_of_mem (List.mem_of_find?_eq_some hp), fun _ => id⟩
  | none =>
      rw [hknown] at h
      dsimp only at h
      cases hblock : w.writer.block entry with
      | error e =>
          rw [hblock] at h
          cases h
      | ok text =>
          rw [hblock] at h
          cases h
          exact ⟨List.mem_cons_self, List.subset_cons_self _ _⟩

theorem appendMany_held (w : CachedTxWriter) (entries : List TxEntry) :
    w.eventIds ⊆ (w.appendMany entries).1.eventIds ∧
      ∀ ids, (w.appendMany entries).2.2 = .ok ids →
        ∀ txId ∈ ids, txId ∈ (w.appendMany entries).1.eventIds.map Prod.snd := by
  induction entries generalizing w with
  | nil =>
      refine ⟨fun _ => id, fun ids hids => ?_⟩
      cases hids
      exact fun txId mem => absurd mem List.not_mem_nil
  | cons entry entries ih =>
      rw [CachedTxWriter.appendMany]
      rcases happend : w.append entry with e | ⟨w', text, txId⟩
      · refine ⟨fun _ => id, fun ids hids => ?_⟩
        cases hids
      · obtain ⟨hmem, hsub⟩ := append_held happend
        obtain ⟨hmore, hrest⟩ := ih w'
        dsimp only
        refine ⟨fun p hp => hmore (hsub hp), fun ids hids => ?_⟩
        cases hresult : (w'.appendMany entries).2.2 with
        | error e =>
            rw [hresult] at hids
            cases hids
        | ok more =>
            rw [hresult] at hids
            cases hids
            exact List.forall_mem_cons.mpr ⟨List.map_subset _ hmore hmem, hrest more hresult⟩

theorem appendTxsInner_held {path : FilePath} {reqs : List TxAppend}
    {results : List TxAppendResult}
    (h : (appendTxsInner isUuid answers handles disk path reqs).2.2 = .ok results) :
    ∀ result ∈ results, result.txPath = path ∧ result.txId ∈
      WriterState.held (appendTxsInner isUuid answers handles disk path reqs).1 path := by
  unfold appendTxsInner at h ⊢
  dsimp only at h ⊢
  cases hprepare : prepareTxEntries isUuid answers.minted 0 reqs with
  | error e =>
      rw [hprepare] at h
      cases h
  | ok entries =>
      rw [hprepare] at h
      dsimp only at h ⊢
      by_cases hdir : answers.createDirFails = true
      · rw [if_pos hdir] at h
        cases h
      · rw [if_neg hdir] at h ⊢
        revert h
        rcases handleAt (detach handles path answers.namesWriter) disk path answers.openLedgerFails
          with ⟨hs, d, e | w⟩
        · exact nofun
        · intro h result hresult
          dsimp only at h ⊢
          cases hmany : (w.appendMany entries).2.2 with
          | error e =>
              rw [hmany] at h
              cases h
          | ok ids =>
              rw [hmany] at h
              cases h
              obtain ⟨txId, htx, rfl⟩ := List.mem_map.mp hresult
              refine ⟨rfl, ?_⟩
              simp only [WriterState.held, Function.update_self]
              exact (appendMany_held w entries).2 ids hmany txId htx

/-- The handle of the ledger has the rows of a commit. -/
theorem locked_held {rewrites : List FileRewrite} {path : FilePath} {txs : List TxAppend}
    {rid : Text} {results : List TxAppendResult} {synced : Bool}
    (h : (transactionMultiLockedInner isUuid answers handles disk rewrites path txs rid).result =
      .ok ⟨results, synced⟩) :
    ∀ result ∈ results, result.txPath = path ∧ result.txId ∈ WriterState.held
      (transactionMultiLockedInner isUuid answers handles disk rewrites path txs rid).handles
        path := by
  rw [locked_eq] at h ⊢
  dsimp only at h ⊢
  cases hs : (stageRewrites answers rid 0 rewrites disk []).failed with
  | some e =>
      rw [hs] at h
      cases h
  | none =>
      rw [hs] at h
      cases hb : (backupPhase answers rid disk rewrites).failed with
      | some e =>
          rw [hb] at h
          cases h
      | none =>
          rw [hb] at h
          dsimp only at h ⊢
          by_cases hv : answers.verifyFails = true
          · rw [if_pos hv] at h
            cases h
          · rw [if_neg hv] at h ⊢
            cases hr : (renamePhase answers rid disk rewrites).failed with
            | some e =>
                rw [hr] at h
                cases h
            | none =>
                rw [hr] at h
                dsimp only at h ⊢
                have hheld := @appendTxsInner_held isUuid answers handles
                  (renamePhase answers rid disk rewrites).disk path txs
                revert h hheld
                rcases appendTxsInner isUuid answers handles
                  (renamePhase answers rid disk rewrites).disk path txs with ⟨hs, d, e | more⟩
                · exact fun h _ => by cases h
                · intro h hheld
                  cases h
                  exact hheld rfl

theorem transactionMultiInner_held {rewrites : List FileRewrite} {txs : List TxAppend} {rid : Text}
    {results : List TxAppendResult} {synced : Bool}
    (h : (transactionMultiInner isUuid answers handles disk rewrites txs rid).result =
      .ok ⟨results, synced⟩) :
    ∀ result ∈ results, (∀ tx ∈ txs, tx.txPath = result.txPath) ∧ result.txId ∈ WriterState.held
      (transactionMultiInner isUuid answers handles disk rewrites txs rid).handles
        result.txPath := by
  rcases transactionMultiInner_cases isUuid answers handles disk rewrites txs rid with
    ⟨e, -, hout⟩ | ⟨first, -, hone, hout⟩
  · rw [hout] at h
    cases h
  · rw [hout] at h ⊢
    intro result hresult
    obtain ⟨hpath, hheld⟩ := locked_held h result hresult
    rw [hpath]
    exact ⟨hone, hheld⟩

theorem transactionInner_held {req : TransactionRequest} {results : List TxAppendResult}
    {synced : Bool}
    (h : (WriterState.transactionInner isUuid answers handles disk req).result =
      .ok ⟨results, synced⟩) :
    ∀ result ∈ results, result.txId ∈ WriterState.held
      (WriterState.transactionInner isUuid answers handles disk req).handles req.tx.txPath := by
  unfold WriterState.transactionInner at h ⊢
  split at h
  · intro result hresult
    obtain ⟨hone, hheld⟩ := transactionMultiInner_held h result hresult
    rw [hone req.tx List.mem_cons_self]
    exact hheld
  · unfold WriterState.transactionMutateFileInner at h ⊢
    split at h
    · cases h
    · next hlock =>
        rw [if_neg hlock]
        dsimp only at h ⊢
        split at h
        · cases h
        · next source hread =>
            split at h
            · cases h
            · next contents htransform =>
                exact fun result hresult => (locked_held h result hresult).2

end

/-! ### Commands -/

section
variable {isUuid : Text → Bool} {sha256 : Text → Text}

theorem executedEvents_silent {req : TransactionRequest} (hne : req.requestId ≠ requestId)
    (out : TransactionOutcome) : Silent requestId (WriterState.executedEvents req out) := by
  have hcommitted : ∀ mutation txId other txId',
      ¬(WriterEvent.committed req.requestId mutation txId).Uses requestId other txId' := by
    rintro mutation txId other txId' (h | h)
    · cases h
      exact hne rfl
    · cases h
  unfold WriterState.executedEvents
  split
  · split_ifs
    · exact silent_cons (hcommitted _ _) (silent_synced _)
    · exact silent_cons (hcommitted _ _) silent_nil
  · exact silent_nil

theorem runTransaction_moved (answers : Answers) (req : TransactionRequest) :
    Moved requestId (s.cache requestId)
      ((s.runTransaction isUuid answers req).1.cache requestId)
        ((s.runTransaction isUuid answers req).2.1 ++ [.replied req.requestId req.mutation
          ((s.runTransaction isUuid answers req).2.2.map fun r => some r.txId)]) := by
  unfold WriterState.runTransaction
  by_cases hid : req.requestId = requestId
  · subst hid
    have hspec := @retry_spec req.requestId s.cache s.handles req.mutation answers.syncFails
      req.mutationId.isSome
    revert hspec
    rcases retrySingleTransaction answers.syncFails s.cache s.handles req.requestId req.mutation
      req.mutationId.isSome with ⟨cache, e | _ | result⟩
    · intro hspec
      have hsame : cache = s.cache := hspec
      rw [hsame]
      exact .silent (silent_cons (fun _ _ => not_uses_error) silent_nil)
    · rintro ⟨hsame, hnone⟩
      dsimp only at hsame ⊢
      have hheld := @transactionInner_held isUuid answers s.handles s.disk req
      unfold WriterState.executedEvents finishSingleTransaction
      rcases hresult : (WriterState.transactionInner isUuid answers s.handles s.disk req).result
        with e | ⟨_ | ⟨result, more⟩, synced⟩
      · rw [hsame]
        exact .silent (silent_cons (fun _ _ => not_uses_error) silent_nil)
      · rw [hsame]
        exact .silent (silent_cons (fun _ _ => not_uses_error) silent_nil)
      · have hmem := hheld hresult result List.mem_cons_self
        dsimp only
        rw [hnone, Function.update_self]
        cases synced with
        | true => exact @Moved.executed _ ⟨result, some req.mutation, _, _, _, _⟩ _ _ rfl hmem
        | false => exact @Moved.uncertain _ ⟨result, some req.mutation, _, _, _, _⟩ _ _ rfl rfl
    · exact fun hspec => hspec.moved
  · have haway : (retrySingleTransaction answers.syncFails s.cache s.handles req.requestId
        req.mutation req.mutationId.isSome).1 requestId = s.cache requestId :=
      retrySingleTransaction_of_ne (Ne.symm hid)
    have hreplied : ∀ result, Silent requestId [.replied req.requestId req.mutation result] :=
      fun result => silent_cons (fun _ _ => not_uses_of_ne hid) silent_nil
    revert haway
    rcases retrySingleTransaction answers.syncFails s.cache s.handles req.requestId req.mutation
      req.mutationId.isSome with ⟨cache, e | _ | result⟩
    · intro haway
      dsimp only at haway ⊢
      rw [haway]
      exact .silent (silent_append silent_nil (hreplied _))
    · intro haway
      dsimp only at haway ⊢
      rw [finishSingleTransaction_of_ne (Ne.symm hid), haway]
      exact .silent (silent_append (executedEvents_silent hid _) (hreplied _))
    · intro haway
      dsimp only at haway ⊢
      rw [haway]
      exact .silent (silent_append (resumedEvents_silent _ _ _) (hreplied _))

/-- What a group that is durable leaves under a request id. -/
theorem cacheDurableMulti_at (cache : Cache) (req : TransactionMultiRequest)
    (results : List TxAppendResult) :
    (∃ kept, cacheDurableMulti sha256 cache req results requestId = some kept ∧ Closed kept) ∨
      cacheDurableMulti sha256 cache req results requestId = cache requestId ∨
        ∃ p ∈ req.txs.zip results, p.1.requestId = some requestId ∧ ∃ cached,
          cacheDurableMulti sha256 cache req results requestId = some (.tx cached) ∧
            cached.result = p.2 := by
  unfold cacheDurableMulti
  by_cases hkey : multiCacheKey req.requestId = requestId
  · rw [hkey, Function.update_self]
    exact .inl ⟨_, rfl, nofun⟩
  · rw [Function.update_of_ne (Ne.symm hkey)]
    right
    generalize req.txs.zip results = rows
    induction rows generalizing cache with
    | nil => exact .inl rfl
    | cons p rows ih =>
        rw [List.foldl_cons]
        rcases ih (cacheRow sha256 req.rewrites cache p)
          with hsame | ⟨q, hq, hid, cached, hat, hresult⟩
        · rw [hsame]
          by_cases hmine : p.1.requestId = some requestId
          · refine .inr ⟨p, List.mem_cons_self, hmine, ?_⟩
            rw [cacheRow, hmine]
            dsimp only
            rw [Function.update_self]
            exact ⟨_, rfl, rfl⟩
          · exact .inl (cacheRow_of_ne sha256 hmine)
        · exact .inr ⟨q, List.mem_cons_of_mem _ hq, hid, cached, hat, hresult⟩

/-- A group that becomes durable serves its rows if the cache had nothing of them. -/
theorem cacheDurableMulti_moved {req : TransactionMultiRequest} {results : List TxAppendResult}
    {txIds : List Text}
    (hrows : ∀ p ∈ req.txs.zip results, p.1.requestId = some requestId →
      s.cache requestId = none ∧ p.2.txId ∈ txIds) :
    Moved requestId (s.cache requestId) (cacheDurableMulti sha256 s.cache req results requestId)
      [.synced txIds] := by
  rcases @cacheDurableMulti_at requestId sha256 s.cache req results with
    ⟨kept, hat, hclosed⟩ | hsame | ⟨p, hp, hid, cached, hat, hresult⟩
  · rw [hat]
    exact .closed (silent_synced _) hclosed
  · rw [hsame]
    exact .silent (silent_synced _)
  · obtain ⟨hnone, hmem⟩ := hrows p hp hid
    rw [hat, hnone]
    exact .entered (silent_synced _) ⟨txIds, List.mem_cons_self, hresult ▸ hmem⟩

/-- The sync of a group is retried only while the cache has nothing under the request id, and the
handle that is synced has its row. -/
def ResumesCleanly (requestId : Text) (s : WriterState) : WriterState.Action → Prop
  | .run answers => ∀ req queue result rest, s.queue = .transactionMulti req :: queue →
      cachedMultiFromMap s.cache (multiCacheKey req.requestId) req.requestId req.mutation =
        .ok (some (result :: rest, .syncUncertain)) →
      syncCommittedTx answers.syncFails s.handles result = .ok () →
        ∀ p ∈ req.txs.zip (result :: rest), p.1.requestId = some requestId →
          s.cache requestId = none ∧ p.2.txId ∈ WriterState.held s.handles result.txPath
  | _ => True

theorem runTransactionMulti_moved (answers : Answers) (req : TransactionMultiRequest)
    (hclean : ∀ result rest,
      cachedMultiFromMap s.cache (multiCacheKey req.requestId) req.requestId req.mutation =
        .ok (some (result :: rest, .syncUncertain)) →
      syncCommittedTx answers.syncFails s.handles result = .ok () →
        ∀ p ∈ req.txs.zip (result :: rest), p.1.requestId = some requestId →
          s.cache requestId = none ∧ p.2.txId ∈ WriterState.held s.handles result.txPath) :
    Moved requestId (s.cache requestId)
      ((s.runTransactionMulti isUuid sha256 answers req).1.cache requestId)
        (s.runTransactionMulti isUuid sha256 answers req).2 := by
  unfold WriterState.runTransactionMulti
  dsimp only
  rcases hcached : cachedMultiFromMap s.cache (multiCacheKey req.requestId) req.requestId
    req.mutation with e | _ | ⟨results, durability⟩
  · exact .silent silent_nil
  · dsimp only
    by_cases hused : ∃ id ∈ req.txs.filterMap TxAppend.requestId, (s.cache id).isSome
    · rw [if_pos hused]
      exact .silent silent_nil
    · rw [if_neg hused]
      have hheld := @transactionMultiInner_held isUuid answers s.handles s.disk req.rewrites req.txs
        req.requestId
      rcases hresult : (transactionMultiInner isUuid answers s.handles s.disk req.rewrites req.txs
        req.requestId).result with e | ⟨results, synced⟩
      · exact .silent silent_nil
      · cases synced with
        | false =>
            dsimp only
            by_cases hkey : multiCacheKey req.requestId = requestId
            · rw [hkey, Function.update_self]
              exact .closed silent_nil nofun
            · rw [Function.update_of_ne (Ne.symm hkey)]
              exact .silent silent_nil
        | true =>
            refine cacheDurableMulti_moved fun p hp hid => ⟨?_, ?_⟩
            · by_contra hkept
              exact hused ⟨requestId, List.mem_filterMap.mpr ⟨p.1, (List.of_mem_zip hp).1, hid⟩,
                Option.isSome_iff_ne_none.mpr hkept⟩
            · have hmem := (List.of_mem_zip hp).2
              exact List.mem_flatMap.mpr ⟨p.2, hmem, (hheld hresult p.2 hmem).2⟩
  · cases durability with
    | durable => exact .silent silent_nil
    | syncUncertain =>
        cases results with
        | nil => exact .silent silent_nil
        | cons result rest =>
            dsimp only
            cases hsync : syncCommittedTx answers.syncFails s.handles result with
            | error e => exact .silent silent_nil
            | ok u => exact cacheDurableMulti_moved (hclean result rest hcached hsync)

theorem run_moved (answers : Answers) (hclean : ResumesCleanly requestId s (.run answers)) :
    Moved requestId (s.cache requestId) ((s.run isUuid sha256 answers).1.cache requestId)
      (s.run isUuid sha256 answers).2 := by
  unfold WriterState.run
  rcases hqueue : s.queue with _ | ⟨command, queue⟩
  · exact .silent silent_nil
  · cases command with
    | tx id req => exact .silent silent_nil
    | rewrite id req =>
        dsimp only
        rcases WriterState.rewriteFileInner answers s.disk req with ⟨disk, e | u⟩
        · exact .silent silent_nil
        · exact .silent silent_nil
    | transaction req =>
        exact runTransaction_moved (s := { s with queue }) answers req
    | transactionMulti req =>
        exact runTransactionMulti_moved (s := { s with queue }) answers req
          fun result rest => hclean req queue result rest hqueue
    | recoverMutation id mutation =>
        exact runRecoverMutation_moved (s := { s with queue }) answers id mutation

/-- What callers have yet to keep serves no transaction. -/
def RepliesClosed (s : WriterState) : Prop := ∀ p ∈ s.replies, Closed p.2

variable (isUuid sha256) in
theorem step_moved {action : WriterState.Action} (hreplies : RepliesClosed s)
    (hclean : ResumesCleanly requestId s action) :
    Moved requestId (s.cache requestId) ((s.step isUuid sha256 action).1.cache requestId)
      (s.step isUuid sha256 action).2 := by
  cases action with
  | submit command => exact submit_moved command
  | recover recovered => exact recover_moved recovered
  | runBatch answers n => exact .silent (batchEvents_silent _ _)
  | run answers => exact run_moved answers hclean
  | files disk => exact .silent silent_nil
  | settle i =>
      unfold WriterState.step WriterState.settle
      dsimp only
      cases hreply : s.replies[i]? with
      | none => exact .silent silent_nil
      | some reply =>
          have hclosed := hreplies reply (List.mem_of_getElem? hreply)
          dsimp only
          by_cases hid : reply.1 = requestId
          · rw [hid, Function.update_self]
            exact .closed silent_nil hclosed
          · rw [Function.update_of_ne (Ne.symm hid)]
            exact .silent silent_nil

theorem run_replies (answers : Answers) :
    (s.run isUuid sha256 answers).1.replies = s.replies ∨
      ∃ id, (s.run isUuid sha256 answers).1.replies = s.replies ++ [(id, .rewrite)] := by
  unfold WriterState.run
  rcases s.queue with _ | ⟨command, queue⟩
  · exact .inl rfl
  · cases command with
    | tx id req => exact .inl rfl
    | rewrite id req =>
        dsimp only
        rcases WriterState.rewriteFileInner answers s.disk req with ⟨disk, e | u⟩
        · exact .inl rfl
        · exact .inr ⟨id, rfl⟩
    | transaction req =>
        dsimp only [WriterState.runTransaction]
        rcases retrySingleTransaction answers.syncFails s.cache s.handles req.requestId
          req.mutation req.mutationId.isSome with ⟨cache, e | _ | result⟩
        · exact .inl rfl
        · exact .inl rfl
        · exact .inl rfl
    | transactionMulti req =>
        dsimp only [WriterState.runTransactionMulti]
        split
        · exact .inl rfl
        · exact .inl rfl
        · split
          · exact .inl rfl
          · split
            · exact .inl rfl
            · exact .inl rfl
        · split
          · exact .inl rfl
          · split
            · exact .inl rfl
            · exact .inl rfl
            · exact .inl rfl
    | recoverMutation id mutation =>
        dsimp only [WriterState.runRecoverMutation]
        rcases retrySingleTransaction answers.syncFails s.cache s.handles id mutation true
          with ⟨cache, e | _ | result⟩
        · exact .inl rfl
        · exact .inl rfl
        · exact .inl rfl

theorem submit_replies (command : WriterCommand) :
    (s.submit command).1.replies = s.replies := by
  unfold WriterState.submit
  cases command with
  | tx id req =>
      dsimp only
      split
      · rfl
      · rfl
  | rewrite id req =>
      dsimp only
      split
      · rfl
      · rfl
  | transaction req =>
      dsimp only
      split
      · rfl
      · rfl
  | transactionMulti req =>
      dsimp only
      split
      · rfl
      · rfl
      · rfl
  | recoverMutation id mutation =>
      dsimp only
      split
      · rfl
      · rfl
      · rfl

theorem RepliesClosed.step (h : RepliesClosed s) (action : WriterState.Action) :
    RepliesClosed (s.step isUuid sha256 action).1 := by
  cases action with
  | submit command =>
      unfold RepliesClosed WriterState.step
      rw [submit_replies]
      exact h
  | recover recovered =>
      unfold WriterState.step WriterState.recover
      dsimp only
      split
      · exact h
      · exact h
  | runBatch answers n =>
      intro p hp
      rcases List.mem_append.mp hp with hp | hp
      · exact h p hp
      · obtain ⟨q, -, hq⟩ := List.mem_filterMap.mp hp
        revert hq
        rcases q.2.result with e | result
        · exact nofun
        · rintro ⟨⟩ cached ⟨⟩
          rfl
  | run answers =>
      intro p hp
      rcases @run_replies s isUuid sha256 answers with hsame | ⟨id, hmore⟩
      · exact h p (hsame ▸ hp)
      · rw [WriterState.step, hmore] at hp
        rcases List.mem_append.mp hp with hp | hp
        · exact h p hp
        · rw [List.mem_singleton.mp hp]
          exact nofun
  | settle i =>
      unfold WriterState.step WriterState.settle
      dsimp only
      split
      · exact h
      · exact fun p hp => h p (List.mem_of_mem_eraseIdx hp)
  | files disk => exact h

/-! ### Runs -/

theorem Served.runAll (h : Served requestId (s.cache requestId) history) (hreplies : RepliesClosed s)
    (actions : List WriterState.Action)
    (hclean : Along isUuid sha256 (ResumesCleanly requestId) s actions) :
    Served requestId ((s.runAll isUuid sha256 actions).1.cache requestId)
      (history ++ (s.runAll isUuid sha256 actions).2) := by
  induction actions generalizing s history with
  | nil =>
      rw [WriterState.runAll, List.append_nil]
      exact h
  | cons action actions ih =>
      have hstep := h.moved (step_moved isUuid sha256 hreplies hclean.1)
      have hrun := ih hstep (hreplies.step action) hclean.2
      rw [List.append_assoc] at hrun
      exact hrun

end

/-! ### A group resumed over a transaction -/

namespace Overwritten

def journal : FilePath := ["node-1".toList, "journal.org".toList]

def note (txId : Text) : TxAppend :=
  ⟨journal, TxEntry.new txId "n".toList "d".toList "a".toList "m".toList, none, .preserve,
    some "r".toList⟩

/-- An empty journal behind an open handle. -/
def handles : TxHandles := Function.update (fun _ => none) journal (some ⟨.journal, []⟩)

def disk : Disk :=
  Function.update (fun _ => none) journal (some (utf8 (journalHeader "node-1".toList)))

def answers (eventId : Text) : Answers := .fair fun _ => ⟨[], eventId⟩

def transaction : WriterCommand :=
  .transaction ⟨.rewrites [], note "t2".toList, "r".toList,
    transactionIdentity (fun t => t) (note "t2".toList) [], none⟩

def group : WriterCommand :=
  .transactionMulti ⟨[], [note "t1".toList], "r".toList, ⟨[], [], []⟩⟩

/-- One transaction, and nothing else. -/
def alone : List WriterState.Action := [.submit transaction, .run (answers "e".toList)]

def answeredWith (txId : Text) : WriterEvent → Bool
  | .replied id _ (.ok (some txId')) => decide (id = "r".toList ∧ txId' = txId)
  | _ => false

theorem answered {events : List WriterEvent} {txId : Text}
    (h : events.any (answeredWith txId) = true) :
    ∃ mutation, .replied "r".toList mutation (.ok (some txId)) ∈ events := by
  obtain ⟨event, hevent, hanswered⟩ := List.any_eq_true.mp h
  unfold answeredWith at hanswered
  split at hanswered
  · next id mutation txId' =>
      obtain ⟨rfl, rfl⟩ := of_decide_eq_true hanswered
      exact ⟨mutation, hevent⟩
  · cases hanswered

end Overwritten

end Orgasmic
