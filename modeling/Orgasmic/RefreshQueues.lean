import Orgasmic.RefreshCoordinator

/-! # The queues of a target

What the requests and the settlements do to the queues.

* `Admits`: a request puts its waiter at the end of the queue of its kind.
* `Drains`: a settlement answers the first waiters of every queue, each once; `taken` tells how
  many.
* `Split`: a queue of which a first part came before a moment and the rest after it. -/

namespace Orgasmic

open Text

namespace TargetRefreshState

/-- The waiters of one kind, the oldest first. -/
def queue (state : TargetRefreshState) : WaiterKind → List Waiter
  | .load => state.loadWaiters
  | .mutation txId => (state.mutationWaiters.lookup txId).getD []
  | .explicit => state.explicitWaiters
  | .watcher => state.watcherWaiters

section queue
variable (state : TargetRefreshState) (txId : Text)

@[simp] theorem queue_load : state.queue .load = state.loadWaiters := rfl

@[simp] theorem queue_mutation :
    state.queue (.mutation txId) = (state.mutationWaiters.lookup txId).getD [] := rfl

@[simp] theorem queue_explicit : state.queue .explicit = state.explicitWaiters := rfl

@[simp] theorem queue_watcher : state.queue .watcher = state.watcherWaiters := rfl

end queue

/-- Every waiter is in the queue of its kind. -/
def Typed (state : TargetRefreshState) : Prop :=
  ∀ kind, ∀ w ∈ state.queue kind, w.kind = kind

/-- A transaction with an entry has a waiter. -/
def Filled (state : TargetRefreshState) : Prop :=
  ∀ txId, state.mutationWaiters.lookup txId ≠ some []

variable {state : TargetRefreshState} {reply : Waiter} {txId : Text}

/-- Whoever waits, apart from a watcher, is work. -/
theorem hasWork_of_queue {kind : WaiterKind} (waits : state.queue kind ≠ [])
    (pending : state.watcherWaiters ≠ [] → state.watcherPending = true) :
    state.hasWork = true := by
  unfold hasWork hasRequired
  cases kind with
  | load => simp [show state.loadWaiters ≠ [] from waits]
  | explicit => simp [show state.explicitWaiters ≠ [] from waits]
  | watcher => simp [pending waits]
  | mutation txId =>
      have nonempty : state.mutationWaiters.entries ≠ [] := by
        intro empty
        have missing : state.mutationWaiters.lookup txId = none := by
          rw [AList.lookup, empty, List.dlookup_nil]
        exact waits (by rw [queue_mutation, missing, Option.getD_none])
      simp [nonempty]

/-! ### Requests -/

/-- The state after a request that waits. -/
structure Admits (state : TargetRefreshState) (reply : Waiter)
    (next : TargetRefreshState × Bool) : Prop where
  queue : ∀ kind, next.1.queue kind =
    if kind = reply.kind then state.queue kind ++ [reply] else state.queue kind
  filled : state.Filled → next.1.Filled
  running : next.1.running = true
  spawns : next.2 = !state.running
  completed : next.1.completedTxIds = state.completedTxIds
  pending : next.1.watcherPending = (state.watcherPending || decide (reply.kind = .watcher))

theorem requestProjectLoad_admits (kind : reply.kind = .load) :
    Admits state reply (state.requestProjectLoad reply) := by
  unfold requestProjectLoad
  dsimp only
  split
  · next running =>
      exact ⟨fun k => by cases k <;> simp [kind], fun filled => filled, running, by simp [running],
        rfl, by simp [kind]⟩
  · next idle =>
      exact ⟨fun k => by cases k <;> simp [kind], fun filled => filled, rfl,
        by simpa using idle, rfl, by simp [kind]⟩

theorem scheduleWatcherRefresh_admits (kind : reply.kind = .watcher) :
    Admits state reply (state.scheduleWatcherRefresh reply) :=
  ⟨fun k => by cases k <;> simp [scheduleWatcherRefresh, kind],
    fun filled => filled, rfl, rfl, rfl, by simp [scheduleWatcherRefresh, kind]⟩

theorem queue_insert (state : TargetRefreshState) (txId : Text) (waiters : List Waiter)
    (kind : WaiterKind) :
    { state with mutationWaiters := state.mutationWaiters.insert txId waiters }.queue kind =
      if kind = .mutation txId then waiters else state.queue kind := by
  cases kind with
  | mutation id =>
      by_cases same : id = txId
      · subst same
        simp
      · simp [AList.lookup_insert_ne same, same]
  | _ => simp

theorem Filled.insert (filled : state.Filled) {waiters : List Waiter} (nonempty : waiters ≠ []) :
    { state with mutationWaiters := state.mutationWaiters.insert txId waiters }.Filled := by
  intro id
  by_cases same : id = txId
  · subst same
    simpa using nonempty
  · rw [AList.lookup_insert_ne same]
    exact filled id

theorem requestRequiredRefresh_admits {tx : Option Text} {next : TargetRefreshState × Bool}
    (kind : reply.kind = match tx with
      | some id => .mutation id
      | none => .explicit)
    (served : ∀ kind, state.queue kind ≠ [] → state.running = true) (filled : state.Filled)
    (h : state.requestRequiredRefresh tx reply = some next) : Admits state reply next := by
  unfold requestRequiredRefresh at h
  cases tx with
  | none =>
      obtain rfl := Option.some.inj h
      exact ⟨fun k => by cases k <;> simp [requireNew, kind],
        fun filled => filled, rfl, rfl, rfl, by simp [requireNew, kind]⟩
  | some id =>
      dsimp only at h
      split at h
      · cases h
      split at h
      · next waiters found =>
          obtain rfl := Option.some.inj h
          have queued : state.queue (.mutation id) = waiters := by simp [found]
          have running := served (.mutation id) fun empty =>
            filled id (by rw [found, ← queued, empty])
          refine ⟨fun k => ?_, fun _ => filled.insert (by simp), running, by simp [running], rfl,
            by simp [kind]⟩
          rw [queue_insert, kind]
          split
          · next same => rw [same, queued]
          · rfl
      · next missing =>
          obtain rfl := Option.some.inj h
          refine ⟨fun k => ?_, fun _ => filled.insert (List.cons_ne_nil reply []),
            rfl, rfl, rfl, by simp [requireNew, kind]⟩
          have empty : state.queue (.mutation id) = [] := by simp [missing]
          have inserted : (state.requireNew (some id) reply).1.queue k =
              if k = .mutation id then [reply] else state.queue k := queue_insert state id [reply] k
          rw [inserted, kind]
          split
          · next same => rw [same, empty, List.nil_append]
          · rfl

/-- A transaction that is answered at once is completed. -/
theorem completed_of_requestRequiredRefresh {tx : Option Text}
    (h : state.requestRequiredRefresh tx reply = none) :
    ∃ id, tx = some id ∧ id ∈ state.completedTxIds := by
  unfold requestRequiredRefresh at h
  cases tx with
  | none => cases h
  | some id =>
      dsimp only at h
      split at h
      · next known => exact ⟨id, rfl, known⟩
      · split at h <;> cases h

theorem mem_rememberCompleted (state : TargetRefreshState) {id : Text} (h : id ∈ (state.rememberCompleted txId).completedTxIds) :
    id ∈ state.completedTxIds ∨ id = txId := by
  unfold rememberCompleted at h
  split at h
  · exact .inl h
  · exact (List.mem_append.mp (List.mem_filter.mp h).1).imp_right List.mem_singleton.mp

/-! ### Settlements -/

/-- How many waiters of a captured transaction are answered, of the captured ones and of all. -/
def takenTx (amount : ℕ → ℕ → ℕ) (txs : List (Text × ℕ)) (length : ℕ) : WaiterKind → ℕ
  | .mutation txId =>
      match txs.lookup txId with
      | some n => amount n length
      | none => 0
  | _ => 0

/-- The settlement of one transaction answers the first of its waiters. -/
structure DrainsTx (settleTx : TargetRefreshState → Text × ℕ → TargetRefreshState × List Waiter)
    (amount : ℕ → ℕ → ℕ) : Prop where
  queue : ∀ state entry kind, (settleTx state entry).1.queue kind =
    if kind = .mutation entry.1 then
      (state.queue kind).drop (amount entry.2 (state.queue kind).length)
    else state.queue kind
  answered : ∀ state entry, (settleTx state entry).2 =
    (state.queue (.mutation entry.1)).take
      (amount entry.2 (state.queue (.mutation entry.1)).length)
  filled : ∀ {state : TargetRefreshState} (entry), state.Filled → (settleTx state entry).1.Filled
  pending : ∀ state entry, (settleTx state entry).1.watcherPending = state.watcherPending

@[simp] theorem rememberCompleted_queue (state : TargetRefreshState) (txId : Text)
    (kind : WaiterKind) : (state.rememberCompleted txId).queue kind = state.queue kind := by
  unfold rememberCompleted
  split <;> cases kind <;> rfl

theorem queue_erase (state : TargetRefreshState) (txId : Text) (kind : WaiterKind) :
    { state with mutationWaiters := state.mutationWaiters.erase txId }.queue kind =
      if kind = .mutation txId then [] else state.queue kind := by
  cases kind with
  | mutation id =>
      by_cases same : id = txId
      · subst same
        simp
      · simp [AList.lookup_erase_ne same, same]
  | _ => simp

theorem Filled.erase (filled : state.Filled) :
    { state with mutationWaiters := state.mutationWaiters.erase txId }.Filled := by
  intro id
  by_cases same : id = txId
  · subst same
    simp
  · rw [AList.lookup_erase_ne same]
    exact filled id

theorem Filled.rememberCompleted (filled : state.Filled) :
    (state.rememberCompleted txId).Filled := by
  unfold TargetRefreshState.rememberCompleted
  split <;> exact filled

theorem settleTxOk_drains : DrainsTx settleTxOk fun _ length => length where
  queue state entry kind := by
    unfold settleTxOk
    rw [rememberCompleted_queue, queue_erase]
    split
    · rw [List.drop_length]
    · rfl
  answered state entry := by
    rw [List.take_length]
    rfl
  filled entry filled := filled.erase.rememberCompleted
  pending state entry := by
    unfold settleTxOk rememberCompleted
    split <;> rfl

theorem settleTxError_drains : DrainsTx settleTxError fun n _ => n where
  queue state entry kind := by
    unfold settleTxError
    split
    · next missing =>
        split
        · next same => simp [same, missing]
        · rfl
    · next waiters found =>
        have queued : state.queue (.mutation entry.1) = waiters := by simp [found]
        dsimp only
        split
        · next all =>
            rw [queue_erase]
            split
            · next same => rw [same, queued, List.isEmpty_iff.mp all]
            · rfl
        · rw [queue_insert]
          split
          · next same => rw [same, queued]
          · rfl
  answered state entry := by
    unfold settleTxError
    split
    · next missing => simp [missing]
    · next waiters found => simp [found]
  filled entry filled := by
    unfold settleTxError
    split
    · exact filled
    · dsimp only
      split
      · exact filled.erase
      · next later => exact filled.insert (by simpa using later)
  pending state entry := by
    unfold settleTxError
    split <;> rfl

section settleTxs
variable {settleTx : TargetRefreshState → Text × ℕ → TargetRefreshState × List Waiter}
variable {amount : ℕ → ℕ → ℕ} {txs : List (Text × ℕ)}

theorem takenTx_cons_self {entry : Text × ℕ} {length : ℕ} :
    takenTx amount (entry :: txs) length (.mutation entry.1) = amount entry.2 length := by
  obtain ⟨txId, n⟩ := entry
  simp [takenTx]

theorem takenTx_cons_ne {entry : Text × ℕ} {length : ℕ} {kind : WaiterKind}
    (other : kind ≠ .mutation entry.1) :
    takenTx amount (entry :: txs) length kind = takenTx amount txs length kind := by
  obtain ⟨txId, n⟩ := entry
  cases kind with
  | mutation id =>
      have other' : (id == txId) = false := by simpa using other
      simp [takenTx, List.lookup_cons, other']
  | _ => rfl

theorem takenTx_of_notMem {txId : Text} {length : ℕ} (missing : txId ∉ txs.map Prod.fst) :
    takenTx amount txs length (.mutation txId) = 0 := by
  have none : txs.lookup txId = none := by
    rw [List.lookup_eq_none_iff]
    intro entry mem
    simpa using fun same => missing (List.mem_map.mpr ⟨entry, mem, same.symm⟩)
  unfold takenTx
  simp only [none]

theorem DrainsTx.settleTxs_queue (drains : DrainsTx settleTx amount) (state : TargetRefreshState)
    (nodup : (txs.map Prod.fst).Nodup) (kind : WaiterKind) :
    (settleTxs settleTx state txs).1.queue kind =
      (state.queue kind).drop (takenTx amount txs (state.queue kind).length kind) := by
  induction txs generalizing state with
  | nil => cases kind <;> rfl
  | cons entry rest ih =>
      obtain ⟨fresh, nodup⟩ := List.nodup_cons.mp nodup
      have first := drains.queue state entry kind
      refine (ih _ nodup).trans ?_
      split at first
      · next same =>
          subst same
          rw [takenTx_of_notMem fresh, List.drop_zero, first, takenTx_cons_self]
      · next other => rw [first, takenTx_cons_ne other]

theorem DrainsTx.typed (drains : DrainsTx settleTx amount) (entry : Text × ℕ)
    (typed : state.Typed) : (settleTx state entry).1.Typed := by
  intro kind w mem
  rw [drains.queue] at mem
  split at mem
  · exact typed kind w (List.mem_of_mem_drop mem)
  · exact typed kind w mem

theorem DrainsTx.settleTxs_answered (drains : DrainsTx settleTx amount)
    (nodup : (txs.map Prod.fst).Nodup) (typed : state.Typed) (w : Waiter) :
    (settleTxs settleTx state txs).2.count w =
      ((state.queue w.kind).take (takenTx amount txs (state.queue w.kind).length w.kind)).count
        w := by
  induction txs generalizing state with
  | nil => cases kind : w.kind <;> simp [settleTxs, takenTx]
  | cons entry rest ih =>
      obtain ⟨fresh, nodup⟩ := List.nodup_cons.mp nodup
      have first := drains.queue state entry w.kind
      have others := ih nodup (drains.typed entry typed)
      have both : (settleTxs settleTx state (entry :: rest)).2 = (settleTx state entry).2 ++
          (settleTxs settleTx (settleTx state entry).1 rest).2 := rfl
      rw [both, List.count_append, others, drains.answered]
      by_cases same : w.kind = .mutation entry.1
      · rw [same, takenTx_of_notMem fresh, takenTx_cons_self, List.take_zero, List.count_nil,
          Nat.add_zero]
      · rw [if_neg same] at first
        have absent : w ∉ state.queue (.mutation entry.1) := fun mem => same (typed _ w mem)
        rw [first, takenTx_cons_ne same,
          List.count_eq_zero_of_not_mem fun mem => absent (List.mem_of_mem_take mem), Nat.zero_add]

theorem DrainsTx.settleTxs_filled (drains : DrainsTx settleTx amount) (filled : state.Filled) :
    (settleTxs settleTx state txs).1.Filled := by
  induction txs generalizing state with
  | nil => exact filled
  | cons entry rest ih => exact ih (drains.filled entry filled)

theorem DrainsTx.settleTxs_pending (drains : DrainsTx settleTx amount) :
    (settleTxs settleTx state txs).1.watcherPending = state.watcherPending := by
  induction txs generalizing state with
  | nil => rfl
  | cons entry rest ih => exact ih.trans (drains.pending state entry)

theorem settleTxs_completed (state : TargetRefreshState) {txId : Text}
    (known : ∀ (state : TargetRefreshState) entry, txId ∈ (settleTx state entry).1.completedTxIds →
      txId ∈ state.completedTxIds ∨ txId = entry.1)
    (h : txId ∈ (settleTxs settleTx state txs).1.completedTxIds) :
    txId ∈ state.completedTxIds ∨ txId ∈ txs.map Prod.fst := by
  induction txs generalizing state with
  | nil => exact .inl h
  | cons entry rest ih =>
      obtain h | h := ih _ h
      · obtain h | rfl := known state entry h
        · exact .inl h
        · exact .inr List.mem_cons_self
      · exact .inr (List.mem_cons_of_mem _ h)

end settleTxs

/-- Only captured transactions become completed. -/
theorem settleCapturedOk_completed {captured : CapturedRefresh}
    (h : txId ∈ (state.settleCapturedOk captured).1.completedTxIds) :
    txId ∈ state.completedTxIds ∨ txId ∈ captured.mutationWaiters.map Prod.fst := by
  have known : ∀ (state : TargetRefreshState) entry,
      txId ∈ (settleTxOk state entry).1.completedTxIds →
        txId ∈ state.completedTxIds ∨ txId = entry.1 :=
    fun state entry h => mem_rememberCompleted
      { state with mutationWaiters := state.mutationWaiters.erase entry.1 } h
  exact settleTxs_completed { state with loadWaiters := [] } known h

theorem settleCapturedError_completed (state : TargetRefreshState) (captured : CapturedRefresh) :
    (state.settleCapturedError captured).1.completedTxIds = state.completedTxIds := by
  have loop : ∀ (txs : List (Text × ℕ)) (state : TargetRefreshState),
      (settleTxs settleTxError state txs).1.completedTxIds = state.completedTxIds := by
    intro txs
    induction txs with
    | nil => exact fun _ => rfl
    | cons entry rest ih =>
        intro state
        refine (ih _).trans ?_
        split <;> rfl
  exact loop _ _

/-- How many waiters of a kind a settlement answers. -/
def taken (amount : ℕ → ℕ → ℕ) (state : TargetRefreshState) (captured : CapturedRefresh) :
    WaiterKind → ℕ
  | .load => state.loadWaiters.length
  | .mutation txId =>
      takenTx amount captured.mutationWaiters (state.queue (.mutation txId)).length
        (.mutation txId)
  | .explicit => captured.explicitCount
  | .watcher => captured.watcherCount

/-- A settlement answers the first waiters of every queue, each once. -/
structure Drains (amount : ℕ → ℕ → ℕ) (state : TargetRefreshState) (captured : CapturedRefresh)
    (settled : TargetRefreshState × List Waiter) : Prop where
  queue : ∀ kind, settled.1.queue kind = (state.queue kind).drop (taken amount state captured kind)
  answered : state.Typed → ∀ w, settled.2.count w =
    ((state.queue w.kind).take (taken amount state captured w.kind)).count w
  filled : state.Filled → settled.1.Filled
  pending : settled.1.watcherWaiters ≠ [] →
    settled.1.watcherPending = state.watcherPending

theorem DrainsTx.settleCaptured
    {settleTx : TargetRefreshState → Text × ℕ → TargetRefreshState × List Waiter}
    {amount : ℕ → ℕ → ℕ} (drains : DrainsTx settleTx amount) {captured : CapturedRefresh}
    (nodup : (captured.mutationWaiters.map Prod.fst).Nodup) :
    Drains amount state captured (state.settleCaptured settleTx captured) := by
  have queues := drains.settleTxs_queue { state with loadWaiters := [] } nodup
  have explicits : (settleTxs settleTx { state with loadWaiters := [] }
      captured.mutationWaiters).1.explicitWaiters = state.explicitWaiters := queues .explicit
  have watchers : (settleTxs settleTx { state with loadWaiters := [] }
      captured.mutationWaiters).1.watcherWaiters = state.watcherWaiters := queues .watcher
  refine ⟨fun kind => ?_, fun typed w => ?_, fun filled => ?_, fun waits => ?_⟩
  · unfold TargetRefreshState.settleCaptured
    cases kind with
    | load => exact (queues .load).trans (List.drop_length).symm
    | mutation txId => exact queues (.mutation txId)
    | explicit => exact congrArg (List.drop captured.explicitCount) explicits
    | watcher => exact congrArg (List.drop captured.watcherCount) watchers
  · have typed' : ({ state with loadWaiters := [] } : TargetRefreshState).Typed := by
      intro kind w mem
      cases kind with
      | load => cases mem
      | mutation txId => exact typed (.mutation txId) w mem
      | explicit => exact typed .explicit w mem
      | watcher => exact typed .watcher w mem
    have txs := drains.settleTxs_answered nodup typed' w
    have loads : w.kind ≠ .load → state.loadWaiters.count w = 0 := fun other =>
      List.count_eq_zero_of_not_mem fun mem => other (typed .load w mem)
    have explicits' : w.kind ≠ .explicit →
        (state.explicitWaiters.take captured.explicitCount).count w = 0 := fun other =>
      List.count_eq_zero_of_not_mem fun mem => other (typed .explicit w (List.mem_of_mem_take mem))
    have watchers' : w.kind ≠ .watcher →
        (state.watcherWaiters.take captured.watcherCount).count w = 0 := fun other =>
      List.count_eq_zero_of_not_mem fun mem => other (typed .watcher w (List.mem_of_mem_take mem))
    unfold TargetRefreshState.settleCaptured
    dsimp only
    rw [explicits, watchers, List.count_append, List.count_append, List.count_append, txs]
    -- only the queue of the waiter's own kind counts
    cases kind : w.kind <;> rw [kind] at loads explicits' watchers' <;> simp [taken, takenTx, *]
  · exact drains.settleTxs_filled filled
  · unfold TargetRefreshState.settleCaptured at waits ⊢
    dsimp only at waits ⊢
    rw [if_neg (by simpa using waits)]
    exact drains.settleTxs_pending

end TargetRefreshState

/-! ### Captured batches -/

namespace CapturedRefresh

/-- The captured number of waiters of a kind. -/
def count (captured : CapturedRefresh) : WaiterKind → ℕ
  | .load => captured.loadCount
  | .mutation txId => (captured.mutationWaiters.lookup txId).getD 0
  | .explicit => captured.explicitCount
  | .watcher => captured.watcherCount

/-- Every captured transaction is listed once, with a waiter. -/
structure WellFormed (captured : CapturedRefresh) : Prop where
  nodup : (captured.mutationWaiters.map Prod.fst).Nodup
  positive : ∀ entry ∈ captured.mutationWaiters, 0 < entry.2

theorem WellFormed.count_pos {captured : CapturedRefresh} (wellFormed : captured.WellFormed)
    {txId : Text} (mem : txId ∈ captured.mutationWaiters.map Prod.fst) :
    0 < captured.count (.mutation txId) := by
  unfold count
  dsimp only
  cases found : captured.mutationWaiters.lookup txId with
  | none =>
      obtain ⟨entry, there, rfl⟩ := List.mem_map.mp mem
      have missing := List.lookup_eq_none_iff.mp found entry there
      simp at missing
  | some n =>
      obtain ⟨before, after, eq, -⟩ := List.lookup_eq_some_iff.mp found
      exact wellFormed.positive (txId, n) (by rw [eq]; simp)

end CapturedRefresh

namespace TargetRefreshState

variable {state : TargetRefreshState} {captured : CapturedRefresh} {kind : WaiterKind}

theorem capture_queue : state.capture.1.queue kind = state.queue kind := by
  cases kind <;> rfl

theorem capture_count : state.capture.2.count kind = (state.queue kind).length := by
  cases kind with
  | mutation txId =>
      have lookup : ∀ l : List (Σ _ : Text, List Waiter),
          (l.map fun entry => (entry.1, entry.2.length)).lookup txId =
            (l.dlookup txId).map List.length := by
        intro l
        induction l with
        | nil => rfl
        | cons entry rest ih =>
            obtain ⟨id, waiters⟩ := entry
            by_cases same : txId = id
            · subst same
              simp
            · have other : (txId == id) = false := by simpa using same
              rw [List.map_cons, List.lookup_cons, other, List.dlookup_cons_ne _ _ same]
              exact ih
      have found : state.capture.2.count (.mutation txId) =
          ((state.mutationWaiters.lookup txId).map List.length).getD 0 :=
        congrArg (fun n : Option ℕ => n.getD 0) (lookup state.mutationWaiters.entries)
      rw [found, queue_mutation]
      cases state.mutationWaiters.lookup txId <;> rfl
  | _ => rfl

theorem capture_wellFormed (filled : state.Filled) : state.capture.2.WellFormed where
  nodup := by
    have keys : state.capture.2.mutationWaiters.map Prod.fst = state.mutationWaiters.keys := by
      unfold capture AList.keys List.keys
      rw [List.map_map]
      rfl
    rw [keys]
    exact state.mutationWaiters.keys_nodup
  positive := by
    intro entry mem
    obtain ⟨⟨txId, waiters⟩, there, rfl⟩ := List.mem_map.mp mem
    have found : state.mutationWaiters.lookup txId = some waiters :=
      AList.mem_lookup_iff.mpr there
    refine List.length_pos_iff.mpr fun empty => filled txId ?_
    rw [found]
    exact congrArg some empty

/-- A settlement answers at least whom it has captured. -/
theorem count_le_taken {amount : ℕ → ℕ → ℕ} (enough : ∀ n length, n ≤ length → n ≤ amount n length)
    (fits : captured.count kind ≤ (state.queue kind).length) :
    captured.count kind ≤ taken amount state captured kind := by
  cases kind with
  | load => exact fits
  | mutation txId =>
      unfold taken takenTx
      unfold CapturedRefresh.count at fits ⊢
      dsimp only at fits ⊢
      split
      · next n found =>
          rw [found, Option.getD_some] at fits ⊢
          exact enough n _ fits
      · next missing => rw [missing, Option.getD_none]
  | explicit => exact le_rfl
  | watcher => exact le_rfl

/-- Those who came later are answered by a settlement only as first loads, or with their captured
transaction. -/
theorem taken_le_count (amount : ℕ → ℕ → ℕ) (state : TargetRefreshState) (kind : WaiterKind)
    (wellFormed : captured.WellFormed) :
    taken amount state captured kind ≤ captured.count kind ∨ kind = .load ∨
      ∃ txId n, kind = .mutation txId ∧ captured.count kind = n ∧ 0 < n ∧
        taken amount state captured kind = amount n (state.queue kind).length := by
  cases kind with
  | load => exact .inr (.inl rfl)
  | mutation txId =>
      unfold taken takenTx CapturedRefresh.count
      dsimp only
      split
      · next n found =>
          obtain ⟨before, after, eq, -⟩ := List.lookup_eq_some_iff.mp found
          exact .inr (.inr ⟨txId, n, rfl, by rw [found, Option.getD_some],
            wellFormed.positive (txId, n) (by rw [eq]; simp), rfl⟩)
      · exact .inl (Nat.zero_le _)
  | explicit => exact .inl le_rfl
  | watcher => exact .inl le_rfl

end TargetRefreshState

/-! ### Queues and moments -/

/-- The first `n` waiters came before the moment, and the others after it. -/
structure Split (moment n : ℕ) (queue : List Waiter) : Prop where
  fits : n ≤ queue.length
  before : ∀ w ∈ queue.take n, w.since < moment
  after : ∀ w ∈ queue.drop n, moment < w.since

namespace Split

variable {moment n : ℕ} {queue : List Waiter} {w : Waiter}

theorem append (split : Split moment n queue) (later : moment < w.since) :
    Split moment n (queue ++ [w]) where
  fits := by
    rw [List.length_append]
    exact split.fits.trans (Nat.le_add_right _ _)
  before := by
    rw [List.take_append_of_le_length split.fits]
    exact split.before
  after := by
    rw [List.drop_append_of_le_length split.fits]
    intro v mem
    obtain mem | mem := List.mem_append.mp mem
    · exact split.after v mem
    · rwa [List.mem_singleton.mp mem]

/-- Whoever is left when at least the first part is gone came after the moment. -/
theorem after_of_drop {k : ℕ} (split : Split moment n queue) (h : n ≤ k) (mem : w ∈ queue.drop k) :
    moment < w.since := by
  obtain ⟨j, rfl⟩ := Nat.exists_eq_add_of_le h
  rw [← List.drop_drop] at mem
  exact split.after w (List.mem_of_mem_drop mem)

theorem before_of_take {k : ℕ} (split : Split moment n queue) (h : k ≤ n) (mem : w ∈ queue.take k) :
    w.since < moment :=
  split.before w (List.mem_of_mem_take (by rwa [List.take_take, Nat.min_eq_left h]))

theorem take_or_drop (n : ℕ) (mem : w ∈ queue) : w ∈ queue.take n ∨ w ∈ queue.drop n := by
  rwa [← List.mem_append, List.take_append_drop]

/-- If the first part is not empty, someone came before the moment. -/
theorem head (split : Split moment n queue) (positive : 0 < n) :
    ∃ first ∈ queue, first.since < moment := by
  obtain ⟨m, rfl⟩ := Nat.exists_eq_add_of_lt positive
  cases queue with
  | nil => exact absurd split.fits (by simp)
  | cons first others => exact ⟨first, List.mem_cons_self, split.before first (by simp)⟩

/-- If the first part is not empty, nobody in the queue came before all of it. -/
theorem preceded (split : Split moment n queue) (positive : 0 < n) (mem : w ∈ queue) :
    ∃ first ∈ queue, first.since ≤ w.since ∧ first.since < moment := by
  obtain early | late := take_or_drop n mem
  · exact ⟨w, mem, le_rfl, split.before w early⟩
  · obtain ⟨first, there, before⟩ := split.head positive
    exact ⟨first, there, (before.trans (split.after w late)).le, before⟩

end Split

end Orgasmic
