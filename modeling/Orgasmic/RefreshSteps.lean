import Orgasmic.RefreshQueues

/-! # Steps of the refresh coordinator

* `Booked`: every request is in one queue or was answered once.
* `Attended`: every queue that is not empty has a worker, and only one.
* `Timed`: what a round has captured came before its capture, the rest came after it.
* `Acknowledged`: the answers tell the truth.
* `Turns`: what one step does, in a state in which the first two hold. -/

namespace Orgasmic

open Text Interleaving TargetRefreshState

namespace WorkerPhase

def round? : WorkerPhase → Option Round
  | captured round => some round
  | permitted round => some round
  | scanning round _ _ => some round
  | built round _ => some round
  | settling round _ => some round
  | _ => none

/-- The number of captured watchers. -/
def watcherCount (phase : WorkerPhase) : ℕ :=
  match phase.round? with
  | some round => round.captured.watcherCount
  | none => 0

/-- The scan of the worker began after the capture. -/
def Sound (publications : List Published) (target : RefreshTarget) : WorkerPhase → Prop
  | scanning round _ begun => round.moment < begun
  | built round (.ok begun) => round.moment < begun
  | settling round (.ok published) =>
      published ∈ publications ∧ published.target = target ∧ round.moment < published.begun
  | _ => True

end WorkerPhase

namespace RefreshState

variable {s s' : RefreshState}

/-- The queue of a waiter. -/
def queueOf (s : RefreshState) (w : Waiter) : List Waiter := (s.targets w.target).queue w.kind

/-- The worker with this number works for the target. -/
def Live (s : RefreshState) (i : ℕ) (target : RefreshTarget) : Prop :=
  ∃ phase, s.workers[i]? = some ⟨target, phase⟩ ∧ phase ≠ .stopped

/-- The number of settlements of its target since the registration of a waiter. -/
def settledSince (s : RefreshState) (w : Waiter) : ℕ :=
  s.settlements.countP fun settlement => settlement.1 = w.target ∧ w.since < settlement.2

/-- A request for the same transaction, not later than the waiter, came before the scan began. -/
def Preceded (s : RefreshState) (w : Waiter) (published : Published) : Prop :=
  ∃ first ∈ s.registered, first.target = w.target ∧ first.kind = w.kind ∧
    first.since ≤ w.since ∧ first.since < published.begun

/-- An answer tells the truth. -/
def Honest (s : RefreshState) (a : RefreshAnswer) : Prop :=
  match a.outcome with
  | .published published =>
      published ∈ s.publications ∧ published.target = a.waiter.target ∧
        match a.waiter.kind with
        | .load => True
        | .mutation _ =>
            s.Preceded a.waiter published ∧
              (a.waiter.repeated = false → a.waiter.since < published.begun)
        | .explicit => a.waiter.since < published.begun
        | .watcher => a.waiter.since < published.begun
  | .completed =>
      (∃ txId, a.waiter.kind = .mutation txId) ∧ a.waiter.repeated = true ∧
        ∃ published ∈ s.publications, published.target = a.waiter.target ∧
          s.Preceded a.waiter published
  | .failed round _ => a.waiter.kind = .load ∨ a.waiter.since < round.moment
  | .refused => False

/-! ### Invariants -/

/-- Every request is in one queue or was answered once. -/
structure Booked (s : RefreshState) : Prop where
  opened : s.closed = false
  past : ∀ w ∈ s.registered, w.since < s.clock
  nodup : s.registered.Nodup
  target : ∀ t kind, ∀ w ∈ (s.targets t).queue kind, w.target = t
  typed : ∀ t, (s.targets t).Typed
  filled : ∀ t, (s.targets t).Filled
  counted : ∀ w, (s.queueOf w).count w + (s.answers.map RefreshAnswer.waiter).count w =
    s.registered.count w
  joined : ∀ t txId, ∀ w ∈ ((s.targets t).queue (.mutation txId)).tail, w.repeated = true

/-- Whoever waits has a worker, and every target has at most one. -/
structure Attended (s : RefreshState) : Prop where
  served : ∀ t kind, (s.targets t).queue kind ≠ [] → (s.targets t).running = true
  worker : ∀ t, (s.targets t).running = true → ∃ i, s.Live i t
  running : ∀ {i t}, s.Live i t → (s.targets t).running = true
  one : ∀ {i j t}, s.Live i t → s.Live j t → i = j
  pending : ∀ {i : ℕ} {t} {phase : WorkerPhase}, s.workers[i]? = some ⟨t, phase⟩ → phase ≠ .stopped →
    phase.watcherCount < (s.targets t).watcherWaiters.length → (s.targets t).watcherPending = true

/-- A round and the queues of its target. -/
structure RoundSound (s : RefreshState) (t : RefreshTarget) (round : Round) : Prop where
  wellFormed : round.captured.WellFormed
  past : round.moment < s.clock
  split : ∀ kind, Split round.moment (round.captured.count kind) ((s.targets t).queue kind)
  settled : ∀ m, (t, m) ∈ s.settlements → m < round.moment

/-- The queues and the rounds in time. -/
structure Timed (s : RefreshState) : Prop where
  rounds : ∀ {i : ℕ} {t round} {phase : WorkerPhase}, s.workers[i]? = some ⟨t, phase⟩ → phase.round? = some round →
    s.RoundSound t round
  settled : ∀ settlement ∈ s.settlements, settlement.2 < s.clock
  twice : ∀ t kind, ∀ w ∈ (s.targets t).queue kind, s.settledSince w ≤ 1

/-- The answers tell the truth. -/
structure Acknowledged (s : RefreshState) : Prop where
  phases : ∀ {i : ℕ} {t} {phase : WorkerPhase}, s.workers[i]? = some ⟨t, phase⟩ → phase.Sound s.publications t
  known : ∀ t, ∀ txId ∈ (s.targets t).completedTxIds, ∃ published ∈ s.publications,
    published.target = t ∧ ∃ first ∈ s.registered, first.target = t ∧
      first.kind = .mutation txId ∧ first.since < published.begun
  honest : ∀ a ∈ s.answers, s.Honest a

/-! ### Steps -/

/-- The requests, their answers and their settlements stay. -/
structure Quiet (s s' : RefreshState) : Prop where
  targets : s'.targets = s.targets
  closed : s'.closed = s.closed
  registered : s'.registered = s.registered
  answers : s'.answers = s.answers
  settlements : s'.settlements = s.settlements
  publications : s.publications ⊆ s'.publications
  clock : s'.clock = s.clock + 1

/-- A settlement of a captured batch that ends a round. -/
inductive Settles (s : RefreshState) (t : RefreshTarget) (round : Round) :
    Except Text Published → TargetRefreshState × List Waiter → RefreshOutcome → Prop
  | ok (published : Published) : Settles s t round (.ok published)
      ((s.targets t).settleCapturedOk round.captured) (.published published)
  | error (error : Text) : Settles s t round (.error error)
      ((s.targets t).settleCapturedError round.captured) (.failed round error)

/-- What a step does. -/
inductive Turns (s : RefreshState) : RefreshState → Prop
  | registers {reply : Waiter} {next : TargetRefreshState × Bool} (since : reply.since = s.clock)
      (repeated : ∀ txId, reply.kind = .mutation txId →
        (s.targets reply.target).queue (.mutation txId) ≠ [] → reply.repeated = true)
      (admits : Admits (s.targets reply.target) reply next) :
      Turns s { s.register reply next with clock := s.clock + 1 }
  | recalls {reply : Waiter} {txId : Text} (since : reply.since = s.clock)
      (kind : reply.kind = .mutation txId) (repeated : reply.repeated = true)
      (known : txId ∈ (s.targets reply.target).completedTxIds) :
      Turns s { { s with registered := s.registered ++ [reply] }.answer [reply] .completed with
        clock := s.clock + 1 }
  | moves {u : RefreshState} {i : ℕ} {t : RefreshTarget} {phase : WorkerPhase} (next : WorkerPhase)
      (there : s.workers[i]? = some ⟨t, phase⟩) (alive : phase ≠ .stopped)
      (alive' : next ≠ .stopped) (round : next.round? = phase.round?)
      (sound : phase.Sound s.publications t →
        (∀ round, phase.round? = some round → round.moment < s.clock) →
          next.Sound u.publications t)
      (quiet : Quiet s u) (workers : u.workers = s.workers.set i ⟨t, next⟩) : Turns s u
  | captures {i : ℕ} {t : RefreshTarget} (there : s.workers[i]? = some ⟨t, .quiet⟩) :
      Turns s { (s.setTarget t (s.targets t).capture.1).setPhase i t
        (.captured ⟨(s.targets t).capture.2, s.clock⟩) with clock := s.clock + 1 }
  | settles {i : ℕ} {t : RefreshTarget} {round : Round} {result : Except Text Published}
      {settled : TargetRefreshState × List Waiter} {outcome : RefreshOutcome}
      (there : s.workers[i]? = some ⟨t, .settling round result⟩)
      (settles : Settles s t round result settled outcome) :
      Turns s { s.endRound i t settled outcome with clock := s.clock + 1 }
  | exits {u : RefreshState} (quiet : Quiet s u) (workers : u.workers = s.workers) : Turns s u

theorem turns_setPhase {i : ℕ} {t : RefreshTarget} {phase next : WorkerPhase}
    (there : s.workers[i]? = some ⟨t, phase⟩) (alive : phase ≠ .stopped) (alive' : next ≠ .stopped)
    (round : next.round? = phase.round?)
    (sound : phase.Sound s.publications t → next.Sound s.publications t) :
    Turns s { s.setPhase i t next with clock := s.clock + 1 } :=
  .moves next there alive alive' round (fun h _ => sound h)
    ⟨rfl, rfl, rfl, rfl, rfl, fun _ h => h, rfl⟩ rfl

theorem knows_of_queue {state : TargetRefreshState} {tx : Option Text} {txId : Text}
    (kind : (match tx with
      | some id => WaiterKind.mutation id
      | none => .explicit) = .mutation txId)
    (waits : state.queue (.mutation txId) ≠ []) : state.knows tx = true := by
  cases tx with
  | none => cases kind
  | some id =>
      obtain rfl := WaiterKind.mutation.inj kind
      unfold knows
      cases found : state.mutationWaiters.lookup id with
      | none => exact absurd (by rw [queue_mutation, found, Option.getD_none]) waits
      | some waiters => simp [found]

theorem turns (booked : Booked s) (attended : Attended s) {a : RefreshAction}
    (taken : s.step a = some s') : Turns s s' := by
  obtain ⟨u, h, rfl⟩ := Option.map_eq_some_iff.mp taken
  cases a with
  | load target =>
      obtain rfl := Option.some.inj h
      exact .registers rfl (fun _ kind => by cases kind) (requestProjectLoad_admits rfl)
  | required target txId =>
      unfold turn at h
      dsimp only at h
      split at h
      · next next required =>
          obtain rfl := Option.some.inj h
          exact .registers rfl (fun _ kind waits => knows_of_queue kind waits)
            (requestRequiredRefresh_admits rfl (attended.served target) (booked.filled target)
              required)
      · next known =>
          obtain rfl := Option.some.inj h
          obtain ⟨id, rfl, mem⟩ := completed_of_requestRequiredRefresh known
          exact .recalls rfl rfl (by simp [waiter, knows, mem]) mem
  | watch target =>
      obtain rfl := Option.some.inj h
      exact .registers rfl (fun _ kind => by cases kind) (scheduleWatcherRefresh_admits rfl)
  | observe i elapsed =>
      unfold turn at h
      dsimp only at h
      split at h
      · next target there =>
          obtain rfl := Option.some.inj h
          cases elapsed <;>
            exact turns_setPhase there (by simp) (by simp) rfl fun _ => trivial
      · cases h
  | compare i elapsed =>
      unfold turn at h
      dsimp only at h
      split at h
      · next target generation there =>
          obtain rfl := Option.some.inj h
          split <;> exact turns_setPhase there (by simp) (by simp) rfl fun _ => trivial
      · cases h
  | capture i =>
      unfold turn at h
      dsimp only at h
      split at h
      · next target there =>
          obtain rfl := Option.some.inj h
          exact .captures there
      · cases h
  | acquire i =>
      unfold turn at h
      dsimp only at h
      split at h
      · next target round there =>
          rw [booked.opened, Bool.false_and, if_neg Bool.false_ne_true] at h
          split at h
          · obtain rfl := Option.some.inj h
            exact turns_setPhase there (by simp) (by simp) rfl fun _ => trivial
          · cases h
      · cases h
  | begin i =>
      unfold turn at h
      dsimp only at h
      split at h
      · next target round there =>
          split at h
          · obtain rfl := Option.some.inj h
            exact turns_setPhase there (by simp) (by simp) rfl fun _ => trivial
          · obtain rfl := Option.some.inj h
            exact .moves (.scanning round _ s.clock) there (by simp) (by simp) rfl
              (fun _ past => past round rfl)
              ⟨rfl, rfl, rfl, rfl, rfl, fun _ h => h, rfl⟩ rfl
      · cases h
  | scan i outcome =>
      unfold turn at h
      dsimp only at h
      split at h
      · next target round token begun there =>
          cases outcome with
          | built =>
              obtain rfl := Option.some.inj h
              exact turns_setPhase there (by simp) (by simp) rfl fun sound => sound
          | failed error =>
              obtain rfl := Option.some.inj h
              exact turns_setPhase there (by simp) (by simp) rfl fun _ => trivial
          | timedOut message =>
              obtain rfl := Option.some.inj h
              refine .moves (.built round (.error message)) there (by simp) (by simp) rfl
                (fun _ _ => trivial) ?_ ?_
              · unfold markBlockingScanTimedOut
                split
                · split <;> exact ⟨rfl, rfl, rfl, rfl, rfl, fun _ h => h, rfl⟩
                · exact ⟨rfl, rfl, rfl, rfl, rfl, fun _ h => h, rfl⟩
              · unfold markBlockingScanTimedOut
                split
                · split <;> rfl
                · rfl
      · cases h
  | publish i error =>
      unfold turn at h
      dsimp only at h
      split at h
      · next target round begun there =>
          cases error with
          | some error =>
              obtain rfl := Option.some.inj h
              exact turns_setPhase there (by simp) (by simp) rfl fun _ => trivial
          | none =>
              obtain rfl := Option.some.inj h
              exact .moves (.settling round (.ok ⟨target, begun⟩)) there (by simp) (by simp) rfl
                (fun sound _ => ⟨List.mem_append_right _ (List.mem_singleton_self _), rfl, sound⟩)
                ⟨rfl, rfl, rfl, rfl, rfl, fun _ h => List.mem_append_left _ h, rfl⟩ rfl
      · next target round error there =>
          obtain rfl := Option.some.inj h
          exact turns_setPhase there (by simp) (by simp) rfl fun _ => trivial
      · cases h
  | settle i =>
      unfold turn at h
      dsimp only at h
      split at h
      · next target round published there =>
          obtain rfl := Option.some.inj h
          exact .settles there (.ok published)
      · next target round error there =>
          obtain rfl := Option.some.inj h
          exact .settles there (.error error)
      · cases h
  | exit target token =>
      unfold turn at h
      dsimp only at h
      split at h
      · obtain rfl := Option.some.inj h
        unfold finishBlockingScan
        split
        · split <;> exact .exits ⟨rfl, rfl, rfl, rfl, rfl, fun _ h => h, rfl⟩ rfl
        · exact .exits ⟨rfl, rfl, rfl, rfl, rfl, fun _ h => h, rfl⟩ rfl
      · cases h

/-! ### The queues and the workers after a step -/

section queues
variable {t t' : RefreshTarget} {kind : WaiterKind} {reply w : Waiter}
variable {next settled : TargetRefreshState × List Waiter}

theorem register_queue {next : TargetRefreshState × Bool}
    (admits : Admits (s.targets reply.target) reply next) :
    ((s.register reply next).targets t).queue kind =
      if t = reply.target ∧ kind = reply.kind then (s.targets t).queue kind ++ [reply]
      else (s.targets t).queue kind := by
  unfold register setTarget
  by_cases same : t = reply.target
  · subst same
    simp [admits.queue]
  · simp [same]

theorem mem_register {next : TargetRefreshState × Bool}
    (admits : Admits (s.targets reply.target) reply next)
    (mem : w ∈ ((s.register reply next).targets t).queue kind) :
    w ∈ (s.targets t).queue kind ∨ (w = reply ∧ t = reply.target ∧ kind = reply.kind) := by
  rw [register_queue admits] at mem
  split at mem
  · next own =>
      obtain mem | mem := List.mem_append.mp mem
      · exact .inl mem
      · exact .inr ⟨List.mem_singleton.mp mem, own⟩
  · exact .inl mem

theorem register_queueOf {next : TargetRefreshState × Bool}
    (admits : Admits (s.targets reply.target) reply next) :
    (s.register reply next).queueOf w =
      if w.target = reply.target ∧ w.kind = reply.kind then s.queueOf w ++ [reply]
      else s.queueOf w :=
  register_queue admits

theorem capture_queues (i : ℕ) (phase : WorkerPhase) :
    (((s.setTarget t (s.targets t).capture.1).setPhase i t phase).targets t').queue kind =
      (s.targets t').queue kind := by
  unfold setPhase setTarget
  by_cases same : t' = t
  · subst same
    simp [capture_queue]
  · simp [same]

variable {round : Round} {result : Except Text Published} {outcome : RefreshOutcome} {i : ℕ}

theorem Settles.drains (settles : s.Settles t round result settled outcome)
    (wellFormed : round.captured.WellFormed) :
    ∃ amount : ℕ → ℕ → ℕ, (∀ n length, n ≤ length → n ≤ amount n length) ∧
      Drains amount (s.targets t) round.captured settled := by
  cases settles with
  | ok published =>
      exact ⟨fun _ length => length, fun _ _ fits => fits,
        settleTxOk_drains.settleCaptured wellFormed.nodup⟩
  | error error =>
      exact ⟨fun n _ => n, fun _ _ _ => le_rfl,
        settleTxError_drains.settleCaptured wellFormed.nodup⟩

theorem endRound_queue {amount : ℕ → ℕ → ℕ}
    (drains : Drains amount (s.targets t) round.captured settled) :
    ((s.endRound i t settled outcome).targets t').queue kind =
      if t' = t then
        ((s.targets t).queue kind).drop (taken amount (s.targets t) round.captured kind)
      else (s.targets t').queue kind := by
  unfold endRound answer setPhase setTarget
  by_cases same : t' = t
  · subst same
    rw [if_pos rfl, ← drains.queue]
    simp only [Function.update_self]
    cases kind <;> rfl
  · simp [same]

theorem mem_endRound {amount : ℕ → ℕ → ℕ}
    (drains : Drains amount (s.targets t) round.captured settled)
    (mem : w ∈ ((s.endRound i t settled outcome).targets t').queue kind) :
    w ∈ (s.targets t').queue kind := by
  rw [endRound_queue drains] at mem
  split at mem
  · next own =>
      rw [own]
      exact List.mem_of_mem_drop mem
  · exact mem

end queues

/-- A worker after a request is an old one, or the one that it starts. -/
theorem register_worker {reply : Waiter} {next : TargetRefreshState × Bool} {i : ℕ}
    {t : RefreshTarget} {phase : WorkerPhase}
    (found : (s.register reply next).workers[i]? = some ⟨t, phase⟩) :
    s.workers[i]? = some ⟨t, phase⟩ ∨
      (next.2 = true ∧ i = s.workers.length ∧ t = reply.target ∧ phase = .coalescing none) := by
  unfold register at found
  dsimp only at found
  split at found
  · next spawns =>
      obtain old | ⟨at_end, new⟩ := at_append_iff.mp found
      · exact .inl old
      · obtain ⟨rfl, rfl⟩ := RefreshWorker.mk.inj new
        exact .inr ⟨spawns, at_end, rfl, rfl⟩
  · exact .inl found

theorem answer_waiters (s : RefreshState) (waiters : List Waiter) (outcome : RefreshOutcome) :
    (s.answer waiters outcome).answers.map RefreshAnswer.waiter =
      s.answers.map RefreshAnswer.waiter ++ waiters := by
  simp [answer, Function.comp_def]

theorem endRound_waiters (s : RefreshState) (i : ℕ) (t : RefreshTarget)
    (settled : TargetRefreshState × List Waiter) (outcome : RefreshOutcome) :
    (s.endRound i t settled outcome).answers.map RefreshAnswer.waiter =
      s.answers.map RefreshAnswer.waiter ++ settled.2 :=
  answer_waiters _ _ _

end RefreshState

end Orgasmic
