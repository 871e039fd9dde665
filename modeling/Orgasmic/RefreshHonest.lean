import Orgasmic.RefreshSteps

/-! # Refresh acknowledgements

Over every run of the coordinator, who is answered, when, and after which scan: each of the
invariants is kept by every step. -/

namespace Orgasmic

open Text Interleaving TargetRefreshState

namespace RefreshState

variable {s s' : RefreshState}

/-! ### Requests are booked -/

theorem Booked.mem_registered (booked : Booked s) {t : RefreshTarget} {kind : WaiterKind}
    {w : Waiter} (mem : w ∈ (s.targets t).queue kind) : w ∈ s.registered := by
  have target := booked.target t kind w mem
  have typed := booked.typed t kind w mem
  have mem' : w ∈ s.queueOf w := by
    unfold queueOf
    rwa [target, typed]
  have counted := booked.counted w
  have queued := List.count_pos_iff.mpr mem'
  exact List.count_pos_iff.mp (by omega)

/-- The queues and the books of a step that leaves them alone. -/
theorem Booked.congr {u : RefreshState} (booked : Booked s) (closed : u.closed = s.closed)
    (registered : u.registered = s.registered)
    (queue : ∀ t kind, (u.targets t).queue kind = (s.targets t).queue kind)
    (filled : ∀ t, (u.targets t).Filled) (answers : u.answers = s.answers)
    (clock : u.clock = s.clock + 1) : Booked u where
  opened := closed.trans booked.opened
  past w mem := by
    rw [registered] at mem
    have := booked.past w mem
    omega
  nodup := by
    rw [registered]
    exact booked.nodup
  target t kind w mem := booked.target t kind w (by rwa [← queue])
  typed t kind w mem := booked.typed t kind w (by rwa [← queue])
  filled := filled
  counted w := by
    unfold queueOf
    rw [queue, answers, registered]
    exact booked.counted w
  joined t txId w mem := booked.joined t txId w (by rwa [← queue])

theorem Booked.append (booked : Booked s) {reply : Waiter} (since : reply.since = s.clock) :
    (∀ w ∈ s.registered ++ [reply], w.since < s.clock + 1) ∧ (s.registered ++ [reply]).Nodup := by
  have fresh : reply ∉ s.registered := fun mem => by
    have := booked.past reply mem
    omega
  refine ⟨fun w mem => ?_, List.nodup_append.mpr ⟨booked.nodup, List.nodup_singleton _,
    fun a ha b hb same => fresh (by rwa [← List.mem_singleton.mp hb, ← same])⟩⟩
  obtain mem | mem := List.mem_append.mp mem
  · exact Nat.lt_succ_of_lt (booked.past w mem)
  · rw [List.mem_singleton.mp mem, since]
    exact Nat.lt_succ_self _

theorem Booked.step (booked : Booked s) (timed : Timed s) (turns : Turns s s') : Booked s' := by
  cases turns with
  | @registers reply next since repeated admits =>
      obtain ⟨past, nodup⟩ := booked.append since
      refine ⟨booked.opened, past, nodup, fun t kind w mem => ?_, fun t kind w mem => ?_,
        fun t => ?_, fun w => ?_, fun t txId w mem => ?_⟩
      · obtain mem | ⟨rfl, rfl, -⟩ := mem_register admits mem
        · exact booked.target t kind w mem
        · rfl
      · obtain mem | ⟨rfl, -, rfl⟩ := mem_register admits mem
        · exact booked.typed t kind w mem
        · rfl
      · show (Function.update s.targets reply.target next.1 t).Filled
        by_cases same : t = reply.target
        · subst same
          rw [Function.update_self]
          exact admits.filled (booked.filled _)
        · rw [Function.update_of_ne same]
          exact booked.filled t
      · have counted := booked.counted w
        have queueOf := register_queueOf (w := w) admits
        show ((s.register reply next).queueOf w).count w + _ = (s.registered ++ [reply]).count w
        rw [queueOf, List.count_append]
        by_cases same : w = reply
        · subst same
          rw [if_pos ⟨rfl, rfl⟩, List.count_append]
          exact (Nat.add_right_comm _ _ _).trans (congrArg (· + _) counted)
        · have zero : [reply].count w = 0 := List.count_eq_zero_of_not_mem (by simpa using same)
          split
          · rw [List.count_append, zero]
            exact counted
          · rw [zero]
            exact counted
      · have mem : w ∈ (((s.register reply next).targets t).queue (.mutation txId)).tail := mem
        rw [register_queue admits] at mem
        split at mem
        · next own =>
            obtain ⟨rfl, kind⟩ := own
            cases waits : (s.targets reply.target).queue (.mutation txId) with
            | nil =>
                rw [waits] at mem
                cases mem
            | cons first others =>
                rw [waits] at mem
                obtain mem | mem := List.mem_append.mp mem
                · exact booked.joined _ txId w (by rwa [waits])
                · rw [List.mem_singleton.mp mem]
                  exact repeated txId kind.symm (by rw [waits]; exact List.cons_ne_nil _ _)
        · exact booked.joined t txId w mem
  | @recalls reply txId since kind repeated known =>
      obtain ⟨past, nodup⟩ := booked.append since
      refine ⟨booked.opened, past, nodup, booked.target, booked.typed, booked.filled,
        fun w => ?_, booked.joined⟩
      · have counted := booked.counted w
        have waiters := answer_waiters { s with registered := s.registered ++ [reply] } [reply]
          .completed
        calc (s.queueOf w).count w + (({ s with registered := s.registered ++ [reply] }.answer
              [reply] .completed).answers.map RefreshAnswer.waiter).count w
            = (s.queueOf w).count w + (s.answers.map RefreshAnswer.waiter).count w +
                [reply].count w := by rw [waiters, List.count_append, Nat.add_assoc]
          _ = (s.registered ++ [reply]).count w := by rw [counted, List.count_append]
  | moves next there alive alive' round sound quiet workers =>
      exact booked.congr quiet.closed quiet.registered (fun t kind => by rw [quiet.targets])
        (fun t => by rw [quiet.targets]; exact booked.filled t) quiet.answers quiet.clock
  | @captures i t there =>
      refine booked.congr rfl rfl (fun t' kind =>
        capture_queues i (.captured ⟨(s.targets t).capture.2, s.clock⟩)) (fun t' => ?_) rfl rfl
      show (Function.update s.targets t (s.targets t).capture.1 t').Filled
      by_cases same : t' = t
      · subst same
        rw [Function.update_self]
        exact booked.filled t'
      · rw [Function.update_of_ne same]
        exact booked.filled t'
  | @settles i t round result settled outcome there settles =>
      obtain ⟨amount, -, drains⟩ := settles.drains (timed.rounds there rfl).wellFormed
      have answered := drains.answered (booked.typed t)
      refine ⟨booked.opened, fun w mem => Nat.lt_succ_of_lt (booked.past w mem), booked.nodup,
        fun t' kind w mem => ?_, fun t' kind w mem => ?_, fun t' => ?_, fun w => ?_,
        fun t' txId w mem => ?_⟩
      · have mem : w ∈ ((s.endRound i t settled outcome).targets t').queue kind := mem
        exact booked.target t' kind w (mem_endRound drains mem)
      · have mem : w ∈ ((s.endRound i t settled outcome).targets t').queue kind := mem
        exact booked.typed t' kind w (mem_endRound drains mem)
      · show (Function.update s.targets t _ t').Filled
        by_cases same : t' = t
        · subst same
          rw [Function.update_self]
          exact drains.filled (booked.filled t')
        · rw [Function.update_of_ne same]
          exact booked.filled t'
      · have counted := booked.counted w
        have queued : ((s.endRound i t settled outcome).queueOf w).count w + settled.2.count w =
            (s.queueOf w).count w := by
          rw [answered]
          unfold queueOf
          rw [endRound_queue drains]
          split
          · next own => rw [own, ← List.count_append, List.perm_append_comm.count_eq,
              List.take_append_drop]
          · next other =>
              have absent : w ∉ (s.targets t).queue w.kind := fun mem =>
                other (booked.target t w.kind w mem)
              rw [List.count_eq_zero_of_not_mem fun mem => absent (List.mem_of_mem_take mem),
                Nat.add_zero]
        calc ((s.endRound i t settled outcome).queueOf w).count w +
              ((s.endRound i t settled outcome).answers.map RefreshAnswer.waiter).count w
            = (s.queueOf w).count w + (s.answers.map RefreshAnswer.waiter).count w := by
              rw [endRound_waiters, List.count_append, ← queued]
              omega
          _ = s.registered.count w := counted
      · have mem : w ∈ (((s.endRound i t settled outcome).targets t').queue
          (.mutation txId)).tail := mem
        rw [endRound_queue drains] at mem
        split at mem
        · next own =>
            rw [List.tail_drop, ← List.drop_tail] at mem
            subst own
            exact booked.joined t' txId w (List.mem_of_mem_drop mem)
        · exact booked.joined t' txId w mem
  | exits quiet workers =>
      exact booked.congr quiet.closed quiet.registered (fun t kind => by rw [quiet.targets])
        (fun t => by rw [quiet.targets]; exact booked.filled t) quiet.answers quiet.clock

/-! ### Whoever waits has a worker -/

section workers
variable {u : RefreshState} {i j : ℕ} {t t' : RefreshTarget} {phase next : WorkerPhase}

/-- A worker after the step of one of them. -/
theorem worker_set (there : s.workers[i]? = some ⟨t, phase⟩)
    (workers : u.workers = s.workers.set i ⟨t, next⟩) {phase' : WorkerPhase}
    (found : u.workers[j]? = some ⟨t', phase'⟩) :
    (j = i ∧ t' = t ∧ phase' = next) ∨ (j ≠ i ∧ s.workers[j]? = some ⟨t', phase'⟩) := by
  rw [workers] at found
  by_cases same : i = j
  · subst same
    rw [List.getElem?_set_self (List.getElem?_eq_some_iff.mp there).1] at found
    obtain ⟨rfl, rfl⟩ := RefreshWorker.mk.inj (Option.some.inj found)
    exact .inl ⟨rfl, rfl, rfl⟩
  · rw [List.getElem?_set_ne same] at found
    exact .inr ⟨Ne.symm same, found⟩

theorem live_set_iff (there : s.workers[i]? = some ⟨t, phase⟩)
    (workers : u.workers = s.workers.set i ⟨t, next⟩) :
    u.Live j t' ↔ (j = i ∧ t' = t ∧ next ≠ .stopped) ∨ (j ≠ i ∧ s.Live j t') := by
  constructor
  · rintro ⟨phase', found, alive⟩
    obtain ⟨rfl, rfl, rfl⟩ | ⟨other, found⟩ := worker_set there workers found
    · exact .inl ⟨rfl, rfl, alive⟩
    · exact .inr ⟨other, phase', found, alive⟩
  · rintro (⟨rfl, rfl, alive⟩ | ⟨other, phase', found, alive⟩)
    · refine ⟨next, ?_, alive⟩
      rw [workers, List.getElem?_set_self (List.getElem?_eq_some_iff.mp there).1]
    · refine ⟨phase', ?_, alive⟩
      rw [workers, List.getElem?_set_ne (Ne.symm other)]
      exact found

/-- One worker takes a step, and nothing changes for the other targets. -/
theorem Attended.set (attended : Attended s) (there : s.workers[i]? = some ⟨t, phase⟩)
    (alive : phase ≠ .stopped) (workers : u.workers = s.workers.set i ⟨t, next⟩)
    (others : ∀ t', t' ≠ t → u.targets t' = s.targets t')
    (goesOn : (u.targets t).running = true ↔ next ≠ .stopped)
    (served : ∀ kind, (u.targets t).queue kind ≠ [] → (u.targets t).running = true)
    (pending : next ≠ .stopped → next.watcherCount < (u.targets t).watcherWaiters.length →
      (u.targets t).watcherPending = true) : Attended u := by
  have alone : ∀ {j}, s.Live j t → j = i := fun h => attended.one h ⟨phase, there, alive⟩
  refine ⟨fun t' kind waits => ?_, fun t' running => ?_, fun {j t'} h => ?_, fun {j k t'} hj hk => ?_,
    fun {j t' phase'} found alive' more => ?_⟩
  · by_cases same : t' = t
    · subst same
      exact served kind waits
    · rw [others t' same] at waits ⊢
      exact attended.served t' kind waits
  · by_cases same : t' = t
    · subst same
      exact ⟨i, (live_set_iff there workers).mpr (.inl ⟨rfl, rfl, goesOn.mp running⟩)⟩
    · rw [others t' same] at running
      obtain ⟨j, hj⟩ := attended.worker t' running
      refine ⟨j, (live_set_iff there workers).mpr (.inr ⟨?_, hj⟩)⟩
      rintro rfl
      obtain ⟨phase', found, -⟩ := hj
      exact same (RefreshWorker.mk.inj (Option.some.inj (found.symm.trans there))).1
  · obtain ⟨rfl, rfl, alive'⟩ | ⟨other, hj⟩ := (live_set_iff there workers).mp h
    · exact goesOn.mpr alive'
    · have different : t' ≠ t := by
        rintro rfl
        exact other (alone hj)
      rw [others t' different]
      exact attended.running hj
  · have before : ∀ {j}, u.Live j t' → s.Live j t' := fun h => by
      obtain ⟨rfl, rfl, -⟩ | ⟨-, hj⟩ := (live_set_iff there workers).mp h
      · exact ⟨phase, there, alive⟩
      · exact hj
    exact attended.one (before hj) (before hk)
  · obtain ⟨rfl, rfl, rfl⟩ | ⟨other, found⟩ := worker_set there workers found
    · exact pending alive' more
    · have different : t' ≠ t := by
        rintro rfl
        exact other (alone ⟨phase', found, alive'⟩)
      rw [others t' different] at more ⊢
      exact attended.pending found alive' more

end workers

/-- The queues of a target that is not served are empty. -/
theorem Attended.queue_eq_nil (attended : Attended s) {t : RefreshTarget}
    (idle : (s.targets t).running = false) (kind : WaiterKind) : (s.targets t).queue kind = [] := by
  by_contra waits
  rw [attended.served t kind waits] at idle
  cases idle

/-- A request starts a worker where there is none. -/
theorem Attended.register (attended : Attended s) {reply : Waiter}
    {next : TargetRefreshState × Bool} (admits : Admits (s.targets reply.target) reply next) :
    Attended { s.register reply next with clock := s.clock + 1 } := by
  have target : (s.register reply next).targets reply.target = next.1 :=
    Function.update_self _ _ _
  have others : ∀ t, t ≠ reply.target → (s.register reply next).targets t = s.targets t :=
    fun t other => Function.update_of_ne other _ _
  have idle : next.2 = true → (s.targets reply.target).running = false := by
    rw [admits.spawns]
    exact fun h => by simpa using h
  have live : ∀ {i t}, (s.register reply next).Live i t → s.Live i t ∨
      (next.2 = true ∧ i = s.workers.length ∧ t = reply.target) := by
    rintro i t ⟨phase, found, alive⟩
    obtain old | ⟨spawns, at_end, same, -⟩ := register_worker found
    · exact .inl ⟨phase, old, alive⟩
    · exact .inr ⟨spawns, at_end, same⟩
  have stays : ∀ {i t}, s.Live i t → (s.register reply next).Live i t := by
    rintro i t ⟨phase, found, alive⟩
    refine ⟨phase, ?_, alive⟩
    unfold RefreshState.register
    dsimp only
    split
    · exact at_append found
    · exact found
  refine ⟨fun t kind waits => ?_, fun t running => ?_, fun {i t} h => ?_, fun {i j t} hi hj => ?_,
    fun {i t phase} found alive more => ?_⟩
  · show ((s.register reply next).targets t).running = true
    by_cases same : t = reply.target
    · rw [same, target]
      exact admits.running
    · have waits : ((s.register reply next).targets t).queue kind ≠ [] := waits
      rw [others t same] at waits ⊢
      exact attended.served t kind waits
  · have running : ((s.register reply next).targets t).running = true := running
    by_cases spawns : t = reply.target ∧ next.2 = true
    · obtain ⟨rfl, spawns⟩ := spawns
      refine ⟨s.workers.length, .coalescing none, ?_, by simp⟩
      unfold RefreshState.register
      dsimp only
      rw [if_pos spawns]
      exact at_now
    · have running : (s.targets t).running = true := by
        by_cases same : t = reply.target
        · subst same
          have quiet : next.2 = false := by simpa using fun h => spawns ⟨rfl, h⟩
          rw [admits.spawns] at quiet
          simpa using quiet
        · rwa [others t same] at running
      obtain ⟨i, h⟩ := attended.worker t running
      exact ⟨i, stays h⟩
  · show ((s.register reply next).targets t).running = true
    by_cases same : t = reply.target
    · rw [same, target]
      exact admits.running
    · rw [others t same]
      obtain h | ⟨-, -, h⟩ := live h
      · exact attended.running h
      · exact absurd h same
  · obtain hi | ⟨spawns, rfl, rfl⟩ := live hi
    · obtain hj | ⟨spawns, rfl, rfl⟩ := live hj
      · exact attended.one hi hj
      · exact absurd (attended.running hi) (by rw [idle spawns]; exact Bool.false_ne_true)
    · obtain hj | ⟨-, rfl, -⟩ := live hj
      · exact absurd (attended.running hj) (by rw [idle spawns]; exact Bool.false_ne_true)
      · rfl
  · show ((s.register reply next).targets t).watcherPending = true
    have more : phase.watcherCount < ((s.register reply next).targets t).watcherWaiters.length :=
      more
    by_cases same : t = reply.target
    · subst same
      rw [target] at more ⊢
      have watchers : next.1.watcherWaiters = _ := admits.queue .watcher
      rw [admits.pending]
      split at watchers
      · next kind => simp [← kind]
      · rw [watchers] at more
        obtain old | ⟨spawns, -, -, rfl⟩ := register_worker found
        · rw [attended.pending old alive more, Bool.true_or]
        · have empty : (s.targets reply.target).watcherWaiters = [] :=
            attended.queue_eq_nil (idle spawns) .watcher
          rw [queue_watcher, empty] at more
          exact absurd more (Nat.not_lt_zero _)
    · rw [others t same] at more ⊢
      obtain old | ⟨-, -, h, -⟩ := register_worker found
      · exact attended.pending old alive more
      · exact absurd h same

theorem Attended.step (attended : Attended s) (timed : Timed s)
    (turns : Turns s s') : Attended s' := by
  cases turns with
  | registers since repeated admits => exact attended.register admits
  | recalls since kind repeated known => exact ⟨attended.served, attended.worker, attended.running,
      attended.one, attended.pending⟩
  | @moves _ i t phase next there alive alive' round sound quiet workers =>
      refine attended.set there alive workers (fun t' _ => by rw [quiet.targets]) ?_ ?_ ?_
      · rw [quiet.targets]
        exact ⟨fun _ => alive', fun _ => attended.running ⟨phase, there, alive⟩⟩
      · rw [quiet.targets]
        exact attended.served t
      · intro _ more
        have count : next.watcherCount = phase.watcherCount := by
          unfold WorkerPhase.watcherCount
          rw [round]
        rw [quiet.targets, count] at more
        rw [quiet.targets]
        exact attended.pending there alive more
  | @captures i t there =>
      have running := attended.running ⟨.quiet, there, by simp⟩
      have target : ({ (s.setTarget t (s.targets t).capture.1).setPhase i t
          (.captured ⟨(s.targets t).capture.2, s.clock⟩) with clock := s.clock + 1 } :
            RefreshState).targets t = (s.targets t).capture.1 := Function.update_self _ _ _
      refine attended.set there (by simp) rfl (fun t' other => Function.update_of_ne other _ _)
        ?_ ?_ ?_
      · rw [target]
        exact ⟨fun _ => by simp, fun _ => running⟩
      · rw [target]
        exact fun _ _ => running
      · rw [target]
        exact fun _ more => absurd more (lt_irrefl _)
  | @settles i t round result settled outcome there settles =>
      obtain ⟨amount, -, drains⟩ := settles.drains (timed.rounds there rfl).wellFormed
      have target : (s.endRound i t settled outcome).targets t =
          { settled.1 with running := settled.1.hasWork } := Function.update_self _ _ _
      have pending : settled.1.watcherWaiters ≠ [] → settled.1.watcherPending = true := by
        intro waits
        rw [drains.pending waits]
        refine attended.pending there (by simp) ?_
        have left : settled.1.watcherWaiters =
            (s.targets t).watcherWaiters.drop round.captured.watcherCount := drains.queue .watcher
        rw [left, Ne, List.drop_eq_nil_iff, not_le] at waits
        exact waits
      refine attended.set there (by simp) rfl (fun t' other => Function.update_of_ne other _ _)
        ?_ ?_ ?_
      · show ((s.endRound i t settled outcome).targets t).running = true ↔ _
        rw [target]
        cases settled.1.hasWork <;> simp
      · show ∀ kind, ((s.endRound i t settled outcome).targets t).queue kind ≠ [] →
          ((s.endRound i t settled outcome).targets t).running = true
        rw [target]
        intro kind waits
        have waits : settled.1.queue kind ≠ [] := by cases kind <;> exact waits
        exact hasWork_of_queue waits pending
      · show _ → _ < ((s.endRound i t settled outcome).targets t).watcherWaiters.length →
          ((s.endRound i t settled outcome).targets t).watcherPending = true
        rw [target]
        exact fun _ more => pending (List.ne_nil_of_length_pos (Nat.zero_lt_of_lt more))
  | @exits u quiet workers =>
      have live : ∀ {i t}, s'.Live i t ↔ s.Live i t := by
        unfold Live
        rw [workers]
      refine ⟨?_, fun t running => ?_, fun h => ?_, fun hi hj => ?_, fun found alive => ?_⟩
      · rw [quiet.targets]
        exact attended.served
      · rw [quiet.targets] at running
        obtain ⟨i, h⟩ := attended.worker t running
        exact ⟨i, live.mpr h⟩
      · rw [quiet.targets]
        exact attended.running (live.mp h)
      · exact attended.one (live.mp hi) (live.mp hj)
      · rw [workers] at found
        rw [quiet.targets]
        exact attended.pending found alive

/-! ### Rounds in time -/

theorem RoundSound.mono {u : RefreshState} {t : RefreshTarget} {round : Round}
    (sound : RoundSound s t round) (clock : s.clock ≤ u.clock)
    (queue : ∀ kind, (u.targets t).queue kind = (s.targets t).queue kind)
    (settled : ∀ m, (t, m) ∈ u.settlements → (t, m) ∈ s.settlements) : RoundSound u t round where
  wellFormed := sound.wellFormed
  past := sound.past.trans_le clock
  split kind := by
    rw [queue]
    exact sound.split kind
  settled m mem := sound.settled m (settled m mem)

theorem round_ne_stopped {phase : WorkerPhase} {round : Round} (h : phase.round? = some round) :
    phase ≠ .stopped := by
  rintro rfl
  cases h

theorem Timed.step (booked : Booked s) (attended : Attended s) (timed : Timed s)
    (turns : Turns s s') : Timed s' := by
  have alone : ∀ {i j : ℕ} {t} {p q : WorkerPhase} {r : Round}, s.workers[i]? = some ⟨t, p⟩ → p ≠ .stopped →
      s.workers[j]? = some ⟨t, q⟩ → q.round? = some r → j = i := fun hi alive hj round =>
    attended.one ⟨_, hj, round_ne_stopped round⟩ ⟨_, hi, alive⟩
  cases turns with
  | @registers reply next since repeated admits =>
      refine ⟨fun {i t round phase} found has => ?_, fun e mem => Nat.lt_succ_of_lt
        (timed.settled e mem), fun t kind w mem => ?_⟩
      · obtain old | ⟨-, -, -, rfl⟩ := register_worker found
        swap
        · cases has
        have sound := timed.rounds old has
        refine ⟨sound.wellFormed, Nat.lt_succ_of_lt sound.past, fun kind => ?_, sound.settled⟩
        show Split _ _ (((s.register reply next).targets t).queue kind)
        rw [register_queue admits]
        split
        · exact (sound.split kind).append (by rw [since]; exact sound.past)
        · exact sound.split kind
      · obtain mem | ⟨rfl, -, -⟩ := mem_register admits mem
        · exact timed.twice t kind w mem
        · have none : s.settledSince w = 0 := List.countP_eq_zero.mpr fun e mem => by
            have := timed.settled e mem
            simp only [decide_eq_true_eq, not_and, not_lt]
            omega
          exact none.le.trans (Nat.zero_le 1)
  | recalls since kind repeated known =>
      exact ⟨fun found has => (timed.rounds found has).mono (Nat.le_succ _) (fun _ => rfl)
        fun _ h => h, fun e mem => Nat.lt_succ_of_lt (timed.settled e mem), timed.twice⟩
  | @moves _ i t phase next there alive alive' round sound quiet workers =>
      refine ⟨fun {j t' r p} found has => ?_, fun e mem => ?_, fun t' kind w mem => ?_⟩
      · have sound : RoundSound s t' r := by
          obtain ⟨rfl, rfl, rfl⟩ | ⟨-, found⟩ := worker_set there workers found
          · exact timed.rounds there (round ▸ has)
          · exact timed.rounds found has
        exact sound.mono (by rw [quiet.clock]; exact Nat.le_succ _)
          (fun kind => by rw [quiet.targets]) (fun m mem => by rwa [← quiet.settlements])
      · rw [quiet.settlements] at mem
        rw [quiet.clock]
        exact Nat.lt_succ_of_lt (timed.settled e mem)
      · unfold settledSince
        rw [quiet.settlements]
        exact timed.twice t' kind w (by rwa [← quiet.targets])
  | @captures i t there =>
      have queue : ∀ t' kind, (((s.setTarget t (s.targets t).capture.1).setPhase i t
          (.captured ⟨(s.targets t).capture.2, s.clock⟩)).targets t').queue kind =
            (s.targets t').queue kind := fun t' kind => capture_queues i _
      refine ⟨fun {j t' r p} found has => ?_, fun e mem => Nat.lt_succ_of_lt
        (timed.settled e mem), fun t' kind w mem => ?_⟩
      · obtain ⟨rfl, rfl, rfl⟩ | ⟨-, found⟩ := worker_set there rfl found
        · obtain rfl := Option.some.inj has
          refine ⟨capture_wellFormed (booked.filled t'), Nat.lt_succ_self _, fun kind => ?_,
            fun m mem => timed.settled _ mem⟩
          show Split s.clock _ (TargetRefreshState.queue _ kind)
          rw [queue, capture_count]
          refine ⟨le_rfl, fun w mem => ?_, fun w mem => ?_⟩
          · rw [List.take_length] at mem
            exact booked.past w (booked.mem_registered mem)
          · rw [List.drop_length] at mem
            cases mem
        · exact (timed.rounds found has).mono (Nat.le_succ _) (queue t') fun _ h => h
      · have mem : w ∈ (((s.setTarget t (s.targets t).capture.1).setPhase i t
          (.captured ⟨(s.targets t).capture.2, s.clock⟩)).targets t').queue kind := mem
        rw [queue] at mem
        exact timed.twice t' kind w mem
  | @settles i t round result settled outcome there settles =>
      have sound := timed.rounds there rfl
      obtain ⟨amount, enough, drains⟩ := settles.drains sound.wellFormed
      refine ⟨fun {j t' r p} found has => ?_, fun e mem => ?_, fun t' kind w mem => ?_⟩
      · obtain ⟨rfl, rfl, rfl⟩ | ⟨other, before⟩ := worker_set there rfl found
        · split at has <;> cases has
        · have different : t' ≠ t := by
            rintro rfl
            exact other (alone there (by simp) before has)
          refine (timed.rounds before has).mono (Nat.le_succ _) (fun kind => ?_) fun m mem => ?_
          · show ((s.endRound i t settled outcome).targets t').queue kind = _
            rw [endRound_queue drains, if_neg different]
          · obtain mem | mem := List.mem_append.mp mem
            · exact mem
            · exact absurd (Prod.mk.inj (List.mem_singleton.mp mem)).1 different
      · obtain mem | mem := List.mem_append.mp mem
        · exact Nat.lt_succ_of_lt (timed.settled e mem)
        · rw [List.mem_singleton.mp mem]
          exact Nat.lt_succ_self _
      · have mem : w ∈ ((s.endRound i t settled outcome).targets t').queue kind := mem
        have count : (s.endRound i t settled outcome).settledSince w = s.settledSince w +
            [(t, s.clock)].countP fun e => e.1 = w.target ∧ w.since < e.2 := List.countP_append
        show (s.endRound i t settled outcome).settledSince w ≤ 1
        rw [count]
        have target := booked.target t' kind w (mem_endRound drains mem)
        rw [endRound_queue drains] at mem
        split at mem
        · next own =>
            -- whoever is left came after the capture, and the settlements so far were before it
            have later := (sound.split kind).after_of_drop
              (count_le_taken enough (sound.split kind).fits) mem
            have none : s.settledSince w = 0 := List.countP_eq_zero.mpr fun e there => by
              rw [decide_eq_true_eq]
              rintro ⟨same, after⟩
              have := sound.settled e.2 (by rw [← own, ← target, ← same]; exact there)
              omega
            rw [none, Nat.zero_add]
            exact List.countP_le_length
        · next other =>
            rw [List.countP_singleton, if_neg (by simp [target, Ne.symm other])]
            exact timed.twice t' kind w mem
  | @exits u quiet workers =>
      refine ⟨fun {j t' r p} found has => ?_, fun e mem => ?_, fun t' kind w mem => ?_⟩
      · rw [workers] at found
        exact (timed.rounds found has).mono (by rw [quiet.clock]; exact Nat.le_succ _)
          (fun kind => by rw [quiet.targets]) (fun m mem => by rwa [← quiet.settlements])
      · rw [quiet.settlements] at mem
        rw [quiet.clock]
        exact Nat.lt_succ_of_lt (timed.settled e mem)
      · unfold settledSince
        rw [quiet.settlements]
        exact timed.twice t' kind w (by rwa [← quiet.targets])

/-! ### The answers tell the truth -/

theorem Preceded.mono {u : RefreshState} {w : Waiter} {published : Published}
    (registered : s.registered ⊆ u.registered) (h : s.Preceded w published) :
    u.Preceded w published := by
  obtain ⟨first, mem, rest⟩ := h
  exact ⟨first, registered mem, rest⟩

theorem Honest.mono {u : RefreshState} {a : RefreshAnswer}
    (registered : s.registered ⊆ u.registered) (publications : s.publications ⊆ u.publications)
    (h : s.Honest a) : u.Honest a := by
  obtain ⟨w, outcome⟩ := a
  cases outcome with
  | published published =>
      obtain ⟨mem, target, kind⟩ := h
      refine ⟨publications mem, target, ?_⟩
      dsimp only at kind ⊢
      split at kind
      · trivial
      · exact ⟨kind.1.mono registered, kind.2⟩
      · exact kind
      · exact kind
  | completed =>
      obtain ⟨kind, repeated, published, mem, target, preceded⟩ := h
      exact ⟨kind, repeated, published, publications mem, target, preceded.mono registered⟩
  | failed round error => exact h
  | refused => exact h

theorem sound_mono {t : RefreshTarget} {phase : WorkerPhase}
    {publications publications' : List Published} (more : publications ⊆ publications') (h : phase.Sound publications t) :
    phase.Sound publications' t := by
  unfold WorkerPhase.Sound at h ⊢
  split at h
  · exact h
  · exact h
  · exact ⟨more h.1, h.2⟩
  · trivial

section settlement
variable {t : RefreshTarget} {round : Round} {w : Waiter}

/-- Whoever is answered waited for the target. -/
theorem mem_of_answered (booked : Booked s) {amount : ℕ → ℕ → ℕ}
    {settled : TargetRefreshState × List Waiter}
    (drains : Drains amount (s.targets t) round.captured settled) (mem : w ∈ settled.2) :
    w ∈ ((s.targets t).queue w.kind).take (taken amount (s.targets t) round.captured w.kind) := by
  have answered := drains.answered (booked.typed t) w
  have positive := List.count_pos_iff.mpr mem
  exact List.count_pos_iff.mp (by omega)

theorem honest_published (booked : Booked s) (sound : RoundSound s t round)
    {published : Published} (there : published ∈ s.publications) (target : published.target = t)
    (after : round.moment < published.begun)
    (mem : w ∈ ((s.targets t).settleCapturedOk round.captured).2) :
    s.Honest ⟨w, .published published⟩ := by
  have drains : Drains _ (s.targets t) round.captured _ :=
    settleTxOk_drains.settleCaptured sound.wellFormed.nodup
  have answered := mem_of_answered booked drains mem
  have queued := List.mem_of_mem_take answered
  refine ⟨there, target.trans (booked.target t _ w queued).symm, ?_⟩
  have split := sound.split w.kind
  obtain few | load | ⟨txId, n, kind, count, positive, -⟩ :=
    taken_le_count (fun _ length => length) (s.targets t) w.kind sound.wellFormed
  · have before := (split.before_of_take few answered).trans after
    dsimp only
    split
    · trivial
    · exact ⟨⟨w, booked.mem_registered queued, rfl, rfl, le_rfl, before⟩, fun _ => before⟩
    · exact before
    · exact before
  · simp only [load]
  · obtain ⟨first, mem', le, lt⟩ := split.preceded (by omega) queued
    have same := (booked.target t _ first mem').trans (booked.target t _ w queued).symm
    simp only [kind]
    refine ⟨⟨first, booked.mem_registered mem', same, (booked.typed t _ first mem').trans rfl, le,
      lt.trans after⟩, fun fresh => ?_⟩
    obtain early | late := Split.take_or_drop (round.captured.count w.kind) queued
    · exact (split.before w early).trans after
    · -- behind the first of a transaction wait only repeated requests
      obtain ⟨k, hk⟩ := Nat.exists_eq_add_of_lt positive
      rw [count, hk, kind, Nat.zero_add, ← List.drop_tail] at late
      have repeated := booked.joined t txId w (List.mem_of_mem_drop late)
      rw [fresh] at repeated
      cases repeated

theorem honest_failed (booked : Booked s) (sound : RoundSound s t round) {error : Text}
    (mem : w ∈ ((s.targets t).settleCapturedError round.captured).2) :
    s.Honest ⟨w, .failed round error⟩ := by
  have drains : Drains _ (s.targets t) round.captured _ :=
    settleTxError_drains.settleCaptured sound.wellFormed.nodup
  have answered := mem_of_answered booked drains mem
  have split := sound.split w.kind
  obtain few | load | ⟨txId, n, kind, count, positive, amount⟩ :=
    taken_le_count (fun n _ => n) (s.targets t) w.kind sound.wellFormed
  · exact .inr (split.before_of_take few answered)
  · exact .inl load
  · exact .inr (split.before_of_take (amount.trans count.symm).le answered)

end settlement

theorem Acknowledged.step (booked : Booked s) (timed : Timed s) (acknowledged : Acknowledged s)
    (turns : Turns s s') : Acknowledged s' := by
  cases turns with
  | @registers reply next since repeated admits =>
      have more : s.registered ⊆ s.registered ++ [reply] := List.subset_append_left _ _
      refine ⟨fun {i t phase} found => ?_, fun t txId known => ?_, fun a mem =>
        (acknowledged.honest a mem).mono more fun _ h => h⟩
      · obtain old | ⟨-, -, -, rfl⟩ := register_worker found
        · exact acknowledged.phases old
        · trivial
      · have known : txId ∈ (s.targets t).completedTxIds := by
          have known : txId ∈ ((s.register reply next).targets t).completedTxIds := known
          unfold register setTarget at known
          by_cases same : t = reply.target
          · subst same
            simpa [admits.completed] using known
          · simpa [same] using known
        obtain ⟨published, mem, target, first, there, rest⟩ := acknowledged.known t txId known
        exact ⟨published, mem, target, first, more there, rest⟩
  | @recalls reply txId since kind repeated known =>
      have more : s.registered ⊆ s.registered ++ [reply] := List.subset_append_left _ _
      refine ⟨acknowledged.phases, fun t txId known => ?_, fun a mem => ?_⟩
      · obtain ⟨published, mem, target, first, there, rest⟩ := acknowledged.known t txId known
        exact ⟨published, mem, target, first, more there, rest⟩
      · obtain mem | mem := List.mem_append.mp mem
        · exact (acknowledged.honest a mem).mono more fun _ h => h
        · obtain rfl := List.mem_singleton.mp mem
          obtain ⟨published, mem, target, first, there, same, kind', before⟩ :=
            acknowledged.known reply.target txId known
          have past := booked.past first there
          exact ⟨⟨txId, kind⟩, repeated, published, mem, target, first, more there, same,
            kind'.trans kind.symm, by rw [since]; exact past.le, before⟩
  | @moves _ i t phase next there alive alive' round sound quiet workers =>
      have registered : s.registered ⊆ s'.registered := by rw [quiet.registered]; exact fun _ h => h
      refine ⟨fun {j t' p} found => ?_, fun t' txId known => ?_, fun a mem => ?_⟩
      · obtain ⟨rfl, rfl, rfl⟩ | ⟨-, found⟩ := worker_set there workers found
        · exact sound (acknowledged.phases there) fun r has => (timed.rounds there has).past
        · exact sound_mono quiet.publications (acknowledged.phases found)
      · rw [quiet.targets] at known
        obtain ⟨published, mem, target, first, there, rest⟩ := acknowledged.known t' txId known
        exact ⟨published, quiet.publications mem, target, first, registered there, rest⟩
      · rw [quiet.answers] at mem
        exact (acknowledged.honest a mem).mono registered quiet.publications
  | @captures i t there =>
      refine ⟨fun {j t' p} found => ?_, fun t' txId known => ?_, acknowledged.honest⟩
      · obtain ⟨rfl, rfl, rfl⟩ | ⟨-, found⟩ := worker_set there rfl found
        · trivial
        · exact acknowledged.phases found
      · refine acknowledged.known t' txId ?_
        have known : txId ∈ (Function.update s.targets t (s.targets t).capture.1 t').completedTxIds :=
          known
        by_cases same : t' = t
        · subst same
          simpa [capture] using known
        · simpa [same] using known
  | @settles i t round result settled outcome there settles =>
      have sound := timed.rounds there rfl
      have phase := acknowledged.phases there
      refine ⟨fun {j t' p} found => ?_, fun t' txId known => ?_, fun a mem => ?_⟩
      · obtain ⟨rfl, rfl, rfl⟩ | ⟨-, found⟩ := worker_set there rfl found
        · dsimp only
          split <;> trivial
        · exact acknowledged.phases found
      · have now : txId ∈ (Function.update s.targets t
            { settled.1 with running := settled.1.hasWork } t').completedTxIds := known
        by_cases same : t' = t
        · subst same
          rw [Function.update_self] at now
          cases settles with
          | ok published =>
              obtain ⟨mem, target, after⟩ := phase
              obtain old | captured := settleCapturedOk_completed now
              · exact acknowledged.known t' txId old
              · obtain ⟨first, queued, before⟩ :=
                  (sound.split (.mutation txId)).head (sound.wellFormed.count_pos captured)
                exact ⟨published, mem, target, first, booked.mem_registered queued,
                  booked.target t' _ _ queued, booked.typed t' _ _ queued, before.trans after⟩
          | error error =>
              refine acknowledged.known t' txId ?_
              rwa [← settleCapturedError_completed (s.targets t') round.captured]
        · rw [Function.update_of_ne same] at now
          exact acknowledged.known t' txId now
      · obtain old | new := List.mem_append.mp mem
        · exact acknowledged.honest a old
        · obtain ⟨w, answered, rfl⟩ := List.mem_map.mp new
          cases settles with
          | ok published => exact honest_published booked sound phase.1 phase.2.1 phase.2.2 answered
          | error error => exact honest_failed booked sound answered
  | @exits u quiet workers =>
      have registered : s.registered ⊆ s'.registered := by rw [quiet.registered]; exact fun _ h => h
      refine ⟨fun found => ?_, fun t txId known => ?_, fun a mem => ?_⟩
      · rw [workers] at found
        exact sound_mono quiet.publications (acknowledged.phases found)
      · rw [quiet.targets] at known
        obtain ⟨published, mem, target, first, there, rest⟩ := acknowledged.known t txId known
        exact ⟨published, quiet.publications mem, target, first, registered there, rest⟩
      · rw [quiet.answers] at mem
        exact (acknowledged.honest a mem).mono registered quiet.publications

/-! ### Every run -/

/-- What holds of every reachable state. -/
structure Coordinated (s : RefreshState) : Prop where
  booked : Booked s
  attended : Attended s
  timed : Timed s
  acknowledged : Acknowledged s

theorem start_queue (t : RefreshTarget) (kind : WaiterKind) :
    (start.targets t).queue kind = [] := by
  cases kind <;> rfl

theorem start_workers {i : ℕ} {worker : RefreshWorker} : start.workers[i]? ≠ some worker := by
  simp [start]

theorem start_coordinated : Coordinated start where
  booked := by
    refine ⟨rfl, fun _ h => ?_, List.nodup_nil, fun t kind w h => ?_, fun t kind w h => ?_,
      fun t txId h => ?_, fun w => ?_, fun t txId w h => ?_⟩
    · cases h
    · rw [start_queue] at h
      cases h
    · rw [start_queue] at h
      cases h
    · cases h
    · unfold queueOf
      rw [start_queue]
      rfl
    · rw [start_queue] at h
      cases h
  attended := by
    refine ⟨fun t kind waits => absurd (start_queue t kind) waits, fun _ h => ?_, fun h => ?_,
      fun h => ?_, fun h => absurd h start_workers⟩
    · cases h
    · obtain ⟨_, h, _⟩ := h
      exact absurd h start_workers
    · obtain ⟨_, h, _⟩ := h
      exact absurd h start_workers
  timed := by
    refine ⟨fun h => absurd h start_workers, fun _ h => ?_, fun t kind w h => ?_⟩
    · cases h
    · rw [start_queue] at h
      cases h
  acknowledged := by
    refine ⟨fun h => absurd h start_workers, fun _ _ h => ?_, fun _ h => ?_⟩
    · cases h
    · cases h

theorem coordinated (reached : Reaches RefreshState.step (fun _ _ => True) start s) :
    Coordinated s :=
  reached.invariant (fun _ next inv => by
    have turns := turns inv.booked inv.attended next
    exact ⟨inv.booked.step inv.timed turns, inv.attended.step inv.timed turns,
      inv.timed.step inv.booked inv.attended turns,
      inv.acknowledged.step inv.booked inv.timed turns⟩) start_coordinated

/-- **Refresh acknowledgements are honest and never lost.**  In every reachable state each target
has at most one worker; each request waits in the queue of its kind, with a worker and with at most
one settlement since it came, or it was answered, once; and each answer tells the truth. -/
theorem acknowledgements_honest
    (reached : Reaches RefreshState.step (fun _ _ => True) start s) :
    (∀ i j t, s.Live i t → s.Live j t → i = j) ∧
      (∀ w ∈ s.registered,
        ((s.queueOf w).count w = 1 ∧ (s.answers.map RefreshAnswer.waiter).count w = 0 ∧
            (∃ i, s.Live i w.target) ∧ s.settledSince w ≤ 1) ∨
          ((s.queueOf w).count w = 0 ∧ (s.answers.map RefreshAnswer.waiter).count w = 1)) ∧
      ∀ a ∈ s.answers, a.waiter ∈ s.registered ∧ s.Honest a := by
  have inv := coordinated reached
  refine ⟨fun i j t hi hj => inv.attended.one hi hj, fun w mem => ?_, fun a mem =>
    ⟨?_, inv.acknowledged.honest a mem⟩⟩
  · have counted := inv.booked.counted w
    rw [List.count_eq_one_of_mem inv.booked.nodup mem] at counted
    by_cases waits : w ∈ s.queueOf w
    · have queued := List.count_pos_iff.mpr waits
      have running := inv.attended.served w.target w.kind (List.ne_nil_of_mem waits)
      exact .inl ⟨by omega, by omega, inv.attended.worker w.target running,
        inv.timed.twice w.target w.kind w waits⟩
    · have queued := List.count_eq_zero_of_not_mem waits
      exact .inr ⟨queued, by omega⟩
  · have counted := inv.booked.counted a.waiter
    have answered := List.count_pos_iff.mpr (List.mem_map_of_mem (f := RefreshAnswer.waiter) mem)
    exact List.count_pos_iff.mp (by omega)

namespace Busy

/-- The home ledger. -/
def target : RefreshTarget := .homeTx

def txId : Text := "tx-1".toList

/-- A watcher comes during the scan of a transaction, whose request is repeated before and after
its answer; the second scan fails. -/
def actions : List RefreshAction :=
  [.required target (some txId), .observe 0 true, .capture 0, .acquire 0, .begin 0, .watch target,
    .required target (some txId), .scan 0 .built, .publish 0 none, .settle 0,
    .required target (some txId), .exit target 1, .observe 0 false, .compare 0 false, .capture 0,
    .acquire 0, .begin 0, .scan 0 (.timedOut "late".toList), .publish 0 none, .settle 0]

end Busy

open Busy in
/-- `acknowledgements_honest` for four requests of the home ledger. -/
theorem acknowledgements_honest_sample : ∃ s : RefreshState,
    s.answers.map (fun a => (a.waiter.since, a.outcome)) =
      [(0, .published ⟨target, 4⟩), (6, .published ⟨target, 4⟩), (10, .completed),
        (5, .failed ⟨⟨1, 0, [], 0, 1⟩, 14⟩ "late".toList)] ∧
      (∀ i j t, s.Live i t → s.Live j t → i = j) ∧
        (∀ w ∈ s.registered,
          ((s.queueOf w).count w = 1 ∧ (s.answers.map RefreshAnswer.waiter).count w = 0 ∧
              (∃ i, s.Live i w.target) ∧ s.settledSince w ≤ 1) ∨
            ((s.queueOf w).count w = 0 ∧ (s.answers.map RefreshAnswer.waiter).count w = 1)) ∧
        ∀ a ∈ s.answers, a.waiter ∈ s.registered ∧ s.Honest a := by
  have result : (run RefreshState.step start actions).map
      (fun s => s.answers.map fun a => (a.waiter.since, a.outcome)) =
        some [(0, .published ⟨target, 4⟩), (6, .published ⟨target, 4⟩), (10, .completed),
          (5, .failed ⟨⟨1, 0, [], 0, 1⟩, 14⟩ "late".toList)] := by
    decide +kernel
  obtain ⟨s, run, answers⟩ := Option.map_eq_some_iff.mp result
  exact ⟨s, answers, acknowledgements_honest (reaches_of_run (fun _ _ _ => trivial) run)⟩

end RefreshState

end Orgasmic
