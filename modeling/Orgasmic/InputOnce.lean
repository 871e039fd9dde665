import Orgasmic.ConversationInput

/-! # How often a message arrives

The answer to a request is remembered after its send. Two requests under one id that both look
before either is remembered both send; a request that fails after its send is not remembered; a
request that finds an answer is not asked what it says. Where none of this happens, a message
arrives at most once under its id, and every success is for the message of its own request. -/

namespace Orgasmic

open Text

namespace InputState

/-- The request has looked at the replays. -/
def past : InputPhase → Bool
  | .received => false
  | _ => true

/-- The request's message has been accepted. -/
def delivered : InputPhase → Bool
  | .resumed _ | .sent _ => true
  | _ => false

theorem past_of_delivered {phase : InputPhase} (h : delivered phase) : past phase := by
  cases phase <;> simp_all [delivered, past]

/-- A request looks while no other under its id is on its way, its answer has not been evicted, and
what was sent under its id is its own message. A request whose message was accepted does not fail,
and a send that is not accepted has not reached the agent. -/
def Undisturbed (s : InputState) : InputAction → Prop
  | .look i => ∀ call, s.calls i = some call →
      (∀ j other, s.calls j = some other → past other.phase → other.req.key ≠ call.req.key) ∧
      call.req.key ∉ s.evicted ∧
      ∀ d ∈ s.deliveries, d.key = call.req.key →
        d.message = trim call.req.message ∧ d.context = call.req.context
  | .fail i => ∀ call, s.calls i = some call → delivered call.phase = false
  | .sendLive _ outcome | .sendResumed _ outcome | .sendCold _ outcome => outcome ≠ .failed true
  | _ => True

structure OnceInv (s : InputState) : Prop where
  once : (s.deliveries.map InputDelivery.key).Nodup
  remembered : ∀ d ∈ s.deliveries, (∃ r ∈ s.replays, r.1 = d.key) ∨ d.key ∈ s.evicted ∨
    ∃ i call, s.calls i = some call ∧ call.req.key = d.key ∧ delivered call.phase
  replays : ∀ r ∈ s.replays, ∃ d ∈ s.deliveries, d.key = r.1
  alone : ∀ i j call other, s.calls i = some call → s.calls j = some other → past call.phase →
    past other.phase → call.req.key = other.req.key → i = j
  unsent : ∀ i call, s.calls i = some call → past call.phase → delivered call.phase = false →
    ∀ d ∈ s.deliveries, d.key ≠ call.req.key
  sent : ∀ i call, s.calls i = some call → delivered call.phase → ∃ d ∈ s.deliveries,
    d.key = call.req.key ∧ d.message = trim call.req.message ∧ d.context = call.req.context
  successes : ∀ a ∈ s.successes, ∃ d ∈ s.deliveries,
    d.key = a.req.key ∧ d.message = trim a.req.message ∧ d.context = a.req.context

/-! ### Changes of one request -/

section steps

variable {s t : InputState} {i : ℕ} {call : InputCall}

theorem update_cases {f : ℕ → Option InputCall} {v : Option InputCall} {j : ℕ} {c : InputCall}
    (h : Function.update f i v j = some c) : (j = i ∧ v = some c) ∨ (j ≠ i ∧ f j = some c) := by
  by_cases same : j = i
  · subst same
    rw [Function.update_self] at h
    exact .inl ⟨rfl, h⟩
  · rw [Function.update_of_ne same] at h
    exact .inr ⟨same, h⟩

/-- Parts of the state that no invariant is about. -/
theorem OnceInv.of_rest (inv : OnceInv s) (launches : List Text) (runs : List ConversationRun) :
    OnceInv { s with launches := launches, runs := runs } :=
  ⟨inv.once, inv.remembered, inv.replays, inv.alone, inv.unsent, inv.sent, inv.successes⟩

/-- A request goes on without a send. -/
theorem OnceInv.goOn (inv : OnceInv s) (hc : s.calls i = some call) {p : InputPhase}
    (was : past call.phase) (same : delivered p = delivered call.phase) :
    OnceInv (s.goOn i call p) where
  once := inv.once
  remembered d hd := by
    rcases inv.remembered d hd with replay | evicted | ⟨j, other, hj, key, sent⟩
    · exact .inl replay
    · exact .inr (.inl evicted)
    · by_cases mine : j = i
      · subst mine
        obtain rfl := Option.some.inj (hc.symm.trans hj)
        refine .inr (.inr ⟨j, _, Function.update_self .., key, ?_⟩)
        exact same.trans sent
      · exact .inr (.inr ⟨j, other, (Function.update_of_ne mine ..).trans hj, key, sent⟩)
  replays := inv.replays
  alone j k a b ha hb pa pb key := by
    rcases update_cases ha with ⟨rfl, ea⟩ | ⟨-, ja⟩ <;> rcases update_cases hb with ⟨rfl, eb⟩ | ⟨-, kb⟩
    · rfl
    · obtain rfl := Option.some.inj ea
      exact inv.alone _ _ call b hc kb was pb key
    · obtain rfl := Option.some.inj eb
      exact inv.alone _ _ a call ja hc pa was key
    · exact inv.alone _ _ a b ja kb pa pb key
  unsent j a ha pa da := by
    rcases update_cases ha with ⟨rfl, ea⟩ | ⟨-, ha⟩
    · obtain rfl := Option.some.inj ea
      exact inv.unsent _ call hc was (same.symm.trans da)
    · exact inv.unsent _ _ ha pa da
  sent j a ha da := by
    rcases update_cases ha with ⟨rfl, ea⟩ | ⟨-, ha⟩
    · obtain rfl := Option.some.inj ea
      exact inv.sent _ call hc (same.symm.trans da)
    · exact inv.sent _ _ ha da
  successes := inv.successes

/-- A request that has sent nothing ends. -/
theorem OnceInv.finish (inv : OnceInv s) (hc : s.calls i = some call)
    (unsent : delivered call.phase = false) : OnceInv (s.finish i call) where
  once := inv.once
  remembered d hd := by
    rcases inv.remembered d hd with replay | evicted | ⟨j, other, hj, key, sent⟩
    · exact .inl replay
    · exact .inr (.inl evicted)
    · have apart : j ≠ i := by
        rintro rfl
        obtain rfl := Option.some.inj (hc.symm.trans hj)
        rw [unsent] at sent
        contradiction
      exact .inr (.inr ⟨j, other, (Function.update_of_ne apart ..).trans hj, key, sent⟩)
  replays := inv.replays
  alone j k a b ha hb pa pb key := by
    rcases update_cases ha with ⟨-, ea⟩ | ⟨-, ha⟩
    · contradiction
    · rcases update_cases hb with ⟨-, eb⟩ | ⟨-, hb⟩
      · contradiction
      · exact inv.alone _ _ _ _ ha hb pa pb key
  unsent j a ha pa da := by
    rcases update_cases ha with ⟨-, ea⟩ | ⟨-, ha⟩
    · contradiction
    · exact inv.unsent _ _ ha pa da
  sent j a ha da := by
    rcases update_cases ha with ⟨-, ea⟩ | ⟨-, ha⟩
    · contradiction
    · exact inv.sent _ _ ha da
  successes := inv.successes

/-- An accepted send. -/
theorem OnceInv.send (inv : OnceInv s) (hc : s.calls i = some call) {phase : InputPhase}
    {runId : Text} (was : past call.phase) (unsent : delivered call.phase = false)
    (is : delivered phase) : OnceInv ((s.deliver call.req runId).goOn i call phase) where
  once := by
    refine List.nodup_cons.mpr ⟨fun mem => ?_, inv.once⟩
    obtain ⟨d, hd, key⟩ := List.mem_map.mp mem
    exact inv.unsent i call hc was unsent d hd key
  remembered d hd := by
    rcases List.mem_cons.mp hd with rfl | hd
    · exact .inr (.inr ⟨i, _, Function.update_self .., rfl, is⟩)
    · rcases inv.remembered d hd with replay | evicted | ⟨j, other, hj, key, sent⟩
      · exact .inl replay
      · exact .inr (.inl evicted)
      · have apart : j ≠ i := by
          rintro rfl
          obtain rfl := Option.some.inj (hc.symm.trans hj)
          rw [unsent] at sent
          contradiction
        exact .inr (.inr ⟨j, other, (Function.update_of_ne apart ..).trans hj, key, sent⟩)
  replays r hr := by
    obtain ⟨d, hd, key⟩ := inv.replays r hr
    exact ⟨d, List.mem_cons_of_mem _ hd, key⟩
  alone j k a b ha hb pa pb key := by
    rcases update_cases ha with ⟨rfl, ea⟩ | ⟨-, ja⟩ <;> rcases update_cases hb with ⟨rfl, eb⟩ | ⟨-, kb⟩
    · rfl
    · obtain rfl := Option.some.inj ea
      exact inv.alone _ _ call b hc kb was pb key
    · obtain rfl := Option.some.inj eb
      exact inv.alone _ _ a call ja hc pa was key
    · exact inv.alone _ _ a b ja kb pa pb key
  unsent j a ha pa da d hd := by
    rcases update_cases ha with ⟨rfl, ea⟩ | ⟨apart, ha⟩
    · obtain rfl := Option.some.inj ea
      rw [is] at da
      contradiction
    · rcases List.mem_cons.mp hd with rfl | hd
      · exact fun key => apart (inv.alone _ _ _ _ ha hc pa was key.symm)
      · exact inv.unsent _ _ ha pa da d hd
  sent j a ha da := by
    rcases update_cases ha with ⟨rfl, ea⟩ | ⟨-, ha⟩
    · obtain rfl := Option.some.inj ea
      exact ⟨_, List.mem_cons_self, rfl, rfl, rfl⟩
    · obtain ⟨d, hd, own⟩ := inv.sent _ _ ha da
      exact ⟨d, List.mem_cons_of_mem _ hd, own⟩
  successes a ha := by
    obtain ⟨d, hd, own⟩ := inv.successes a ha
    exact ⟨d, List.mem_cons_of_mem _ hd, own⟩

/-- A request takes its place behind the look at the replays. -/
theorem OnceInv.passes (inv : OnceInv s) (hc : s.calls i = some call)
    (received : call.phase = .received)
    (noOther : ∀ j other, s.calls j = some other → past other.phase → other.req.key ≠ call.req.key)
    (kept : call.req.key ∉ s.evicted) (missing : s.replayedInput call.req.key = none) :
    OnceInv (s.goOn i call .checked) := by
  have unsent : ∀ d ∈ s.deliveries, d.key ≠ call.req.key := by
    intro d hd key
    rcases inv.remembered d hd with ⟨r, hr, same⟩ | evicted | ⟨j, other, hj, same, sent⟩
    · simp only [replayedInput, Option.map_eq_none_iff, List.find?_eq_none, decide_eq_true_eq]
        at missing
      exact missing r hr (same.trans key)
    · exact kept (key ▸ evicted)
    · exact noOther j other hj (past_of_delivered sent) (same.trans key)
  refine ⟨inv.once, ?_, inv.replays, ?_, ?_, ?_, inv.successes⟩
  · intro d hd
    rcases inv.remembered d hd with replay | evicted | ⟨j, other, hj, key, sent⟩
    · exact .inl replay
    · exact .inr (.inl evicted)
    · have apart : j ≠ i := by
        rintro rfl
        obtain rfl := Option.some.inj (hc.symm.trans hj)
        rw [received] at sent
        contradiction
      exact .inr (.inr ⟨j, other, (Function.update_of_ne apart ..).trans hj, key, sent⟩)
  · intro j k a b ha hb pa pb key
    rcases update_cases ha with ⟨rfl, ea⟩ | ⟨-, ja⟩ <;> rcases update_cases hb with ⟨rfl, eb⟩ | ⟨-, kb⟩
    · rfl
    · obtain rfl := Option.some.inj ea
      exact absurd key.symm (noOther _ b kb pb)
    · obtain rfl := Option.some.inj eb
      exact absurd key (noOther _ a ja pa)
    · exact inv.alone _ _ a b ja kb pa pb key
  · intro j a ha pa da
    rcases update_cases ha with ⟨rfl, ea⟩ | ⟨-, ja⟩
    · obtain rfl := Option.some.inj ea
      exact unsent
    · exact inv.unsent _ a ja pa da
  · intro j a ha da
    rcases update_cases ha with ⟨rfl, ea⟩ | ⟨-, ja⟩
    · obtain rfl := Option.some.inj ea
      contradiction
    · exact inv.sent _ a ja da

/-- A request that is answered from the replays. -/
theorem OnceInv.answered (inv : OnceInv s) {req : InputRequest} {answer : InputAnswer}
    (found : s.replayedInput req.key = some answer)
    (own : ∀ d ∈ s.deliveries, d.key = req.key →
      d.message = trim req.message ∧ d.context = req.context) :
    OnceInv { s with successes := ⟨req, answer⟩ :: s.successes } := by
  refine ⟨inv.once, inv.remembered, inv.replays, inv.alone, inv.unsent, inv.sent, ?_⟩
  intro a ha
  rcases List.mem_cons.mp ha with rfl | ha
  · simp only [replayedInput, Option.map_eq_some_iff] at found
    obtain ⟨r, hit, -⟩ := found
    have key : r.1 = req.key := by simpa using List.find?_some hit
    obtain ⟨d, hd, same⟩ := inv.replays r (List.mem_of_find?_eq_some hit)
    exact ⟨d, hd, same.trans key, own d hd (same.trans key)⟩
  · exact inv.successes a ha

section replays

variable {replays : List ((Text × Text) × InputAnswer)} {key : Text × Text} {answer : InputAnswer}

theorem rememberInput_eq (replays : List ((Text × Text) × InputAnswer)) (key : Text × Text)
    (answer : InputAnswer) : ∃ surplus, rememberInput replays key answer =
      (replays.drop surplus ++ [(key, answer)], (replays.take surplus).map Prod.fst) :=
  ⟨_, rfl⟩

/-- What was remembered stays or is evicted. -/
theorem mem_rememberInput {r : (Text × Text) × InputAnswer} (hr : r ∈ replays) :
    r ∈ (rememberInput replays key answer).1 ∨ r.1 ∈ (rememberInput replays key answer).2 := by
  obtain ⟨surplus, eq⟩ := rememberInput_eq replays key answer
  rw [eq]
  rw [← List.take_append_drop surplus replays, List.mem_append] at hr
  rcases hr with gone | stays
  · exact .inr (List.mem_map_of_mem gone)
  · exact .inl (List.mem_append_left _ stays)

theorem mem_rememberInput_self : (key, answer) ∈ (rememberInput replays key answer).1 := by
  obtain ⟨surplus, eq⟩ := rememberInput_eq replays key answer
  rw [eq]
  exact List.mem_append_right _ List.mem_cons_self

theorem of_mem_rememberInput {r : (Text × Text) × InputAnswer}
    (hr : r ∈ (rememberInput replays key answer).1) : r ∈ replays ∨ r = (key, answer) := by
  obtain ⟨surplus, eq⟩ := rememberInput_eq replays key answer
  rw [eq] at hr
  rcases List.mem_append.mp hr with stays | new
  · exact .inl (List.mem_of_mem_drop stays)
  · exact .inr (List.mem_singleton.mp new)

end replays

/-- A request that is remembered, in a table that keeps or evicts what it held. -/
theorem OnceInv.remember (inv : OnceInv s) (hc : s.calls i = some call) {answer : InputAnswer}
    (sent : call.phase = .sent answer) {replays : List ((Text × Text) × InputAnswer)}
    {evicted : List (Text × Text)}
    (kept : ∀ r ∈ s.replays, r ∈ replays ∨ r.1 ∈ evicted)
    (added : (call.req.key, answer) ∈ replays)
    (only : ∀ r ∈ replays, r ∈ s.replays ∨ r = (call.req.key, answer)) :
    OnceInv ({ s with
      replays := replays
      evicted := evicted ++ s.evicted
      successes := ⟨call.req, answer⟩ :: s.successes }.finish i call) := by
  obtain ⟨own, hown, key, message⟩ := inv.sent i call hc (by simp [sent, delivered])
  refine ⟨inv.once, ?_, ?_, ?_, ?_, ?_, ?_⟩
  · intro d hd
    rcases inv.remembered d hd with ⟨r, hr, same⟩ | evicted | ⟨j, other, hj, same, dsent⟩
    · rcases kept r hr with stays | gone
      · exact .inl ⟨r, stays, same⟩
      · exact .inr (.inl (List.mem_append_left _ (same ▸ gone)))
    · exact .inr (.inl (List.mem_append_right _ evicted))
    · by_cases mine : j = i
      · subst mine
        obtain rfl := Option.some.inj (hc.symm.trans hj)
        exact .inl ⟨(call.req.key, answer), added, same⟩
      · exact .inr (.inr ⟨j, other, (Function.update_of_ne mine ..).trans hj, same, dsent⟩)
  · intro r hr
    rcases only r hr with stays | rfl
    · exact inv.replays r stays
    · exact ⟨own, hown, key⟩
  · intro j k a b ha hb pa pb same
    rcases update_cases ha with ⟨-, ea⟩ | ⟨-, ja⟩
    · contradiction
    · rcases update_cases hb with ⟨-, eb⟩ | ⟨-, kb⟩
      · contradiction
      · exact inv.alone _ _ a b ja kb pa pb same
  · intro j a ha pa da
    rcases update_cases ha with ⟨-, ea⟩ | ⟨-, ja⟩
    · contradiction
    · exact inv.unsent _ a ja pa da
  · intro j a ha da
    rcases update_cases ha with ⟨-, ea⟩ | ⟨-, ja⟩
    · contradiction
    · exact inv.sent _ a ja da
  · intro a ha
    rcases List.mem_cons.mp ha with rfl | ha
    · exact ⟨own, hown, key, message⟩
    · exact inv.successes a ha

theorem OnceInv.post (inv : OnceInv s) {req : InputRequest} (free : s.calls i = none) :
    OnceInv { s with calls := Function.update s.calls i (some ⟨req, .received⟩) } := by
  refine ⟨inv.once, ?_, inv.replays, ?_, ?_, ?_, inv.successes⟩
  · intro d hd
    rcases inv.remembered d hd with replay | evicted | ⟨j, other, hj, key, sent⟩
    · exact .inl replay
    · exact .inr (.inl evicted)
    · have apart : j ≠ i := by
        rintro rfl
        rw [free] at hj
        contradiction
      exact .inr (.inr ⟨j, other, (Function.update_of_ne apart ..).trans hj, key, sent⟩)
  · intro j k a b ha hb pa pb key
    rcases update_cases ha with ⟨-, ea⟩ | ⟨-, ja⟩
    · obtain rfl := Option.some.inj ea
      contradiction
    · rcases update_cases hb with ⟨-, eb⟩ | ⟨-, kb⟩
      · obtain rfl := Option.some.inj eb
        contradiction
      · exact inv.alone _ _ a b ja kb pa pb key
  · intro j a ha pa da
    rcases update_cases ha with ⟨-, ea⟩ | ⟨-, ja⟩
    · obtain rfl := Option.some.inj ea
      contradiction
    · exact inv.unsent _ a ja pa da
  · intro j a ha da
    rcases update_cases ha with ⟨-, ea⟩ | ⟨-, ja⟩
    · obtain rfl := Option.some.inj ea
      contradiction
    · exact inv.sent _ a ja da

/-! ### Every action -/

/-- A send that did not reach the agent changes nothing. -/
theorem failSend_of_ne {req : InputRequest} {runId : Text} {delivered : Bool}
    (h : SendOutcome.failed delivered ≠ .failed true) : s.failSend req runId delivered = s := by
  cases delivered with
  | false => rfl
  | true => contradiction

theorem OnceInv.look (inv : OnceInv s) (quiet : Undisturbed s (.look i))
    (h : s.step (.look i) = some t) : OnceInv t := by
  simp only [step] at h
  split at h
  · next call hc =>
      obtain ⟨noOther, kept, own⟩ := quiet call hc
      split at h
      · next received =>
          have unsent : delivered call.phase = false := by simp [received, delivered]
          split at h
          · obtain rfl := Option.some.inj h
            exact inv.finish hc unsent
          · split at h
            · next answer found =>
                obtain rfl := Option.some.inj h
                exact (inv.answered found own).finish hc unsent
            · next missing =>
                split at h
                · obtain rfl := Option.some.inj h
                  exact inv.passes hc received noOther kept missing
                · obtain rfl := Option.some.inj h
                  exact inv.finish hc unsent
      · contradiction
  · contradiction

/-- **What one action keeps.** -/
theorem OnceInv.step {a : InputAction} (quiet : Undisturbed s a) (h : s.step a = some t)
    (inv : OnceInv s) : OnceInv t := by
  cases a with
  | post i req =>
      simp only [InputState.step] at h
      split at h
      · contradiction
      · next free =>
          obtain rfl := Option.some.inj h
          exact inv.post free
  | look i => exact inv.look quiet h
  | snapshot i run =>
      simp only [InputState.step] at h
      split at h
      · next call hc =>
          split at h
          · next checked =>
              split at h
              · obtain rfl := Option.some.inj h
                exact inv.goOn hc (by simp [checked, past]) (by simp [checked, delivered])
              · contradiction
          · next checked =>
              split at h
              · contradiction
              · obtain rfl := Option.some.inj h
                exact inv.goOn hc (by simp [checked, past]) (by simp [checked, delivered])
          · contradiction
      · contradiction
  | sendLive i outcome =>
      simp only [InputState.step] at h
      split at h
      · next call hc =>
          split at h
          · next run found =>
              obtain rfl := Option.some.inj h
              exact inv.send hc (by simp [found, past]) (by simp [found, delivered]) rfl
          · next run reached found =>
              rw [failSend_of_ne quiet] at h
              obtain rfl := Option.some.inj h
              exact inv.finish hc (by simp [found, delivered])
          · contradiction
      · contradiction
  | claim i =>
      simp only [InputState.step] at h
      split at h
      · next call hc =>
          split at h
          · next found =>
              split at h
              · obtain rfl := Option.some.inj h
                exact inv.finish hc (by simp [found, delivered])
              · obtain rfl := Option.some.inj h
                exact (inv.of_rest (call.req.conv.id :: s.launches) s.runs).goOn hc
                  (p := .claimed) (by simp [found, past]) (by simp [found, delivered])
          · contradiction
      · contradiction
  | resume i outcome =>
      simp only [InputState.step] at h
      split at h
      · next call hc =>
          split at h
          · next claimed =>
              obtain rfl := Option.some.inj h
              exact inv.goOn hc (by simp [claimed, past]) (by simp [claimed, delivered])
          · next claimed =>
              obtain rfl := Option.some.inj h
              exact inv.finish hc (by simp [claimed, delivered])
          · next run claimed =>
              obtain rfl := Option.some.inj h
              exact (inv.of_rest s.launches (run :: s.runs)).goOn hc (p := .resuming run.runId)
                (by simp [claimed, past]) (by simp [claimed, delivered])
          · contradiction
      · contradiction
  | sendResumed i outcome =>
      simp only [InputState.step] at h
      split at h
      · next call hc =>
          split at h
          · next runId up =>
              obtain rfl := Option.some.inj h
              exact inv.send hc (by simp [up, past]) (by simp [up, delivered]) rfl
          · next runId reached up =>
              rw [failSend_of_ne quiet] at h
              obtain rfl := Option.some.inj h
              exact (inv.of_rest s.launches (s.endRun runId).runs).goOn hc (p := .cold)
                (by simp [up, past]) (by simp [up, delivered])
          · contradiction
      · contradiction
  | recordResumed i =>
      simp only [InputState.step] at h
      split at h
      · next call hc =>
          split at h
          · next runId resumed =>
              obtain rfl := Option.some.inj h
              exact inv.goOn hc (by simp [resumed, past]) (by simp [resumed, delivered])
          · contradiction
      · contradiction
  | launchCold i run =>
      simp only [InputState.step] at h
      split at h
      · next call hc =>
          split at h
          · next cold =>
              split at h
              · obtain rfl := Option.some.inj h
                exact inv.finish hc (by simp [cold, delivered])
              · obtain rfl := Option.some.inj h
                exact (inv.of_rest s.launches (run :: s.runs)).goOn hc
                  (p := .coldAcquired run.runId) (by simp [cold, past])
                  (by simp [cold, delivered])
          · contradiction
      · contradiction
  | recordCold i =>
      simp only [InputState.step] at h
      split at h
      · next call hc =>
          split at h
          · next runId up =>
              obtain rfl := Option.some.inj h
              exact inv.goOn hc (by simp [up, past]) (by simp [up, delivered])
          · contradiction
      · contradiction
  | sendCold i outcome =>
      simp only [InputState.step] at h
      split at h
      · next call hc =>
          split at h
          · next runId up =>
              obtain rfl := Option.some.inj h
              exact inv.send hc (by simp [up, past]) (by simp [up, delivered]) rfl
          · next runId reached up =>
              rw [failSend_of_ne quiet] at h
              obtain rfl := Option.some.inj h
              exact inv.finish hc (by simp [up, delivered])
          · contradiction
      · contradiction
  | remember i =>
      simp only [InputState.step] at h
      split at h
      · next call hc =>
          split at h
          · next answer sent =>
              obtain rfl := Option.some.inj h
              exact inv.remember hc sent (fun r hr => mem_rememberInput hr) mem_rememberInput_self
                fun r hr => of_mem_rememberInput hr
          · contradiction
      · contradiction
  | fail i =>
      simp only [InputState.step] at h
      split at h
      · next call hc =>
          obtain rfl := Option.some.inj h
          exact inv.finish hc (quiet call hc)
      · contradiction
  | runStarts run =>
      obtain rfl := Option.some.inj h
      exact inv.of_rest s.launches _
  | runEnds runId =>
      obtain rfl := Option.some.inj h
      exact inv.of_rest s.launches _

end steps

end InputState

open InputState

/-! ### Whole runs -/

end Orgasmic
