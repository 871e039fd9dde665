import Orgasmic.LeaseExclusion

/-! # Workers without a record

From the moment its driver returns a session until its record is inserted, an `acquire` has a worker
that only its lease tells of.  An error or a cancellation there drops the session, which stops no
detached runtime, and the reservation gives the key up.

* `keepsWorkers`: the condition on a step, besides `startsAlone`.
* `unrecorded_worker_leased`: then such a worker keeps its key. -/

namespace Orgasmic

open Text Interleaving

namespace SupervisorState

variable {s s' : SupervisorState}

/-- No ordinary `acquire` fails or is cancelled when its driver has returned a session. -/
def keepsWorkers (s : SupervisorState) : SupervisorAction → Bool
  | .drop i _ =>
      match s.admissions[i]? with
      | some admission => !(decide (admission.origin = .acquire) &&
          decide (admission.phase = .spawned))
      | none => true
  | _ => true

/-- The session of no ordinary `acquire` has been dropped. -/
def NoneLeft (s : SupervisorState) : Prop :=
  ∀ admission ∈ s.admissions, admission.origin = .acquire →
    admission.phase ≠ .dropped true ∧ admission.phase ≠ .ended true

theorem NoneLeft.setPhase (left : NoneLeft s) {i : ℕ} {admission : Admission}
    {phase : AdmissionPhase}
    (new : admission.origin = .acquire → phase ≠ .dropped true ∧ phase ≠ .ended true) :
    NoneLeft (s.setPhase i admission phase) := by
  intro a mem ordinary
  obtain mem | rfl := List.mem_or_eq_of_mem_set mem
  · exact left a mem ordinary
  · exact new ordinary

theorem NoneLeft.admit (left : NoneLeft s) (origin : AdmissionOrigin) (runId : Text)
    (record : RunRecord) : NoneLeft (s.admitLiveRun origin runId record) := by
  intro a mem ordinary
  obtain mem | mem := List.mem_append.mp mem
  · exact left a mem ordinary
  · rw [List.mem_singleton.mp mem]
    simp

theorem removeIfUnowned_admissions (key : LeaseKey) (runId : Text) :
    (s.removeIfUnowned key runId).admissions = s.admissions := by
  unfold removeIfUnowned
  split <;> rfl

theorem releaseOrphanedLease_admissions (key : LeaseKey) :
    (s.releaseOrphanedLease key).admissions = s.admissions := by
  unfold releaseOrphanedLease
  split
  · rfl
  · split <;> rfl

theorem NoneLeft.step (left : NoneLeft s) {a : SupervisorAction} (keeps : s.keepsWorkers a = true)
    (next : s.step a = some s') : NoneLeft s' := by
  cases a with
  | pause paused =>
      obtain rfl := Option.some.inj next
      exact left
  | acquire recovery runId record reserved =>
      simp only [SupervisorState.step, Option.ite_none_right_eq_some] at next
      obtain rfl := Option.some.inj next.2
      exact left.admit _ _ _
  | reattach runId record restored reserved =>
      simp only [SupervisorState.step] at next
      split at next
      · rw [Option.ite_none_right_eq_some] at next
        obtain rfl := Option.some.inj next.2
        exact left.admit _ _ _
      · cases next
  | spawn i =>
      simp only [SupervisorState.step] at next
      split at next
      · rw [Option.ite_none_right_eq_some] at next
        obtain rfl := Option.some.inj next.2
        exact left.setPhase fun _ => by simp
      · cases next
  | record i =>
      simp only [SupervisorState.step] at next
      split at next
      · rw [Option.ite_none_right_eq_some] at next
        obtain rfl := Option.some.inj next.2
        exact NoneLeft.setPhase (s := s.putRecord _ _) left fun _ => by simp
      · cases next
  | drop i locked =>
      simp only [SupervisorState.step] at next
      split at next
      · next admission there =>
          rw [Option.ite_none_right_eq_some] at next
          have unspawned : admission.origin = .acquire → admission.phase ≠ .spawned := by
            intro ordinary spawned
            simp [keepsWorkers, there, ordinary, spawned] at keeps
          obtain ⟨-, eq⟩ := next
          split at eq
          · obtain rfl := Option.some.inj eq
            exact left.setPhase fun ordinary => by simpa using unspawned ordinary
          · obtain rfl := Option.some.inj eq
            refine NoneLeft.setPhase (s := s.removeIfUnowned _ _) ?_ fun ordinary => by
              simpa using unspawned ordinary
            intro a mem
            rw [removeIfUnowned_admissions] at mem
            exact left a mem
      · cases next
  | cleanup i =>
      simp only [SupervisorState.step] at next
      split at next
      · next admission there =>
          split at next
          · next started phase =>
              obtain rfl := Option.some.inj next
              refine NoneLeft.setPhase (s := s.removeIfUnowned _ _) ?_ fun ordinary => ?_
              · intro a mem
                rw [removeIfUnowned_admissions] at mem
                exact left a mem
              · have was := (left admission (List.mem_of_getElem? there) ordinary).1
                rw [phase] at was
                simpa using was
          · cases next
      · cases next
  | release runId =>
      simp only [SupervisorState.step] at next
      split at next
      · obtain rfl := Option.some.inj next
        exact left
      · cases next
  | releaseOrphanedLease projectId taskId kind =>
      obtain rfl := Option.some.inj next
      intro a mem
      rw [releaseOrphanedLease_admissions] at mem
      exact left a mem
  | claimManagerTerminal projectId runId =>
      simp only [SupervisorState.step, claimManagerTerminal] at next
      split at next
      · cases next
      · rw [Option.ite_none_right_eq_some] at next
        obtain rfl := Option.some.inj next.2
        exact left
  | unclaimManagerTerminal projectId runId =>
      simp only [SupervisorState.step, unclaimManagerTerminal] at next
      split at next
      · cases next
      · split at next
        · cases next
        · rw [Option.ite_none_right_eq_some] at next
          obtain rfl := Option.some.inj next.2
          exact left

/-- **No orphaned worker.**  Along runs as above in which also no ordinary `acquire` fails or is
cancelled after its driver has returned a session, a worker that an ordinary `acquire` has started
and that is not recorded keeps the lease of its key. -/
theorem unrecorded_worker_leased
    (h : Reaches step (fun s a => s.startsAlone a = true ∧ s.keepsWorkers a = true) start s)
    {admission : Admission} (mem : admission ∈ s.admissions)
    (ordinary : admission.origin = .acquire) (started : admission.unrecordedWorker = true) :
    s.leases admission.leaseKey = some admission.runId := by
  have left : NoneLeft s := h.invariant (fun meets next left => left.step meets.2 next)
    fun _ mem => by cases mem
  have owned := owned_of_reaches (fun _ _ meets => meets.1) h
  have flying : admission.inFlight = true := by
    obtain ⟨kept, ended⟩ := left admission mem ordinary
    unfold Admission.unrecordedWorker at started
    unfold Admission.inFlight
    split at started
    · next phase => simp [phase]
    · next phase => exact absurd phase kept
    · next phase => exact absurd phase ended
    · cases started
  exact (owned.leased _ _).mpr (.inr ⟨admission, mem, flying, rfl, rfl⟩)

namespace Dropped

open Sweep

/-- A durable append fails after the spawn. -/
def failedAppend : List SupervisorAction :=
  [.acquire false runA worker false, .spawn 0, .drop 0 false, .acquire false runB worker false]

/-- The driver fails. -/
def failedDriver : List SupervisorAction :=
  [.acquire false runA worker false, .drop 0 false, .acquire false runB worker false, .spawn 1]

end Dropped

open Sweep Dropped in
/-- `unrecorded_worker_leased` for a worker that starts after the driver of another run fails. -/
theorem unrecorded_worker_leased_sample : ∃ s : SupervisorState, ∃ admission ∈ s.admissions,
    admission.origin = .acquire ∧ admission.unrecordedWorker = true ∧
      s.leases admission.leaseKey = some admission.runId := by
  have result : (run (fun s a => if s.startsAlone a && s.keepsWorkers a then s.step a else none)
      start failedDriver).map (fun s => s.admissions[1]?) =
        some (some ⟨.acquire, runB, worker, .spawned⟩) := by
    decide
  obtain ⟨s, run, there⟩ := Option.map_eq_some_iff.mp result
  have mem := List.mem_of_getElem? there
  exact ⟨s, _, mem, rfl, rfl, unrecorded_worker_leased
    (reaches_of_checked (fun _ _ h => Bool.and_eq_true_iff.mp h) run) mem rfl rfl⟩

open Sweep Dropped in
/-- The worker of the failed `acquire` is neither recorded nor stopped, and its key is another
run's. -/
theorem unrecorded_worker_leased_fails : ∃ s : SupervisorState,
    Reaches step (fun _ _ => True) start s ∧ ∃ admission ∈ s.admissions,
      admission.origin = .acquire ∧ admission.runId = runA ∧ admission.unrecordedWorker = true ∧
        s.runs runA = none ∧ s.leases admission.leaseKey = some runB := by
  have result : (run step start failedAppend).map
      (fun s => (s.admissions[0]?, s.runs runA, s.leases worker.leaseKey)) =
        some (some ⟨.acquire, runA, worker, .ended true⟩, none, some runB) := by
    decide
  obtain ⟨s, run, eq⟩ := Option.map_eq_some_iff.mp result
  obtain ⟨there, eq⟩ := Prod.mk.inj eq
  obtain ⟨unrecorded, lease⟩ := Prod.mk.inj eq
  exact ⟨s, reaches_of_run (fun _ _ _ => trivial) run, _, List.mem_of_getElem? there, rfl, rfl,
    rfl, unrecorded, lease⟩

end SupervisorState

end Orgasmic
