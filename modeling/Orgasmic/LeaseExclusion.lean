import Orgasmic.SupervisorLeases

/-! # Exclusion by leases

* `Holds`: who a lease is for; a recorded run holds its current key, an admission in flight the
  key of its record.
* `Owned`: the invariant; the leases are what is held, and no run is admitted twice.
* `StartsAlone`: the condition on a step.  No admission begins for a run that has one in flight,
  and the sweep of orphaned leases spares the admissions in flight.
* `Exclusive`: what follows in every state of a run of such steps. -/

namespace Orgasmic

open Text Interleaving

namespace SupervisorState

variable {s s' : SupervisorState}

/-- An admission in flight has the key for the run. -/
def Flies (s : SupervisorState) (key : LeaseKey) (runId : Text) : Prop :=
  ∃ admission ∈ s.admissions, admission.inFlight = true ∧ admission.leaseKey = key ∧
    admission.runId = runId

/-- The run is recorded with the key. -/
def Records (s : SupervisorState) (key : LeaseKey) (runId : Text) : Prop :=
  ∃ rec : RunRecord, s.runs runId = some rec ∧ rec.leaseKey = key

def Holds (s : SupervisorState) (key : LeaseKey) (runId : Text) : Prop :=
  s.Records key runId ∨ s.Flies key runId

/-- The leases are what is held, and a run is in flight once at most and not recorded then. -/
structure Owned (s : SupervisorState) : Prop where
  leased : ∀ key runId, s.leases key = some runId ↔ s.Holds key runId
  unrecorded : ∀ admission ∈ s.admissions, admission.inFlight = true →
    s.runs admission.runId = none
  single : ∀ {i j : ℕ} {a b : Admission}, s.admissions[i]? = some a → s.admissions[j]? = some b →
    a.inFlight = true → b.inFlight = true → a.runId = b.runId → i = j

/-- No admission of the run is in flight. -/
def grounded (s : SupervisorState) (runId : Text) : Bool :=
  s.admissions.all fun admission => !(admission.inFlight && decide (admission.runId = runId))

/-- No admission begins for a run that is recorded or in flight, and no lease of an admission in
flight is swept. -/
def startsAlone (s : SupervisorState) : SupervisorAction → Bool
  | .acquire _ runId _ _ => (s.runs runId).isNone && s.grounded runId
  | .reattach runId _ _ _ => s.grounded runId
  | .releaseOrphanedLease projectId taskId kind =>
      s.admissions.all fun admission => !(admission.inFlight &&
        decide (admission.leaseKey = leaseKey (some projectId) taskId kind))
  | _ => true

theorem not_flies_of_grounded {runId : Text} (h : s.grounded runId = true) (key : LeaseKey) :
    ¬s.Flies key runId := by
  rintro ⟨admission, mem, flying, -, rfl⟩
  have := List.all_eq_true.mp h admission mem
  simp [flying] at this

theorem start_owned : Owned start := by
  refine ⟨fun key runId => ⟨fun h => ?_, fun h => ?_⟩, fun admission mem => ?_, fun h => ?_⟩
  · cases h
  · obtain ⟨rec, h, -⟩ | ⟨admission, mem, -⟩ := h
    · cases h
    · cases mem
  · cases mem
  · cases h

/-! ### Leases as a map -/

theorem insert_eq_some {leases : LeaseKey → Option Text} {key key' : LeaseKey}
    {runId runId' : Text} (free : leases key = none) :
    Function.update leases key (some runId) key' = some runId' ↔
      leases key' = some runId' ∨ (key' = key ∧ runId' = runId) := by
  by_cases same : key' = key
  · subst same
    simp [free, eq_comm]
  · simp [same]

theorem remove_eq_some {leases : LeaseKey → Option Text} {key key' : LeaseKey} {runId' : Text} :
    Function.update leases key none key' = some runId' ↔
      key' ≠ key ∧ leases key' = some runId' := by
  by_cases same : key' = key
  · subst same
    simp
  · simp [same]

/-- Two holders of one key are one run. -/
theorem Owned.eq_of_holds (owned : Owned s) {key : LeaseKey} {runId runId' : Text}
    (h : s.Holds key runId) (h' : s.Holds key runId') : runId = runId' :=
  Option.some.inj (((owned.leased key runId).mpr h).symm.trans ((owned.leased key runId').mpr h'))

/-- One run holds one key. -/
theorem Owned.eq_key_of_holds (owned : Owned s) {key key' : LeaseKey} {runId : Text}
    (h : s.Holds key runId) (h' : s.Holds key' runId) : key = key' := by
  obtain ⟨rec, recorded, rfl⟩ | ⟨a, mem, flying, rfl, rfl⟩ := h
  · obtain ⟨rec', recorded', rfl⟩ | ⟨b, mem, flying, rfl, rfl⟩ := h'
    · rw [recorded] at recorded'
      rw [Option.some.inj recorded']
    · rw [owned.unrecorded b mem flying] at recorded
      cases recorded
  · obtain ⟨rec', recorded', rfl⟩ | ⟨b, mem', flying', rfl, same⟩ := h'
    · rw [owned.unrecorded a mem flying] at recorded'
      cases recorded'
    · obtain ⟨i, hi⟩ := List.mem_iff_getElem?.mp mem
      obtain ⟨j, hj⟩ := List.mem_iff_getElem?.mp mem'
      obtain rfl := owned.single hi hj flying flying' same.symm
      rw [Option.some.inj (hi.symm.trans hj)]

/-- Everything that a run holds is given up. -/
theorem Owned.leased_of_leaves (owned : Owned s) {key : LeaseKey} {runId : Text}
    (held : s.Holds key runId) (leases : s'.leases = Function.update s.leases key none)
    (holds : ∀ key' runId', s'.Holds key' runId' ↔ runId' ≠ runId ∧ s.Holds key' runId')
    (key' : LeaseKey) (runId' : Text) :
    s'.leases key' = some runId' ↔ s'.Holds key' runId' := by
  rw [leases, remove_eq_some, holds, owned.leased]
  constructor
  · rintro ⟨other, h⟩
    refine ⟨?_, h⟩
    rintro rfl
    exact other (owned.eq_key_of_holds h held)
  · rintro ⟨other, h⟩
    refine ⟨?_, h⟩
    rintro rfl
    exact other (owned.eq_of_holds h held)

/-! ### Admissions that move on -/

section moves

variable {i : ℕ} {admission : Admission} {phase : AdmissionPhase}

/-- The admissions of the list with one moved are in flight only if they were. -/
theorem Owned.single_set (owned : Owned s) (there : s.admissions[i]? = some admission)
    (flying : admission.inFlight = true) {j k : ℕ} {a b : Admission}
    (ha : (s.admissions.set i { admission with phase := phase })[j]? = some a)
    (hb : (s.admissions.set i { admission with phase := phase })[k]? = some b)
    (fa : a.inFlight = true) (fb : b.inFlight = true) (same : a.runId = b.runId) : j = k := by
  have before : ∀ {j : ℕ} {a : Admission},
      (s.admissions.set i { admission with phase := phase })[j]? = some a → a.inFlight = true →
        ∃ a', s.admissions[j]? = some a' ∧ a'.inFlight = true ∧ a'.runId = a.runId := by
    intro j a h fa
    by_cases eq : i = j
    · subst eq
      rw [List.getElem?_set_self (List.getElem?_eq_some_iff.mp there).1] at h
      exact ⟨admission, there, flying, by rw [← Option.some.inj h]⟩
    · rw [List.getElem?_set_ne eq] at h
      exact ⟨a, h, fa, rfl⟩
  obtain ⟨a', ha', fa', ra⟩ := before ha fa
  obtain ⟨b', hb', fb', rb⟩ := before hb fb
  exact owned.single ha' hb' fa' fb' (by rw [ra, rb, same])

/-- While it stays in flight it has what it had. -/
theorem flies_stay (there : s.admissions[i]? = some admission)
    (flying : admission.inFlight = true)
    (stays : ({ admission with phase := phase } : Admission).inFlight = true)
    (admissions : s'.admissions = s.admissions.set i { admission with phase := phase })
    {key : LeaseKey} {runId : Text} : s'.Flies key runId ↔ s.Flies key runId := by
  unfold Flies
  rw [admissions]
  constructor
  · rintro ⟨a, mem, fa, rfl, rfl⟩
    obtain mem | rfl := List.mem_or_eq_of_mem_set mem
    · exact ⟨a, mem, fa, rfl, rfl⟩
    · exact ⟨admission, List.mem_of_getElem? there, flying, rfl, rfl⟩
  · rintro ⟨a, mem, fa, rfl, rfl⟩
    obtain rfl | mem := eq_or_mem_set (z := { admission with phase := phase }) there mem
    · exact ⟨_, List.mem_set (List.getElem?_eq_some_iff.mp there).1 _, stays, rfl, rfl⟩
    · exact ⟨a, mem, fa, rfl, rfl⟩

/-- When it is no longer in flight its run has nothing. -/
theorem Owned.flies_end (owned : Owned s) (there : s.admissions[i]? = some admission)
    (flying : admission.inFlight = true)
    (ends : ({ admission with phase := phase } : Admission).inFlight = false)
    (admissions : s'.admissions = s.admissions.set i { admission with phase := phase })
    {key : LeaseKey} {runId : Text} :
    s'.Flies key runId ↔ runId ≠ admission.runId ∧ s.Flies key runId := by
  unfold Flies
  rw [admissions]
  constructor
  · rintro ⟨a, mem, fa, rfl, rfl⟩
    obtain ⟨j, hj⟩ := List.mem_iff_getElem?.mp mem
    have other : i ≠ j := by
      rintro rfl
      rw [List.getElem?_set_self (List.getElem?_eq_some_iff.mp there).1] at hj
      rw [← Option.some.inj hj, ends] at fa
      cases fa
    rw [List.getElem?_set_ne other] at hj
    exact ⟨fun same => other (owned.single there hj flying fa same.symm), a,
      List.mem_of_getElem? hj, fa, rfl, rfl⟩
  · rintro ⟨other, a, mem, fa, rfl, rfl⟩
    obtain rfl | mem := eq_or_mem_set (z := { admission with phase := phase }) there mem
    · exact absurd rfl other
    · exact ⟨a, mem, fa, rfl, rfl⟩

/-- Who is in flight afterwards was before. -/
theorem flying_of_mem_set (there : s.admissions[i]? = some admission)
    (flying : admission.inFlight = true) {a : Admission}
    (mem : a ∈ s.admissions.set i { admission with phase := phase }) (fa : a.inFlight = true) :
    ∃ a' ∈ s.admissions, a'.inFlight = true ∧ a'.runId = a.runId := by
  obtain mem | rfl := List.mem_or_eq_of_mem_set mem
  · exact ⟨a, mem, fa, rfl⟩
  · exact ⟨admission, List.mem_of_getElem? there, flying, rfl⟩

/-- The admission goes on. -/
theorem Owned.stay (owned : Owned s) (there : s.admissions[i]? = some admission)
    (flying : admission.inFlight = true)
    (stays : ({ admission with phase := phase } : Admission).inFlight = true) :
    Owned (s.setPhase i admission phase) := by
  refine ⟨fun key runId => ?_, fun a mem fa => ?_, owned.single_set there flying⟩
  · refine (owned.leased key runId).trans (or_congr Iff.rfl ?_)
    exact (flies_stay there flying stays rfl).symm
  · obtain ⟨a', mem', fa', eq⟩ := flying_of_mem_set there flying mem fa
    rw [← eq]
    exact owned.unrecorded a' mem' fa'

/-- The admission becomes a record. -/
theorem Owned.record (owned : Owned s) (there : s.admissions[i]? = some admission)
    (flying : admission.inFlight = true) :
    Owned ((s.putRecord admission.runId (some admission.record)).setPhase i admission
      .recorded) := by
  have mem := List.mem_of_getElem? there
  have flies : s.Flies admission.leaseKey admission.runId := ⟨admission, mem, flying, rfl, rfl⟩
  have ended : ∀ key runId, ((s.putRecord admission.runId (some admission.record)).setPhase i
      admission .recorded).Flies key runId ↔ runId ≠ admission.runId ∧ s.Flies key runId :=
    fun key runId => owned.flies_end there flying rfl rfl
  refine ⟨fun key runId => (owned.leased key runId).trans ?_, fun a mem' fa => ?_,
    owned.single_set there flying⟩
  · unfold Holds
    rw [ended]
    by_cases same : runId = admission.runId
    · subst same
      have recorded : ((s.putRecord admission.runId (some admission.record)).setPhase i admission
          .recorded).Records key admission.runId ↔ admission.leaseKey = key := by
        simp [Records, setPhase, putRecord, Admission.leaseKey]
      rw [recorded]
      constructor
      · exact fun h => .inl (owned.eq_key_of_holds (.inr flies) h)
      · rintro (rfl | ⟨other, -⟩)
        · exact .inr flies
        · exact absurd rfl other
    · have recorded : ((s.putRecord admission.runId (some admission.record)).setPhase i admission
          .recorded).Records key runId ↔ s.Records key runId := by
        simp [Records, setPhase, putRecord, Function.update_of_ne same]
      rw [recorded]
      simp [same]
  · have other : a.runId ≠ admission.runId :=
      ((ended a.leaseKey a.runId).mp ⟨a, mem', fa, rfl, rfl⟩).1
    obtain ⟨a', mem', fa', eq⟩ := flying_of_mem_set there flying mem' fa
    show Function.update s.runs admission.runId _ a.runId = none
    rw [Function.update_of_ne other, ← eq]
    exact owned.unrecorded a' mem' fa'

/-- The reservation of a dropped admission removes its lease. -/
theorem Owned.leave (owned : Owned s) (there : s.admissions[i]? = some admission)
    (flying : admission.inFlight = true) (started : Bool) :
    Owned ((s.removeIfUnowned admission.leaseKey admission.runId).setPhase i admission
      (.ended started)) := by
  have mem := List.mem_of_getElem? there
  have unrecorded := owned.unrecorded admission mem flying
  have flies : s.Flies admission.leaseKey admission.runId := ⟨admission, mem, flying, rfl, rfl⟩
  have lease := (owned.leased _ _).mpr (.inr flies)
  have removed : s.removeIfUnowned admission.leaseKey admission.runId =
      s.removeLease admission.leaseKey := if_pos ⟨lease, unrecorded⟩
  rw [removed]
  refine ⟨owned.leased_of_leaves (.inr flies) rfl fun key runId => ?_, fun a mem' fa => ?_,
    owned.single_set there flying⟩
  · unfold Holds
    rw [owned.flies_end there flying rfl rfl, and_or_left]
    refine or_congr ⟨fun h => ⟨?_, h⟩, fun h => h.2⟩ Iff.rfl
    rintro rfl
    obtain ⟨rec, recorded, -⟩ := h
    have recorded' : s.runs admission.runId = some rec := recorded
    rw [unrecorded] at recorded'
    cases recorded'
  · obtain ⟨a', mem', fa', eq⟩ := flying_of_mem_set there flying mem' fa
    rw [← eq]
    exact owned.unrecorded a' mem' fa'

end moves

/-! ### The other steps -/

/-- An admitted key was free, if the run has nothing. -/
theorem Owned.free_of_admits (owned : Owned s) {req : LiveRunAdmission}
    (admitted : s.admits req = true) (alone : ∀ key, ¬s.Holds key req.runId) :
    s.leases req.leaseKey = none := by
  cases lease : s.leases req.leaseKey with
  | none => rfl
  | some active =>
      have other : active ≠ req.runId := by
        rintro rfl
        exact alone _ ((owned.leased _ _).mp lease)
      unfold admits preflightLiveRun at admitted
      rw [lease] at admitted
      split at admitted
      · cases admitted
      · cases path : req.path <;> rw [path] at admitted
        · cases admitted
        · simp [other] at admitted
          cases admitted

theorem free_of_admits_acquire {key : LeaseKey} {runId : Text} {reserved : Bool}
    (admitted : s.admits ⟨.acquire, key, runId, reserved⟩ = true) : s.leases key = none := by
  cases lease : s.leases key with
  | none => rfl
  | some active =>
      unfold admits preflightLiveRun at admitted
      dsimp only at admitted
      rw [lease] at admitted
      split at admitted <;> cases admitted

theorem Owned.admit (owned : Owned s) {origin : AdmissionOrigin} {runId : Text}
    {record : RunRecord} {req : LiveRunAdmission} (admitted : s.admits req = true)
    (key : req.leaseKey = record.leaseKey) (run : req.runId = runId)
    (unrecorded : s.runs runId = none) (grounded : s.grounded runId = true) :
    Owned (s.admitLiveRun origin runId record) := by
  have alone : ∀ key, ¬s.Holds key req.runId := by
    rintro key (⟨rec, recorded, -⟩ | flies)
    · rw [run, unrecorded] at recorded
      cases recorded
    · exact not_flies_of_grounded (run ▸ grounded) key flies
  have free := owned.free_of_admits admitted alone
  rw [key] at free
  rw [run] at alone
  refine ⟨fun key' runId' => ?_, fun a mem fa => ?_, fun {j k a b} ha hb fa fb same => ?_⟩
  · have flies : (s.admitLiveRun origin runId record).Flies key' runId' ↔
        s.Flies key' runId' ∨ (key' = record.leaseKey ∧ runId' = runId) := by
      unfold Flies admitLiveRun
      simp only [List.mem_append, List.mem_singleton, or_and_right, exists_or, exists_eq_left]
      refine or_congr Iff.rfl ⟨?_, ?_⟩
      · rintro ⟨-, rfl, rfl⟩
        exact ⟨rfl, rfl⟩
      · rintro ⟨rfl, rfl⟩
        exact ⟨rfl, rfl, rfl⟩
    have holds : (s.admitLiveRun origin runId record).Holds key' runId' ↔
        s.Holds key' runId' ∨ (key' = record.leaseKey ∧ runId' = runId) :=
      (or_congr Iff.rfl flies).trans or_assoc.symm
    rw [holds, ← owned.leased]
    exact insert_eq_some free
  · obtain mem | mem := List.mem_append.mp mem
    · exact owned.unrecorded a mem fa
    · rw [List.mem_singleton.mp mem]
      exact unrecorded
  · have new : ∀ {j : ℕ} {a : Admission}, s.admissions[j]? = some a → a.inFlight = true →
        a.runId ≠ runId := fun {j a} h fa eq =>
      alone a.leaseKey (.inr ⟨a, List.mem_of_getElem? h, fa, rfl, eq⟩)
    obtain ha | ⟨rfl, rfl⟩ := at_append_iff.mp ha
    · obtain hb | ⟨rfl, rfl⟩ := at_append_iff.mp hb
      · exact owned.single ha hb fa fb same
      · exact absurd same (new ha fa)
    · obtain hb | ⟨rfl, rfl⟩ := at_append_iff.mp hb
      · exact absurd same.symm (new hb fb)
      · rfl

theorem Owned.release (owned : Owned s) {runId : Text} {rec : RunRecord}
    (recorded : s.runs runId = some rec) :
    Owned ((s.putRecord runId none).removeLease rec.leaseKey) := by
  have held : s.Holds rec.leaseKey runId := .inl ⟨rec, recorded, rfl⟩
  have unrecorded : ∀ a ∈ s.admissions, a.inFlight = true → a.runId ≠ runId := by
    rintro a mem fa rfl
    rw [owned.unrecorded a mem fa] at recorded
    cases recorded
  refine ⟨owned.leased_of_leaves held rfl fun key' runId' => ?_, fun a mem fa => ?_, owned.single⟩
  · by_cases same : runId' = runId
    · subst same
      simp only [ne_eq, not_true_eq_false, false_and, iff_false]
      rintro (⟨rec', h, -⟩ | ⟨a, mem, fa, -, eq⟩)
      · simp [removeLease, putRecord] at h
      · exact unrecorded a mem fa eq
    · have records : ((s.putRecord runId none).removeLease rec.leaseKey).Records key' runId' ↔
          s.Records key' runId' := by
        simp [Records, removeLease, putRecord, Function.update_of_ne same]
      exact (or_congr records Iff.rfl).trans ⟨fun h => ⟨same, h⟩, fun h => h.2⟩
  · show Function.update s.runs runId none a.runId = none
    rw [Function.update_of_ne (unrecorded a mem fa)]
    exact owned.unrecorded a mem fa

theorem Owned.exchange (owned : Owned s) {runId : Text} {rec rec' : RunRecord}
    (recorded : s.runs runId = some rec) (free : s.leases rec'.leaseKey = none) :
    Owned (s.exchange runId rec rec') := by
  have held : s.Holds rec.leaseKey runId := .inl ⟨rec, recorded, rfl⟩
  have apart : rec'.leaseKey ≠ rec.leaseKey := by
    intro eq
    rw [eq, (owned.leased _ _).mpr held] at free
    cases free
  have unrecorded : ∀ a ∈ s.admissions, a.inFlight = true → a.runId ≠ runId := by
    rintro a mem fa rfl
    rw [owned.unrecorded a mem fa] at recorded
    cases recorded
  refine ⟨fun key' runId' => ?_, fun a mem fa => ?_, owned.single⟩
  · have leases : (s.exchange runId rec rec').leases key' = some runId' ↔
        key' ≠ rec.leaseKey ∧ (s.leases key' = some runId' ∨
          (key' = rec'.leaseKey ∧ runId' = runId)) := by
      refine remove_eq_some.trans (and_congr_right fun _ => ?_)
      exact insert_eq_some free
    rw [leases, owned.leased]
    by_cases same : runId' = runId
    · subst same
      have records : (s.exchange runId' rec rec').Records key' runId' ↔ rec'.leaseKey = key' := by
        simp [Records, SupervisorState.exchange, putRecord]
      constructor
      · rintro ⟨other, h | ⟨rfl, -⟩⟩
        · exact absurd (owned.eq_key_of_holds h held) other
        · exact .inl (records.mpr rfl)
      · rintro (h | ⟨a, mem, fa, -, eq⟩)
        · obtain rfl := records.mp h
          exact ⟨apart, .inr ⟨rfl, rfl⟩⟩
        · exact absurd eq (unrecorded a mem fa)
    · have records : (s.exchange runId rec rec').Records key' runId' ↔ s.Records key' runId' := by
        simp [Records, SupervisorState.exchange, putRecord, removeLease, insertLease,
          Function.update_of_ne same]
      have holds : (s.exchange runId rec rec').Holds key' runId' ↔ s.Holds key' runId' :=
        or_congr records Iff.rfl
      rw [holds]
      constructor
      · rintro ⟨-, h | ⟨-, eq⟩⟩
        · exact h
        · exact absurd eq same
      · intro h
        refine ⟨?_, .inl h⟩
        rintro rfl
        exact same (owned.eq_of_holds h held)
  · show Function.update s.runs runId _ a.runId = none
    rw [Function.update_of_ne (unrecorded a mem fa)]
    exact owned.unrecorded a mem fa

/-- A sweep that spares the admissions in flight does nothing. -/
theorem Owned.sweep (owned : Owned s) {key : LeaseKey}
    (spares : ∀ a ∈ s.admissions, a.inFlight = true → a.leaseKey ≠ key) :
    s.releaseOrphanedLease key = s := by
  unfold releaseOrphanedLease
  split
  · rfl
  · next runId lease =>
      obtain ⟨rec, recorded, -⟩ | ⟨a, mem, fa, eq, -⟩ := (owned.leased _ _).mp lease
      · simp [recorded]
      · exact absurd eq (spares a mem fa)

theorem Owned.step (owned : Owned s) {a : SupervisorAction} (alone : s.startsAlone a = true)
    (next : s.step a = some s') : Owned s' := by
  cases a with
  | pause paused =>
      obtain rfl := Option.some.inj next
      exact ⟨owned.leased, owned.unrecorded, owned.single⟩
  | acquire recovery runId record reserved =>
      obtain ⟨unrecorded, grounded⟩ := Bool.and_eq_true_iff.mp alone
      simp only [SupervisorState.step, Option.ite_none_right_eq_some] at next
      obtain ⟨admitted, eq⟩ := next
      obtain rfl := Option.some.inj eq
      exact owned.admit admitted rfl rfl (Option.isNone_iff_eq_none.mp unrecorded) grounded
  | reattach runId record restored reserved =>
      simp only [SupervisorState.step] at next
      split at next
      · next record' _ =>
          rw [Option.ite_none_right_eq_some] at next
          obtain ⟨⟨unrecorded, admitted⟩, eq⟩ := next
          obtain rfl := Option.some.inj eq
          exact owned.admit admitted rfl rfl unrecorded alone
      · cases next
  | spawn i =>
      simp only [SupervisorState.step] at next
      split at next
      · next admission there =>
          rw [Option.ite_none_right_eq_some] at next
          obtain ⟨phase, eq⟩ := next
          obtain rfl := Option.some.inj eq
          exact owned.stay there (by simp [Admission.inFlight, phase]) rfl
      · cases next
  | record i =>
      simp only [SupervisorState.step] at next
      split at next
      · next admission there =>
          rw [Option.ite_none_right_eq_some] at next
          obtain ⟨phase, eq⟩ := next
          obtain rfl := Option.some.inj eq
          exact owned.record there (by simp [Admission.inFlight, phase])
      · cases next
  | drop i locked =>
      simp only [SupervisorState.step] at next
      split at next
      · next admission there =>
          rw [Option.ite_none_right_eq_some] at next
          obtain ⟨phase, eq⟩ := next
          have flying : admission.inFlight = true := by
            obtain phase | phase := phase <;> simp [Admission.inFlight, phase]
          split at eq
          · obtain rfl := Option.some.inj eq
            exact owned.stay there flying rfl
          · obtain rfl := Option.some.inj eq
            exact owned.leave there flying _
      · cases next
  | cleanup i =>
      simp only [SupervisorState.step] at next
      split at next
      · next admission there =>
          split at next
          · next started phase =>
              obtain rfl := Option.some.inj next
              exact owned.leave there (by simp [Admission.inFlight, phase]) started
          · cases next
      · cases next
  | release runId =>
      simp only [SupervisorState.step] at next
      split at next
      · next rec recorded =>
          obtain rfl := Option.some.inj next
          exact owned.release recorded
      · cases next
  | releaseOrphanedLease projectId taskId kind =>
      obtain rfl := Option.some.inj next
      rw [owned.sweep fun a mem fa => by simpa [fa] using List.all_eq_true.mp alone a mem]
      exact owned
  | claimManagerTerminal projectId runId =>
      simp only [SupervisorState.step, claimManagerTerminal] at next
      split at next
      · cases next
      · next rec recorded =>
          rw [Option.ite_none_right_eq_some] at next
          obtain ⟨⟨-, -, -, -, free, -⟩, eq⟩ := next
          obtain rfl := Option.some.inj eq
          exact owned.exchange recorded free
  | unclaimManagerTerminal projectId runId =>
      simp only [SupervisorState.step, unclaimManagerTerminal] at next
      split at next
      · cases next
      · next rec recorded =>
          split at next
          · cases next
          · next originalTaskId _ =>
              rw [Option.ite_none_right_eq_some] at next
              obtain ⟨⟨-, -, admitted⟩, eq⟩ := next
              obtain rfl := Option.some.inj eq
              exact owned.exchange recorded (free_of_admits_acquire admitted)

/-! ### Every run -/

/-- One live run a key, whose lease it has; every other lease is that of an admission in flight,
and then no other run is admitted for its key. -/
structure Exclusive (s : SupervisorState) : Prop where
  oneLive : ∀ {runId runId' : Text} {rec rec' : RunRecord}, s.runs runId = some rec →
    s.runs runId' = some rec' → rec.leaseKey = rec'.leaseKey → runId = runId'
  leased : ∀ {runId : Text} {rec : RunRecord}, s.runs runId = some rec →
    s.leases rec.leaseKey = some runId
  owned : ∀ {key : LeaseKey} {runId : Text}, s.leases key = some runId →
    (∃ rec : RunRecord, s.runs runId = some rec ∧ rec.leaseKey = key) ∨
      ∃ admission ∈ s.admissions, admission.inFlight = true ∧ admission.leaseKey = key ∧
        admission.runId = runId
  closed : ∀ admission ∈ s.admissions, admission.inFlight = true → ∀ req : LiveRunAdmission,
    req.leaseKey = admission.leaseKey → req.runId ≠ admission.runId → s.admits req = false

theorem not_admits_of_leased {req : LiveRunAdmission} (runId : Text)
    (lease : s.leases req.leaseKey = some runId) (other : req.runId ≠ runId) :
    s.admits req = false := by
  unfold admits preflightLiveRun
  rw [lease]
  cases s.acquisitionPaused
  · cases req.path
    · rfl
    · simp [other.symm]
      rfl
  · rfl

theorem Owned.exclusive (owned : Owned s) : Exclusive s where
  oneLive := fun {runId runId' rec rec'} h h' same =>
    owned.eq_of_holds (.inl ⟨rec, h, same⟩) (.inl ⟨rec', h', rfl⟩)
  leased := fun {runId rec} h => (owned.leased _ _).mpr (.inl ⟨rec, h, rfl⟩)
  owned := fun h => (owned.leased _ _).mp h
  closed := fun admission mem flying req key other => by
    refine not_admits_of_leased admission.runId ?_ other
    rw [key]
    exact (owned.leased _ _).mpr (.inr ⟨admission, mem, flying, rfl, rfl⟩)

theorem owned_of_reaches {cond : SupervisorState → SupervisorAction → Prop}
    (alone : ∀ s a, cond s a → s.startsAlone a = true) (h : Reaches step cond start s) : Owned s :=
  h.invariant (fun {s _ a} meets next owned => owned.step (alone s a meets) next) start_owned

/-- **Lease exclusion.**  It holds in every state of a run in which no admission begins for a run
that is recorded or in flight, and no lease of an admission in flight is swept. -/
theorem lease_exclusion (h : Reaches step (fun s a => s.startsAlone a = true) start s) :
    Exclusive s :=
  (owned_of_reaches (fun _ _ => id) h).exclusive

namespace Sweep

def runA : Text := "run-a".toList

def runB : Text := "run-b".toList

def worker : RunRecord := ⟨some "p".toList, "t".toList, .worker, "worker".toList, "tmux".toList, none⟩

/-- The lease of the first run is swept before its record is inserted. -/
def twoRuns : List SupervisorAction :=
  [.acquire false runA worker false, .releaseOrphanedLease "p".toList "t".toList .worker,
    .acquire false runB worker false, .spawn 0, .spawn 1, .record 0, .record 1]

/-- The second run is admitted after the first is released, whose lease is swept in vain. -/
def oneByOne : List SupervisorAction :=
  [.acquire false runA worker false, .spawn 0, .record 0,
    .releaseOrphanedLease "p".toList "t".toList .worker, .release runA,
    .acquire false runB worker false]

end Sweep

open Sweep in
/-- `lease_exclusion` for one run after the other. -/
theorem lease_exclusion_sample : ∃ s : SupervisorState,
    s.leases worker.leaseKey = some runB ∧ Exclusive s := by
  have result : (run (fun s a => if s.startsAlone a then s.step a else none) start oneByOne).map
      (fun s => s.leases worker.leaseKey) = some (some runB) := by
    decide
  obtain ⟨s, run, lease⟩ := Option.map_eq_some_iff.mp result
  exact ⟨s, lease, lease_exclusion (reaches_of_checked (fun _ _ h => h) run)⟩

open Sweep in
/-- After a sweep in the gap, two live runs have one key. -/
theorem lease_exclusion_fails : ∃ s : SupervisorState,
    Reaches step (fun _ _ => True) start s ∧ s.runs runA = some worker ∧
      s.runs runB = some worker ∧ ¬Exclusive s := by
  have result : (run step start twoRuns).map (fun s => (s.runs runA, s.runs runB)) =
      some (some worker, some worker) := by
    decide
  obtain ⟨s, run, eq⟩ := Option.map_eq_some_iff.mp result
  obtain ⟨first, second⟩ := Prod.mk.inj eq
  refine ⟨s, reaches_of_run (fun _ _ _ => trivial) run, first, second, fun exclusive => ?_⟩
  have same := exclusive.oneLive first second rfl
  revert same
  decide

end SupervisorState

end Orgasmic
