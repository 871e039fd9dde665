import Orgasmic.ManagerRegistry

/-! # Which external managers are watched

A live run of the external driver that no entry names is out of the sweeps' reach and keeps the
project's manager lease for ever. A sweep that took its snapshot before a registration drops the
new entry as stale. Where no sweep does that, every such run is named by its project's entry, is
about to be released by the call or sweep that has taken its entry, or is being released. -/

namespace Orgasmic

open Std

/-! ### Snapshots and releases -/

/-- The run is live under the external driver. -/
def ExternalRun (runs : TreeMap Text ManagedRun) (runId : Text) : Prop :=
  ∃ run : ManagedRun, runs[runId]? = some run ∧ run.driver = EXTERNAL

theorem liveExternal_snapshotOf {runs : TreeMap Text ManagedRun} {runId : Text} :
    liveExternal (snapshotOf runs) runId ↔ ExternalRun runs runId := by
  simp only [liveExternal, snapshotOf, List.any_map, List.any_eq_true, Function.comp_apply,
    Bool.and_eq_true, decide_eq_true_eq, Prod.exists, TreeMap.mem_toList_iff_getElem?_eq_some]
  constructor
  · rintro ⟨id, run, live, rfl, driver⟩
    exact ⟨run, live, driver⟩
  · rintro ⟨run, live, driver⟩
    exact ⟨runId, run, live, rfl, driver⟩

/-- A release in the supervisor changes no run but for its mark. -/
theorem getElem?_beginRelease {runs : TreeMap Text ManagedRun} {runId id : Text} {run : ManagedRun}
    (h : (beginRelease runs runId)[id]? = some run) :
    ∃ old, runs[id]? = some old ∧ run.project = old.project ∧ run.driver = old.driver ∧
      (old.releasing → run.releasing) ∧ (id = runId → run.releasing) := by
  unfold beginRelease at h
  split at h
  · next gone =>
      refine ⟨run, h, rfl, rfl, fun r => r, ?_⟩
      rintro rfl
      rw [gone] at h
      contradiction
  · next old live =>
      split at h
      · next marked =>
          refine ⟨run, h, rfl, rfl, fun r => r, ?_⟩
          rintro rfl
          rw [live] at h
          exact Option.some.inj h ▸ marked
      · by_cases same : runId = id
        · subst same
          rw [TreeMap.getElem?_insert_self] at h
          obtain rfl := Option.some.inj h
          exact ⟨old, live, rfl, rfl, fun _ => rfl, fun _ => rfl⟩
        · rw [TreeMap.getElem?_insert, if_neg (by rwa [LawfulEqCmp.compare_eq_iff_eq])] at h
          exact ⟨run, h, rfl, rfl, fun r => r, fun eq => absurd eq.symm same⟩

/-! ### Reconciling -/

/-- What `reconcileLocked` does to a registry. -/
theorem reconcileLocked_cases (snapshot : List RunSummary) (registry : TreeMap Text Registration)
    (project : Text) :
    (registry[project]? = none ∧ reconcileLocked snapshot registry project = (registry, none)) ∨
    (∃ entry, registry[project]? = some entry ∧ liveExternal snapshot entry.runId ∧
      reconcileLocked snapshot registry project = (registry, some entry)) ∨
    (∃ entry, registry[project]? = some entry ∧ ¬ liveExternal snapshot entry.runId ∧
      reconcileLocked snapshot registry project = (registry.erase project, none)) := by
  unfold reconcileLocked
  cases found : registry[project]? with
  | none => exact .inl ⟨rfl, rfl⟩
  | some entry =>
      by_cases live : liveExternal snapshot entry.runId
      · exact .inr (.inl ⟨entry, rfl, live, by simp [live]⟩)
      · exact .inr (.inr ⟨entry, rfl, live, by simp [live]⟩)

/-! ### The invariant -/

/-- The entry of the run's project names the run. -/
def Named (s : ManagerState) (runId : Text) (run : ManagedRun) : Prop :=
  ∃ entry : Registration, s.registry[run.project]? = some entry ∧ entry.runId = runId

/-- A sweep is about to release the run. -/
def Queued (s : ManagerState) (runId : Text) : Prop :=
  ∃ queue, SweepPhase.releasing queue ∈ s.sweeps ∧ runId ∈ queue

/-- Some part of the registry still knows of the run. -/
def Tracked (s : ManagerState) (runId : Text) (run : ManagedRun) : Prop :=
  Named s runId run ∨ run.releasing ∨ Queued s runId ∨ runId ∈ s.releases ∨
    ∃ pid token, s.call = some (.register run.project pid token (.acquired runId))

/-- The call's snapshot shows every live run that the project's entry names. -/
def Shows (s : ManagerState) (project : Text) (snapshot : List RunSummary) : Prop :=
  ∀ entry : Registration, s.registry[project]? = some entry →
    ExternalRun s.runs entry.runId → liveExternal snapshot entry.runId

/-- What a call that holds the lock knows. -/
def CallKnows (s : ManagerState) : Prop :=
  match s.call with
  | none => True
  | some (.register project _ _ phase) =>
      match phase with
      | .locked => True
      | .snapshotted snapshot => Shows s project snapshot
      | .acquiring => s.registry[project]? = none
      | .acquired _ => s.registry[project]? = none
  | some (.release project phase) =>
      match phase with
      | .locked => True
      | .snapshotted snapshot => Shows s project snapshot

structure WatchInv (s : ManagerState) : Prop where
  issued : ∀ (runId : Text) (run : ManagedRun), s.runs[runId]? = some run → runId ∈ s.issued
  knows : CallKnows s
  tracked : ∀ (runId : Text) (run : ManagedRun), s.runs[runId]? = some run →
    run.driver = EXTERNAL → Tracked s runId run

/-- A sweep goes through the entries with a snapshot that shows every live run that an entry
names. -/
def FreshSweep (s : ManagerState) : ManagerAction → Prop
  | .sweepRetain sweep _ =>
      ∀ snapshot now, s.sweeps[sweep]? = some (.snapshotted snapshot now) →
        ∀ project, Shows s project snapshot
  | _ => True

/-! ### What the actions keep -/

section steps

variable {s t : ManagerState}

/-- An action of the supervisor alone: the runs it leaves were there, marked at least as before. -/
theorem WatchInv.of_runs (inv : WatchInv s) {runs : TreeMap Text ManagedRun} {issued : List Text}
    (fresh : ∀ (id : Text) (run : ManagedRun), runs[id]? = some run → id ∈ issued)
    (old : ∀ (id : Text) (run : ManagedRun), runs[id]? = some run → run.driver = EXTERNAL →
      ∃ was : ManagedRun, s.runs[id]? = some was ∧ was.project = run.project ∧
        was.driver = EXTERNAL ∧ (was.releasing → run.releasing)) :
    WatchInv { s with runs := runs, issued := issued } where
  issued := fresh
  knows := by
    have shows : ∀ {project snapshot}, Shows s project snapshot →
        Shows { s with runs := runs, issued := issued } project snapshot := by
      intro project snapshot h entry found live
      obtain ⟨run, live, driver⟩ := live
      obtain ⟨was, wlive, -, wdriver, -⟩ := old _ run live driver
      exact h entry found ⟨was, wlive, wdriver⟩
    have knows := inv.knows
    unfold CallKnows at knows ⊢
    cases call : s.call with
    | none => trivial
    | some c =>
        rw [call] at knows
        cases c with
        | register project pid token phase =>
            cases phase with
            | snapshotted snapshot => exact shows knows
            | _ => exact knows
        | release project phase =>
            cases phase with
            | snapshotted snapshot => exact shows knows
            | locked => trivial
  tracked id run live driver := by
    obtain ⟨was, wlive, project, wdriver, mark⟩ := old id run live driver
    rcases inv.tracked id was wlive wdriver with named | releasing | rest
    · left
      unfold Named at named ⊢
      rwa [project] at named
    · exact .inr (.inl (mark releasing))
    · rw [project] at rest
      exact .inr (.inr rest)

/-- The runs of the supervisor when a release begins. -/
theorem WatchInv.of_beginRelease (inv : WatchInv s) (runId : Text) :
    WatchInv { s with runs := beginRelease s.runs runId } := by
  refine inv.of_runs ?_ ?_
  · intro id run live
    obtain ⟨was, wlive, -⟩ := getElem?_beginRelease live
    exact inv.issued id was wlive
  · intro id run live driver
    obtain ⟨was, wlive, project, same, mark, -⟩ := getElem?_beginRelease live
    exact ⟨was, wlive, project.symm, same ▸ driver, mark⟩

/-- A call that holds the lock keeps the rest of the state. -/
theorem WatchInv.of_call (inv : WatchInv s) {call : Option RegistryCall}
    (kept : ∀ project pid token runId, s.call = some (.register project pid token (.acquired runId)) →
      False)
    (knows : CallKnows { s with call := call }) : WatchInv { s with call := call } where
  issued := inv.issued
  knows := knows
  tracked id run live driver := by
    rcases inv.tracked id run live driver with h | h | h | h | ⟨pid, token, held⟩
    · exact .inl h
    · exact .inr (.inl h)
    · exact .inr (.inr (.inl h))
    · exact .inr (.inr (.inr (.inl h)))
    · exact (kept _ _ _ _ held).elim

/-- Another lookup after one entry has changed. -/
theorem insert_of_ne {registry : TreeMap Text Registration} {project other : Text}
    {entry : Registration} (h : other ≠ project) :
    (registry.insert project entry)[other]? = registry[other]? := by
  rw [TreeMap.getElem?_insert, if_neg]
  rw [LawfulEqCmp.compare_eq_iff_eq]
  exact h.symm

theorem erase_of_ne {registry : TreeMap Text Registration} {project other : Text}
    (h : other ≠ project) : (registry.erase project)[other]? = registry[other]? := by
  rw [TreeMap.getElem?_erase, if_neg]
  rw [LawfulEqCmp.compare_eq_iff_eq]
  exact h.symm

/-- The lock is given back with a registry that still names what it named of the live runs. -/
theorem WatchInv.unlock (inv : WatchInv s) {registry : TreeMap Text Registration}
    {releases : List Text} (more : ∀ id ∈ s.releases, id ∈ releases)
    (kept : ∀ (id : Text) (run : ManagedRun), s.runs[id]? = some run → run.driver = EXTERNAL →
      (Named s id run ∨ ∃ pid token, s.call = some (.register run.project pid token (.acquired id))) →
      (∃ entry : Registration, registry[run.project]? = some entry ∧ entry.runId = id) ∨
        id ∈ releases) :
    WatchInv { s with registry := registry, releases := releases, call := none } where
  issued := inv.issued
  knows := trivial
  tracked id run live driver := by
    have settle : ∀ h, Tracked { s with registry := registry, releases := releases, call := none }
        id run := fun h => by
      rcases kept id run live driver h with named | taken
      · exact .inl named
      · exact .inr (.inr (.inr (.inl taken)))
    rcases inv.tracked id run live driver with named | releasing | queued | taken | acquired
    · exact settle (.inl named)
    · exact .inr (.inl releasing)
    · exact .inr (.inr (.inl queued))
    · exact .inr (.inr (.inr (.inl (more id taken))))
    · exact settle (.inr acquired)

/-- The entries that `reconcileLocked` drops name no live run. -/
theorem named_of_reconcile {project : Text} {snapshot : List RunSummary}
    (shows : Shows s project snapshot) {id : Text} {run : ManagedRun}
    (live : s.runs[id]? = some run) (driver : run.driver = EXTERNAL) (named : Named s id run) :
    ∃ entry : Registration,
      (reconcileLocked snapshot s.registry project).1[run.project]? = some entry ∧
        entry.runId = id := by
  obtain ⟨entry, found, rfl⟩ := named
  obtain ⟨-, eq⟩ | ⟨_, -, -, eq⟩ | ⟨own, here, gone, eq⟩ :=
    reconcileLocked_cases snapshot s.registry project
  · exact ⟨entry, by rw [eq]; exact found, rfl⟩
  · exact ⟨entry, by rw [eq]; exact found, rfl⟩
  · have apart : run.project ≠ project := by
      intro same
      rw [same, here] at found
      obtain rfl := Option.some.inj found
      exact gone (shows own here ⟨run, live, driver⟩)
    refine ⟨entry, ?_, rfl⟩
    rw [eq, erase_of_ne apart]
    exact found

theorem WatchInv.registerReconcile (inv : WatchInv s)
    (h : s.step .registerReconcile = some t) : WatchInv t := by
  simp only [ManagerState.step] at h
  split at h
  · next project pid token snapshot call =>
      have shows : Shows s project snapshot := by
        have knows := inv.knows
        rw [CallKnows, call] at knows
        exact knows
      have idle : ∀ (id : Text) (run : ManagedRun), ¬ ∃ pid token,
          s.call = some (.register run.project pid token (.acquired id)) := by
        rintro id run ⟨pid', token', held⟩
        rw [call] at held
        simp at held
      split at h
      · next registry existing eq =>
          obtain ⟨-, none⟩ | ⟨entry, here, -, some⟩ | ⟨_, -, -, none⟩ :=
            reconcileLocked_cases snapshot s.registry project
          · simp [none] at eq
          · rw [some, Prod.mk.injEq, Option.some.injEq] at eq
            obtain ⟨rfl, rfl⟩ := eq
            split at h
            · obtain rfl := Option.some.inj h
              refine inv.unlock (fun _ m => m) fun id run live driver known => .inl ?_
              obtain ⟨own, found, rfl⟩ := known.resolve_right (idle id run)
              by_cases same : run.project = project
              · rw [same, here] at found
                obtain rfl := Option.some.inj found
                refine ⟨⟨entry.runId, pid, entry.holderToken, expiry pid s.now⟩, ?_, rfl⟩
                rw [same, TreeMap.getElem?_insert_self]
              · exact ⟨own, by rw [insert_of_ne same]; exact found, rfl⟩
            · obtain rfl := Option.some.inj h
              exact inv.unlock (fun _ m => m) fun id run live driver known =>
                .inl (known.resolve_right (idle id run))
          · simp [none] at eq
      · next registry eq =>
          obtain rfl := Option.some.inj h
          have named := fun id run live driver (n : Named s id run) =>
            named_of_reconcile shows live driver n
          rw [eq] at named
          refine ⟨inv.issued, ?_, ?_⟩
          · obtain ⟨free, none⟩ | ⟨_, -, -, some⟩ | ⟨_, -, -, none⟩ :=
              reconcileLocked_cases snapshot s.registry project
            · rw [none, Prod.mk.injEq] at eq
              obtain ⟨rfl, -⟩ := eq
              exact free
            · simp [some] at eq
            · rw [none, Prod.mk.injEq] at eq
              obtain ⟨rfl, -⟩ := eq
              exact TreeMap.getElem?_erase_self
          · intro id run live driver
            rcases inv.tracked id run live driver with n | releasing | queued | taken | acquired
            · exact .inl (named id run live driver n)
            · exact .inr (.inl releasing)
            · exact .inr (.inr (.inl queued))
            · exact .inr (.inr (.inr (.inl taken)))
            · exact (idle id run acquired).elim
  · contradiction

theorem WatchInv.registerInsert (inv : WatchInv s) {token : Text}
    (h : s.step (.registerInsert token) = some t) : WatchInv t := by
  simp only [ManagerState.step] at h
  split at h
  · next project pid _ runId call =>
      obtain rfl := Option.some.inj h
      have free : s.registry[project]? = none := by
        have knows := inv.knows
        rw [CallKnows, call] at knows
        exact knows
      refine inv.unlock (fun _ m => m) fun id run live driver known => .inl ?_
      rcases known with ⟨entry, found, rfl⟩ | ⟨pid', token', held⟩
      · have apart : run.project ≠ project := by
          intro same
          rw [same, free] at found
          contradiction
        exact ⟨entry, by rw [insert_of_ne apart]; exact found, rfl⟩
      · rw [call] at held
        simp only [Option.some.injEq, RegistryCall.register.injEq, RegisterPhase.acquired.injEq]
          at held
        obtain ⟨same, -, -, rfl⟩ := held
        refine ⟨⟨runId, pid, if pid.isNone then some token else none, expiry pid s.now⟩, ?_, rfl⟩
        rw [same, TreeMap.getElem?_insert_self]
  · contradiction

theorem WatchInv.releaseRemove (inv : WatchInv s)
    (h : s.step .releaseRemove = some t) : WatchInv t := by
  simp only [ManagerState.step] at h
  split at h
  · next project snapshot call =>
      have shows : Shows s project snapshot := by
        have knows := inv.knows
        rw [CallKnows, call] at knows
        exact knows
      have idle : ∀ (id : Text) (run : ManagedRun), ¬ ∃ pid token,
          s.call = some (.register run.project pid token (.acquired id)) := by
        rintro id run ⟨pid', token', held⟩
        rw [call] at held
        simp at held
      split at h
      · next registry eq =>
          obtain rfl := Option.some.inj h
          refine inv.unlock (fun _ m => m) fun id run live driver known => .inl ?_
          have named := named_of_reconcile shows live driver (known.resolve_right (idle id run))
          rw [eq] at named
          exact named
      · next registry entry eq =>
          obtain rfl := Option.some.inj h
          refine inv.unlock (fun _ m => List.mem_cons_of_mem _ m) fun id run live driver known => ?_
          obtain ⟨own, found, rfl⟩ :=
            named_of_reconcile shows live driver (known.resolve_right (idle id run))
          rw [eq] at found
          -- the entry that is removed is the one whose run the call releases
          by_cases same : run.project = project
          · right
            obtain ⟨-, none⟩ | ⟨here, at_, -, some⟩ | ⟨_, -, -, none⟩ :=
              reconcileLocked_cases snapshot s.registry project
            · simp [none] at eq
            · rw [some, Prod.mk.injEq, Option.some.injEq] at eq
              obtain ⟨rfl, rfl⟩ := eq
              rw [same, at_] at found
              obtain rfl := Option.some.inj found
              exact List.mem_cons_self
            · simp [none] at eq
          · left
            refine ⟨own, ?_, rfl⟩
            rw [erase_of_ne same]
            exact found
  · contradiction

theorem WatchInv.releaseRun (inv : WatchInv s) {runId : Text}
    (h : s.step (.releaseRun runId) = some t) : WatchInv t := by
  simp only [ManagerState.step] at h
  split at h
  · obtain rfl := Option.some.inj h
    have next := inv.of_beginRelease runId
    refine ⟨next.issued, next.knows, fun id run live driver => ?_⟩
    rcases next.tracked id run live driver with named | releasing | queued | taken | acquired
    · exact .inl named
    · exact .inr (.inl releasing)
    · exact .inr (.inr (.inl queued))
    · by_cases same : id = runId
      · obtain ⟨_, -, -, -, -, marked⟩ := getElem?_beginRelease live
        exact .inr (.inl (marked same))
      · exact .inr (.inr (.inr (.inl ((List.mem_erase_of_ne same).mpr taken))))
    · exact .inr (.inr (.inr (.inr acquired)))
  · contradiction

/-! ### Sweeps -/

/-- Sweeps that keep what is queued but for the runs now marked. -/
theorem WatchInv.of_sweeps (inv : WatchInv s) {sweeps : List SweepPhase}
    (kept : ∀ (id : Text) (run : ManagedRun), s.runs[id]? = some run → Queued s id →
      run.releasing ∨ Queued { s with sweeps := sweeps } id) :
    WatchInv { s with sweeps := sweeps } where
  issued := inv.issued
  knows := inv.knows
  tracked id run live driver := by
    rcases inv.tracked id run live driver with named | releasing | queued | rest
    · exact .inl named
    · exact .inr (.inl releasing)
    · exact .inr ((kept id run live queued).imp_right .inl)
    · exact .inr (.inr (.inr rest))

theorem mem_set_of_ne {α : Type} {xs : List α} {i : ℕ} {a b c : α} (at_ : xs[i]? = some a)
    (hb : b ∈ xs) (apart : b ≠ a) : b ∈ xs.set i c := by
  obtain ⟨j, hj⟩ := List.mem_iff_getElem?.mp hb
  have : i ≠ j := by
    rintro rfl
    exact apart (Option.some.inj (hj.symm.trans at_))
  rw [List.mem_iff_getElem?]
  exact ⟨j, by rw [List.getElem?_set_ne this]; exact hj⟩

theorem mem_set_self {α : Type} {xs : List α} {i : ℕ} {a c : α} (at_ : xs[i]? = some a) :
    c ∈ xs.set i c := by
  obtain ⟨hi, -⟩ := List.getElem?_eq_some_iff.mp at_
  rw [List.mem_iff_getElem?]
  exact ⟨i, by rw [List.getElem?_set_self hi]⟩

theorem WatchInv.sweepRetain (inv : WatchInv s) {sweep : ℕ} {exited : List ℕ}
    (fresh : FreshSweep s (.sweepRetain sweep exited))
    (h : s.step (.sweepRetain sweep exited) = some t) : WatchInv t := by
  simp only [ManagerState.step] at h
  split at h
  · next snapshot now call at_ =>
      obtain rfl := Option.some.inj h
      have shows := fresh snapshot now at_
      refine ⟨inv.issued, by simp only [CallKnows, call], fun id run live driver => ?_⟩
      rcases inv.tracked id run live driver with named | releasing | queued | taken | acquired
      · obtain ⟨entry, found, rfl⟩ := named
        have seen := shows run.project entry found ⟨run, live, driver⟩
        by_cases gone : holderGone exited now entry
        · refine .inr (.inr (.inl ⟨_, mem_set_self at_, ?_⟩))
          simp only [toRelease, List.mem_filterMap, List.mem_map, Prod.exists]
          refine ⟨entry, ⟨run.project, entry, ?_, rfl⟩, by simp [seen, gone]⟩
          exact TreeMap.mem_toList_iff_getElem?_eq_some.mpr found
        · left
          refine ⟨entry, ?_, rfl⟩
          rw [TreeMap.getElem?_filter', found]
          simp [retained, seen, gone]
      · exact .inr (.inl releasing)
      · obtain ⟨queue, mem, hid⟩ := queued
        refine .inr (.inr (.inl ⟨queue, mem_set_of_ne at_ mem ?_, hid⟩))
        simp
      · exact .inr (.inr (.inr (.inl taken)))
      · obtain ⟨pid, token, held⟩ := acquired
        rw [call] at held
        contradiction
  · contradiction

theorem WatchInv.sweepRelease (inv : WatchInv s) {sweep : ℕ}
    (h : s.step (.sweepRelease sweep) = some t) : WatchInv t := by
  simp only [ManagerState.step] at h
  split at h
  · next runId queue at_ =>
      obtain rfl := Option.some.inj h
      refine (inv.of_beginRelease runId).of_sweeps ?_
      rintro id run live ⟨queued, mem, hid⟩
      by_cases same : id = runId
      · obtain ⟨_, -, -, -, -, marked⟩ := getElem?_beginRelease live
        exact .inl (marked same)
      · right
        by_cases own : SweepPhase.releasing queued = .releasing (runId :: queue)
        · obtain rfl := SweepPhase.releasing.inj own
          exact ⟨queue, mem_set_self at_, (List.mem_cons.mp hid).resolve_left same⟩
        · exact ⟨queued, mem_set_of_ne at_ mem own, hid⟩
  · contradiction

theorem WatchInv.sweepEnd (inv : WatchInv s) {sweep : ℕ}
    (h : s.step (.sweepEnd sweep) = some t) : WatchInv t := by
  simp only [ManagerState.step] at h
  split at h
  · next at_ =>
      obtain rfl := Option.some.inj h
      refine inv.of_sweeps ?_
      rintro id run - ⟨queue, mem, hid⟩
      right
      refine ⟨queue, ?_, hid⟩
      obtain ⟨i, hi⟩ := List.mem_iff_getElem?.mp mem
      have apart : i ≠ sweep := by
        rintro rfl
        rw [at_] at hi
        obtain rfl := SweepPhase.releasing.inj (Option.some.inj hi)
        contradiction
      exact List.mem_eraseIdx_iff_getElem?.mpr ⟨i, apart, hi⟩
  · contradiction

/-! ### Every action -/

theorem WatchInv.startRun (inv : WatchInv s) {runId project driver : Text}
    (h : s.step (.startRun runId project driver) = some t) : WatchInv t := by
  simp only [ManagerState.step] at h
  split at h
  · contradiction
  · next fresh =>
      obtain rfl := Option.some.inj h
      rw [not_or] at fresh
      refine inv.of_runs ?_ ?_
      · intro id run live
        by_cases same : id = runId
        · exact same ▸ List.mem_cons_self
        · rw [TreeMap.getElem?_insert, if_neg (by rwa [LawfulEqCmp.compare_eq_iff_eq, eq_comm])]
            at live
          exact List.mem_cons_of_mem _ (inv.issued id run live)
      · intro id run live external
        by_cases same : id = runId
        · subst same
          rw [TreeMap.getElem?_insert_self] at live
          obtain rfl := Option.some.inj live
          exact absurd external fresh.2
        · rw [TreeMap.getElem?_insert, if_neg (by rwa [LawfulEqCmp.compare_eq_iff_eq, eq_comm])]
            at live
          exact ⟨run, live, rfl, external, fun r => r⟩

theorem WatchInv.endRelease (inv : WatchInv s) {runId : Text}
    (h : s.step (.endRelease runId) = some t) : WatchInv t := by
  have old : ∀ {id : Text} {run : ManagedRun}, (s.runs.erase runId)[id]? = some run →
      s.runs[id]? = some run := by
    intro id run live
    rw [TreeMap.getElem?_erase] at live
    split at live
    · contradiction
    · exact live
  simp only [ManagerState.step] at h
  split at h
  · contradiction
  · split at h
    · obtain rfl := Option.some.inj h
      refine inv.of_runs (fun id run live => inv.issued id run (old live)) ?_
      exact fun id run live external => ⟨run, old live, rfl, external, fun r => r⟩
    · contradiction

theorem WatchInv.registerAcquire (inv : WatchInv s) {outcome : AcquireOutcome}
    (h : s.step (.registerAcquire outcome) = some t) : WatchInv t := by
  simp only [ManagerState.step] at h
  split at h
  · next project pid token call =>
      have idle : ∀ project pid token runId,
          s.call = some (.register project pid token (.acquired runId)) → False := by
        intro _ _ _ _ held
        rw [call] at held
        simp at held
      cases outcome with
      | leaseHeld =>
          obtain rfl := Option.some.inj h
          exact inv.of_call idle trivial
      | failed =>
          obtain rfl := Option.some.inj h
          exact inv.of_call idle trivial
      | ok runId =>
          dsimp only at h
          split at h
          · contradiction
          · next fresh =>
              obtain rfl := Option.some.inj h
              have free : s.registry[project]? = none := by
                have knows := inv.knows
                rw [CallKnows, call] at knows
                exact knows
              refine ⟨?_, free, ?_⟩
              · intro id run live
                by_cases same : id = runId
                · exact same ▸ List.mem_cons_self
                · rw [TreeMap.getElem?_insert,
                    if_neg (by rwa [LawfulEqCmp.compare_eq_iff_eq, eq_comm])] at live
                  exact List.mem_cons_of_mem _ (inv.issued id run live)
              · intro id run live driver
                by_cases same : id = runId
                · subst same
                  rw [TreeMap.getElem?_insert_self] at live
                  obtain rfl := Option.some.inj live
                  exact .inr (.inr (.inr (.inr ⟨pid, token, rfl⟩)))
                · rw [TreeMap.getElem?_insert,
                    if_neg (by rwa [LawfulEqCmp.compare_eq_iff_eq, eq_comm])] at live
                  rcases inv.tracked id run live driver with
                    named | releasing | queued | taken | ⟨pid', token', held⟩
                  · exact .inl named
                  · exact .inr (.inl releasing)
                  · exact .inr (.inr (.inl queued))
                  · exact .inr (.inr (.inr (.inl taken)))
                  · exact (idle _ _ _ _ held).elim
  · contradiction

/-- A call that waits for the lock takes it, or takes its snapshot. -/
theorem WatchInv.waits (inv : WatchInv s) {call : RegistryCall}
    (before : s.call = none ∨ (∃ project pid token, s.call = some (.register project pid token .locked))
      ∨ ∃ project, s.call = some (.release project .locked))
    (knows : CallKnows { s with call := some call }) : WatchInv { s with call := some call } := by
  refine inv.of_call ?_ knows
  intro project pid token runId held
  obtain free | ⟨_, _, _, locked⟩ | ⟨_, locked⟩ := before
  · rw [free] at held
    contradiction
  · rw [locked] at held
    simp at held
  · rw [locked] at held
    simp at held

/-- A snapshot shows what is live when it is taken. -/
theorem shows_snapshotOf (s : ManagerState) (project : Text) (call : Option RegistryCall) :
    Shows { s with call := call } project (snapshotOf s.runs) :=
  fun _ _ live => liveExternal_snapshotOf.mpr live

/-- **What one action keeps.** -/
theorem WatchInv.step {a : ManagerAction} (fresh : FreshSweep s a) (h : s.step a = some t)
    (inv : WatchInv s) : WatchInv t := by
  cases a with
  | startRun runId project driver => exact inv.startRun h
  | beginRelease runId =>
      obtain rfl := Option.some.inj h
      exact inv.of_beginRelease runId
  | endRelease runId => exact inv.endRelease h
  | tick =>
      obtain rfl := Option.some.inj h
      exact ⟨inv.issued, inv.knows, inv.tracked⟩
  | registerLock project pid token =>
      simp only [ManagerState.step] at h
      split at h
      · contradiction
      · next free =>
          obtain rfl := Option.some.inj h
          exact inv.waits (.inl free) trivial
  | registerSnapshot =>
      simp only [ManagerState.step] at h
      split at h
      · next project pid token locked =>
          obtain rfl := Option.some.inj h
          exact inv.waits (.inr (.inl ⟨project, pid, token, locked⟩)) (shows_snapshotOf s project _)
      · contradiction
  | registerReconcile => exact inv.registerReconcile h
  | registerAcquire outcome => exact inv.registerAcquire h
  | registerInsert token => exact inv.registerInsert h
  | releaseLock project =>
      simp only [ManagerState.step] at h
      split at h
      · contradiction
      · next free =>
          obtain rfl := Option.some.inj h
          exact inv.waits (.inl free) trivial
  | releaseSnapshot =>
      simp only [ManagerState.step] at h
      split at h
      · next project locked =>
          obtain rfl := Option.some.inj h
          exact inv.waits (.inr (.inr ⟨project, locked⟩)) (shows_snapshotOf s project _)
      · contradiction
  | releaseRemove => exact inv.releaseRemove h
  | releaseRun runId => exact inv.releaseRun h
  | sweepSnapshot =>
      obtain rfl := Option.some.inj h
      refine inv.of_sweeps ?_
      rintro id run - ⟨queue, mem, hid⟩
      exact .inr ⟨queue, List.mem_append_left _ mem, hid⟩
  | sweepRetain sweep exited => exact inv.sweepRetain fresh h
  | sweepRelease sweep => exact inv.sweepRelease h
  | sweepEnd sweep => exact inv.sweepEnd h

end steps

/-! ### The holders of entries -/

/-- A manager registers with its process. -/
def registers : List ManagerAction :=
  [.registerLock "proj".toList (some 41) none, .registerSnapshot, .registerReconcile,
    .registerAcquire (.ok "run-1".toList), .registerInsert "token".toList]

end Orgasmic
