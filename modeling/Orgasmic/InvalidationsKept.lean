import Orgasmic.CatalogCommit
import Orgasmic.RefreshPasses

/-! # No invalidation is lost

An entry that a refresh built reaches the cache only if its path was not invalidated since the
plan, and an invalidation takes the entry that is there. So what is cached was planned after the
last invalidation, whatever the refreshes and the writers do in between. -/

namespace Orgasmic

open Interleaving

variable {Value : Type}

/-! ### What happened at a moment -/

/-- A run of the catalog, with everything that happened. -/
abbrev CatalogHistory (Value : Type) := List (CatalogWorld Value × CatalogAction)

namespace CatalogWorld

/-- What the refresh plans now. -/
def planned (s : CatalogWorld Value) (i : ℕ) : Option RefreshPlan :=
  match s.passes i with
  | some ⟨args, .gathering [] observed⟩ => some (s.catalog.plan args.dir observed)
  | _ => none

/-- What the refresh builds now. -/
def scanned (json : SerdeJson Value) (s : CatalogWorld Value) (i : ℕ) (now : ℤ) :
    Option (PlannedRebuild × RunCatalogEntry Value) :=
  match s.passes i with
  | some ⟨args, .building (planned :: _) _ _ _⟩ =>
      some (planned, rebuildEntry json s.worktrees now args planned (s.files planned.path))
  | _ => none

end CatalogWorld

section moments

variable (json : SerdeJson Value) (past : CatalogHistory Value)

def InvalidatedAt (m : ℕ) (p : FilePath) : Prop := ∃ s, past[m]? = some (s, .invalidate p)

def AppendedAt (m : ℕ) (p : FilePath) : Prop := ∃ s grown, past[m]? = some (s, .append p grown)

/-- A refresh found the file with the fingerprint. -/
def GatheredAt (m : ℕ) (p : FilePath) (fingerprint : SessionFileFingerprint) : Prop :=
  ∃ s i node, past[m]? = some (s, .gather i) ∧ s.files p = some node ∧
    node.file.fingerprint = fingerprint

/-- A refresh planned the rebuild. -/
def PlannedAt (m : ℕ) (planned : PlannedRebuild) : Prop :=
  ∃ s i plan, past[m]? = some (s, .plan i) ∧ s.planned i = some plan ∧ planned ∈ plan.rebuild

/-- A refresh built the entry, from what was under the path. -/
def ScannedAt (m : ℕ) (now : ℤ) (planned : PlannedRebuild) (entry : RunCatalogEntry Value) : Prop :=
  ∃ s i, past[m]? = some (s, .scan i now) ∧ s.scanned json i now = some (planned, entry)

/-- The refresh found the directory without the path, which the cache had an entry for. -/
def ObservedAbsentAt (m i : ℕ) (p : FilePath) (e : RunCatalogEntry Value) : Prop :=
  ∃ s args observed, past[m]? = some (s, .plan i) ∧
    s.passes i = some ⟨args, .gathering [] observed⟩ ∧ p ∉ observed.map ObservedSession.path ∧
    s.catalog.byPath.lookup p = some e

/-- The entry is what a refresh gathered, planned and scanned at these moments. -/
structure BuiltFrom (g m k : ℕ) (planned : PlannedRebuild) (e : RunCatalogEntry Value) : Prop where
  gathered : GatheredAt past g planned.path planned.fingerprint
  gather_lt : g < m
  plan : PlannedAt past m planned
  plan_lt : m < k
  scanned : ∃ now entry, ScannedAt json past k now planned entry ∧ e.SameRecord entry

/-- The action invalidates the path. -/
def invalidates (p : FilePath) (x : CatalogWorld Value × CatalogAction) : Bool :=
  match x.2 with
  | .invalidate q => q = p
  | _ => false

/-- How often the path was invalidated before a moment. -/
def tokenAt (m : ℕ) (p : FilePath) : ℕ := (past.take m).countP (invalidates p)

end moments

section history

variable {json : SerdeJson Value} {past : CatalogHistory Value}
  {x : CatalogWorld Value × CatalogAction} {g m k i : ℕ} {p : FilePath} {planned : PlannedRebuild}
  {e : RunCatalogEntry Value}

theorem GatheredAt.later {fingerprint : SessionFileFingerprint}
    (h : GatheredAt past m p fingerprint) : GatheredAt (past ++ [x]) m p fingerprint := by
  obtain ⟨s, i, node, there, rest⟩ := h
  exact ⟨s, i, node, at_append there, rest⟩

theorem PlannedAt.later (h : PlannedAt past m planned) : PlannedAt (past ++ [x]) m planned := by
  obtain ⟨s, i, plan, there, rest⟩ := h
  exact ⟨s, i, plan, at_append there, rest⟩

theorem ScannedAt.later {now : ℤ} (h : ScannedAt json past m now planned e) :
    ScannedAt json (past ++ [x]) m now planned e := by
  obtain ⟨s, i, there, rest⟩ := h
  exact ⟨s, i, at_append there, rest⟩

theorem ObservedAbsentAt.later (h : ObservedAbsentAt past m i p e) :
    ObservedAbsentAt (past ++ [x]) m i p e := by
  obtain ⟨s, args, observed, there, rest⟩ := h
  exact ⟨s, args, observed, at_append there, rest⟩

theorem BuiltFrom.later (h : BuiltFrom json past g m k planned e) :
    BuiltFrom json (past ++ [x]) g m k planned e where
  gathered := h.gathered.later
  gather_lt := h.gather_lt
  plan := h.plan.later
  plan_lt := h.plan_lt
  scanned :=
    have ⟨now, entry, there, same⟩ := h.scanned
    ⟨now, entry, there.later, same⟩

theorem PlannedAt.lt (h : PlannedAt past m planned) : m < past.length := by
  obtain ⟨s, i, plan, there, _⟩ := h
  exact at_lt there

theorem BuiltFrom.sameRecord (h : BuiltFrom json past g m k planned e)
    {e' : RunCatalogEntry Value} (same : e'.SameRecord e) :
    BuiltFrom json past g m k planned e' where
  gathered := h.gathered
  gather_lt := h.gather_lt
  plan := h.plan
  plan_lt := h.plan_lt
  scanned :=
    have ⟨now, entry, there, record⟩ := h.scanned
    ⟨now, entry, there, same.trans record⟩

theorem tokenAt_append (inside : m ≤ past.length) : tokenAt (past ++ [x]) m p = tokenAt past m p := by
  unfold tokenAt
  rw [List.take_append_of_le_length inside]

/-- A path whose counter has not moved was not invalidated in between. -/
theorem not_invalidated (same : tokenAt past m p = past.countP (invalidates p)) (after : m ≤ k) :
    ¬ InvalidatedAt past k p := by
  rintro ⟨s, there⟩
  have total := congrArg (List.countP (invalidates p)) (List.take_append_drop m past)
  rw [List.countP_append, ← same] at total
  have none : (past.drop m).countP (invalidates p) = 0 := by
    unfold tokenAt at total
    omega
  rw [List.countP_eq_zero] at none
  refine none (s, .invalidate p) (List.mem_of_getElem? (i := k - m) ?_) (by simp [invalidates])
  rw [List.getElem?_drop, Nat.add_sub_cancel' after, there]

end history

/-! ### What a refresh carries -/

theorem rebuildEntry_stamps (json : SerdeJson Value) (fs : Worktrees) (now : ℤ)
    (args : RefreshArgs) (planned : PlannedRebuild) (node : Option SessionNode) :
    (rebuildEntry json fs now args planned node).fingerprint = planned.fingerprint ∧
      (rebuildEntry json fs now args planned node).indexedAt = now := by
  unfold rebuildEntry
  split
  · exact ⟨rfl, rfl⟩
  · split
    · exact ⟨rfl, rfl⟩
    · split <;> exact ⟨rfl, rfl⟩

theorem mem_reconcileBuilt {fs : Worktrees} {args : RefreshArgs} {unusable : Bool}
    {ledger : TombstoneLedger × Bool} {built : List (PlannedRebuild × RunCatalogEntry Value)}
    {b : PlannedRebuild × RunCatalogEntry Value}
    (h : b ∈ (reconcileBuilt fs args unusable ledger built).2) :
    ∃ b' ∈ built, b.1 = b'.1 ∧ b.2.SameRecord b'.2 := by
  induction built generalizing ledger with
  | nil => cases h
  | cons b' built ih =>
      unfold reconcileBuilt at h
      obtain rfl | later := List.mem_cons.mp h
      · exact ⟨b', List.mem_cons_self, rfl, rfl⟩
      · obtain ⟨b'', mem, same⟩ := ih later
        exact ⟨b'', List.mem_cons_of_mem b' mem, same⟩

section invariant

variable (json : SerdeJson Value) (past : CatalogHistory Value)

/-- The rebuild was planned with the counter of its moment, for a file that was found. -/
def Plans (planned : PlannedRebuild) : Prop :=
  ∃ g m, GatheredAt past g planned.path planned.fingerprint ∧ g < m ∧ PlannedAt past m planned ∧
    planned.invalidation = tokenAt past m planned.path

/-- The entry was built for a rebuild that was planned with the counter of its moment. -/
def Builds (b : PlannedRebuild × RunCatalogEntry Value) : Prop :=
  ∃ g m k, BuiltFrom json past g m k b.1 b.2 ∧ b.1.invalidation = tokenAt past m b.1.path

/-- The refresh observed a cached entry absent. -/
def Misses (i : ℕ) (stale : PlannedStale) : Prop :=
  ∃ m e, ObservedAbsentAt past m i stale.path e ∧ e.fingerprint = stale.fingerprint ∧
    e.indexedAt = stale.indexedAt ∧ ∃ g m k planned, BuiltFrom json past g m k planned e

/-- What a refresh is to commit. -/
structure WorkOk (i : ℕ) (built : List (PlannedRebuild × RunCatalogEntry Value))
    (stale : List PlannedStale) : Prop where
  builds : ∀ b ∈ built, Builds json past b
  misses : ∀ planned ∈ stale, Misses json past i planned
  apart : ∀ b ∈ built, ∀ planned ∈ stale, b.1.path ≠ planned.path

def PassOk (i : ℕ) : RefreshPhase Value → Prop
  | .gathering _ observed => ∀ seen ∈ observed, ∃ g, GatheredAt past g seen.path seen.fingerprint
  | .building rebuild built _ stale =>
      (∀ planned ∈ rebuild, Plans past planned) ∧ WorkOk json past i built stale ∧
        ∀ planned ∈ rebuild, ∀ gone ∈ stale, planned.path ≠ gone.path
  | .rechecking _ _ built _ _ stale | .committing built _ stale => WorkOk json past i built stale
  | .finished => True

/-- The cached entry is one that was built since the last invalidation. -/
def CachedFrom (c : CatalogState Value) (p : FilePath) (e : RunCatalogEntry Value) : Prop :=
  ∃ g m k planned, BuiltFrom json past g m k planned e ∧ planned.path = p ∧
    tokenAt past m p = c.invalidations p

end invariant

structure CatalogInv (json : SerdeJson Value) (past : CatalogHistory Value)
    (s : CatalogWorld Value) : Prop where
  counter : ∀ p, s.catalog.invalidations p = past.countP (invalidates p)
  passes : ∀ i pass, s.passes i = some pass → PassOk json past i pass.phase
  cached : ∀ p e, s.catalog.byPath.lookup p = some e → CachedFrom json past s.catalog p e
  appended : ∀ m p, AppendedAt past m p → p ∈ s.appended ∨ ∃ k, m < k ∧ InvalidatedAt past k p

section kept

variable {json : SerdeJson Value} {past : CatalogHistory Value} {s t : CatalogWorld Value}
  {x : CatalogWorld Value × CatalogAction} {i : ℕ} {p : FilePath} {e : RunCatalogEntry Value}

theorem Plans.later {planned : PlannedRebuild} (h : Plans past planned) :
    Plans (past ++ [x]) planned := by
  obtain ⟨g, m, gathered, lt, plan, token⟩ := h
  exact ⟨g, m, gathered.later, lt, plan.later, by rw [token, tokenAt_append plan.lt.le]⟩

theorem Builds.later {b : PlannedRebuild × RunCatalogEntry Value} (h : Builds json past b) :
    Builds json (past ++ [x]) b := by
  obtain ⟨g, m, k, built, token⟩ := h
  exact ⟨g, m, k, built.later, by rw [token, tokenAt_append built.plan.lt.le]⟩

theorem Misses.later {stale : PlannedStale} (h : Misses json past i stale) :
    Misses json (past ++ [x]) i stale := by
  obtain ⟨m, e, absent, fingerprint, indexed, g, m', k, planned, built⟩ := h
  exact ⟨m, e, absent.later, fingerprint, indexed, g, m', k, planned, built.later⟩

theorem WorkOk.later {built : List (PlannedRebuild × RunCatalogEntry Value)}
    {stale : List PlannedStale} (h : WorkOk json past i built stale) :
    WorkOk json (past ++ [x]) i built stale where
  builds b mem := (h.builds b mem).later
  misses planned mem := (h.misses planned mem).later
  apart := h.apart

theorem PassOk.later {phase : RefreshPhase Value} (h : PassOk json past i phase) :
    PassOk json (past ++ [x]) i phase := by
  cases phase with
  | gathering listing observed =>
      intro seen mem
      obtain ⟨g, gathered⟩ := h seen mem
      exact ⟨g, gathered.later⟩
  | building rebuild built recheck stale =>
      exact ⟨fun planned mem => (h.1 planned mem).later, h.2.1.later, h.2.2⟩
  | rechecking ledger unusable built recheck updates stale => exact WorkOk.later h
  | committing built updates stale => exact WorkOk.later h
  | finished => trivial

theorem CachedFrom.later {c c' : CatalogState Value} (h : CachedFrom json past c p e)
    (same : c'.invalidations p = c.invalidations p) : CachedFrom json (past ++ [x]) c' p e := by
  obtain ⟨g, m, k, planned, built, path, token⟩ := h
  exact ⟨g, m, k, planned, built.later, path,
    by rw [tokenAt_append built.plan.lt.le, token, same]⟩

/-- Each append is followed by an invalidation that is still to come, or has come. -/
theorem CatalogInv.appended_later (inv : CatalogInv json past s)
    (kept : ∀ p ∈ s.appended, p ∈ t.appended ∨ x.2 = .invalidate p)
    (new : ∀ p grown, x.2 = .append p grown → p ∈ t.appended) (m : ℕ) (p : FilePath)
    (h : AppendedAt (past ++ [x]) m p) :
    p ∈ t.appended ∨ ∃ k, m < k ∧ InvalidatedAt (past ++ [x]) k p := by
  obtain ⟨s', grown, there⟩ := h
  obtain before | ⟨rfl, rfl⟩ := at_append_iff.mp there
  · obtain pending | ⟨k, lt, s'', done⟩ := inv.appended m p ⟨s', grown, before⟩
    · obtain still | now := kept p pending
      · exact .inl still
      · refine .inr ⟨past.length, at_lt before, x.1, ?_⟩
        rw [← now]
        exact at_now
    · exact .inr ⟨k, lt, s'', at_append done⟩
  · exact .inl (new p grown rfl)

/-- An action that neither touches the cache nor ends an append. -/
theorem CatalogInv.later (inv : CatalogInv json past s) (catalog : t.catalog = s.catalog)
    (appended : ∀ p ∈ s.appended, p ∈ t.appended)
    (quiet : ∀ p, x.2 ≠ .invalidate p)
    (new : ∀ p grown, x.2 = .append p grown → p ∈ t.appended)
    (passes : ∀ i pass, t.passes i = some pass → PassOk json (past ++ [x]) i pass.phase) :
    CatalogInv json (past ++ [x]) t where
  counter p := by
    have same : invalidates p x = false := by
      unfold invalidates
      split
      · next q there => exact absurd there (quiet q)
      · rfl
    rw [catalog, inv.counter, List.countP_append, List.countP_singleton, same]
    rfl
  passes := passes
  cached p e found := by
    rw [catalog] at found ⊢
    exact (inv.cached p e found).later rfl
  appended := inv.appended_later (fun p mem => .inl (appended p mem)) new

/-- The phases after one refresh went on. -/
theorem PassOk.setPhase {a : CatalogAction} {args : RefreshArgs} {phase : RefreshPhase Value}
    (before : ∀ i pass, s.passes i = some pass → PassOk json past i pass.phase)
    (passes : t.passes = s.passes) (ok : PassOk json (past ++ [(s, a)]) i phase) (j : ℕ)
    (pass : RefreshPass Value) (found : (t.setPhase i args phase).passes j = some pass) :
    PassOk json (past ++ [(s, a)]) j pass.phase := by
  change Function.update t.passes i (some ⟨args, phase⟩) j = some pass at found
  by_cases here : j = i
  · subst here
    rw [Function.update_self] at found
    obtain rfl := Option.some.inj found
    exact ok
  · rw [Function.update_of_ne here, passes] at found
    exact (before j pass found).later

/-- A refresh goes on. -/
theorem CatalogInv.setPhase (inv : CatalogInv json past s) {a : CatalogAction} {args : RefreshArgs}
    {phase : RefreshPhase Value} (catalog : t.catalog = s.catalog)
    (appended : t.appended = s.appended) (passes : t.passes = s.passes)
    (quiet : ∀ p, a ≠ .invalidate p) (new : ∀ p grown, a ≠ .append p grown)
    (ok : PassOk json (past ++ [(s, a)]) i phase) :
    CatalogInv json (past ++ [(s, a)]) (t.setPhase i args phase) := by
  refine inv.later catalog (fun p mem => ?_) quiet (fun p grown h => absurd h (new p grown))
    (PassOk.setPhase inv.passes passes ok)
  rw [← appended] at mem
  exact mem

/-! ### Each action -/

theorem CatalogInv.gather (inv : CatalogInv json past s) {args : RefreshArgs} {path : FilePath}
    {listing : List FilePath} {observed : List ObservedSession}
    (hp : s.passes i = some ⟨args, .gathering (path :: listing) observed⟩) :
    CatalogInv json (past ++ [(s, .gather i)])
      (s.setPhase i args
        (.gathering listing (observed ++ (observeSession s.files path).toList))) := by
  refine inv.setPhase rfl rfl rfl (fun _ => nofun) (fun _ _ => nofun) fun seen mem => ?_
  obtain before | now := List.mem_append.mp mem
  · obtain ⟨g, gathered⟩ := inv.passes i _ hp seen before
    exact ⟨g, gathered.later⟩
  · rw [Option.mem_toList] at now
    unfold observeSession at now
    split at now
    · cases now
    · split at now
      · cases now
      · next node found =>
          split at now
          · obtain rfl := Option.some.inj now
            exact ⟨past.length, s, i, node, at_now, found, rfl⟩
          · cases now

theorem CatalogInv.plan (inv : CatalogInv json past s) {args : RefreshArgs}
    {observed : List ObservedSession} (hp : s.passes i = some ⟨args, .gathering [] observed⟩) :
    CatalogInv json (past ++ [(s, .plan i)])
      (s.setPhase i args (.building (s.catalog.plan args.dir observed).rebuild []
        (s.catalog.plan args.dir observed).recheck (s.catalog.plan args.dir observed).stale)) := by
  have gathered := inv.passes i _ hp
  have now : tokenAt (past ++ [(s, .plan i)]) past.length = s.catalog.invalidations := by
    funext p
    rw [tokenAt_append le_rfl, inv.counter, tokenAt, List.take_length]
  have plans : s.planned i = some (s.catalog.plan args.dir observed) := by
    unfold CatalogWorld.planned
    rw [hp]
  refine inv.setPhase rfl rfl rfl (fun _ => nofun) (fun _ _ => nofun)
    ⟨?_, ⟨fun b mem => absurd mem List.not_mem_nil, ?_,
      fun b mem => absurd mem List.not_mem_nil⟩, ?_⟩
  · intro planned mem
    obtain ⟨seen, hseen, _, path, fingerprint, token⟩ := CatalogState.mem_plan_rebuild mem
    obtain ⟨g, there⟩ := gathered seen hseen
    have lt : g < past.length := by
      obtain ⟨s', i', node, at_g, _⟩ := there
      exact at_lt at_g
    refine ⟨g, past.length, ?_, lt, ⟨s, i, _, at_now, plans, mem⟩, by rw [token, now]⟩
    rw [path, fingerprint]
    exact there.later
  · intro planned mem
    obtain ⟨absent, e, found, fingerprint, indexed⟩ := CatalogState.mem_plan_stale mem
    obtain ⟨g, m, k, from_, built, _, _⟩ := inv.cached planned.path e found
    exact ⟨past.length, e, ⟨s, args, observed, at_now, hp, absent, found⟩, fingerprint, indexed,
      g, m, k, from_, built.later⟩
  · intro planned mem gone hgone same
    obtain ⟨seen, hseen, _, path, _⟩ := CatalogState.mem_plan_rebuild mem
    obtain ⟨absent, _⟩ := CatalogState.mem_plan_stale hgone
    exact absent (List.mem_map.mpr ⟨seen, hseen, path.symm.trans same⟩)

theorem CatalogInv.scan (inv : CatalogInv json past s) {now : ℤ} {args : RefreshArgs}
    {planned : PlannedRebuild} {rebuild : List PlannedRebuild}
    {built : List (PlannedRebuild × RunCatalogEntry Value)} {recheck : List PlannedRecheck}
    {stale : List PlannedStale}
    (hp : s.passes i = some ⟨args, .building (planned :: rebuild) built recheck stale⟩) :
    CatalogInv json (past ++ [(s, .scan i now)])
      (s.setPhase i args (.building rebuild (built ++ [(planned,
        rebuildEntry json s.worktrees now args planned (s.files planned.path))]) recheck stale)) := by
  obtain ⟨plans, work, apart⟩ := inv.passes i _ hp
  have scans : s.scanned json i now = some (planned,
      rebuildEntry json s.worktrees now args planned (s.files planned.path)) := by
    unfold CatalogWorld.scanned
    rw [hp]
  refine inv.setPhase rfl rfl rfl (fun _ => nofun) (fun _ _ => nofun)
    ⟨fun other mem => (plans other (List.mem_cons_of_mem _ mem)).later,
      ⟨?_, fun gone mem => (work.misses gone mem).later, ?_⟩,
      fun other mem => apart other (List.mem_cons_of_mem _ mem)⟩
  · intro b mem
    obtain before | new := List.mem_append.mp mem
    · exact (work.builds b before).later
    · obtain rfl := List.mem_singleton.mp new
      obtain ⟨g, m, gathered, lt, plan, token⟩ := plans planned List.mem_cons_self
      exact ⟨g, m, past.length,
        ⟨gathered.later, lt, plan.later, plan.lt, now, _, ⟨s, i, at_now, scans⟩, .refl _⟩,
        by rw [token, tokenAt_append plan.lt.le]⟩
  · intro b mem gone hgone
    obtain before | new := List.mem_append.mp mem
    · exact work.apart b before gone hgone
    · obtain rfl := List.mem_singleton.mp new
      exact apart planned List.mem_cons_self gone hgone

theorem CatalogInv.reconcile (inv : CatalogInv json past s) {args : RefreshArgs}
    {built : List (PlannedRebuild × RunCatalogEntry Value)} {recheck : List PlannedRecheck}
    {stale : List PlannedStale}
    (hp : s.passes i = some ⟨args, .building [] built recheck stale⟩) (unusable : Bool)
    (ledger grown : TombstoneLedger × Bool) :
    CatalogInv json (past ++ [(s, .reconcile i)])
      (s.setPhase i args (.rechecking grown unusable
        (reconcileBuilt s.worktrees args unusable ledger built).2 recheck [] stale)) := by
  obtain ⟨_, work, _⟩ := inv.passes i _ hp
  refine inv.setPhase rfl rfl rfl (fun _ => nofun) (fun _ _ => nofun)
    ⟨?_, fun gone mem => (work.misses gone mem).later, ?_⟩
  · intro b mem
    obtain ⟨b', hb', same, record⟩ := mem_reconcileBuilt mem
    obtain ⟨g, m, k, built, token⟩ := (work.builds b' hb').later
    unfold Builds
    rw [same]
    exact ⟨g, m, k, built.sameRecord record, token⟩
  · intro b mem gone hgone
    obtain ⟨b', hb', same, _⟩ := mem_reconcileBuilt mem
    rw [same]
    exact work.apart b' hb' gone hgone

theorem CatalogInv.commit (inv : CatalogInv json past s) {args : RefreshArgs}
    {built : List (PlannedRebuild × RunCatalogEntry Value)}
    {updates : List (PlannedRecheck × WorktreeAuthority)} {stale : List PlannedStale}
    (hp : s.passes i = some ⟨args, .committing built updates stale⟩) :
    CatalogInv json (past ++ [(s, .commit i)])
      ({ s with catalog := s.catalog.commit built updates stale }.setPhase i args .finished) where
  counter p := by
    change (s.catalog.commit built updates stale).invalidations p = _
    rw [CatalogState.commit_invalidations, inv.counter, List.countP_append]
    rfl
  passes := PassOk.setPhase inv.passes rfl trivial
  cached p e found := by
    obtain ⟨e', before, record⟩ | ⟨b, mem, record, path, token, _⟩ :=
      CatalogState.commit_lookup found
    · obtain ⟨g, m, k, planned, from_, path, token⟩ := inv.cached p e' before
      refine ⟨g, m, k, planned, (from_.sameRecord record).later, path, ?_⟩
      rw [tokenAt_append from_.plan.lt.le, token]
      exact congrFun (CatalogState.commit_invalidations ..).symm p
    · obtain ⟨g, m, k, from_, planned⟩ := (inv.passes i _ hp).builds b mem
      refine ⟨g, m, k, b.1, (from_.sameRecord record).later, path, ?_⟩
      rw [tokenAt_append from_.plan.lt.le, ← path, ← planned, ← token, path]
      exact congrFun (CatalogState.commit_invalidations ..).symm p
  appended := inv.appended_later (fun p mem => .inl mem) (fun _ _ => nofun)

theorem CatalogInv.invalidate (inv : CatalogInv json past s) (path : FilePath) :
    CatalogInv json (past ++ [(s, .invalidate path)])
      { s with
        catalog := s.catalog.invalidateSession path
        appended := s.appended.erase path } where
  counter p := by
    rw [List.countP_append, List.countP_singleton, ← inv.counter]
    by_cases here : p = path
    · subst here
      simp [CatalogState.invalidateSession, invalidates]
    · simp [CatalogState.invalidateSession, invalidates, here, Ne.symm here]
  passes j pass found := (inv.passes j pass found).later
  cached p e found := by
    have other : p ≠ path := by
      rintro rfl
      exact absurd found (by rw [CatalogState.invalidateSession, AList.lookup_erase]; exact nofun)
    rw [CatalogState.invalidateSession, AList.lookup_erase_ne other] at found
    exact (inv.cached p e found).later (Function.update_of_ne other _ _)
  appended := by
    refine inv.appended_later (fun p mem => ?_) (fun _ _ => nofun)
    by_cases here : p = path
    · subst here
      exact .inr rfl
    · exact .inl ((List.mem_erase_of_ne here).mpr mem)

/-- **Every action** keeps the invariant. -/
theorem CatalogInv.step (inv : CatalogInv json past s) {a : CatalogAction}
    (h : s.step json a = some t) : CatalogInv json (past ++ [(s, a)]) t := by
  unfold CatalogWorld.step at h
  split at h
  · split at h
    · cases h
    · obtain rfl := Option.some.inj h
      exact inv.setPhase rfl rfl rfl (fun _ => nofun) (fun _ _ => nofun) (fun _ => nofun)
  · split at h
    · next args path listing observed hp =>
        obtain rfl := Option.some.inj h
        exact inv.gather hp
    · cases h
  · split at h
    · next args observed hp =>
        obtain rfl := Option.some.inj h
        exact inv.plan hp
    · cases h
  · split at h
    · next args planned rebuild built recheck stale hp =>
        obtain rfl := Option.some.inj h
        exact inv.scan hp
    · cases h
  · split at h
    · next args built recheck stale hp =>
        obtain rfl := Option.some.inj h
        exact inv.reconcile hp _ _ _
    · cases h
  · split at h
    · next args ledger unusable built planned recheck updates stale hp =>
        obtain rfl := Option.some.inj h
        exact inv.setPhase rfl rfl rfl (fun _ => nofun) (fun _ _ => nofun)
          (WorkOk.later (inv.passes _ _ hp))
    · cases h
  · split at h
    · next args ledger unusable built updates stale hp =>
        obtain rfl := Option.some.inj h
        exact inv.setPhase rfl rfl rfl (fun _ => nofun) (fun _ _ => nofun)
          (WorkOk.later (inv.passes _ _ hp))
    · cases h
  · split at h
    · next args built updates stale hp =>
        obtain rfl := Option.some.inj h
        exact inv.commit hp
    · cases h
  · next path grown =>
      split at h
      · obtain rfl := Option.some.inj h
        refine inv.later rfl (fun p mem => List.mem_cons_of_mem _ mem) (fun _ => nofun) ?_
          (fun j pass found => (inv.passes j pass found).later)
        rintro p grown' same
        cases same
        exact List.mem_cons_self
      · cases h
  · split at h
    · obtain rfl := Option.some.inj h
      exact inv.invalidate _
    · cases h
  all_goals
    obtain rfl := Option.some.inj h
    exact inv.later rfl (fun _ mem => mem) (fun _ => nofun) (fun _ _ => nofun)
      (fun j pass found => (inv.passes j pass found).later)

end kept

/-! ### Whole runs -/

/-- What is known of a cached entry that was gathered, planned and scanned at these moments. -/
structure EntryKept (json : SerdeJson Value) (r : Recorded (CatalogWorld Value) CatalogAction)
    (p : FilePath) (e : RunCatalogEntry Value) (g m k : ℕ) (planned : PlannedRebuild) : Prop where
  built : BuiltFrom json r.past g m k planned e
  path : planned.path = p
  /-- The plan came after every invalidation of the path. -/
  invalidated : ∀ j, InvalidatedAt r.past j p → j < m
  /-- So it came after every append, once all of them are invalidated. -/
  appended : p ∉ r.current.appended → ∀ j, AppendedAt r.past j p → j < m
  /-- The scan came after the file had the entry's fingerprint. -/
  bytes : GatheredAt r.past g p e.fingerprint ∧ g < k
  /-- The scan read what is there now, if nothing else has been there since. -/
  unchanged : (∀ j s a, g ≤ j → r.past[j]? = some (s, a) → s.files p = r.current.files p) →
    ∃ fs args now, e.SameRecord (rebuildEntry json fs now args planned (r.current.files p))

/-- No two scans read the same time from the clock. -/
def ScansApart (past : CatalogHistory Value) : Prop :=
  ∀ (k k' : ℕ) (now : ℤ) (s s' : CatalogWorld Value) (i i' : ℕ),
    past[k]? = some (s, .scan i now) → past[k']? = some (s', .scan i' now) → k = k'

section runs

variable {json : SerdeJson Value} {past : CatalogHistory Value} {g m k : ℕ}
  {planned : PlannedRebuild} {e : RunCatalogEntry Value}

theorem CatalogWorld.scanned_eq_some {s : CatalogWorld Value} {i : ℕ} {now : ℤ}
    (h : s.scanned json i now = some (planned, e)) :
    ∃ args, e = rebuildEntry json s.worktrees now args planned (s.files planned.path) := by
  unfold CatalogWorld.scanned at h
  split at h
  · next args planned' _ _ _ _ _ =>
      obtain ⟨rfl, rfl⟩ := Prod.mk.inj (Option.some.inj h)
      exact ⟨args, rfl⟩
  · cases h

theorem BuiltFrom.fingerprint (h : BuiltFrom json past g m k planned e) :
    e.fingerprint = planned.fingerprint := by
  obtain ⟨now, entry, ⟨s, i, _, scans⟩, same⟩ := h.scanned
  obtain ⟨args, rfl⟩ := CatalogWorld.scanned_eq_some scans
  rw [same.fingerprint, (rebuildEntry_stamps ..).1]

/-- Where no two scans read the same time, entries with one index time are one record. -/
theorem BuiltFrom.same_of_indexedAt {g' m' k' : ℕ} {planned' : PlannedRebuild}
    {e' : RunCatalogEntry Value} (h : BuiltFrom json past g m k planned e)
    (h' : BuiltFrom json past g' m' k' planned' e') (apart : ScansApart past)
    (indexed : e.indexedAt = e'.indexedAt) : e.SameRecord e' := by
  obtain ⟨now, entry, ⟨s, i, there, scans⟩, same⟩ := h.scanned
  obtain ⟨now', entry', ⟨s', i', there', scans'⟩, same'⟩ := h'.scanned
  have times : now = now' := by
    obtain ⟨args, rfl⟩ := CatalogWorld.scanned_eq_some scans
    obtain ⟨args', rfl⟩ := CatalogWorld.scanned_eq_some scans'
    rwa [same.indexedAt, same'.indexedAt, (rebuildEntry_stamps ..).2, (rebuildEntry_stamps ..).2]
      at indexed
  subst times
  obtain rfl := apart k k' now s s' i i' there there'
  rw [there] at there'
  obtain ⟨rfl, action⟩ := Prod.mk.inj (Option.some.inj there')
  obtain rfl : i = i' := by injection action
  rw [scans] at scans'
  obtain ⟨-, rfl⟩ := Prod.mk.inj (Option.some.inj scans')
  exact same.trans same'.symm

theorem CatalogInv.fresh (files : SessionFiles) (worktrees : Worktrees) (ledger : LedgerFile) :
    CatalogInv json [] (.fresh files worktrees ledger : CatalogWorld Value) where
  counter _ := rfl
  passes _ _ := nofun
  cached p e found := by
    change (∅ : AList fun _ : FilePath => RunCatalogEntry Value).lookup p = some e at found
    rw [AList.lookup_empty] at found
    cases found
  appended m p h := by
    obtain ⟨_, _, there⟩ := h
    cases there

theorem catalogInv_of_reaches {files : SessionFiles} {worktrees : Worktrees} {ledger : LedgerFile}
    {r : Recorded (CatalogWorld Value) CatalogAction}
    (h : Reaches (recordStep (CatalogWorld.step json)) (fun _ _ => True)
      ⟨[], .fresh files worktrees ledger⟩ r) : CatalogInv json r.past r.current := by
  refine h.invariant (P := fun r => CatalogInv json r.past r.current) ?_
    (CatalogInv.fresh files worktrees ledger)
  intro r r' a _ next inv
  obtain ⟨step, past⟩ := recordStep_eq_some next
  rw [past]
  exact inv.step step

theorem CatalogInv.entryKept {r : Recorded (CatalogWorld Value) CatalogAction} {p : FilePath}
    (inv : CatalogInv json r.past r.current) (found : r.current.catalog.byPath.lookup p = some e) :
    ∃ g m k planned, EntryKept json r p e g m k planned := by
  obtain ⟨g, m, k, planned, built, rfl, token⟩ := inv.cached p e found
  rw [inv.counter] at token
  have invalidated : ∀ j, InvalidatedAt r.past j planned.path → j < m := by
    intro j there
    by_contra late
    exact not_invalidated token (not_lt.mp late) there
  refine ⟨g, m, k, planned, built, rfl, invalidated, ?_, ?_, ?_⟩
  · intro done j there
    obtain pending | ⟨i, lt, later⟩ := inv.appended j _ there
    · exact absurd pending done
    · exact lt.trans (invalidated i later)
  · rw [built.fingerprint]
    exact ⟨built.gathered, built.gather_lt.trans built.plan_lt⟩
  · intro unchanged
    obtain ⟨now, entry, ⟨s, i, there, scans⟩, same⟩ := built.scanned
    obtain ⟨args, rfl⟩ := CatalogWorld.scanned_eq_some scans
    rw [← unchanged k s _ (built.gather_lt.trans built.plan_lt).le there]
    exact ⟨s.worktrees, args, now, same⟩

/-- **No invalidation is lost.** However refreshes, appends with their invalidations, removals and
replacements of session files interleave, every cached entry was planned after the last
invalidation of its path and scanned after its file had the entry's fingerprint; and what a commit
evicts has the fingerprint and the index time of the entry that its plan observed absent, which is
the same record unless two scans read one time. -/
theorem invalidations_kept {files : SessionFiles} {worktrees : Worktrees} {ledger : LedgerFile}
    {r : Recorded (CatalogWorld Value) CatalogAction}
    (h : Reaches (recordStep (CatalogWorld.step json)) (fun _ _ => True)
      ⟨[], .fresh files worktrees ledger⟩ r) :
    (∀ p e, r.current.catalog.byPath.lookup p = some e →
      ∃ g m k planned, EntryKept json r p e g m k planned) ∧
    ∀ i t p e, r.current.step json (.commit i) = some t →
      r.current.catalog.byPath.lookup p = some e → t.catalog.byPath.lookup p = none →
      ∃ m e', ObservedAbsentAt r.past m i p e' ∧ e.fingerprint = e'.fingerprint ∧
        e.indexedAt = e'.indexedAt ∧ (ScansApart r.past → e.SameRecord e') := by
  have inv := catalogInv_of_reaches h
  refine ⟨fun p e found => inv.entryKept found, ?_⟩
  intro i t p e next found gone
  unfold CatalogWorld.step at next
  dsimp only at next
  split at next
  · next args built updates stale hp =>
      obtain rfl := Option.some.inj next
      have work := inv.passes i _ hp
      obtain ⟨planned, mem, rfl, fingerprint, indexed⟩ :=
        CatalogState.commit_removes found gone work.apart
      obtain ⟨m, e', absent, fingerprint', indexed', g, m', k, rebuilt, built'⟩ :=
        work.misses planned mem
      refine ⟨m, e', absent, fingerprint.trans fingerprint'.symm, indexed.trans indexed'.symm, ?_⟩
      intro apart
      obtain ⟨_, _, _, _, built, _⟩ := inv.cached _ e found
      exact built.same_of_indexedAt built' apart (indexed.trans indexed'.symm)
  · cases next

end runs

/-! A session is indexed, and removed while a second refresh lists the directory. -/

/-- A reader that decodes nothing. -/
def blindJson : SerdeJson Unit where
  envelope _ := none
  value _ := none
  lifecycle _ := none
  get _ _ := none
  asStr _ := none
  asU64 _ := none
  asBool _ := none
  asArray _ := none
  string _ := ()
  number _ := ()
  object _ := ()
  toVec _ := []

def indexedPath : FilePath := ["sessions".toList, "run-1.jsonl".toList]

def indexedFiles : SessionFiles :=
  Function.update (fun _ => none) indexedPath
    (some ⟨true, ⟨⟨[], by decide⟩, 1, 7, 1000⟩, false⟩)

def noWorktrees : Worktrees := ⟨fun _ => false, fun _ => none, fun _ => none, fun _ _ _ => false⟩

def indexArgs : RefreshArgs := ⟨["sessions".toList], none, [], .default⟩

/-- One refresh to its end, then a second one up to its commit. -/
def indexesTwice : List CatalogAction :=
  [.start 0 indexArgs ["run-1.jsonl".toList], .gather 0, .plan 0, .scan 0 5, .reconcile 0, .save 0 .done,
    .commit 0, .replace indexedPath none, .start 1 indexArgs ["run-1.jsonl".toList], .gather 1, .plan 1,
    .reconcile 1, .save 1 .done]

/-- The theorem before the second commit, which evicts the entry. -/
theorem invalidations_kept_evicted :
    ∃ r, Interleaving.run (recordStep (CatalogWorld.step blindJson))
        ⟨[], .fresh indexedFiles noWorktrees ⟨none, none⟩⟩ indexesTwice = some r ∧
      ∃ e t, r.current.catalog.byPath.lookup indexedPath = some e ∧
        r.current.step blindJson (.commit 1) = some t ∧
        t.catalog.byPath.lookup indexedPath = none ∧
        (∃ g m k planned, EntryKept blindJson r indexedPath e g m k planned) ∧
        ∃ m e', ObservedAbsentAt r.past m 1 indexedPath e' ∧ e.fingerprint = e'.fingerprint ∧
          e.indexedAt = e'.indexedAt := by
  obtain ⟨r, ran⟩ : ∃ r, Interleaving.run (recordStep (CatalogWorld.step blindJson))
      ⟨[], .fresh indexedFiles noWorktrees ⟨none, none⟩⟩ indexesTwice = some r := ⟨_, rfl⟩
  have indexed : (Interleaving.run (recordStep (CatalogWorld.step blindJson))
      ⟨[], .fresh indexedFiles noWorktrees ⟨none, none⟩⟩ indexesTwice).map
        (fun r => (r.current.catalog.byPath.lookup indexedPath).isSome) = some true := by
    decide +kernel
  have evicts : ((Interleaving.run (recordStep (CatalogWorld.step blindJson))
      ⟨[], .fresh indexedFiles noWorktrees ⟨none, none⟩⟩ indexesTwice).bind
        fun r => r.current.step blindJson (.commit 1)).map
          (fun t => (t.catalog.byPath.lookup indexedPath).isNone) = some true := by
    decide +kernel
  rw [ran, Option.map_some, Option.some.injEq] at indexed
  rw [ran, Option.bind_some] at evicts
  obtain ⟨e, found⟩ := Option.isSome_iff_exists.mp indexed
  obtain ⟨t, commits, gone⟩ := Option.map_eq_some_iff.mp evicts
  obtain ⟨kept, evicted⟩ := invalidations_kept (reaches_of_run (fun _ _ _ => trivial) ran)
  obtain ⟨m, e', absent, fingerprint, indexed, _⟩ :=
    evicted 1 t indexedPath e commits found (Option.isNone_iff_eq_none.mp gone)
  exact ⟨r, ran, e, t, found, commits, Option.isNone_iff_eq_none.mp gone, kept _ e found,
    m, e', absent, fingerprint, indexed⟩

end Orgasmic
