import Orgasmic.RunCatalog

/-! # What a commit leaves in the cache

Each operation of a commit is described by what a lookup finds after it; the three passes of a
commit follow by induction on their lists. -/

namespace Orgasmic

variable {Value : Type}

/-- The same record, up to the verdict on its worktree. -/
def RunCatalogEntry.SameRecord (e e' : RunCatalogEntry Value) : Prop :=
  e = { e' with worktreeAuthority := e.worktreeAuthority }

namespace RunCatalogEntry.SameRecord

variable {e e' e'' : RunCatalogEntry Value}

theorem refl (e : RunCatalogEntry Value) : e.SameRecord e := rfl

theorem symm (h : e.SameRecord e') : e'.SameRecord e := by
  unfold SameRecord at h ⊢
  rw [h]

theorem trans (h : e.SameRecord e') (h' : e'.SameRecord e'') : e.SameRecord e'' := by
  unfold SameRecord at h h' ⊢
  rw [h, h']

theorem fingerprint (h : e.SameRecord e') : e.fingerprint = e'.fingerprint := by
  unfold SameRecord at h
  rw [h]

theorem indexedAt (h : e.SameRecord e') : e.indexedAt = e'.indexedAt := by
  unfold SameRecord at h
  rw [h]

end RunCatalogEntry.SameRecord

/-! ### One commit -/

namespace CatalogState

variable {c : CatalogState Value} {p : FilePath} {e : RunCatalogEntry Value}

@[simp]
theorem commitBuilt_invalidations (c : CatalogState Value)
    (b : PlannedRebuild × RunCatalogEntry Value) :
    (c.commitBuilt b).invalidations = c.invalidations := by
  unfold commitBuilt
  split <;> rfl

@[simp]
theorem commitUpdate_invalidations (c : CatalogState Value)
    (u : PlannedRecheck × WorktreeAuthority) :
    (c.commitUpdate u).invalidations = c.invalidations := by
  unfold commitUpdate
  split
  · rfl
  · split
    · rfl
    · split <;> rfl

@[simp]
theorem commitStale_invalidations (c : CatalogState Value) (planned : PlannedStale) :
    (c.commitStale planned).invalidations = c.invalidations := by
  unfold commitStale
  split
  · rfl
  · split
    · rfl
    · split <;> rfl

theorem foldl_invalidations {α : Type} (f : CatalogState Value → α → CatalogState Value)
    (keeps : ∀ c a, (f c a).invalidations = c.invalidations) (l : List α)
    (c : CatalogState Value) : (l.foldl f c).invalidations = c.invalidations := by
  induction l generalizing c with
  | nil => rfl
  | cons a l ih => rw [List.foldl_cons, ih, keeps]

@[simp]
theorem commit_invalidations (c : CatalogState Value)
    (built : List (PlannedRebuild × RunCatalogEntry Value))
    (updates : List (PlannedRecheck × WorktreeAuthority)) (stale : List PlannedStale) :
    (c.commit built updates stale).invalidations = c.invalidations := by
  unfold commit
  rw [foldl_invalidations _ commitStale_invalidations,
    foldl_invalidations _ commitUpdate_invalidations,
    foldl_invalidations _ commitBuilt_invalidations]

/-- The entry comes from a rebuild whose path was not invalidated since it was planned. -/
def Built (c : CatalogState Value) (b : PlannedRebuild × RunCatalogEntry Value) (p : FilePath)
    (e : RunCatalogEntry Value) : Prop :=
  b.1.path = p ∧ c.invalidations p = b.1.invalidation ∧ e = b.2

theorem commitBuilt_lookup (c : CatalogState Value) (b : PlannedRebuild × RunCatalogEntry Value)
    (p : FilePath) :
    (c.commitBuilt b).byPath.lookup p = c.byPath.lookup p ∨
      ((c.commitBuilt b).byPath.lookup p = some b.2 ∧ c.Built b p b.2) := by
  unfold commitBuilt
  split
  · exact .inl rfl
  · next same =>
      by_cases here : p = b.1.path
      · subst here
        exact .inr ⟨AList.lookup_insert _, rfl, not_not.mp same, rfl⟩
      · exact .inl (AList.lookup_insert_ne here)

theorem foldl_commitBuilt_lookup (built : List (PlannedRebuild × RunCatalogEntry Value))
    (c : CatalogState Value) (p : FilePath) :
    (built.foldl commitBuilt c).byPath.lookup p = c.byPath.lookup p ∨
      ∃ b ∈ built, (built.foldl commitBuilt c).byPath.lookup p = some b.2 ∧ c.Built b p b.2 := by
  induction built generalizing c with
  | nil => exact .inl rfl
  | cons b built ih =>
      rw [List.foldl_cons]
      obtain later | ⟨b', mem, later, path, same, here⟩ := ih (c.commitBuilt b)
      · rw [later]
        obtain kept | ⟨inserted, fromB⟩ := c.commitBuilt_lookup b p
        · exact .inl kept
        · exact .inr ⟨b, List.mem_cons_self, inserted, fromB⟩
      · rw [commitBuilt_invalidations] at same
        exact .inr ⟨b', List.mem_cons_of_mem b mem, later, path, same, here⟩

theorem commitUpdate_lookup (c : CatalogState Value) (u : PlannedRecheck × WorktreeAuthority)
    (p : FilePath) :
    Option.Rel RunCatalogEntry.SameRecord ((c.commitUpdate u).byPath.lookup p)
      (c.byPath.lookup p) := by
  have same : Option.Rel RunCatalogEntry.SameRecord (c.byPath.lookup p) (c.byPath.lookup p) := by
    cases c.byPath.lookup p with
    | none => exact .none
    | some e => exact .some (.refl e)
  unfold commitUpdate
  split
  · exact same
  · split
    · exact same
    · next entry found =>
        split
        · exact same
        · by_cases here : p = u.1.path
          · subst here
            rw [AList.lookup_insert, found]
            exact .some rfl
          · rw [AList.lookup_insert_ne here]
            exact same

theorem foldl_commitUpdate_lookup (updates : List (PlannedRecheck × WorktreeAuthority))
    (c : CatalogState Value) (p : FilePath) :
    Option.Rel RunCatalogEntry.SameRecord ((updates.foldl commitUpdate c).byPath.lookup p)
      (c.byPath.lookup p) := by
  induction updates generalizing c with
  | nil =>
      cases h : c.byPath.lookup p with
      | none => simp only [List.foldl_nil, h, Option.Rel.none]
      | some e => simpa only [List.foldl_nil, h] using Option.Rel.some (.refl e)
  | cons u updates ih =>
      rw [List.foldl_cons]
      have later := ih (c.commitUpdate u)
      have first := c.commitUpdate_lookup u p
      generalize (updates.foldl commitUpdate (c.commitUpdate u)).byPath.lookup p = x at later
      generalize (c.commitUpdate u).byPath.lookup p = y at later first
      generalize c.byPath.lookup p = z at first
      cases first with
      | none => exact later
      | some now =>
          cases later with
          | some earlier => exact .some (earlier.trans now)

/-- The entry is the one that was observed absent. -/
def Evicted (planned : PlannedStale) (p : FilePath) (e : RunCatalogEntry Value) : Prop :=
  planned.path = p ∧ e.fingerprint = planned.fingerprint ∧ e.indexedAt = planned.indexedAt

theorem commitStale_lookup (c : CatalogState Value) (planned : PlannedStale) (p : FilePath) :
    (c.commitStale planned).byPath.lookup p = c.byPath.lookup p ∨
      ((c.commitStale planned).byPath.lookup p = none ∧
        ∃ e, c.byPath.lookup p = some e ∧ Evicted planned p e) := by
  unfold commitStale
  split
  · exact .inl rfl
  · split
    · exact .inl rfl
    · next entry found =>
        split
        · exact .inl rfl
        · next same =>
            by_cases here : p = planned.path
            · subst here
              rw [not_or, not_not, not_not] at same
              exact .inr ⟨AList.lookup_erase _ _, entry, found, rfl, same.1, same.2⟩
            · exact .inl (AList.lookup_erase_ne here)

theorem foldl_commitStale_lookup (stale : List PlannedStale) (c : CatalogState Value)
    (p : FilePath) :
    (stale.foldl commitStale c).byPath.lookup p = c.byPath.lookup p ∨
      ((stale.foldl commitStale c).byPath.lookup p = none ∧
        ∃ planned ∈ stale, ∃ e, c.byPath.lookup p = some e ∧ Evicted planned p e) := by
  induction stale generalizing c with
  | nil => exact .inl rfl
  | cons planned stale ih =>
      rw [List.foldl_cons]
      obtain kept | ⟨gone, e, found, evicted⟩ := c.commitStale_lookup planned p
      · obtain later | ⟨gone, planned', mem, e, found, evicted⟩ := ih (c.commitStale planned)
        · exact .inl (later.trans kept)
        · rw [kept] at found
          exact .inr ⟨gone, planned', List.mem_cons_of_mem planned mem, e, found, evicted⟩
      · obtain later | ⟨_, _, _, e', found', _⟩ := ih (c.commitStale planned)
        · exact .inr ⟨later.trans gone, planned, List.mem_cons_self, e, found, evicted⟩
        · rw [gone] at found'
          cases found'

variable {built : List (PlannedRebuild × RunCatalogEntry Value)}
  {updates : List (PlannedRecheck × WorktreeAuthority)} {stale : List PlannedStale}

/-- **What a commit leaves** was there before, or was rebuilt since the last invalidation. -/
theorem commit_lookup (h : (c.commit built updates stale).byPath.lookup p = some e) :
    (∃ e', c.byPath.lookup p = some e' ∧ e.SameRecord e') ∨
      ∃ b ∈ built, e.SameRecord b.2 ∧ c.Built b p b.2 := by
  unfold commit at h
  have updated := foldl_commitUpdate_lookup updates (built.foldl commitBuilt c) p
  obtain kept | ⟨gone, _⟩ :=
    foldl_commitStale_lookup stale (updates.foldl commitUpdate (built.foldl commitBuilt c)) p
  · rw [kept] at h
    rw [h] at updated
    obtain same | ⟨b, mem, same, fromB⟩ := foldl_commitBuilt_lookup built c p
    · rw [same] at updated
      cases before : c.byPath.lookup p with
      | none => rw [before] at updated; cases updated
      | some e' =>
          rw [before] at updated
          cases updated with
          | some record => exact .inl ⟨e', rfl, record⟩
    · rw [same] at updated
      cases updated with
      | some record => exact .inr ⟨b, mem, record, fromB⟩
  · rw [gone] at h
    cases h

/-- **What a commit removes** is what its plan observed absent, if it did not rebuild it. -/
theorem commit_removes (before : c.byPath.lookup p = some e)
    (h : (c.commit built updates stale).byPath.lookup p = none)
    (apart : ∀ b ∈ built, ∀ planned ∈ stale, b.1.path ≠ planned.path) :
    ∃ planned ∈ stale, Evicted planned p e := by
  unfold commit at h
  have updated := foldl_commitUpdate_lookup updates (built.foldl commitBuilt c) p
  obtain kept | ⟨_, planned, mem, e', found, path, evicted⟩ :=
    foldl_commitStale_lookup stale (updates.foldl commitUpdate (built.foldl commitBuilt c)) p
  · rw [← kept, h] at updated
    obtain same | ⟨b, _, same, _⟩ := foldl_commitBuilt_lookup built c p
    · rw [same, before] at updated
      cases updated
    · rw [same] at updated
      cases updated
  · rw [found] at updated
    obtain same | ⟨b, memB, _, pathB, _⟩ := foldl_commitBuilt_lookup built c p
    · rw [same, before] at updated
      cases updated with
      | some record =>
          exact ⟨planned, mem, path, record.fingerprint ▸ evicted.1, record.indexedAt ▸ evicted.2⟩
    · exact absurd (pathB.trans path.symm) (apart b memB planned mem)

/-! ### A commit with nothing since its plan -/

theorem commitUpdate_lookup_of_ne {u : PlannedRecheck × WorktreeAuthority} (other : u.1.path ≠ p) :
    (c.commitUpdate u).byPath.lookup p = c.byPath.lookup p := by
  unfold commitUpdate
  split
  · rfl
  · split
    · rfl
    · split
      · rfl
      · exact AList.lookup_insert_ne (Ne.symm other)

theorem commitUpdate_lookup_self {u : PlannedRecheck × WorktreeAuthority} {e : RunCatalogEntry Value}
    (found : c.byPath.lookup u.1.path = some e)
    (token : c.invalidations u.1.path = u.1.invalidation) :
    (c.commitUpdate u).byPath.lookup u.1.path =
      some (if e.worktreeAuthority = u.1.previous then { e with worktreeAuthority := u.2 }
        else e) := by
  unfold commitUpdate
  rw [if_neg (not_not.mpr token), found]
  dsimp only
  by_cases same : e.worktreeAuthority = u.1.previous
  · rw [if_neg (not_not.mpr same), if_pos same, AList.lookup_insert]
  · rw [if_pos same, if_neg same, found]

/-- The verdict that the updates leave behind. -/
theorem foldl_commitUpdate_settled {e : RunCatalogEntry Value} (found : c.byPath.lookup p = some e)
    (updates : List (PlannedRecheck × WorktreeAuthority))
    (fits : ∀ u ∈ updates, u.1.path = p →
      c.invalidations p = u.1.invalidation ∧ e.worktreeAuthority = u.1.previous) :
    ((updates.foldl commitUpdate c).byPath.lookup p = some e ∧ ∀ u ∈ updates, u.1.path ≠ p) ∨
      ∃ u ∈ updates, u.1.path = p ∧ (updates.foldl commitUpdate c).byPath.lookup p =
        some { e with worktreeAuthority := u.2 } := by
  induction updates using List.reverseRecOn with
  | nil => exact .inl ⟨found, nofun⟩
  | append_singleton updates u ih =>
      have earlier := ih fun u' mem => fits u' (List.mem_append_left _ mem)
      rw [List.foldl_append, List.foldl_cons, List.foldl_nil]
      by_cases here : u.1.path = p
      · obtain ⟨token, previous⟩ := fits u List.mem_concat_self here
        subst here
        have tokenNow : (updates.foldl commitUpdate c).invalidations u.1.path = u.1.invalidation := by
          rw [foldl_invalidations _ commitUpdate_invalidations, token]
        refine .inr ?_
        obtain ⟨kept, _⟩ | ⟨u', mem, path, changed⟩ := earlier
        · refine ⟨u, List.mem_concat_self, rfl, ?_⟩
          rw [commitUpdate_lookup_self kept tokenNow, if_pos previous]
        · rw [commitUpdate_lookup_self changed tokenNow]
          split
          · exact ⟨u, List.mem_concat_self, rfl, rfl⟩
          · exact ⟨u', List.mem_append_left _ mem, path, rfl⟩
      · rw [commitUpdate_lookup_of_ne here]
        obtain ⟨kept, others⟩ | ⟨u', mem, path, changed⟩ := earlier
        · refine .inl ⟨kept, fun u' mem => ?_⟩
          obtain before | rfl := List.mem_append.mp mem |>.imp_right List.mem_singleton.mp
          · exact others u' before
          · exact here
        · exact .inr ⟨u', List.mem_append_left _ mem, path, changed⟩

/-- A rebuild whose path was not invalidated is what the cache holds, unless a later one is. -/
theorem foldl_commitBuilt_mem {b : PlannedRebuild × RunCatalogEntry Value}
    {built : List (PlannedRebuild × RunCatalogEntry Value)} (mem : b ∈ built)
    (token : c.invalidations b.1.path = b.1.invalidation) :
    ∃ b' ∈ built, b'.1.path = b.1.path ∧
      (built.foldl commitBuilt c).byPath.lookup b.1.path = some b'.2 := by
  induction built generalizing c with
  | nil => cases mem
  | cons b₁ built ih =>
      rw [List.foldl_cons]
      obtain rfl | later := List.mem_cons.mp mem
      · obtain kept | ⟨b', hb', found, path, _⟩ :=
          foldl_commitBuilt_lookup built (c.commitBuilt b) b.1.path
        · refine ⟨b, mem, rfl, kept.trans ?_⟩
          unfold commitBuilt
          rw [if_neg (not_not.mpr token), AList.lookup_insert]
        · exact ⟨b', List.mem_cons_of_mem b hb', path, found⟩
      · obtain ⟨b', hb', path, found⟩ := ih (c := c.commitBuilt b₁) later
          (by rw [commitBuilt_invalidations, token])
        exact ⟨b', List.mem_cons_of_mem b₁ hb', path, found⟩

/-- A record that was observed absent and is still the one observed is gone. -/
theorem foldl_commitStale_mem {planned : PlannedStale} {stale : List PlannedStale}
    (mem : planned ∈ stale) (token : c.invalidations planned.path = planned.invalidation)
    (same : ∀ e, c.byPath.lookup planned.path = some e → Evicted planned planned.path e) :
    (stale.foldl commitStale c).byPath.lookup planned.path = none := by
  induction stale generalizing c with
  | nil => cases mem
  | cons planned₁ stale ih =>
      rw [List.foldl_cons]
      obtain kept | ⟨gone, _⟩ := c.commitStale_lookup planned₁ planned.path
      · obtain rfl | later := List.mem_cons.mp mem
        · obtain last | ⟨gone, _⟩ := foldl_commitStale_lookup stale (c.commitStale planned) planned.path
          · rw [last]
            unfold commitStale at kept ⊢
            rw [if_neg (not_not.mpr token)] at kept ⊢
            cases found : c.byPath.lookup planned.path with
            | none => exact found
            | some e =>
                obtain ⟨_, fingerprint, indexed⟩ := same e found
                dsimp only
                rw [if_neg (by rw [fingerprint, indexed]; simp), AList.lookup_erase]
          · exact gone
        · refine ih later (by rw [commitStale_invalidations, token]) fun e found => ?_
          rw [kept] at found
          exact same e found
      · obtain last | ⟨gone', _⟩ := foldl_commitStale_lookup stale (c.commitStale planned₁) planned.path
        · exact last.trans gone
        · exact gone'

variable {dir : FilePath} {observed : List ObservedSession}

theorem mem_plan_rebuild {planned : PlannedRebuild} (h : planned ∈ (c.plan dir observed).rebuild) :
    ∃ seen ∈ observed, c.cacheHit seen = none ∧ planned.path = seen.path ∧
      planned.fingerprint = seen.fingerprint ∧
      planned.invalidation = c.invalidations planned.path := by
  obtain ⟨seen, mem, made⟩ := List.mem_filterMap.mp h
  split at made
  · cases made
  · next miss =>
      obtain rfl := Option.some.inj made
      exact ⟨seen, mem, by simpa using miss, rfl, rfl, rfl⟩

theorem mem_plan_recheck {planned : PlannedRecheck} (h : planned ∈ (c.plan dir observed).recheck) :
    ∃ seen ∈ observed, ∃ e, c.cacheHit seen = some e ∧ planned.path = seen.path ∧
      c.byPath.lookup planned.path = some e ∧ planned.runId = e.runId ∧
      planned.previous = e.worktreeAuthority ∧
      planned.invalidation = c.invalidations planned.path := by
  obtain ⟨seen, mem, made⟩ := List.mem_filterMap.mp h
  obtain ⟨e, hit, rfl⟩ := Option.map_eq_some_iff.mp made
  exact ⟨seen, mem, e, hit, rfl, (Option.filter_eq_some_iff.mp hit).1, rfl, rfl, rfl⟩

theorem mem_plan_stale {planned : PlannedStale} (h : planned ∈ (c.plan dir observed).stale) :
    planned.path ∉ observed.map ObservedSession.path ∧
      ∃ e, c.byPath.lookup planned.path = some e ∧ e.fingerprint = planned.fingerprint ∧
        e.indexedAt = planned.indexedAt := by
  obtain ⟨⟨path, e⟩, mem, made⟩ := List.mem_filterMap.mp h
  split at made
  · next absent =>
      obtain rfl := Option.some.inj made
      exact ⟨absent.2, e, AList.mem_lookup_iff.mpr mem, rfl, rfl⟩
  · cases made

/-- **What a refresh leaves**, if nothing happened since its plan: a rebuilt entry, a cached one
with a new verdict, or a cached one as it was, which the plan has then rechecked unless it is of
another directory. -/
theorem commit_plan_lookup
    (apart : ∀ a ∈ observed, ∀ b ∈ observed, a.path = b.path → a = b)
    (rebuilt : ∀ planned ∈ (c.plan dir observed).rebuild, ∃ b ∈ built, b.1 = planned)
    (fromRebuild : ∀ b ∈ built, b.1 ∈ (c.plan dir observed).rebuild)
    (fromRecheck : ∀ u ∈ updates, u.1 ∈ (c.plan dir observed).recheck)
    (h : (c.commit built updates (c.plan dir observed).stale).byPath.lookup p = some e) :
    (∃ b ∈ built, e = b.2) ∨
      ∃ e₀, c.byPath.lookup p = some e₀ ∧
        ((∃ u ∈ updates, u.1.runId = e₀.runId ∧ e = { e₀ with worktreeAuthority := u.2 }) ∨
          (e = e₀ ∧ (parentPath p = some dir → ∃ planned ∈ (c.plan dir observed).recheck,
            planned.runId = e₀.runId ∧ planned.previous = e₀.worktreeAuthority ∧
              ∀ u ∈ updates, u.1 ≠ planned))) := by
  unfold commit at h
  have kept : ((updates.foldl commitUpdate (built.foldl commitBuilt c)).byPath.lookup p = some e) := by
    obtain kept | ⟨gone, _⟩ := foldl_commitStale_lookup (c.plan dir observed).stale
      (updates.foldl commitUpdate (built.foldl commitBuilt c)) p
    · exact kept.symm.trans h
    · rw [gone] at h
      cases h
  by_cases rebuild : ∃ b ∈ built, b.1.path = p
  · -- Its path is not rechecked, so the rebuilt entry stands.
    obtain ⟨b, mem, rfl⟩ := rebuild
    obtain ⟨seen, hseen, miss, path, _, token⟩ := mem_plan_rebuild (fromRebuild b mem)
    obtain ⟨b', hb', _, found⟩ := foldl_commitBuilt_mem mem token.symm
    have none : ∀ u ∈ updates, u.1.path ≠ b.1.path := by
      intro u hu same
      obtain ⟨seen', hseen', e', hit, path', _⟩ := mem_plan_recheck (fromRecheck u hu)
      obtain rfl := apart seen hseen seen' hseen' (by rw [← path, ← path', same])
      rw [miss] at hit
      cases hit
    obtain ⟨found', _⟩ | ⟨u, hu, same, _⟩ :=
      foldl_commitUpdate_settled found updates fun u hu same => absurd same (none u hu)
    · rw [found'] at kept
      exact .inl ⟨b', hb', (Option.some.inj kept).symm⟩
    · exact absurd same (none u hu)
  · have before : (built.foldl commitBuilt c).byPath.lookup p = c.byPath.lookup p := by
      obtain same | ⟨b, mem, _, path, _⟩ := foldl_commitBuilt_lookup built c p
      · exact same
      · exact absurd ⟨b, mem, path⟩ rebuild
    obtain ⟨e₀, cached⟩ : ∃ e₀, c.byPath.lookup p = some e₀ := by
      have rel := foldl_commitUpdate_lookup updates (built.foldl commitBuilt c) p
      rw [kept, before] at rel
      cases found : c.byPath.lookup p with
      | none => rw [found] at rel; cases rel
      | some e₀ => exact ⟨e₀, rfl⟩
    refine .inr ⟨e₀, cached, ?_⟩
    obtain ⟨found, others⟩ | ⟨u, hu, path, found⟩ := foldl_commitUpdate_settled (p := p)
      (before.trans cached) updates fun u hu same => by
        obtain ⟨_, _, e', _, _, lookup, _, previous, token⟩ := mem_plan_recheck (fromRecheck u hu)
        rw [same, cached] at lookup
        obtain rfl := Option.some.inj lookup
        rw [foldl_invalidations _ commitBuilt_invalidations, token, previous, same]
        exact ⟨rfl, rfl⟩
    · rw [found] at kept
      obtain rfl := Option.some.inj kept
      refine .inr ⟨rfl, fun inDir => ?_⟩
      by_cases seenHere : p ∈ observed.map ObservedSession.path
      · obtain ⟨seen, hseen, rfl⟩ := List.mem_map.mp seenHere
        cases hit : c.cacheHit seen with
        | none =>
            obtain ⟨b, mem, same⟩ := rebuilt
              ⟨seen.path, seen.fingerprint, seen.len, c.invalidations seen.path⟩
              (List.mem_filterMap.mpr ⟨seen, hseen, by simp [hit]⟩)
            exact absurd ⟨b, mem, by rw [same]⟩ rebuild
        | some e' =>
            have lookup := (Option.filter_eq_some_iff.mp hit).1
            rw [cached] at lookup
            obtain rfl := Option.some.inj lookup
            refine ⟨⟨seen.path, e₀.runId, e₀.worktreeAuthority, c.invalidations seen.path⟩,
              List.mem_filterMap.mpr ⟨seen, hseen, by simp [hit]⟩, rfl, rfl, ?_⟩
            exact fun u hu same => others u hu (by rw [same])
      · -- The plan observed the entry absent, and the commit evicts it.
        have stale : (⟨p, c.invalidations p, e₀.fingerprint, e₀.indexedAt⟩ : PlannedStale) ∈
            (c.plan dir observed).stale :=
          List.mem_filterMap.mpr ⟨⟨p, e₀⟩, AList.mem_lookup_iff.mp cached, by simp [inDir, seenHere]⟩
        have gone := foldl_commitStale_mem
          (c := updates.foldl commitUpdate (built.foldl commitBuilt c)) stale
          (by rw [foldl_invalidations _ commitUpdate_invalidations,
            foldl_invalidations _ commitBuilt_invalidations])
          (fun e' lookup => by
            rw [found] at lookup
            obtain rfl := Option.some.inj lookup
            exact ⟨rfl, rfl, rfl⟩)
        rw [gone] at h
        cases h
    · rw [found] at kept
      obtain ⟨_, _, e', _, _, lookup, runId, _⟩ := mem_plan_recheck (fromRecheck u hu)
      rw [path, cached] at lookup
      obtain rfl := Option.some.inj lookup
      exact .inl ⟨u, hu, runId, (Option.some.inj kept).symm⟩

end CatalogState

end Orgasmic
