import Orgasmic.CatalogCommit
import Orgasmic.Tombstones

/-! # Tombstones are durable and final

A run that the ledger names is never left verified by a refresh: the ledger is asked about every
entry that the refresh looks at. A tombstone reaches the ledger only in the refresh that mints it;
if the ledger cannot be read or written then, the cache keeps a tombstone that no later refresh
records. -/

namespace Orgasmic

open Interleaving

variable {Value : Type}

/-! ### The ledger -/

/-- The durable ledger names the run, whatever has happened to its file since. -/
def LedgerFile.Names (file : LedgerFile) (run : Text) : Prop :=
  ∃ tombstoned, file.written = some tombstoned ∧ run ∈ tombstoned

namespace TombstoneLedger

variable {file : LedgerFile} {ledger : TombstoneLedger × Bool} {run q : Text}

theorem contains_iff {l : TombstoneLedger} : l.contains q ↔ q ∈ l.tombstoned := decide_eq_true_iff

theorem contains_load (usable : (load file).unusable = false) :
    (load file).ledger.contains q ↔ file.Names q := by
  obtain ⟨written, damage⟩ := file
  cases damage with
  | some damage => cases damage <;> simp [load, TombstoneLedgerState.unusable] at usable
  | none =>
      cases written with
      | none =>
          simp [contains_iff, load, TombstoneLedgerState.ledger, LedgerFile.Names, default]
      | some tombstoned => simp [contains_iff, load, TombstoneLedgerState.ledger, LedgerFile.Names]

theorem names_saveGrown (write : LedgerWrite) (h : file.Names q) :
    (saveGrown ledger write file).Names q := by
  unfold saveGrown
  split
  · unfold save
    split
    · exact h
    · next usable =>
        split
        · exact h
        · have loaded := (contains_load (Bool.eq_false_iff.mpr usable)).mpr h
          exact ⟨_, rfl, AList.mem_union.mpr (.inl (of_decide_eq_true loaded))⟩
  · exact h

theorem saveGrown_names {write : LedgerWrite} (usable : (load file).unusable = false)
    (published : write ≠ .failed false) (grew : ledger.2 = true) (h : ledger.1.contains q) :
    (saveGrown ledger write file).Names q := by
  unfold saveGrown save
  rw [if_pos grew, if_neg (Bool.eq_false_iff.mp usable), if_neg published]
  exact ⟨_, rfl, AList.mem_union.mpr (.inr (of_decide_eq_true h))⟩

theorem recordTombstone_contains {verdict : WorktreeAuthority} :
    (recordTombstone ledger run verdict).1.contains q ↔
      ledger.1.contains q ∨ (verdict.isTombstoned ∧ q = run ∧ run ≠ []) := by
  cases verdict with
  | tombstoned recorded identity =>
      by_cases empty : run = []
      · simp [recordTombstone, record, empty]
      · simp [recordTombstone, record, empty, contains_iff, AList.mem_insert,
          WorktreeAuthority.isTombstoned, or_comm]
  | _ => simp [recordTombstone, WorktreeAuthority.isTombstoned]

/-- What a ledger became, with its flag for whether it has grown. -/
structure Grown (loaded : TombstoneLedger) (ledger : TombstoneLedger × Bool) : Prop where
  kept : ∀ q, loaded.contains q → ledger.1.contains q
  new : ∀ q, ledger.1.contains q → loaded.contains q ∨ ledger.2 = true

theorem Grown.recordTombstone {loaded : TombstoneLedger} (h : Grown loaded ledger)
    (verdict : WorktreeAuthority) : Grown loaded (recordTombstone ledger run verdict) where
  kept q there := recordTombstone_contains.mpr (.inl (h.kept q there))
  new q there := by
    cases verdict with
    | tombstoned recorded identity =>
        by_cases empty : run = []
        · simpa [Orgasmic.recordTombstone, record, empty] using h.new q
            (by simpa [Orgasmic.recordTombstone, record, empty] using there)
        · by_cases old : ledger.1.contains run
          · obtain before | ⟨_, rfl, _⟩ := recordTombstone_contains.mp there
            · exact (h.new q before).imp_right fun grew => by
                simp [Orgasmic.recordTombstone, grew]
            · exact (h.new q old).imp_right fun grew => by simp [Orgasmic.recordTombstone, grew]
          · refine .inr ?_
            simp [Orgasmic.recordTombstone, record, empty, old]
    | _ => exact h.new q there

end TombstoneLedger

/-! ### One verdict -/

section verdicts

variable {fs : Worktrees} {verdict v : WorktreeAuthority} {unusable : Bool}
  {ledger : TombstoneLedger} {run : Text} {projectId : Option Text} {projectRoot : FilePath}

/-- A verdict that the ledger has a say in is not left verified. -/
theorem reconciled_not_verified (fs : Worktrees) (verdict : WorktreeAuthority)
    (projectId : Option Text) (projectRoot : FilePath) (named : unusable = true ∨ ledger.contains run = true) :
    ((reconcileAuthority fs verdict unusable ledger run projectId projectRoot).getD
      verdict).isVerified = false := by
  cases verdict <;> cases unusable <;> cases h : ledger.contains run <;>
    simp_all [reconcileAuthority, WorktreeAuthority.isVerified]

/-- A tombstone comes from the file system or from the ledger. -/
theorem reconciled_tombstoned (provable : ∀ recorded, verdict ≠ .unprovable recorded)
    (h : ((reconcileAuthority fs verdict unusable ledger run projectId projectRoot).getD
      verdict).isTombstoned) :
    verdict.isTombstoned ∨ (unusable = false ∧ ledger.contains run) := by
  cases verdict <;> cases unusable <;> cases hc : ledger.contains run <;>
    simp_all [reconcileAuthority, WorktreeAuthority.isTombstoned]

end verdicts

/-! ### The verdicts of one refresh -/

section reconciling

variable {fs : Worktrees} {args : RefreshArgs} {unusable : Bool} {loaded : TombstoneLedger}
  {ledger : TombstoneLedger × Bool} {built : List (PlannedRebuild × RunCatalogEntry Value)}
  {b : PlannedRebuild × RunCatalogEntry Value} {q : Text}

/-- The ledger after the rebuilt entries, one entry at a time. -/
theorem reconcileBuilt_cons (fs : Worktrees) (args : RefreshArgs) (unusable : Bool)
    (ledger : TombstoneLedger × Bool) (b : PlannedRebuild × RunCatalogEntry Value)
    (built : List (PlannedRebuild × RunCatalogEntry Value)) :
    let verdict := (reconcileAuthority fs b.2.worktreeAuthority unusable ledger.1 b.2.runId
      args.projectId args.projectRoot).getD b.2.worktreeAuthority
    let next := if unusable then ledger else recordTombstone ledger b.2.runId verdict
    reconcileBuilt fs args unusable ledger (b :: built) =
      ((reconcileBuilt fs args unusable next built).1,
        (b.1, { b.2 with worktreeAuthority := verdict }) ::
          (reconcileBuilt fs args unusable next built).2) := rfl

theorem reconcileBuilt_planned :
    (reconcileBuilt fs args unusable ledger built).2.map Prod.fst = built.map Prod.fst := by
  induction built generalizing ledger with
  | nil => rfl
  | cons b built ih =>
      rw [reconcileBuilt_cons, List.map_cons, List.map_cons, ih]

theorem reconcileBuilt_grown (h : TombstoneLedger.Grown loaded ledger) :
    TombstoneLedger.Grown loaded (reconcileBuilt fs args unusable ledger built).1 := by
  induction built generalizing ledger with
  | nil => exact h
  | cons b built ih =>
      rw [reconcileBuilt_cons]
      refine ih ?_
      split
      · exact h
      · exact h.recordTombstone _

/-- No rebuilt entry of a run that the ledger names is left verified. -/
theorem reconcileBuilt_not_verified
    (named : unusable = true ∨ ledger.1.contains q = true) (mem : b ∈ (reconcileBuilt fs args unusable ledger built).2)
    (run : b.2.runId = q) : b.2.worktreeAuthority.isVerified = false := by
  induction built generalizing ledger with
  | nil => cases mem
  | cons b' built ih =>
      rw [reconcileBuilt_cons] at mem
      obtain rfl | later := List.mem_cons.mp mem
      · subst run
        exact reconciled_not_verified _ _ _ _ named
      · refine ih ?_ later
        refine named.imp_right fun there => ?_
        split
        · exact there
        · exact TombstoneLedger.recordTombstone_contains.mpr (.inl there)

/-- What the ledger names beside one more rebuilt entry. -/
theorem next_contains (provable : ∀ r, b.2.worktreeAuthority ≠ .unprovable r)
    (h : (if unusable then ledger else recordTombstone ledger b.2.runId
      ((reconcileAuthority fs b.2.worktreeAuthority unusable ledger.1 b.2.runId args.projectId
        args.projectRoot).getD b.2.worktreeAuthority)).1.contains q) :
    ledger.1.contains q ∨ (b.2.worktreeAuthority.isTombstoned ∧ b.2.runId = q) := by
  cases unusable with
  | true => exact .inl h
  | false =>
      obtain before | ⟨tombstoned, rfl, _⟩ := TombstoneLedger.recordTombstone_contains.mp h
      · exact .inl before
      · obtain gone | ⟨_, before⟩ := reconciled_tombstoned provable tombstoned
        · exact .inr ⟨gone, rfl⟩
        · exact .inl before

/-- A run that the ledger names after the rebuilt entries was named before, or the worktree of one
of its entries is gone. -/
theorem reconcileBuilt_contains
    (provable : ∀ b ∈ built, ∀ r, b.2.worktreeAuthority ≠ .unprovable r)
    (h : (reconcileBuilt fs args unusable ledger built).1.1.contains q) :
    ledger.1.contains q ∨ ∃ b ∈ built, b.2.worktreeAuthority.isTombstoned ∧ b.2.runId = q := by
  induction built generalizing ledger with
  | nil => exact .inl h
  | cons b built ih =>
      rw [reconcileBuilt_cons] at h
      obtain next | ⟨b', mem, gone⟩ := ih (fun b' mem => provable b' (List.mem_cons_of_mem b mem)) h
      · exact (next_contains (provable b List.mem_cons_self) next).imp_right fun gone =>
          ⟨b, List.mem_cons_self, gone⟩
      · exact .inr ⟨b', List.mem_cons_of_mem b mem, gone⟩

/-- So it is with the run of a tombstone among the rebuilt entries. -/
theorem reconcileBuilt_tombstoned
    (provable : ∀ b ∈ built, ∀ r, b.2.worktreeAuthority ≠ .unprovable r)
    (mem : b ∈ (reconcileBuilt fs args unusable ledger built).2)
    (h : b.2.worktreeAuthority.isTombstoned) :
    (unusable = false ∧ ledger.1.contains b.2.runId) ∨
      ∃ b' ∈ built, b'.2.worktreeAuthority.isTombstoned ∧ b'.2.runId = b.2.runId := by
  induction built generalizing ledger with
  | nil => cases mem
  | cons b₁ built ih =>
      rw [reconcileBuilt_cons] at mem
      obtain rfl | later := List.mem_cons.mp mem
      · obtain gone | before := reconciled_tombstoned (provable b₁ List.mem_cons_self) h
        · exact .inr ⟨b₁, List.mem_cons_self, gone, rfl⟩
        · exact .inl before
      · obtain ⟨usable, next⟩ | ⟨b', mem', gone⟩ :=
          ih (fun b' mem => provable b' (List.mem_cons_of_mem b₁ mem)) later
        · obtain before | gone := next_contains (provable b₁ List.mem_cons_self) next
          · exact .inl ⟨usable, before⟩
          · exact .inr ⟨b₁, List.mem_cons_self, gone⟩
        · exact .inr ⟨b', List.mem_cons_of_mem b₁ mem', gone⟩

/-- Where the ledger can be read, it names every rebuilt tombstone afterwards. -/
theorem reconcileBuilt_records (usable : unusable = false)
    (mem : b ∈ (reconcileBuilt fs args unusable ledger built).2)
    (h : b.2.worktreeAuthority.isTombstoned) (named : b.2.runId ≠ []) :
    (reconcileBuilt fs args unusable ledger built).1.1.contains b.2.runId := by
  induction built generalizing ledger with
  | nil => cases mem
  | cons b₁ built ih =>
      rw [reconcileBuilt_cons] at mem ⊢
      obtain rfl | later := List.mem_cons.mp mem
      · subst usable
        exact (reconcileBuilt_grown ⟨fun _ => id, fun _ => .inl⟩).kept _
          (TombstoneLedger.recordTombstone_contains.mpr (.inr ⟨h, rfl, named⟩))
      · exact ih later

end reconciling

section rechecking

variable {fs : Worktrees} {args : RefreshArgs} {unusable : Bool} {ledger : TombstoneLedger}
  {planned : PlannedRecheck} {updated : WorktreeAuthority}

/-- A recheck of a run that the ledger names leaves nothing verified. -/
theorem recheck_not_verified (named : unusable = true ∨ ledger.contains planned.runId = true)
    (h : recheckAuthority fs args unusable ledger planned = some updated) :
    updated.isVerified = false := by
  unfold recheckAuthority at h
  have settled := reconciled_not_verified fs (((probeAuthorityPath fs planned.previous).bind
    (reverifyAuthority planned.previous)).getD planned.previous) args.projectId args.projectRoot named
  dsimp only at h
  split at h
  · next overruled there =>
      obtain rfl := Option.some.inj h
      rwa [there] at settled
  · next there =>
      rw [there, h] at settled
      exact settled

/-- A verified entry of such a run gets another verdict. -/
theorem recheck_verified (fs : Worktrees) (args : RefreshArgs) (named : unusable = true ∨ ledger.contains planned.runId = true)
    (was : planned.previous.isVerified) :
    (recheckAuthority fs args unusable ledger planned).isSome := by
  cases h : recheckAuthority fs args unusable ledger planned with
  | some updated => rfl
  | none =>
      unfold recheckAuthority at h
      have settled := reconciled_not_verified fs (((probeAuthorityPath fs planned.previous).bind
        (reverifyAuthority planned.previous)).getD planned.previous) args.projectId args.projectRoot
        named
      dsimp only at h
      split at h
      · cases h
      · next there =>
          rw [there, h] at settled
          exact absurd was (Bool.eq_false_iff.mp settled)

/-- A recheck mints a tombstone because the worktree is gone, because the ledger says so, or when a
readable ledger clears the way for a look at a worktree that is gone. -/
theorem recheck_tombstoned (h : recheckAuthority fs args unusable ledger planned = some updated)
    (tombstoned : updated.isTombstoned) :
    (∃ probe, probeAuthorityPath fs planned.previous = some probe ∧
      (reverifyAuthority planned.previous probe).isSome) ∨
    (unusable = false ∧ ledger.contains planned.runId) ∨
    (unusable = false ∧ ∃ recorded projectId, planned.previous = .unprovable recorded ∧
      args.projectId = some projectId ∧ (verifyWorktreeAuthority fs (some projectId)
        args.projectRoot (some (some projectId, some recorded))).isTombstoned) := by
  unfold recheckAuthority at h
  dsimp only at h
  cases probed : (probeAuthorityPath fs planned.previous).bind (reverifyAuthority planned.previous) with
  | some gone =>
      obtain ⟨probe, looked, answer⟩ := Option.bind_eq_some_iff.mp probed
      exact .inl ⟨probe, looked, by rw [answer]; rfl⟩
  | none =>
      refine .inr ?_
      rw [probed, Option.getD_none] at h
      cases hp : planned.previous with
      | unprovable recorded =>
          rw [hp] at h
          cases unusable with
          | true => simp [reconcileAuthority] at h
          | false =>
              cases hc : ledger.contains planned.runId with
              | true => exact .inl ⟨rfl, rfl⟩
              | false =>
                  refine .inr ⟨rfl, recorded, ?_⟩
                  cases hproject : args.projectId with
                  | none => simp [reconcileAuthority, hc, hproject] at h
                  | some projectId =>
                      simp only [reconcileAuthority, hc, hproject, Option.map_some] at h
                      obtain rfl := Option.some.inj h
                      exact ⟨projectId, rfl, rfl, tombstoned⟩
      | verified worktree identity =>
          rw [hp] at h
          cases unusable with
          | true =>
              obtain rfl := Option.some.inj h
              cases tombstoned
          | false =>
              cases hc : ledger.contains planned.runId with
              | true => exact .inl ⟨rfl, rfl⟩
              | false => simp [reconcileAuthority, hc] at h
      | _ =>
          rw [hp] at h
          cases h

end rechecking

/-! ### When a tombstone is minted -/

section minting

variable (json : SerdeJson Value) (s : TombstoneWorld Value) (args : RefreshArgs) (now : ℤ)
  (listing : List Text)

/-- A refresh turns a verdict on the run into a tombstone. -/
inductive Mints : Text → Prop
  /-- The worktree that the scanned session records is gone. -/
  | rebuilt {b : PlannedRebuild × RunCatalogEntry Value} (mem : b ∈ s.rebuilt json args now listing)
      (gone : b.2.worktreeAuthority.isTombstoned) : Mints b.2.runId
  /-- The worktree of a cached verified entry is gone. -/
  | vanished {planned : PlannedRecheck}
      (mem : planned ∈ (s.catalog.plan args.dir (s.observed args.dir listing)).recheck)
      {probe : AuthorityProbe} (looked : probeAuthorityPath s.worktrees planned.previous = some probe)
      (gone : (reverifyAuthority planned.previous probe).isSome) : Mints planned.runId
  /-- The ledger can be read again, and the worktree that nothing could be proved about is gone. -/
  | cleared {planned : PlannedRecheck}
      (mem : planned ∈ (s.catalog.plan args.dir (s.observed args.dir listing)).recheck)
      (usable : (TombstoneLedger.load s.ledger).unusable = false) {recorded : FilePath}
      {projectId : Text} (was : planned.previous = .unprovable recorded)
      (project : args.projectId = some projectId)
      (gone : (verifyWorktreeAuthority s.worktrees (some projectId) args.projectRoot
        (some (some projectId, some recorded))).isTombstoned) : Mints planned.runId

end minting

/-- A refresh that mints a tombstone for a run that the ledger does not name can read the ledger and
publishes its write, and the run has an id. -/
def Recordable (json : SerdeJson Value) (s : TombstoneWorld Value) : TombstoneAction → Prop
  | .refresh projectId budget now listing write =>
      ∀ run, Mints json s (s.args projectId budget) now listing run → s.ledger.Names run ∨
        ((TombstoneLedger.load s.ledger).unusable = false ∧ write ≠ .failed false ∧ run ≠ [])
  | _ => True

/-! ### One refresh -/

theorem verify_provable (fs : Worktrees) (projectId : Option Text) (projectRoot : FilePath)
    (runMeta : RecordedAuthority) (r : FilePath) :
    verifyWorktreeAuthority fs projectId projectRoot runMeta ≠ .unprovable r := by
  unfold verifyWorktreeAuthority
  repeat' split
  all_goals exact nofun

theorem rebuildEntry_provable (json : SerdeJson Value) (fs : Worktrees) (now : ℤ)
    (args : RefreshArgs) (planned : PlannedRebuild) (node : Option SessionNode) (r : FilePath) :
    (rebuildEntry json fs now args planned node).worktreeAuthority ≠ .unprovable r := by
  unfold rebuildEntry
  split
  · exact WorktreeAuthority.noConfusion
  · split
    · exact WorktreeAuthority.noConfusion
    · split
      · exact WorktreeAuthority.noConfusion
      · exact verify_provable _ _ _ _ r

theorem observeSession_path {files : SessionFiles} {path : FilePath} {seen : ObservedSession}
    (h : observeSession files path = some seen) : seen.path = path := by
  unfold observeSession at h
  split at h
  · cases h
  · split at h
    · cases h
    · split at h
      · obtain rfl := Option.some.inj h
        rfl
      · cases h

section recording

variable {ledger : TombstoneLedger × Bool} {updates : List (PlannedRecheck × WorktreeAuthority)}
  {q : Text}

theorem recordUpdates_grown {loaded : TombstoneLedger} (h : TombstoneLedger.Grown loaded ledger) :
    TombstoneLedger.Grown loaded (recordUpdates ledger updates) := by
  induction updates generalizing ledger with
  | nil => exact h
  | cons u updates ih => exact ih (h.recordTombstone u.2)

theorem recordUpdates_kept (h : ledger.1.contains q) :
    (recordUpdates ledger updates).1.contains q :=
  (recordUpdates_grown ⟨fun _ => id, fun _ => .inl⟩).kept q h

theorem recordUpdates_records {u : PlannedRecheck × WorktreeAuthority} (mem : u ∈ updates)
    (h : u.2.isTombstoned) (named : u.1.runId ≠ []) :
    (recordUpdates ledger updates).1.contains u.1.runId := by
  induction updates generalizing ledger with
  | nil => cases mem
  | cons u' updates ih =>
      obtain rfl | later := List.mem_cons.mp mem
      · change (recordUpdates (recordTombstone ledger u.1.runId u.2) updates).1.contains _
        exact recordUpdates_kept
          (TombstoneLedger.recordTombstone_contains.mpr (.inr ⟨h, rfl, named⟩))
      · exact ih later

end recording

namespace TombstoneWorld

variable {json : SerdeJson Value} {s : TombstoneWorld Value} {args : RefreshArgs} {now : ℤ}
  {listing : List Text} {write : LedgerWrite} {p : FilePath} {e : RunCatalogEntry Value} {q : Text}

theorem observed_path {seen : ObservedSession} (h : seen ∈ s.observed args.dir listing) :
    observeSession s.files seen.path = some seen ∧ parentPath seen.path = some args.dir := by
  obtain ⟨name, _, there⟩ := List.mem_filterMap.mp h
  have path := observeSession_path there
  rw [path]
  refine ⟨there, ?_⟩
  unfold parentPath
  split
  · next empty => simp at empty
  · next first rest whole => rw [← whole, List.dropLast_concat]

theorem observed_apart : ∀ a ∈ s.observed args.dir listing, ∀ b ∈ s.observed args.dir listing,
    a.path = b.path → a = b := by
  intro a ha b hb same
  have hb := (observed_path hb).1
  rw [← same, (observed_path ha).1] at hb
  exact Option.some.inj hb

/-- The rebuilt entries after the ledger was asked, with the ledger by then. -/
def reconciled (json : SerdeJson Value) (s : TombstoneWorld Value) (args : RefreshArgs) (now : ℤ)
    (listing : List Text) :
    (TombstoneLedger × Bool) × List (PlannedRebuild × RunCatalogEntry Value) :=
  reconcileBuilt s.worktrees args (TombstoneLedger.load s.ledger).unusable
    ((TombstoneLedger.load s.ledger).ledger, false) (s.rebuilt json args now listing)

/-- The verdicts that are changed against that ledger. -/
def updates (json : SerdeJson Value) (s : TombstoneWorld Value) (args : RefreshArgs) (now : ℤ)
    (listing : List Text) : List (PlannedRecheck × WorktreeAuthority) :=
  s.rechecked args listing (TombstoneLedger.load s.ledger).unusable
    (s.reconciled json args now listing).1.1

theorem refreshDir_eq : s.refreshDir json args now listing write =
    { s with
      ledger := saveGrown (recordUpdates (s.reconciled json args now listing).1
        (s.updates json args now listing)) write s.ledger
      catalog := s.catalog.commit (s.reconciled json args now listing).2
        (s.updates json args now listing)
        (s.catalog.plan args.dir (s.observed args.dir listing)).stale } := rfl

theorem mem_updates {u : PlannedRecheck × WorktreeAuthority} :
    u ∈ s.updates json args now listing ↔
      u.1 ∈ (s.catalog.plan args.dir (s.observed args.dir listing)).recheck ∧
        recheckAuthority s.worktrees args (TombstoneLedger.load s.ledger).unusable
          (s.reconciled json args now listing).1.1 u.1 = some u.2 := by
  constructor
  · intro h
    obtain ⟨planned, mem, made⟩ := List.mem_filterMap.mp h
    obtain ⟨updated, there, rfl⟩ := Option.map_eq_some_iff.mp made
    exact ⟨mem, there⟩
  · rintro ⟨mem, there⟩
    exact List.mem_filterMap.mpr ⟨u.1, mem, by rw [there]; rfl⟩

theorem rebuilt_provable : ∀ b ∈ s.rebuilt json args now listing, ∀ r,
    b.2.worktreeAuthority ≠ .unprovable r := by
  intro b mem r
  obtain ⟨planned, _, rfl⟩ := List.mem_map.mp mem
  exact rebuildEntry_provable json _ _ _ _ _ r

theorem reconciled_planned {b : PlannedRebuild × RunCatalogEntry Value}
    (h : b ∈ (s.reconciled json args now listing).2) :
    b.1 ∈ (s.catalog.plan args.dir (s.observed args.dir listing)).rebuild := by
  have mem := List.mem_map_of_mem (f := Prod.fst) h
  unfold reconciled at mem
  rw [reconcileBuilt_planned] at mem
  obtain ⟨b', mem', same⟩ := List.mem_map.mp mem
  obtain ⟨planned, there, rfl⟩ := List.mem_map.mp mem'
  exact same ▸ there

theorem planned_reconciled {planned : PlannedRebuild}
    (h : planned ∈ (s.catalog.plan args.dir (s.observed args.dir listing)).rebuild) :
    ∃ b ∈ (s.reconciled json args now listing).2, b.1 = planned := by
  have mem : planned ∈ (s.reconciled json args now listing).2.map Prod.fst := by
    unfold reconciled
    rw [reconcileBuilt_planned]
    exact List.mem_map.mpr ⟨_, List.mem_map.mpr ⟨planned, h, rfl⟩, rfl⟩
  obtain ⟨b, there, same⟩ := List.mem_map.mp mem
  exact ⟨b, there, same⟩

/-- **What a refresh leaves**: a rebuilt entry, a cached one with a new verdict, or a cached one that
was looked at and kept its verdict. -/
theorem refreshDir_lookup
    (h : (s.refreshDir json args now listing write).catalog.byPath.lookup p = some e) :
    (∃ b ∈ (s.reconciled json args now listing).2, e = b.2) ∨
      ∃ e₀, s.catalog.byPath.lookup p = some e₀ ∧
        ((∃ u ∈ s.updates json args now listing, u.1.runId = e₀.runId ∧
            e = { e₀ with worktreeAuthority := u.2 }) ∨
          (e = e₀ ∧ (parentPath p = some args.dir →
            ∃ planned ∈ (s.catalog.plan args.dir (s.observed args.dir listing)).recheck,
              planned.runId = e₀.runId ∧ planned.previous = e₀.worktreeAuthority ∧
                ∀ u ∈ s.updates json args now listing, u.1 ≠ planned))) :=
  CatalogState.commit_plan_lookup observed_apart (fun _ mem => planned_reconciled mem)
    (fun _ mem => reconciled_planned mem) (fun _ mem => (mem_updates.mp mem).1) h

/-- A tombstone that the refresh leaves and mints, or that the ledger told it of, is in the ledger
afterwards. -/
theorem names_after
    (recordable : ∀ run, Mints json s args now listing run → s.ledger.Names run ∨
      ((TombstoneLedger.load s.ledger).unusable = false ∧ write ≠ .failed false ∧ run ≠ []))
    (from_ : ((TombstoneLedger.load s.ledger).unusable = false ∧
      (TombstoneLedger.load s.ledger).ledger.contains q) ∨ Mints json s args now listing q)
    (recorded : (TombstoneLedger.load s.ledger).unusable = false → q ≠ [] →
      (recordUpdates (s.reconciled json args now listing).1
        (s.updates json args now listing)).1.contains q) :
    (s.refreshDir json args now listing write).ledger.Names q := by
  have grown : TombstoneLedger.Grown (TombstoneLedger.load s.ledger).ledger
      (recordUpdates (s.reconciled json args now listing).1 (s.updates json args now listing)) :=
    recordUpdates_grown (reconcileBuilt_grown ⟨fun _ => id, fun _ => .inl⟩)
  rw [refreshDir_eq]
  obtain ⟨usable, loaded⟩ | mints := from_
  · exact TombstoneLedger.names_saveGrown write ((TombstoneLedger.contains_load usable).mp loaded)
  · obtain named | ⟨usable, published, hasId⟩ := recordable q mints
    · exact TombstoneLedger.names_saveGrown write named
    · obtain loaded | grew := grown.new q (recorded usable hasId)
      · exact TombstoneLedger.names_saveGrown write
          ((TombstoneLedger.contains_load usable).mp loaded)
      · exact TombstoneLedger.saveGrown_names usable published grew (recorded usable hasId)

/-- **The tombstones of one refresh** are in the ledger, if those before it were. -/
theorem refreshDir_named
    (recordable : ∀ run, Mints json s args now listing run → s.ledger.Names run ∨
      ((TombstoneLedger.load s.ledger).unusable = false ∧ write ≠ .failed false ∧ run ≠ []))
    (before : ∀ p e, s.catalog.byPath.lookup p = some e → e.worktreeAuthority.isTombstoned →
      s.ledger.Names e.runId)
    (h : (s.refreshDir json args now listing write).catalog.byPath.lookup p = some e)
    (tombstoned : e.worktreeAuthority.isTombstoned) :
    (s.refreshDir json args now listing write).ledger.Names e.runId := by
  obtain ⟨b, mem, rfl⟩ | ⟨e₀, cached, ⟨u, mem, run, rfl⟩ | ⟨rfl, _⟩⟩ := refreshDir_lookup h
  · refine names_after recordable ?_ fun usable hasId =>
      recordUpdates_kept (reconcileBuilt_records usable mem tombstoned hasId)
    obtain loaded | ⟨b', mem', gone, run⟩ :=
      reconcileBuilt_tombstoned rebuilt_provable mem tombstoned
    · exact .inl loaded
    · exact .inr (run ▸ .rebuilt mem' gone)
  · obtain ⟨planned, there⟩ := mem_updates.mp mem
    change LedgerFile.Names _ e₀.runId
    rw [← run]
    refine names_after recordable ?_ fun _ hasId => recordUpdates_records mem tombstoned hasId
    obtain ⟨probe, looked, gone⟩ | ⟨usable, contains⟩ |
      ⟨usable, recorded, projectId, was, project, gone⟩ := recheck_tombstoned there tombstoned
    · exact .inr (.vanished planned looked gone)
    · obtain loaded | ⟨b', mem', gone, run⟩ := reconcileBuilt_contains rebuilt_provable contains
      · exact .inl ⟨usable, loaded⟩
      · exact .inr (run ▸ .rebuilt mem' gone)
    · exact .inr (.cleared planned usable was project gone)
  · exact TombstoneLedger.names_saveGrown write (before p e cached tombstoned)

/-- **A named run** is not left verified. -/
theorem refreshDir_not_verified (named : s.ledger.Names q)
    (inDir : ∀ p e, s.catalog.byPath.lookup p = some e → parentPath p = some args.dir)
    (h : (s.refreshDir json args now listing write).catalog.byPath.lookup p = some e)
    (run : e.runId = q) : e.worktreeAuthority.isVerified = false := by
  have loaded : (TombstoneLedger.load s.ledger).unusable = true ∨
      (TombstoneLedger.load s.ledger).ledger.contains q = true := by
    cases usable : (TombstoneLedger.load s.ledger).unusable with
    | true => exact .inl rfl
    | false => exact .inr ((TombstoneLedger.contains_load usable).mpr named)
  have reconciled : (TombstoneLedger.load s.ledger).unusable = true ∨
      (s.reconciled json args now listing).1.1.contains q = true :=
    loaded.imp_right ((reconcileBuilt_grown ⟨fun _ => id, fun _ => .inl⟩).kept q)
  obtain ⟨b, mem, rfl⟩ | ⟨e₀, cached, ⟨u, mem, sameRun, rfl⟩ | ⟨rfl, looked⟩⟩ := refreshDir_lookup h
  · exact reconcileBuilt_not_verified loaded mem run
  · obtain ⟨_, there⟩ := mem_updates.mp mem
    refine recheck_not_verified ?_ there
    rw [sameRun, run]
    exact reconciled
  · obtain ⟨planned, mem, sameRun, previous, none⟩ := looked (inDir p e cached)
    by_contra verified
    rw [Bool.not_eq_false, ← previous] at verified
    obtain ⟨updated, there⟩ := Option.isSome_iff_exists.mp
      (recheck_verified s.worktrees args (by rw [sameRun, run]; exact reconciled) verified)
    exact none (planned, updated) (mem_updates.mpr ⟨mem, there⟩) rfl

/-! ### Whole runs -/

variable {t : TombstoneWorld Value} {a : TombstoneAction}

/-- The cache is about the files of the project's session directory. -/
def InDir (s : TombstoneWorld Value) : Prop :=
  ∀ p e, s.catalog.byPath.lookup p = some e → parentPath p = some (projectSessionsDir s.projectRoot)

/-- The tombstones of the cache and of its snapshot are in the ledger. -/
structure Recorded (s : TombstoneWorld Value) : Prop where
  cached : ∀ p e, s.catalog.byPath.lookup p = some e → e.worktreeAuthority.isTombstoned →
    s.ledger.Names e.runId
  saved : ∀ e ∈ s.snapshot, e.worktreeAuthority.isTombstoned → s.ledger.Names e.runId

theorem not_cached {e : RunCatalogEntry Value} :
    (CatalogState.empty : CatalogState Value).byPath.lookup p ≠ some e := by
  change (∅ : AList fun _ : FilePath => RunCatalogEntry Value).lookup p ≠ some e
  rw [AList.lookup_empty]
  exact nofun

theorem lookup_invalidateSession {c : CatalogState Value} {path : FilePath}
    (h : (c.invalidateSession path).byPath.lookup p = some e) : c.byPath.lookup p = some e := by
  by_cases here : p = path
  · subst here
    rw [CatalogState.invalidateSession, AList.lookup_erase] at h
    cases h
  · rwa [CatalogState.invalidateSession, AList.lookup_erase_ne here] at h

theorem lookup_foldl_insert {admitted : List (RunCatalogEntry Value)}
    {byPath : AList fun _ : FilePath => RunCatalogEntry Value}
    (h : (admitted.foldl (fun byPath entry => byPath.insert entry.sessionPath entry)
      byPath).lookup p = some e) : byPath.lookup p = some e ∨ e ∈ admitted ∧ e.sessionPath = p := by
  induction admitted generalizing byPath with
  | nil => exact .inl h
  | cons entry admitted ih =>
      obtain before | ⟨mem, path⟩ := ih h
      · by_cases here : p = entry.sessionPath
        · subst here
          rw [AList.lookup_insert] at before
          obtain rfl := Option.some.inj before
          exact .inr ⟨List.mem_cons_self, rfl⟩
        · rw [AList.lookup_insert_ne here] at before
          exact .inl before
      · exact .inr ⟨List.mem_cons_of_mem entry mem, path⟩

/-- What a load of the snapshot leaves was cached, or is an admitted entry of the snapshot. -/
theorem lookup_loadEntries (h : (s.loadEntries json now).catalog.byPath.lookup p = some e) :
    s.catalog.byPath.lookup p = some e ∨
      (e ∈ s.snapshot ∧ parentPath p = some (projectSessionsDir s.projectRoot)) := by
  obtain before | ⟨mem, rfl⟩ := lookup_foldl_insert h
  · exact .inl before
  · obtain ⟨saved, admissible⟩ := List.mem_filter.mp mem
    refine .inr ⟨saved, ?_⟩
    unfold snapshotEntryIsAdmissible at admissible
    dsimp only at admissible
    split at admissible
    · cases admissible
    · next inDir => exact not_not.mp inDir

/-- **The ledger only grows.** -/
theorem step_names (h : s.step json a = some t) (named : s.ledger.Names q) : t.ledger.Names q := by
  cases a with
  | refresh projectId budget now listing write =>
      obtain rfl := Option.some.inj h
      exact TombstoneLedger.names_saveGrown write named
  | _ =>
      obtain rfl := Option.some.inj h
      exact named

theorem step_inDir (h : s.step json a = some t) (inDir : s.InDir) : t.InDir := by
  cases a with
  | refresh projectId budget now listing write =>
      obtain rfl := Option.some.inj h
      intro p e found
      obtain ⟨e', before, _⟩ | ⟨b, mem, _, rfl, _⟩ := CatalogState.commit_lookup found
      · exact inDir p e' before
      · obtain ⟨seen, hseen, _, path, _⟩ := CatalogState.mem_plan_rebuild (reconciled_planned mem)
        rw [path]
        exact (observed_path hseen).2
  | loseCache =>
      obtain rfl := Option.some.inj h
      exact fun p e found => absurd found not_cached
  | loadSnapshot now =>
      obtain rfl := Option.some.inj h
      intro p e found
      obtain before | ⟨_, parent⟩ := lookup_loadEntries found
      · exact inDir p e before
      · exact parent
  | sessionChanges path node lifecycle =>
      obtain rfl := Option.some.inj h
      intro p e found
      cases lifecycle with
      | true => exact inDir p e (lookup_invalidateSession found)
      | false => exact inDir p e found
  | _ =>
      obtain rfl := Option.some.inj h
      exact inDir

theorem Recorded.step (inv : s.Recorded) (recordable : Recordable json s a)
    (h : s.step json a = some t) : t.Recorded := by
  cases a with
  | refresh projectId budget now listing write =>
      obtain rfl := Option.some.inj h
      exact ⟨fun p e found tombstoned =>
          refreshDir_named recordable inv.cached found tombstoned,
        fun e mem tombstoned => step_names h (inv.saved e mem tombstoned)⟩
  | loseCache =>
      obtain rfl := Option.some.inj h
      exact ⟨fun p e found => absurd found not_cached, inv.saved⟩
  | saveSnapshot =>
      obtain rfl := Option.some.inj h
      refine ⟨inv.cached, fun e mem tombstoned => ?_⟩
      obtain ⟨⟨p, e⟩, there, rfl⟩ := List.mem_map.mp mem
      exact inv.cached p e (AList.mem_lookup_iff.mpr there) tombstoned
  | loadSnapshot now =>
      obtain rfl := Option.some.inj h
      refine ⟨fun p e found tombstoned => ?_, inv.saved⟩
      obtain before | ⟨saved, _⟩ := lookup_loadEntries found
      · exact inv.cached p e before tombstoned
      · exact inv.saved e saved tombstoned
  | sessionChanges path node lifecycle =>
      obtain rfl := Option.some.inj h
      refine ⟨fun p e found => ?_, inv.saved⟩
      cases lifecycle with
      | true => exact inv.cached p e (lookup_invalidateSession found)
      | false => exact inv.cached p e found
  | _ =>
      obtain rfl := Option.some.inj h
      exact ⟨inv.cached, inv.saved⟩

theorem Recorded.fresh (projectRoot : FilePath) (files : SessionFiles) (worktrees : Worktrees)
    (ledger : LedgerFile) : (fresh projectRoot files worktrees ledger : TombstoneWorld Value).Recorded :=
  ⟨fun _ _ found => absurd found not_cached, fun _ mem => absurd mem List.not_mem_nil⟩

theorem InDir.fresh (projectRoot : FilePath) (files : SessionFiles) (worktrees : Worktrees)
    (ledger : LedgerFile) : (fresh projectRoot files worktrees ledger : TombstoneWorld Value).InDir :=
  fun _ _ found => absurd found not_cached

/-- **Tombstones are final.** Once the ledger names a run, no later refresh leaves its entry
verified. -/
theorem never_verified {u : TombstoneWorld Value} {projectId : Option Text}
    {budget : SessionScanBudget} (inDir : s.InDir) (named : s.ledger.Names q)
    (later : Reaches (TombstoneWorld.step json) (fun _ _ => True) s t)
    (refresh : t.step json (.refresh projectId budget now listing write) = some u)
    (found : u.catalog.byPath.lookup p = some e) (run : e.runId = q) :
    e.worktreeAuthority.isVerified = false := by
  obtain ⟨namedNow, inDirNow⟩ : t.ledger.Names q ∧ t.InDir :=
    later.invariant (P := fun s => s.ledger.Names q ∧ s.InDir)
      (fun _ next inv => ⟨step_names next inv.1, step_inDir next inv.2⟩) ⟨named, inDir⟩
  obtain rfl := Option.some.inj refresh
  refine refreshDir_not_verified namedNow ?_ found run
  exact inDirNow

end TombstoneWorld

/-- **Tombstones are durable and final**, where each tombstone is minted by a refresh that can write
it down: every cached tombstone is in the ledger, and no later refresh leaves a run that is named
there verified. -/
theorem tombstones_kept {json : SerdeJson Value} {projectRoot : FilePath} {files : SessionFiles}
    {worktrees : Worktrees} {ledger : LedgerFile} {s : TombstoneWorld Value}
    (h : Reaches (TombstoneWorld.step json) (Recordable json)
      (.fresh projectRoot files worktrees ledger) s) :
    (∀ p e, s.catalog.byPath.lookup p = some e → e.worktreeAuthority.isTombstoned →
      s.ledger.Names e.runId) ∧
    ∀ run, s.ledger.Names run → ∀ t, Reaches (TombstoneWorld.step json) (fun _ _ => True) s t →
      ∀ projectId budget now listing write u,
        t.step json (.refresh projectId budget now listing write) = some u →
          ∀ p e, u.catalog.byPath.lookup p = some e → e.runId = run →
            e.worktreeAuthority.isVerified = false := by
  have recorded : s.Recorded :=
    h.invariant (fun recordable next inv => inv.step recordable next) (.fresh _ _ _ _)
  have inDir : s.InDir :=
    h.invariant (fun _ next inv => TombstoneWorld.step_inDir next inv) (.fresh _ _ _ _)
  refine ⟨recorded.cached, ?_⟩
  intro run named t later projectId budget now listing write u refresh p e found same
  exact TombstoneWorld.never_verified inDir named later refresh found same

/-! ### One session whose worktree is pruned -/

namespace PrunedWorktree

def root : FilePath := ["board".toList]

def session : FilePath := projectSessionsDir root ++ ["run-1.jsonl".toList]

/-- The `RunMeta` line of the session. -/
def line : Bytes :=
  utf8 (["\x7b\"seq\":0,\"time\":\"2025-01-01", "T00:00:00Z\",\"run_id\":\"run-1\",",
    "\"runtime_id\":\"rt-1\",\"boot_id\":\"boot-1\",", "\"kind\":\"lifecycle\",\"event\":",
    "\x7b\"driver_config\":null,\"phase\":\"run_meta\",", "\"project_id\":\"proj\",",
    "\"transport\":\"tmux\",\"worktree\":\"/wt\"\x7d\x7d"].flatMap String.toList)

/-- What the line decodes to. -/
def json : SerdeJson Unit where
  envelope bytes :=
    if bytes = line then
      some ⟨0, 1735689600, "run-1".toList, "rt-1".toList, "boot-1".toList, .lifecycle, ()⟩
    else none
  value _ := none
  lifecycle _ := some (.runMeta ⟨"tmux".toList, none, some "proj".toList, some ["wt".toList], none,
    none, none, none, ()⟩)
  get _ _ := none
  asStr _ := none
  asU64 _ := none
  asBool _ := none
  asArray _ := none
  string _ := ()
  number _ := ()
  object _ := ()
  toVec _ := []

def files : SessionFiles :=
  Function.update (fun _ => none) session
    (some ⟨true, ⟨⟨line ++ [newline], by decide +kernel⟩, 1, 7, 1735689600000000000⟩, true⟩)

/-- The worktree is there, in a checkout of the project. -/
def standing : Worktrees := ⟨fun _ => true, some, fun _ => some ⟨1, 5⟩, fun _ _ _ => true⟩

def pruned : Worktrees := ⟨fun _ => false, fun _ => none, fun _ => none, fun _ _ _ => false⟩

def refresh (write : LedgerWrite) : TombstoneAction :=
  .refresh (some "proj".toList) .default 1735689700 ["run-1.jsonl".toList] write

def board (worktrees : Worktrees) : TombstoneWorld Unit := .fresh root files worktrees ⟨none, none⟩

/-- What a run leaves of the session: its verdict, its run, and whether the ledger was written. -/
def outcome (s : TombstoneWorld Unit) (actions : List TombstoneAction) :
    Option (Option (WorktreeAuthority × Text) × Bool) :=
  (Interleaving.run (TombstoneWorld.step json) s actions).map fun t =>
    ((t.catalog.byPath.lookup session).map fun e => (e.worktreeAuthority, e.runId),
      t.ledger.written.isSome)

theorem run_of_outcome {s : TombstoneWorld Unit} {actions : List TombstoneAction}
    {authority : WorktreeAuthority} {runId : Text} {written : Bool}
    (h : outcome s actions = some (some (authority, runId), written)) :
    ∃ t e, Interleaving.run (TombstoneWorld.step json) s actions = some t ∧
      t.catalog.byPath.lookup session = some e ∧ e.worktreeAuthority = authority ∧
      e.runId = runId ∧ (written = false → ¬ t.ledger.Names e.runId) := by
  obtain ⟨t, ran, seen⟩ := Option.map_eq_some_iff.mp h
  obtain ⟨kept, rfl⟩ := Prod.mk.inj seen
  obtain ⟨e, cached, both⟩ := Option.map_eq_some_iff.mp kept
  obtain ⟨authority, run⟩ := Prod.mk.inj both
  refine ⟨t, e, ran, cached, authority, run, ?_⟩
  rintro unwritten ⟨tombstoned, there, _⟩
  rw [there] at unwritten
  cases unwritten

/-- The worktree is found gone while the ledger cannot be saved. -/
def unsaved : List TombstoneAction :=
  [refresh .done, .worktreesChange pruned, refresh (.failed false), refresh .done]

/-- The worktree is found gone while the ledger cannot be read. -/
def unread : List TombstoneAction :=
  [refresh .done, .damageLedger .corrupt, .worktreesChange pruned, refresh .done, .repairLedger,
    refresh .done]

theorem standing_outcomes :
    outcome (board standing) unsaved =
      some (some (.tombstoned ["wt".toList] (some ⟨1, 5⟩), "run-1".toList), false) ∧
    outcome (board standing) unread =
      some (some (.tombstoned ["wt".toList] (some ⟨1, 5⟩), "run-1".toList), false) ∧
    outcome (board standing) (unsaved ++ [.loseCache, .worktreesChange standing, refresh .done]) =
      some (some (.verified ["wt".toList] (some ⟨1, 5⟩), "run-1".toList), false) := by
  decide +kernel

/-- The session's worktree is gone before the first refresh. -/
theorem mints_pruned {run : Text}
    (h : Mints json (board pruned) ((board pruned).args (some "proj".toList) .default) 1735689700
      ["run-1.jsonl".toList] run) : run = "run-1".toList := by
  have rebuilds : ((board pruned).rebuilt json ((board pruned).args (some "proj".toList) .default)
      1735689700 ["run-1.jsonl".toList]).map (fun b => b.2.runId) = ["run-1".toList] := by
    decide +kernel
  have rechecks : ((board pruned).catalog.plan
      ((board pruned).args (some "proj".toList) .default).dir ((board pruned).observed
        ((board pruned).args (some "proj".toList) .default).dir ["run-1.jsonl".toList])).recheck =
          [] := by
    decide +kernel
  cases h with
  | rebuilt mem _ =>
      have there := List.mem_map_of_mem (f := fun b => b.2.runId) mem
      rw [rebuilds] at there
      exact List.mem_singleton.mp there
  | vanished mem =>
      rw [rechecks] at mem
      cases mem
  | cleared mem =>
      rw [rechecks] at mem
      cases mem

theorem pruned_outcomes :
    outcome (board pruned) [refresh .done] =
      some (some (.tombstoned ["wt".toList] none, "run-1".toList), true) ∧
    outcome (board pruned) [refresh .done, .loseCache, .worktreesChange standing, refresh .done] =
      some (some (.tombstoned ["wt".toList] none, "run-1".toList), true) := by
  decide +kernel

end PrunedWorktree

open PrunedWorktree in
/-- The theorem for a tombstone that is minted by a refresh that can write it down, and a cache that
is lost before the worktree is there again. -/
theorem tombstones_kept_pruned :
    ∃ s e, Interleaving.run (TombstoneWorld.step json) (board pruned) [refresh .done] = some s ∧
      s.catalog.byPath.lookup session = some e ∧ e.worktreeAuthority.isTombstoned ∧
      s.ledger.Names e.runId ∧
      ∃ u e', Interleaving.run (TombstoneWorld.step json) s
          [.loseCache, .worktreesChange standing, refresh .done] = some u ∧
        u.catalog.byPath.lookup session = some e' ∧ e'.runId = e.runId ∧
        e'.worktreeAuthority.isVerified = false := by
  obtain ⟨s, e, ran, cached, gone, run, _⟩ := run_of_outcome pruned_outcomes.1
  obtain ⟨u, e', ranU, cachedU, _, runU, _⟩ := run_of_outcome pruned_outcomes.2
  have tombstoned : e.worktreeAuthority.isTombstoned := by
    rw [gone]
    rfl
  obtain ⟨s', first, rest⟩ := Option.bind_eq_some_iff.mp ranU
  have same : s' = s := by
    change (TombstoneWorld.step json (board pruned) (refresh .done)).bind some = some s at ran
    rw [first, Option.bind_some] at ran
    exact Option.some.inj ran
  subst same
  obtain ⟨durable, final⟩ := tombstones_kept (s := s') (.head ⟨refresh .done,
    fun run mints => .inr ⟨rfl, nofun, by rw [mints_pruned mints]; decide⟩, first⟩ .refl)
  refine ⟨s', e, ran, cached, tombstoned, durable _ e cached tombstoned, u, e', rest, cachedU,
    runU.trans run.symm, ?_⟩
  obtain ⟨s₁, lost, rest⟩ := Option.bind_eq_some_iff.mp rest
  obtain ⟨s₂, changed, rest⟩ := Option.bind_eq_some_iff.mp rest
  obtain ⟨s₃, refreshed, last⟩ := Option.bind_eq_some_iff.mp rest
  obtain rfl := Option.some.inj last
  exact final e.runId (durable _ e cached tombstoned) s₂
    (.head ⟨_, trivial, lost⟩ (.head ⟨_, trivial, changed⟩ .refl)) _ _ _ _ _ _ refreshed _ e'
    cachedU (runU.trans run.symm)

open PrunedWorktree in
/-- A save that fails, or a ledger that is damaged, when the worktree is found gone: the next refresh
reads and writes the ledger, leaves the tombstone in the cache, and does not name the run; and once
the cache is lost, a directory at the recorded path makes the run verified again. -/
theorem tombstones_kept_fails :
    (∃ t e, Interleaving.run (TombstoneWorld.step json) (board standing) unsaved = some t ∧
      t.catalog.byPath.lookup session = some e ∧ e.worktreeAuthority.isTombstoned ∧
      ¬ t.ledger.Names e.runId) ∧
    (∃ t e, Interleaving.run (TombstoneWorld.step json) (board standing) unread = some t ∧
      t.catalog.byPath.lookup session = some e ∧ e.worktreeAuthority.isTombstoned ∧
      ¬ t.ledger.Names e.runId) ∧
    ∃ t e, Interleaving.run (TombstoneWorld.step json) (board standing)
        (unsaved ++ [.loseCache, .worktreesChange standing, refresh .done]) = some t ∧
      t.catalog.byPath.lookup session = some e ∧ e.worktreeAuthority.isVerified := by
  obtain ⟨unsavedOutcome, unreadOutcome, revivedOutcome⟩ := standing_outcomes
  obtain ⟨t, e, ran, cached, gone, _, unnamed⟩ := run_of_outcome unsavedOutcome
  obtain ⟨t', e', ran', cached', gone', _, unnamed'⟩ := run_of_outcome unreadOutcome
  obtain ⟨u, e'', ranU, cachedU, revived, _⟩ := run_of_outcome revivedOutcome
  exact ⟨⟨t, e, ran, cached, by rw [gone]; rfl, unnamed rfl⟩,
    ⟨t', e', ran', cached', by rw [gone']; rfl, unnamed' rfl⟩,
    u, e'', ranU, cachedU, by rw [revived]; rfl⟩

end Orgasmic
