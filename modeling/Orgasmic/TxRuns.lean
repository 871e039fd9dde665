import Orgasmic.TxSettle

/-! # Runs that name their generation

An initial run with `DISPATCH_TX` should go to the generation it names.  The scan from the newest
generation stops at the first one that is named or that the legacy rule accepts, so it does exactly
if no newer generation is accepted first (`attachesTo_iff`).

* `Grows`: every generation keeps its start and its runs.
* `RunsFrom`: where the runs of the other generations come from. -/

namespace Orgasmic

open Text LastMatch

/-! ### No run is dropped -/

/-- Every generation stays in its place and keeps its start and its runs. -/
def Grows (before after : List DispatchFold) : Prop :=
  ∀ (i : ℕ) (d : DispatchFold), before[i]? = some d →
    ∃ d', after[i]? = some d' ∧ d'.started = d.started ∧ d.runIds ⊆ d'.runIds

theorem Grows.refl (dispatches : List DispatchFold) : Grows dispatches dispatches :=
  fun _ d h => ⟨d, h, rfl, Finset.Subset.refl _⟩

theorem Grows.trans {xs ys zs : List DispatchFold} (h : Grows xs ys) (h' : Grows ys zs) :
    Grows xs zs := by
  intro i d hd
  obtain ⟨d₁, hd₁, hstarted, hruns⟩ := h i d hd
  obtain ⟨d₂, hd₂, hstarted', hruns'⟩ := h' i d₁ hd₁
  exact ⟨d₂, hd₂, hstarted'.trans hstarted, Finset.Subset.trans hruns hruns'⟩

theorem grows_modify {f : DispatchFold → DispatchFold}
    (hf : ∀ d, (f d).started = d.started ∧ d.runIds ⊆ (f d).runIds)
    (dispatches : List DispatchFold) (index : ℕ) :
    Grows dispatches (dispatches.modify index f) := by
  intro i d hd
  rw [List.getElem?_modify, hd]
  by_cases hi : index = i
  · exact ⟨f d, by simp [hi], (hf d).1, (hf d).2⟩
  · exact ⟨d, by simp [hi], rfl, Finset.Subset.refl _⟩

theorem withRun_grows (entry : TxEntry) (d : DispatchFold) :
    (d.withRun entry).started = d.started ∧ d.runIds ⊆ (d.withRun entry).runIds := by
  refine ⟨withRun_started entry d, ?_⟩
  unfold DispatchFold.withRun
  split
  · exact Finset.subset_insert _ _
  · exact Finset.Subset.refl _

theorem act_runIds (entry : TxEntry) (d : DispatchFold) : (act entry d).runIds = d.runIds := by
  unfold act
  split_ifs <;> rfl

theorem startOrRun_grows (dispatches : List DispatchFold) (entry : TxEntry) :
    Grows dispatches (startOrRun dispatches entry) := by
  unfold startOrRun attachInitialRun modifyLast
  split_ifs
  · intro i d hd
    obtain ⟨hlt, -⟩ := List.getElem?_eq_some_iff.mp hd
    exact ⟨d, by rw [List.getElem?_append_left hlt, hd], rfl, Finset.Subset.refl _⟩
  · split
    · exact grows_modify (withRun_grows entry) dispatches _
    · exact Grows.refl dispatches
  · exact Grows.refl dispatches

theorem foldl_startOrRun_grows (entries : List TxEntry) (dispatches : List DispatchFold) :
    Grows dispatches (entries.foldl startOrRun dispatches) := by
  induction entries generalizing dispatches with
  | nil => exact Grows.refl dispatches
  | cons entry entries ih => exact (startOrRun_grows dispatches entry).trans (ih _)

theorem recover_grows (entries : List TxEntry) (dispatches : List DispatchFold) :
    Grows dispatches (recover entries dispatches) := by
  refine recover_induct entries (fun _ _ _ _ replacement _ _ _ h => ?_) dispatches
    (Grows.refl dispatches)
  exact h.trans (grows_modify (f := DispatchFold.replaced replacement)
    (fun d => ⟨rfl, Finset.subset_insert _ _⟩) _ _)

theorem foldl_settle_grows (entries : List TxEntry) (dispatches : List DispatchFold) :
    Grows dispatches (entries.foldl settle dispatches) := by
  induction entries generalizing dispatches with
  | nil => exact Grows.refl dispatches
  | cons entry entries ih =>
      refine Grows.trans ?_ (ih _)
      rw [settle_eq]
      cases selected dispatches entry with
      | none => exact Grows.refl dispatches
      | some index =>
          exact grows_modify
            (fun d => ⟨act_started entry d, (act_runIds entry d).symm.subset⟩)
            dispatches index

/-- What the first pass attached stays attached. -/
theorem foldDispatches_grows (before after : List TxEntry) :
    Grows (before.foldl startOrRun []) (foldDispatches (before ++ after)) := by
  have hfirst : Grows (before.foldl startOrRun []) ((before ++ after).foldl startOrRun []) := by
    rw [List.foldl_append]
    exact foldl_startOrRun_grows after _
  exact (hfirst.trans (recover_grows _ _)).trans (foldl_settle_grows _ _)

/-! ### Where runs come from -/

/-- A run row of the ledger carries the run id. -/
def CarriedBy (entries : List TxEntry) (runId : Text) : Prop :=
  ∃ entry ∈ entries, entry.ty = "run.created".toList ∧ entry.extra? "RUN_ID".toList = some runId

/-- The runs of every generation but the one at `index` are carried by these rows. -/
def RunsFrom (entries : List TxEntry) (index : ℕ) (dispatches : List DispatchFold) : Prop :=
  ∀ (j : ℕ) (d : DispatchFold), dispatches[j]? = some d → j ≠ index →
    ∀ runId ∈ d.runIds, CarriedBy entries runId

section
variable {entries : List TxEntry} {index : ℕ} {dispatches : List DispatchFold}

theorem RunsFrom.modify {f : DispatchFold → DispatchFold} (h : RunsFrom entries index dispatches)
    (k : ℕ) (hf : ∀ d, k ≠ index → ∀ runId ∈ (f d).runIds,
      runId ∈ d.runIds ∨ CarriedBy entries runId) :
    RunsFrom entries index (dispatches.modify k f) := by
  intro j d hd hj runId hrun
  rw [List.getElem?_modify] at hd
  obtain ⟨d₀, hd₀, rfl⟩ := Option.map_eq_some_iff.mp hd
  by_cases hk : k = j
  · rw [if_pos hk] at hrun
    obtain hold | hnew := hf d₀ (hk ▸ hj) runId hrun
    · exact h j d₀ hd₀ hj runId hold
    · exact hnew
  · rw [if_neg hk] at hrun
    exact h j d₀ hd₀ hj runId hrun

theorem mem_withRun {entry : TxEntry} {d : DispatchFold} {runId : Text}
    (h : runId ∈ (d.withRun entry).runIds) :
    runId ∈ d.runIds ∨ entry.extra? "RUN_ID".toList = some runId := by
  unfold DispatchFold.withRun at h
  split at h
  next r hr =>
    obtain rfl | hold := Finset.mem_insert.mp h
    · exact Or.inr hr
    · exact Or.inl hold
  next => exact Or.inl h

theorem RunsFrom.startOrRun {entry : TxEntry} (hmem : entry ∈ entries)
    (h : RunsFrom entries index dispatches) :
    RunsFrom entries index (startOrRun dispatches entry) := by
  unfold Orgasmic.startOrRun attachInitialRun modifyLast
  split_ifs with hstart hrun
  · intro j d hd hj runId hrunId
    rcases Nat.lt_or_ge j dispatches.length with hlt | hge
    · rw [List.getElem?_append_left hlt] at hd
      exact h j d hd hj runId hrunId
    · rw [List.getElem?_append_right hge] at hd
      obtain rfl := List.mem_singleton.mp (List.mem_of_getElem? hd)
      simp [DispatchFold.fresh] at hrunId
  · split
    · refine h.modify _ fun d _ runId hrunId => (mem_withRun hrunId).imp id fun hid => ?_
      exact ⟨entry, hmem, (TxEntry.isInitialRun_iff.mp hrun).1, hid⟩
    · exact h
  · exact h

theorem RunsFrom.foldl_startOrRun {rows : List TxEntry} (hmem : ∀ row ∈ rows, row ∈ entries)
    (h : RunsFrom entries index dispatches) :
    RunsFrom entries index (rows.foldl Orgasmic.startOrRun dispatches) := by
  induction rows generalizing dispatches with
  | nil => exact h
  | cons row rows ih =>
      obtain ⟨hrow, hrows⟩ := List.forall_mem_cons.mp hmem
      exact ih hrows (h.startOrRun hrow)

theorem RunsFrom.recover (h : RunsFrom entries index dispatches) :
    RunsFrom entries index (recover entries dispatches) := by
  refine recover_induct entries (fun entry hmem _ _ replacement _ _ hrec hds => ?_) dispatches h
  refine hds.modify _ fun d _ runId hrun => ?_
  obtain rfl | hold := Finset.mem_insert.mp hrun
  · exact Or.inr ⟨entry, hmem, (TxEntry.isRecovery_iff.mp hrec.kind).1, hrec.run⟩
  · exact Or.inl hold

theorem RunsFrom.foldl_settle (h : RunsFrom entries index dispatches) (rows : List TxEntry) :
    RunsFrom entries index (rows.foldl settle dispatches) := by
  induction rows generalizing dispatches with
  | nil => exact h
  | cons row rows ih =>
      refine ih ?_
      rw [settle_eq]
      cases selected dispatches row with
      | none => exact h
      | some k => exact h.modify k fun d _ runId hrun => Or.inl (act_runIds row d ▸ hrun)

end

/-! ### The run row -/

/-- The run goes to the generation at `index`, which has this id, and no other generation gets its
run id from this row. -/
structure AttachesTo (before : List TxEntry) (row : TxEntry) (after : List TxEntry)
    (tx runId : Text) (index : ℕ) : Prop where
  /-- The generation is there when the row is read, and the row is attached to it. -/
  named : ∃ d, (before.foldl startOrRun [])[index]? = some d ∧ d.started.txId = tx
  attached : (before ++ [row]).foldl startOrRun [] =
    (before.foldl startOrRun []).modify index (DispatchFold.withRun row)
  kept : ∃ d, (foldDispatches (before ++ row :: after))[index]? = some d ∧ d.started.txId = tx ∧
    runId ∈ d.runIds
  /-- Another generation has the run id only if another row carries it. -/
  only : ∀ (j : ℕ) (d : DispatchFold), (foldDispatches (before ++ row :: after))[j]? = some d →
    j ≠ index → runId ∈ d.runIds → CarriedBy (before ++ after) runId

/-- The newest generation that is named is not behind one that the legacy rule accepts. -/
def NamedFirst (row : TxEntry) (dispatches : List DispatchFold) : Prop :=
  ∃ as d bs, dispatches = as ++ d :: bs ∧ d.exactRun row = true ∧
    ∀ b ∈ bs, b.exactRun row = false ∧ b.legacyRun row = false

section
variable {before after : List TxEntry} {row : TxEntry} {tx runId : Text}

theorem exactRun_iff (htx : row.extra? "DISPATCH_TX".toList = some tx) (d : DispatchFold) :
    d.exactRun row = true ↔ d.started.txId = tx := by
  unfold DispatchFold.exactRun
  rw [htx, decide_eq_true_iff, Option.some.injEq, eq_comm]

theorem foldl_startOrRun_run (hrow : row.isInitialRun = true) (dispatches : List DispatchFold) :
    [row].foldl startOrRun dispatches = attachInitialRun dispatches row := by
  rw [List.foldl_cons, List.foldl_nil]
  unfold startOrRun
  rw [(TxEntry.not_of_isInitialRun hrow).1, if_neg Bool.false_ne_true, if_pos hrow]

/-- The other generations of the whole ledger have the runs of the other rows. -/
theorem runsFrom_foldDispatches (hrow : row.isInitialRun = true) {index : ℕ}
    (hattached : (before ++ [row]).foldl startOrRun [] =
      (before.foldl startOrRun []).modify index (DispatchFold.withRun row)) :
    RunsFrom (before ++ after) index (foldDispatches (before ++ row :: after)) := by
  have hnil : RunsFrom (before ++ after) index [] := fun j d h => by simp at h
  have hbefore : RunsFrom (before ++ after) index (before.foldl startOrRun []) :=
    hnil.foldl_startOrRun fun r hr => List.mem_append_left _ hr
  have hmodified := hbefore.modify (f := DispatchFold.withRun row) index
    fun d hne => absurd rfl hne
  have hafter : RunsFrom (before ++ after) index (after.foldl startOrRun
      ((before.foldl startOrRun []).modify index (DispatchFold.withRun row))) :=
    hmodified.foldl_startOrRun fun r hr => List.mem_append_right _ hr
  have hfirst : (before ++ row :: after).foldl startOrRun [] =
      after.foldl startOrRun
        ((before.foldl startOrRun []).modify index (DispatchFold.withRun row)) := by
    rw [← hattached, ← List.foldl_append, List.append_assoc, List.singleton_append]
  have hrows : (before ++ row :: after).filter TxEntry.isRecovery =
      (before ++ after).filter TxEntry.isRecovery := by
    simp [List.filter_append, (TxEntry.not_of_isInitialRun hrow).2.1]
  unfold foldDispatches openDispatches
  rw [hfirst, recover_congr hrows]
  exact hafter.recover.foldl_settle _

/-- A run goes to the generation it names, exactly if no newer generation takes it first. -/
theorem attachesTo_iff (before after : List TxEntry) (row : TxEntry) (tx runId : Text)
    (hrow : row.isInitialRun = true) (htx : row.extra? "DISPATCH_TX".toList = some tx)
    (hid : row.extra? "RUN_ID".toList = some runId) :
    (∃ index, AttachesTo before row after tx runId index) ↔
      NamedFirst row (before.foldl startOrRun []) := by
  have hstep : (before ++ [row]).foldl startOrRun [] =
      attachInitialRun (before.foldl startOrRun []) row := by
    rw [List.foldl_append, foldl_startOrRun_run hrow]
  constructor
  · rintro ⟨index, h⟩
    obtain ⟨d, hd, hdtx⟩ := h.named
    have hexact := (exactRun_iff htx d).mpr hdtx
    obtain ⟨k, hk⟩ := lastIdx?_isSome (p := fun d => d.exactRun row || d.legacyRun row)
      (List.mem_of_getElem? hd) (by simp [hexact])
    have hattached := h.attached
    rw [hstep] at hattached
    unfold attachInitialRun modifyLast at hattached
    rw [hk] at hattached
    obtain ⟨as, c, bs, hsplit, hlen, hc, hbs⟩ := lastIdx?_eq_some_iff.mp hk
    have hck : (before.foldl startOrRun [])[k]? = some c := by rw [hsplit, ← hlen]; simp
    refine ⟨as, c, bs, hsplit, ?_, fun b hb => by simpa using hbs b hb⟩
    by_contra hne
    -- the legacy rule took the run, so the row changed a generation it does not name
    have hlegacy : c.legacyRun row = true := by simpa [hne] using hc
    have hnone : c.addressedRunId = none := by
      unfold DispatchFold.legacyRun at hlegacy
      simpa using (Bool.and_eq_true_iff.mp hlegacy).2
    have hindex : index ≠ k := by
      rintro rfl
      rw [hd, Option.some.injEq] at hck
      exact hne (hck ▸ hexact)
    have hcount := congrArg (fun l : List DispatchFold => l[k]?) hattached
    simp only [List.getElem?_modify, hck, if_pos, if_neg hindex] at hcount
    have hrun := congrArg DispatchFold.addressedRunId (Option.some.inj hcount)
    unfold DispatchFold.withRun at hrun
    rw [hid] at hrun
    simp [hnone] at hrun
  · rintro ⟨as, d, bs, hsplit, hexact, hbs⟩
    have hidx : lastIdx? (fun d => d.exactRun row || d.legacyRun row)
        (before.foldl startOrRun []) = some as.length :=
      lastIdx?_eq_some_iff.mpr ⟨as, d, bs, hsplit, rfl, by simp [hexact],
        fun b hb => by simp [hbs b hb]⟩
    have hattached : (before ++ [row]).foldl startOrRun [] =
        (before.foldl startOrRun []).modify as.length (DispatchFold.withRun row) := by
      rw [hstep]
      unfold attachInitialRun modifyLast
      rw [hidx]
    have hplace : (before.foldl startOrRun [])[as.length]? = some d := by rw [hsplit]; simp
    have hdtx := (exactRun_iff htx d).mp hexact
    refine ⟨as.length, ⟨d, hplace, hdtx⟩, hattached, ?_, fun j d' hd' hj hrun =>
      runsFrom_foldDispatches hrow hattached j d' hd' hj runId hrun⟩
    obtain ⟨d', hd', hstarted, hruns⟩ := foldDispatches_grows (before ++ [row]) after as.length
      (d.withRun row) (by rw [hattached, List.getElem?_modify, hplace]; simp)
    rw [List.append_assoc, List.singleton_append] at hd'
    refine ⟨d', hd', by rw [hstarted, withRun_started, hdtx], hruns ?_⟩
    unfold DispatchFold.withRun
    rw [hid]
    exact Finset.mem_insert_self _ _

end

/-- A run that names the first dispatch. -/
def taggedRun : TxEntry :=
  { TxEntry.new "tx-4".toList "run.created".toList "[2026-05-21 Thu 20:05:01]".toList
      "daemon".toList "m1".toList with
    task := some "TASK-1".toList
    extra := [("ORIGIN".toList, "cli_dispatch".toList), ("DISPATCH_TX".toList, "tx-1".toList),
      ("RUN_ID".toList, "run-1".toList)] }

theorem attachesTo_sample :
    ∃ index, AttachesTo [firstStart] taggedRun [secondStart] "tx-1".toList "run-1".toList index :=
  (attachesTo_iff [firstStart] [secondStart] taggedRun "tx-1".toList "run-1".toList (by decide)
    (by decide) (by decide)).mpr ⟨[], DispatchFold.fresh firstStart, [], by decide, by decide,
      by decide⟩

/-- The run names the first dispatch and goes to the second one. -/
theorem attachesTo_fails :
    taggedRun.isInitialRun = true ∧ taggedRun.extra? "DISPATCH_TX".toList = some firstStart.txId ∧
      (foldDispatches [firstStart, secondStart, taggedRun]).map
          (fun d => (d.started.txId, d.runIds)) =
        [("tx-1".toList, ∅), ("tx-3".toList, {"run-1".toList})] := by
  decide

end Orgasmic
