import Orgasmic.TxDispatch

/-! # Recovery runs

The rounds of the recovery loop add run ids to generations until a round adds none.

* `recoverRow_cases` is all that one row of a round can do.
* `missing` counts the run ids of the ledger that a generation could still get; a round that
  changes anything makes it smaller (`recoverRound_missing`), so the loop ends with a round that
  changes nothing (`recover_fixed`) and more rounds would give the same (`recoverLoop_eq`).
* `recover_concat`: a generation without runs at the end is left alone. -/

namespace Orgasmic

open Text LastMatch

/-- The run ids in the ledger. -/
def ledgerRuns (entries : List TxEntry) : Finset Text :=
  (entries.filterMap fun entry => entry.extra? "RUN_ID".toList).toFinset

/-- How many run ids the generations could still get. -/
def missing (names : Finset Text) (dispatches : List DispatchFold) : ℕ :=
  (dispatches.map fun d => (names \ d.runIds).card).sum

theorem mem_ledgerRuns {entries : List TxEntry} {runId : Text} :
    runId ∈ ledgerRuns entries ↔ ∃ entry ∈ entries, entry.extra? "RUN_ID".toList = some runId := by
  simp [ledgerRuns]

theorem ledgerRuns_card (entries : List TxEntry) :
    (ledgerRuns entries).card ≤ entries.length :=
  le_trans (List.toFinset_card_le _) (List.length_filterMap_le _ _)

theorem missing_le (entries : List TxEntry) (dispatches : List DispatchFold) :
    missing (ledgerRuns entries) dispatches ≤ entries.length * dispatches.length := by
  induction dispatches with
  | nil => simp [missing]
  | cons d ds ih =>
      have hd : (ledgerRuns entries \ d.runIds).card ≤ entries.length :=
        le_trans (Finset.card_le_card Finset.sdiff_subset) (ledgerRuns_card entries)
      have hsum : missing (ledgerRuns entries) (d :: ds) =
          (ledgerRuns entries \ d.runIds).card + missing (ledgerRuns entries) ds := by
        simp [missing]
      rw [hsum, List.length_cons, Nat.mul_succ]
      omega

/-! ### One row -/

/-- The row gives the generation at `index`, the newest one with the origin, a new run. -/
structure Recovers (dispatches : List DispatchFold) (entry : TxEntry) (origin replacement : Text)
    (index : ℕ) (d : DispatchFold) : Prop where
  kind : entry.isRecovery = true
  source : entry.extra? "ORIGIN_RUN_ID".toList = some origin
  run : entry.extra? "RUN_ID".toList = some replacement
  newest : lastIdx? (fun d : DispatchFold => origin ∈ d.runIds) dispatches = some index
  there : dispatches[index]? = some d
  fresh : replacement ∉ d.runIds

/-- What a row of a recovery round does. -/
theorem recoverRow_cases (dispatches : List DispatchFold) (changed : Bool) (entry : TxEntry) :
    recoverRow (dispatches, changed) entry = (dispatches, changed) ∨
      ∃ origin replacement index d, Recovers dispatches entry origin replacement index d ∧
        recoverRow (dispatches, changed) entry =
          (dispatches.modify index (DispatchFold.replaced replacement), true) := by
  unfold recoverRow
  split_ifs with hkind
  · cases horigin : entry.extra? "ORIGIN_RUN_ID".toList with
    | none => exact Or.inl rfl
    | some origin =>
        cases hrun : entry.extra? "RUN_ID".toList with
        | none => exact Or.inl rfl
        | some replacement =>
            dsimp only
            cases hidx : lastIdx? (fun d : DispatchFold => origin ∈ d.runIds) dispatches with
            | none => exact Or.inl rfl
            | some index =>
                obtain ⟨d, hd, -⟩ := lastIdx?_getElem? hidx
                simp only [hd]
                split_ifs with hmem
                · exact Or.inl rfl
                · exact Or.inr ⟨origin, replacement, index, d,
                    ⟨hkind, horigin, hrun, hidx, hd, hmem⟩, rfl⟩
  · exact Or.inl rfl

theorem Recovers.missing_lt {names : Finset Text} {dispatches : List DispatchFold}
    {entry : TxEntry} {origin replacement : Text} {index : ℕ} {d : DispatchFold}
    (h : Recovers dispatches entry origin replacement index d) (hname : replacement ∈ names) :
    missing names (dispatches.modify index (DispatchFold.replaced replacement)) <
      missing names dispatches := by
  have hlt : (names \ (d.replaced replacement).runIds).card < (names \ d.runIds).card := by
    apply Finset.card_lt_card
    refine Finset.ssubset_iff_subset_ne.mpr ⟨Finset.sdiff_subset_sdiff (Finset.Subset.refl _)
      (Finset.subset_insert _ _), fun heq => ?_⟩
    have hmem : replacement ∈ names \ d.runIds := Finset.mem_sdiff.mpr ⟨hname, h.fresh⟩
    rw [← heq] at hmem
    exact (Finset.mem_sdiff.mp hmem).2 (Finset.mem_insert_self _ _)
  obtain ⟨as, d', bs, rfl, rfl, -⟩ := lastIdx?_eq_some_iff.mp h.newest
  obtain rfl : d' = d := by simpa using h.there
  rw [modify_middle]
  simp only [missing, List.map_append, List.map_cons, List.sum_append, List.sum_cons]
  omega

/-! ### Rounds -/

/-- A round changes nothing, or some generation gets a run id of the ledger. -/
theorem foldl_recoverRow_missing {names : Finset Text} (entries : List TxEntry)
    (hnames : ledgerRuns entries ⊆ names) (dispatches : List DispatchFold) (changed : Bool) :
    entries.foldl recoverRow (dispatches, changed) = (dispatches, changed) ∨
      ((entries.foldl recoverRow (dispatches, changed)).2 = true ∧
        missing names (entries.foldl recoverRow (dispatches, changed)).1
          < missing names dispatches) := by
  induction entries generalizing dispatches changed with
  | nil => exact Or.inl rfl
  | cons entry entries ih =>
      have hrest : ledgerRuns entries ⊆ names := fun runId h => by
        obtain ⟨e, he, hrun⟩ := mem_ledgerRuns.mp h
        exact hnames (mem_ledgerRuns.mpr ⟨e, List.mem_cons_of_mem _ he, hrun⟩)
      rw [List.foldl_cons]
      obtain hrow | ⟨origin, replacement, index, d, hrec, hrow⟩ :=
        recoverRow_cases dispatches changed entry
      · rw [hrow]
        exact ih hrest dispatches changed
      · have hname : replacement ∈ names :=
          hnames (mem_ledgerRuns.mpr ⟨entry, List.mem_cons_self, hrec.run⟩)
        have hlt := hrec.missing_lt hname
        rw [hrow]
        obtain hsame | ⟨htrue, hless⟩ :=
          ih hrest (dispatches.modify index (DispatchFold.replaced replacement)) true
        · rw [hsame]
          exact Or.inr ⟨rfl, hlt⟩
        · exact Or.inr ⟨htrue, lt_trans hless hlt⟩

theorem recoverRound_missing (entries : List TxEntry) (dispatches : List DispatchFold) :
    recoverRound entries dispatches = (dispatches, false) ∨
      ((recoverRound entries dispatches).2 = true ∧
        missing (ledgerRuns entries) (recoverRound entries dispatches).1
          < missing (ledgerRuns entries) dispatches) :=
  foldl_recoverRow_missing entries (Finset.Subset.refl _) dispatches false

/-- With fuel for every run id that is missing, the last round changes nothing. -/
theorem recoverLoop_fixed (entries : List TxEntry) {n : ℕ} {dispatches : List DispatchFold}
    (hn : missing (ledgerRuns entries) dispatches < n) :
    recoverRound entries (recoverLoop entries n dispatches) =
      (recoverLoop entries n dispatches, false) := by
  induction n generalizing dispatches with
  | zero => omega
  | succ n ih =>
      unfold recoverLoop
      obtain hsame | ⟨htrue, hless⟩ := recoverRound_missing entries dispatches
      · simp only [hsame, Bool.false_eq_true, if_false]
      · simp only [htrue, if_true]
        exact ih (by omega)

/-- More rounds than that change nothing. -/
theorem recoverLoop_eq (entries : List TxEntry) {n m : ℕ} {dispatches : List DispatchFold}
    (hn : missing (ledgerRuns entries) dispatches < n)
    (hm : missing (ledgerRuns entries) dispatches < m) :
    recoverLoop entries n dispatches = recoverLoop entries m dispatches := by
  induction n generalizing m dispatches with
  | zero => omega
  | succ n ih =>
      obtain ⟨k, rfl⟩ : ∃ k, m = k + 1 := ⟨m - 1, by omega⟩
      unfold recoverLoop
      obtain hsame | ⟨htrue, hless⟩ := recoverRound_missing entries dispatches
      · simp only [hsame, Bool.false_eq_true, if_false]
      · simp only [htrue, if_true]
        exact ih (by omega) (by omega)

/-- The loop ends because a round changed nothing. -/
theorem recover_fixed (entries : List TxEntry) (dispatches : List DispatchFold) :
    recoverRound entries (recover entries dispatches) = (recover entries dispatches, false) :=
  recoverLoop_fixed entries (Nat.lt_succ_of_le (missing_le entries dispatches))

theorem recoverLoop_eq_recover {entries : List TxEntry} {n : ℕ} {dispatches : List DispatchFold}
    (hn : entries.length * dispatches.length < n) :
    recoverLoop entries n dispatches = recover entries dispatches :=
  recoverLoop_eq entries (lt_of_le_of_lt (missing_le entries dispatches) hn)
    (Nat.lt_succ_of_le (missing_le entries dispatches))

/-! ### What the loop keeps -/

/-- What every replaced run keeps, the loop keeps. -/
theorem recoverRound_induct {P : List DispatchFold → Prop} (entries : List TxEntry)
    (hstep : ∀ entry ∈ entries, ∀ ds origin replacement index d,
      Recovers ds entry origin replacement index d → P ds →
      P (ds.modify index (DispatchFold.replaced replacement))) (dispatches : List DispatchFold) (changed : Bool)
    (h : P dispatches) : P (entries.foldl recoverRow (dispatches, changed)).1 := by
  induction entries generalizing dispatches changed with
  | nil => exact h
  | cons entry entries ih =>
      have hrest := fun e he => hstep e (List.mem_cons_of_mem _ he)
      rw [List.foldl_cons]
      obtain hrow | ⟨origin, replacement, index, d, hrec, hrow⟩ :=
        recoverRow_cases dispatches changed entry
      · rw [hrow]
        exact ih hrest dispatches changed h
      · rw [hrow]
        exact ih hrest _ true (hstep entry List.mem_cons_self _ _ _ _ _ hrec h)

theorem recover_induct {P : List DispatchFold → Prop} (entries : List TxEntry)
    (hstep : ∀ entry ∈ entries, ∀ ds origin replacement index d,
      Recovers ds entry origin replacement index d → P ds →
      P (ds.modify index (DispatchFold.replaced replacement))) (dispatches : List DispatchFold)
    (h : P dispatches) : P (recover entries dispatches) := by
  have hloop : ∀ n ds, P ds → P (recoverLoop entries n ds) := fun n => by
    induction n with
    | zero => exact fun ds hds => hds
    | succ n ih =>
        intro ds hds
        have hround := recoverRound_induct entries hstep ds false hds
        unfold recoverLoop
        cases hr : recoverRound entries ds with
        | mk ds' changed =>
            rw [← recoverRound, hr] at hround
            cases changed with
            | true => exact ih _ hround
            | false => exact hround
  exact hloop _ dispatches h

theorem recover_started (entries : List TxEntry) (dispatches : List DispatchFold) :
    (recover entries dispatches).map DispatchFold.started =
      dispatches.map DispatchFold.started := by
  refine recover_induct (P := fun ds => ds.map DispatchFold.started =
    dispatches.map DispatchFold.started) entries (fun _ _ ds _ replacement index _ _ h => ?_)
    dispatches rfl
  rw [← h]
  exact map_modify_of_eq (f := DispatchFold.replaced replacement) _ (fun _ => rfl) ds index

/-! ### Rows that are no recovery, and generations without runs -/

theorem recoverRow_of_not {entry : TxEntry} (h : entry.isRecovery = false)
    (state : List DispatchFold × Bool) : recoverRow state entry = state := by
  simp [recoverRow, h]

/-- Only the recovery rows of a round matter. -/
theorem recoverRound_filter (entries : List TxEntry) (dispatches : List DispatchFold) :
    recoverRound (entries.filter TxEntry.isRecovery) dispatches =
      recoverRound entries dispatches := by
  unfold recoverRound
  rw [List.foldl_filter]
  congr 1
  funext state entry
  cases h : entry.isRecovery with
  | true => simp
  | false => simp [recoverRow_of_not h]

theorem recoverLoop_congr {entries entries' : List TxEntry}
    (h : entries.filter TxEntry.isRecovery = entries'.filter TxEntry.isRecovery) (n : ℕ)
    (dispatches : List DispatchFold) :
    recoverLoop entries n dispatches = recoverLoop entries' n dispatches := by
  induction n generalizing dispatches with
  | zero => rfl
  | succ n ih =>
      have hround : recoverRound entries dispatches = recoverRound entries' dispatches := by
        rw [← recoverRound_filter entries, h, recoverRound_filter]
      unfold recoverLoop
      simp only [hround, ih]

/-- Rows of another kind can be added to the ledger and dropped from it. -/
theorem recover_congr {entries entries' : List TxEntry}
    (h : entries.filter TxEntry.isRecovery = entries'.filter TxEntry.isRecovery)
    (dispatches : List DispatchFold) :
    recover entries dispatches = recover entries' dispatches := by
  have hn := Nat.lt_succ_of_le
    (Nat.le_max_left (entries.length * dispatches.length) (entries'.length * dispatches.length))
  have hn' := Nat.lt_succ_of_le
    (Nat.le_max_right (entries.length * dispatches.length) (entries'.length * dispatches.length))
  rw [← recoverLoop_eq_recover hn, ← recoverLoop_eq_recover hn']
  exact recoverLoop_congr h _ dispatches

theorem recoverRow_concat (dispatches : List DispatchFold) (changed : Bool) (entry : TxEntry)
    {d : DispatchFold} (hd : d.runIds = ∅) :
    recoverRow (dispatches ++ [d], changed) entry =
      ((recoverRow (dispatches, changed) entry).1 ++ [d],
        (recoverRow (dispatches, changed) entry).2) := by
  unfold recoverRow
  split_ifs with hkind
  · cases horigin : entry.extra? "ORIGIN_RUN_ID".toList with
    | none => rfl
    | some origin =>
        cases hrun : entry.extra? "RUN_ID".toList with
        | none => rfl
        | some replacement =>
            dsimp only
            have hmiss : decide (origin ∈ d.runIds) = false := by simp [hd]
            rw [lastIdx?_concat, hmiss]
            cases hidx : lastIdx? (fun d : DispatchFold => origin ∈ d.runIds) dispatches with
            | none => rfl
            | some index =>
                have hlt := lastIdx?_lt hidx
                simp only [Bool.false_eq_true, if_false, List.getElem?_append_left hlt,
                  List.getElem?_eq_getElem hlt]
                split_ifs
                · rfl
                · rw [modify_concat_lt hlt]
  · rfl

theorem recoverRound_concat (entries : List TxEntry) (dispatches : List DispatchFold)
    {d : DispatchFold} (hd : d.runIds = ∅) :
    recoverRound entries (dispatches ++ [d]) =
      ((recoverRound entries dispatches).1 ++ [d], (recoverRound entries dispatches).2) := by
  unfold recoverRound
  generalize false = changed
  induction entries generalizing dispatches changed with
  | nil => rfl
  | cons entry entries ih =>
      rw [List.foldl_cons, List.foldl_cons, recoverRow_concat _ _ _ hd, ih]

/-- A generation without runs is recovered by no row. -/
theorem recover_concat (entries : List TxEntry) (dispatches : List DispatchFold)
    {d : DispatchFold} (hd : d.runIds = ∅) :
    recover entries (dispatches ++ [d]) = recover entries dispatches ++ [d] := by
  have hloop : ∀ n ds, recoverLoop entries n (ds ++ [d]) = recoverLoop entries n ds ++ [d] :=
    fun n => by
      induction n with
      | zero => exact fun _ => rfl
      | succ n ih =>
          intro ds
          unfold recoverLoop
          simp only [recoverRound_concat entries ds hd]
          split_ifs
          · exact ih _
          · rfl
  have hlen : entries.length * dispatches.length <
      entries.length * (dispatches ++ [d]).length + 1 := by
    rw [List.length_append, Nat.mul_add]
    omega
  rw [← recoverLoop_eq_recover hlen, ← hloop]
  rfl

end Orgasmic
