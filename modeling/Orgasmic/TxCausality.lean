import Orgasmic.TxSettle

/-! # Causality of the fold

A start at the end of the ledger should open a fresh generation and change nothing else.  It does
exactly if no row of the ledger `reaches` it: the last pass runs over the generations of the whole
ledger, so a report without a run, or a close without a generation to name, takes the newest
generation of its task although that one was opened later (`foldDispatches_concat_start_iff`). -/

namespace Orgasmic

open Text LastMatch

/-- The row takes the newest open generation of its tasks, and names a task of `started`. -/
def TxEntry.reaches (entry : TxEntry) (entries : List TxEntry) (started : TxEntry) : Bool :=
  entry.sharesTask started &&
    (entry.isReport && (entry.extra? "RUN_ID".toList).isNone ||
      entry.isClose && (entry.extra? "CLOSED_TX".toList).all fun tx =>
        (starts entries).all fun row => row.txId ≠ tx)

/-- A row of the last pass acted on the generation. -/
def DispatchFold.Touched (d : DispatchFold) : Prop := d.reported = true ∨ d.closedTasks ≠ ∅

theorem not_touched_fresh (started : TxEntry) : ¬(DispatchFold.fresh started).Touched := by
  rintro (h | h)
  · cases h
  · exact h rfl

theorem touched_act {d : DispatchFold} (entry : TxEntry) (h : d.Touched) :
    (act entry d).Touched := by
  unfold act
  split_ifs
  · exact Or.inl rfl
  · refine h.imp id fun hne heq => hne ?_
    exact Finset.subset_empty.mp (heq ▸ Finset.subset_union_left)

/-- A close that names a task of a generation closes that task. -/
theorem touched_close {entry : TxEntry} {d : DispatchFold}
    (h : entry.sharesTask d.started = true) : (d.close entry).Touched := by
  obtain ⟨task, hmem, htask⟩ := List.any_eq_true.mp h
  have hne : entry.entryTasks ≠ [] := List.ne_nil_of_mem hmem
  refine Or.inr (Finset.ne_empty_of_mem (a := task) ?_)
  unfold DispatchFold.close
  simp only [hne, if_false]
  refine Finset.mem_union_right _ (List.mem_toFinset.mpr (List.mem_filter.mpr ⟨hmem, ?_⟩))
  simpa using htask

/-! ### One row -/

/-- A report reaches the new generation if it is for it. -/
theorem reaches_of_isReport {entries : List TxEntry} {started entry : TxEntry}
    (h : entry.isReport = true) :
    entry.reaches entries started = entry.reportsOn (DispatchFold.fresh started) := by
  have hclose : entry.isClose = false := by
    by_contra hc
    rw [(TxEntry.not_of_isClose (Bool.of_not_eq_false hc)).2.2.2] at h
    cases h
  unfold TxEntry.reaches TxEntry.reportsOn
  cases entry.extra? "RUN_ID".toList <;> simp [h, hclose, DispatchFold.fresh]

/-- A close reaches the new generation if it names a task of it and no generation by id. -/
theorem reaches_of_isClose {entries : List TxEntry} {started entry : TxEntry}
    (h : entry.isClose = true) :
    entry.reaches entries started = (entry.sharesTask started &&
      ((entry.extra? "CLOSED_TX".toList).bind fun tx =>
        lastIdx? (fun row : TxEntry => row.txId = tx) (starts entries)).isNone) := by
  unfold TxEntry.reaches
  rw [(TxEntry.not_of_isClose h).2.2.2, h, Bool.false_and, Bool.false_or, Bool.true_and]
  congr 1
  cases entry.extra? "CLOSED_TX".toList with
  | none => rfl
  | some tx =>
      rw [Option.all_some, Option.bind_some, Bool.eq_iff_iff, Option.isNone_iff_eq_none,
        lastIdx?_eq_none_iff, List.all_eq_true]
      simp

/-- A row acts on the new generation if it reaches it, and else on the one it acts on without
it. -/
theorem selected_concat_fresh {entries : List TxEntry} {started entry : TxEntry}
    {dispatches : List DispatchFold}
    (hstarts : dispatches.map DispatchFold.started = starts entries)
    (hid : entry.extra? "CLOSED_TX".toList ≠ some started.txId) :
    selected (dispatches ++ [DispatchFold.fresh started]) entry =
      if entry.reaches entries started then some dispatches.length
      else selected dispatches entry := by
  have hkind : entry.isReport = false → entry.isClose = false →
      entry.reaches entries started = false := fun hr hc => by simp [TxEntry.reaches, hr, hc]
  unfold selected
  cases hreport : entry.isReport with
  | true =>
      rw [if_pos rfl, if_pos rfl, lastIdx?_concat, reaches_of_isReport hreport]
      rfl
  | false =>
      rw [if_neg Bool.false_ne_true, if_neg Bool.false_ne_true]
      cases hclose : entry.isClose with
      | false => rw [hkind hreport hclose]; rfl
      | true =>
          have hnamed : ((entry.extra? "CLOSED_TX".toList).bind fun tx =>
              lastIdx? (fun d : DispatchFold => d.started.txId = tx)
                (dispatches ++ [DispatchFold.fresh started])) =
              (entry.extra? "CLOSED_TX".toList).bind fun tx =>
                lastIdx? (fun row : TxEntry => row.txId = tx) (starts entries) := by
            cases htag : entry.extra? "CLOSED_TX".toList with
            | none => rfl
            | some tx =>
                have hne : ¬(DispatchFold.fresh started).started.txId = tx :=
                  fun heq => hid (by rw [htag, ← heq]; rfl)
                rw [Option.bind_some, Option.bind_some, lastIdx?_concat,
                  lastIdx?_started hstarts, if_neg fun hd => hne (of_decide_eq_true hd)]
          rw [if_pos rfl, if_pos rfl, reaches_of_isClose hclose]
          unfold closeIndex
          simp only [lastIdx?_started hstarts]
          rw [hnamed, lastIdx?_concat]
          cases (entry.extra? "CLOSED_TX".toList).bind fun tx =>
              lastIdx? (fun row : TxEntry => row.txId = tx) (starts entries) with
          | some index => simp
          | none => simp [DispatchFold.fresh]

/-- A generation that was acted on stays so. -/
theorem settle_concat_touched (dispatches : List DispatchFold) {d : DispatchFold}
    (entry : TxEntry) (h : d.Touched) :
    ∃ dispatches' d', settle (dispatches ++ [d]) entry = dispatches' ++ [d'] ∧ d'.Touched := by
  rw [settle_eq]
  cases hidx : selected (dispatches ++ [d]) entry with
  | none => exact ⟨dispatches, d, rfl, h⟩
  | some index =>
      have hlt := selected_lt hidx
      rw [List.length_append, List.length_singleton] at hlt
      rcases Nat.lt_or_eq_of_le (Nat.le_of_lt_succ hlt) with hlt' | rfl
      · exact ⟨_, d, modify_concat_lt hlt' _ _, h⟩
      · exact ⟨_, _, modify_middle _ _ _ _, touched_act entry h⟩

/-- A row that does not reach the new generation acts as it does without it. -/
theorem settle_concat_fresh {entries : List TxEntry} {started entry : TxEntry}
    {dispatches : List DispatchFold}
    (hstarts : dispatches.map DispatchFold.started = starts entries)
    (hid : entry.extra? "CLOSED_TX".toList ≠ some started.txId)
    (h : entry.reaches entries started = false) :
    settle (dispatches ++ [DispatchFold.fresh started]) entry =
      settle dispatches entry ++ [DispatchFold.fresh started] := by
  rw [settle_eq, settle_eq, selected_concat_fresh hstarts hid, h, if_neg Bool.false_ne_true]
  cases hidx : selected dispatches entry with
  | none => rfl
  | some index => exact modify_concat_lt (selected_lt hidx) _ _

/-- A row that reaches the new generation acts on it. -/
theorem settle_concat_reached {entries : List TxEntry} {started entry : TxEntry}
    {dispatches : List DispatchFold}
    (hstarts : dispatches.map DispatchFold.started = starts entries)
    (hid : entry.extra? "CLOSED_TX".toList ≠ some started.txId)
    (h : entry.reaches entries started = true) :
    ∃ d, settle (dispatches ++ [DispatchFold.fresh started]) entry = dispatches ++ [d] ∧
      d.Touched := by
  refine ⟨act entry (DispatchFold.fresh started), ?_, ?_⟩
  · rw [settle_eq, selected_concat_fresh hstarts hid, h, if_pos rfl]
    exact modify_middle _ _ _ _
  · unfold act
    split_ifs with hreport
    · exact Or.inl rfl
    · unfold TxEntry.reaches at h
      exact touched_close (Bool.and_eq_true_iff.mp h).1

/-! ### The whole ledger -/

theorem foldl_settle_touched (rows : List TxEntry) (dispatches : List DispatchFold)
    {d : DispatchFold} (h : d.Touched) :
    ∃ dispatches' d', rows.foldl settle (dispatches ++ [d]) = dispatches' ++ [d'] ∧
      d'.Touched := by
  induction rows generalizing dispatches d with
  | nil => exact ⟨dispatches, d, rfl, h⟩
  | cons row rows ih =>
      obtain ⟨dispatches', d', hrow, hd'⟩ := settle_concat_touched dispatches row h
      rw [List.foldl_cons, hrow]
      exact ih dispatches' hd'

/-- The last pass over the generations of a longer ledger. -/
theorem foldl_settle_concat_iff {entries : List TxEntry} {started : TxEntry}
    (rows : List TxEntry) (dispatches : List DispatchFold)
    (hstarts : dispatches.map DispatchFold.started = starts entries)
    (hid : ∀ row ∈ rows, row.extra? "CLOSED_TX".toList ≠ some started.txId) :
    rows.foldl settle (dispatches ++ [DispatchFold.fresh started]) =
        rows.foldl settle dispatches ++ [DispatchFold.fresh started] ↔
      ∀ row ∈ rows, row.reaches entries started = false := by
  induction rows generalizing dispatches with
  | nil => simp
  | cons row rows ih =>
      obtain ⟨hrow, hrows⟩ := List.forall_mem_cons.mp hid
      rw [List.foldl_cons, List.foldl_cons, List.forall_mem_cons]
      cases hreach : row.reaches entries started with
      | false =>
          rw [settle_concat_fresh hstarts hrow hreach,
            ih _ ((settle_started _ _).trans hstarts) hrows]
          simp
      | true =>
          obtain ⟨d, hd, htouched⟩ := settle_concat_reached hstarts hrow hreach
          obtain ⟨dispatches', d', hfold, htouched'⟩ := foldl_settle_touched rows dispatches htouched
          rw [hd, hfold]
          refine ⟨fun heq => ?_, fun h => absurd h.1 (by simp)⟩
          have hlast := (List.append_inj' heq rfl).2
          rw [List.cons.injEq] at hlast
          exact absurd (hlast.1 ▸ htouched') (not_touched_fresh started)

/-- The first two passes open a fresh generation. -/
theorem openDispatches_concat_start {entries : List TxEntry} {started : TxEntry}
    (hstart : started.isStart = true) :
    openDispatches (entries ++ [started]) =
      openDispatches entries ++ [DispatchFold.fresh started] := by
  have hrows : (entries ++ [started]).filter TxEntry.isRecovery =
      entries.filter TxEntry.isRecovery := by
    rw [List.filter_append]
    simp [(TxEntry.not_of_isStart hstart).1]
  unfold openDispatches
  rw [recover_congr hrows, List.foldl_append, List.foldl_cons, List.foldl_nil]
  unfold startOrRun
  rw [if_pos hstart]
  exact recover_concat entries _ rfl

/-- A start at the end of the ledger only adds its generation, exactly if no row reaches it. -/
theorem foldDispatches_concat_start_iff (entries : List TxEntry) (started : TxEntry)
    (hstart : started.isStart = true)
    (hid : ∀ row ∈ entries, row.extra? "CLOSED_TX".toList ≠ some started.txId) :
    foldDispatches (entries ++ [started]) =
        foldDispatches entries ++ [DispatchFold.fresh started] ↔
      ∀ row ∈ entries, row.reaches entries started = false := by
  have hlast := TxEntry.not_of_isStart hstart
  unfold foldDispatches
  rw [openDispatches_concat_start hstart, List.foldl_append, List.foldl_cons, List.foldl_nil,
    settle_of_not hlast.2.1 hlast.2.2]
  exact foldl_settle_concat_iff entries _ (openDispatches_started entries) hid

theorem foldDispatches_concat_start_sample :
    foldDispatches ([firstStart] ++ [secondStart]) =
      foldDispatches [firstStart] ++ [DispatchFold.fresh secondStart] :=
  (foldDispatches_concat_start_iff [firstStart] secondStart (by decide) (by decide)).mpr (by decide)

/-- The close stands before the second start, closes it, and no longer closes the first. -/
theorem foldDispatches_concat_start_fails :
    secondStart.isStart = true ∧
      (∀ row ∈ [firstStart, untaggedDone], row.txId ≠ secondStart.txId ∧ row.extra.all fun p =>
        p.2 ≠ secondStart.txId) ∧
      (foldDispatches [firstStart, untaggedDone]).map DispatchFold.closed = [true] ∧
      (foldDispatches ([firstStart, untaggedDone] ++ [secondStart])).map DispatchFold.closed =
        [false, true] ∧
      foldDispatches ([firstStart, untaggedDone] ++ [secondStart]) ≠
        foldDispatches [firstStart, untaggedDone] ++ [DispatchFold.fresh secondStart] := by
  decide

end Orgasmic
