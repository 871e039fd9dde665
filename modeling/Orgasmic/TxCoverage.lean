import Orgasmic.TxCloses

/-! # What the closes cover

A generation should be closed once its closes cover every task of its start.  The code compares
the number of closed tasks with the number of words in the `TASK` of the start, and the second
counts a task again for every time it is repeated.

* `appliedCloses` are the close rows that act on a generation, `coveredTasks` what they cover.
* `foldl_settle_closed`: the last pass collects the covered tasks and compares the two numbers.
* `closedWhenCovered_iff`: that is right exactly if no generation whose start repeats a task is
  covered. -/

namespace Orgasmic

open Text LastMatch

/-- The row closes the task; without tasks of its own it closes all. -/
def TxEntry.covers (row : TxEntry) (task : Text) : Bool :=
  row.entryTasks = [] || task ∈ row.entryTasks

/-- The tasks of a start that the rows close. -/
def coveredTasks (started : TxEntry) (rows : List TxEntry) : Finset Text :=
  (started.entryTasks.filter fun task => rows.any fun row => row.covers task).toFinset

/-- The rows close every task of the start. -/
def Covered (started : TxEntry) (rows : List TxEntry) : Prop :=
  ∀ task ∈ started.entryTasks, ∃ row ∈ rows, row.covers task = true

/-- The close rows that the last pass applies to the generation at `index`. -/
def appliedCloses (index : ℕ) : List DispatchFold → List TxEntry → List TxEntry
  | _, [] => []
  | dispatches, row :: rows =>
      (if row.isClose && closeIndex dispatches row = some index then [row] else []) ++
        appliedCloses index (settle dispatches row) rows

/-- The close rows of the ledger that are applied to the generation at `index`. -/
def closesOf (entries : List TxEntry) (index : ℕ) : List TxEntry :=
  appliedCloses index (openDispatches entries) entries

/-- A generation is closed if and only if the closes applied to it cover its start. -/
def ClosedWhenCovered (entries : List TxEntry) : Prop :=
  ∀ (index : ℕ) (d : DispatchFold), (foldDispatches entries)[index]? = some d →
    (d.closed = true ↔ Covered d.started (closesOf entries index))

/-! ### Counting -/

section
variable {started : TxEntry} {rows rows' : List TxEntry}

theorem mem_coveredTasks {task : Text} : task ∈ coveredTasks started rows ↔
    task ∈ started.entryTasks ∧ ∃ row ∈ rows, row.covers task = true := by
  unfold coveredTasks
  rw [List.mem_toFinset, List.mem_filter, List.any_eq_true]

theorem coveredTasks_append :
    coveredTasks started (rows ++ rows') =
      coveredTasks started rows ∪ coveredTasks started rows' := by
  ext task
  rw [Finset.mem_union, mem_coveredTasks, mem_coveredTasks, mem_coveredTasks, ← and_or_left]
  refine and_congr_right fun _ => ⟨?_, ?_⟩
  · rintro ⟨row, hrow, hcovers⟩
    obtain hrow | hrow := List.mem_append.mp hrow
    · exact .inl ⟨row, hrow, hcovers⟩
    · exact .inr ⟨row, hrow, hcovers⟩
  · rintro (⟨row, hrow, hcovers⟩ | ⟨row, hrow, hcovers⟩)
    · exact ⟨row, List.mem_append_left _ hrow, hcovers⟩
    · exact ⟨row, List.mem_append_right _ hrow, hcovers⟩

theorem coveredTasks_nil : coveredTasks started [] = ∅ := by
  ext task
  simp [mem_coveredTasks]

theorem coveredTasks_subset : coveredTasks started rows ⊆ started.entryTasks.toFinset :=
  fun _ h => List.mem_toFinset.mpr (mem_coveredTasks.mp h).1

/-- A start is covered if all its tasks are. -/
theorem covered_iff : Covered started rows ↔
    coveredTasks started rows = started.entryTasks.toFinset := by
  constructor
  · intro h
    ext task
    rw [mem_coveredTasks, List.mem_toFinset]
    exact ⟨And.left, fun hmem => ⟨hmem, h task hmem⟩⟩
  · intro h task hmem
    rw [← List.mem_toFinset, ← h] at hmem
    exact (mem_coveredTasks.mp hmem).2

/-- The numbers agree exactly if the start is covered and repeats no task. -/
theorem length_le_card_iff : started.entryTasks.length ≤ (coveredTasks started rows).card ↔
    Covered started rows ∧ started.entryTasks.Nodup := by
  have hsubset : coveredTasks started rows ⊆ started.entryTasks.toFinset := coveredTasks_subset
  have hcard := Finset.card_le_card hsubset
  have hlength := List.toFinset_card_le started.entryTasks
  rw [covered_iff]
  constructor
  · intro h
    refine ⟨Finset.eq_of_subset_of_card_le coveredTasks_subset (by omega), ?_⟩
    have hdedup : started.entryTasks.length ≤ started.entryTasks.dedup.length := by
      rw [← List.card_toFinset]
      omega
    exact List.dedup_eq_self.mp ((List.dedup_sublist _).eq_of_length_le hdedup)
  · rintro ⟨heq, hnodup⟩
    rw [heq, List.toFinset_card_of_nodup hnodup]

end

/-! ### One row -/

/-- A close adds the tasks of the start that it covers, and compares the numbers. -/
theorem close_closedTasks (row : TxEntry) (d : DispatchFold) :
    (d.close row).closedTasks = d.closedTasks ∪ coveredTasks d.started [row] ∧
      (d.close row).closed =
        decide (d.started.entryTasks.length ≤ (d.close row).closedTasks.card) := by
  refine ⟨?_, rfl⟩
  unfold DispatchFold.close
  dsimp only
  congr 1
  ext task
  rw [mem_coveredTasks, List.mem_toFinset]
  unfold TxEntry.covers
  by_cases hempty : row.entryTasks = []
  · simp [hempty]
  · simp [hempty, and_comm]

theorem selected_close {row : TxEntry} (hclose : row.isClose = true)
    (dispatches : List DispatchFold) : selected dispatches row = closeIndex dispatches row := by
  unfold selected
  rw [(TxEntry.not_of_isClose hclose).2.2.2, if_neg Bool.false_ne_true, if_pos hclose]

theorem act_close {row : TxEntry} (hclose : row.isClose = true) (d : DispatchFold) :
    act row d = d.close row := by
  unfold act
  rw [(TxEntry.not_of_isClose hclose).2.2.2, if_neg Bool.false_ne_true]

/-- What a row does to the tasks of a generation. -/
theorem settle_closedTasks (row : TxEntry) {dispatches : List DispatchFold} {index : ℕ}
    {d : DispatchFold} (hd : dispatches[index]? = some d) :
    ∃ d', (settle dispatches row)[index]? = some d' ∧ d'.started = d.started ∧
      if row.isClose && closeIndex dispatches row = some index then
        d'.closedTasks = d.closedTasks ∪ coveredTasks d.started [row] ∧
          d'.closed = decide (d.started.entryTasks.length ≤ d'.closedTasks.card)
      else d'.closedTasks = d.closedTasks ∧ d'.closed = d.closed := by
  cases hclose : row.isClose with
  | false =>
      simp only [Bool.false_and, Bool.false_eq_true, if_false]
      cases hreport : row.isReport with
      | false => exact ⟨d, by rw [settle_of_not hreport hclose, hd], rfl, rfl, rfl⟩
      | true =>
          -- a report only sets its flag
          have hact : ∀ d, (act row d).closedTasks = d.closedTasks ∧
              (act row d).closed = d.closed := fun d => by
            unfold act
            rw [if_pos hreport]
            exact ⟨rfl, rfl⟩
          rw [settle_eq]
          cases selected dispatches row with
          | none => exact ⟨d, hd, rfl, rfl, rfl⟩
          | some k =>
              dsimp only
              rw [List.getElem?_modify, hd, Option.map_eq_map, Option.map_some]
              by_cases hk : k = index
              · rw [if_pos hk]
                exact ⟨_, rfl, act_started row d, hact d⟩
              · rw [if_neg hk]
                exact ⟨d, rfl, rfl, rfl, rfl⟩
  | true =>
      rw [settle_eq, selected_close hclose, Bool.true_and]
      cases hindex : closeIndex dispatches row with
      | none => exact ⟨d, hd, rfl, by simp⟩
      | some k =>
          dsimp only
          rw [List.getElem?_modify, hd, Option.map_eq_map, Option.map_some]
          by_cases hk : k = index
          · simp only [hk, if_true, act_close hclose, decide_true]
            exact ⟨_, rfl, rfl, close_closedTasks row d⟩
          · simp only [hk, if_false, Option.some.injEq, decide_false, Bool.false_eq_true]
            exact ⟨d, rfl, rfl, rfl, rfl⟩

/-! ### The last pass -/

/-- The last pass collects what the applied closes cover; a generation that no close is applied to
stays as it is. -/
theorem foldl_settle_closed (rows : List TxEntry) {dispatches : List DispatchFold} {index : ℕ}
    {d : DispatchFold} (hd : dispatches[index]? = some d) :
    ∃ d', (rows.foldl settle dispatches)[index]? = some d' ∧ d'.started = d.started ∧
      d'.closedTasks = d.closedTasks ∪ coveredTasks d.started (appliedCloses index dispatches rows) ∧
      d'.closed = if appliedCloses index dispatches rows = [] then d.closed
        else decide (d.started.entryTasks.length ≤ d'.closedTasks.card) := by
  induction rows generalizing dispatches d with
  | nil =>
      refine ⟨d, hd, rfl, ?_, rfl⟩
      rw [appliedCloses, coveredTasks_nil, Finset.union_empty]
  | cons row rows ih =>
      obtain ⟨d₁, hd₁, hstarted₁, hrow⟩ := settle_closedTasks row hd
      obtain ⟨d₂, hd₂, hstarted₂, htasks₂, hclosed₂⟩ := ih hd₁
      refine ⟨d₂, hd₂, hstarted₂.trans hstarted₁, ?_, ?_⟩
      · rw [htasks₂, hstarted₁, appliedCloses, coveredTasks_append]
        split_ifs at hrow ⊢
        · rw [hrow.1, Finset.union_assoc]
        · rw [hrow.1, coveredTasks_nil, Finset.empty_union]
      · rw [hclosed₂, hstarted₁, appliedCloses]
        by_cases hrest : appliedCloses index (settle dispatches row) rows = []
        · -- the row is the last one that could be applied
          rw [hrest, coveredTasks_nil, Finset.union_empty] at htasks₂
          rw [if_pos hrest, hrest, List.append_nil, htasks₂]
          split_ifs at hrow ⊢ with happlied hnone
          · cases hnone
          · exact hrow.2
          · exact hrow.2
          · exact absurd rfl ‹¬ _›
        · rw [if_neg hrest, if_neg fun hnil => hrest (List.append_eq_nil_iff.mp hnil).2]

/-- A generation is closed exactly if the closes cover its start and the start repeats no task. -/
theorem foldDispatches_closed_iff {entries : List TxEntry} {index : ℕ} {d : DispatchFold}
    (hd : (foldDispatches entries)[index]? = some d) :
    d.closed = true ↔ Covered d.started (closesOf entries index) ∧ d.started.entryTasks.Nodup := by
  have hlength : index < (openDispatches entries).length := by
    have hlt := (List.getElem?_eq_some_iff.mp hd).1
    have hmaps := (foldDispatches_started entries).trans (openDispatches_started entries).symm
    have hsame := congrArg List.length hmaps
    rw [List.length_map, List.length_map] at hsame
    omega
  have hopen := List.getElem?_eq_getElem hlength
  obtain ⟨hempty, hclosed⟩ := openDispatches_untouched entries _ (List.getElem_mem hlength)
  obtain ⟨d', hd', hstarted, htasks, hlast⟩ := foldl_settle_closed entries hopen
  obtain rfl : d' = d := Option.some.inj (hd'.symm.trans hd)
  rw [hempty, Finset.empty_union, ← hstarted] at htasks
  rw [← length_le_card_iff, hlast]
  split_ifs with hnone
  · -- without a close the start has a task that is not covered
    rw [hclosed]
    unfold closesOf
    rw [hnone, coveredTasks_nil, Finset.card_empty]
    have hstart : d'.started ∈ starts entries := by
      rw [← foldDispatches_started]
      exact List.mem_map_of_mem (List.mem_of_getElem? hd)
    have htask := (TxEntry.isStart_iff.mp (List.mem_filter.mp hstart).2).2.1
    have hpos := List.length_pos_iff.mpr htask
    simp only [Bool.false_eq_true, false_iff]
    omega
  · rw [decide_eq_true_iff, htasks, ← hstarted]
    rfl

/-- A generation is closed if and only if the closes applied to it cover its start, exactly if the
starts that repeat a task are not covered. -/
theorem closedWhenCovered_iff (entries : List TxEntry) :
    ClosedWhenCovered entries ↔
      ∀ (index : ℕ) (started : TxEntry), (starts entries)[index]? = some started →
        ¬ started.entryTasks.Nodup → ¬ Covered started (closesOf entries index) := by
  unfold ClosedWhenCovered
  rw [← foldDispatches_started]
  simp only [List.getElem?_map, Option.map_eq_some_iff]
  constructor
  · rintro h index _ ⟨d, hd, rfl⟩ hrepeats hcovered
    exact hrepeats ((foldDispatches_closed_iff hd).mp ((h index d hd).mpr hcovered)).2
  · intro h index d hd
    rw [foldDispatches_closed_iff hd]
    refine ⟨And.left, fun hcovered => ⟨hcovered, ?_⟩⟩
    by_contra hrepeats
    exact h index d.started ⟨d, hd, rfl⟩ hrepeats hcovered

/-- A start that names its task twice. -/
def repeatedStart : TxEntry := { firstStart with task := some "TASK-1 TASK-1".toList }

/-- The close covers both, and the dispatch stays open. -/
theorem closedWhenCovered_fails :
    repeatedStart.isStart = true ∧ taggedDone.isClose = true ∧
      (∀ task ∈ repeatedStart.entryTasks, ∃ row ∈ closesOf [repeatedStart, taggedDone] 0,
        row.covers task = true) ∧
      (foldDispatches [repeatedStart, taggedDone]).map DispatchFold.closed = [false] ∧
      ¬ ClosedWhenCovered [repeatedStart, taggedDone] := by
  have hcovered : Covered repeatedStart (closesOf [repeatedStart, taggedDone] 0) := by
    unfold Covered
    decide
  refine ⟨by decide, by decide, hcovered, by decide, fun h => ?_⟩
  obtain ⟨d, hd, hstarted, hclosed⟩ :
      ∃ d, (foldDispatches [repeatedStart, taggedDone])[0]? = some d ∧
        d.started = repeatedStart ∧ d.closed = false := ⟨_, rfl, by decide, by decide⟩
  rw [(h 0 d hd).mpr (hstarted ▸ hcovered)] at hclosed
  cases hclosed

end Orgasmic
