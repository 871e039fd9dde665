import Orgasmic.TxRecover

/-! # Reports and closes

The last pass changes one generation for each row, or none.

* `selected` is the generation that a row acts on, `act` what it does there; `settle_eq` puts the
  two together.
* No pass changes which start a generation has: `openDispatches_started`,
  `foldDispatches_started`. -/

namespace Orgasmic

open Text LastMatch

/-- The rows that open a generation. -/
def starts (entries : List TxEntry) : List TxEntry := entries.filter TxEntry.isStart

/-- The row is for this generation, by its run or by its tasks. -/
def TxEntry.reportsOn (entry : TxEntry) (d : DispatchFold) : Bool :=
  match entry.extra? "RUN_ID".toList with
  | some runId => runId ∈ d.runIds
  | none => entry.sharesTask d.started

/-- The generation that a row of the last pass acts on. -/
def selected (dispatches : List DispatchFold) (entry : TxEntry) : Option ℕ :=
  if entry.isReport then lastIdx? (fun d => !d.closed && entry.reportsOn d) dispatches
  else if entry.isClose then closeIndex dispatches entry
  else none

/-- What the row does to that generation. -/
def act (entry : TxEntry) (d : DispatchFold) : DispatchFold :=
  if entry.isReport then { d with reported := true } else d.close entry

theorem settle_eq (dispatches : List DispatchFold) (entry : TxEntry) :
    settle dispatches entry =
      match selected dispatches entry with
      | some index => dispatches.modify index (act entry)
      | none => dispatches := by
  unfold settle selected act
  split_ifs with hreport hclose
  · unfold markReported TxEntry.reportsOn
    cases entry.extra? "RUN_ID".toList <;> rfl
  · rfl
  · rfl

theorem selected_lt {dispatches : List DispatchFold} {entry : TxEntry} {index : ℕ}
    (h : selected dispatches entry = some index) : index < dispatches.length := by
  unfold selected closeIndex at h
  split_ifs at h
  · exact lastIdx?_lt h
  · rcases Option.or_eq_some_iff.mp h with hnamed | ⟨-, hshared⟩
    · obtain ⟨tx, -, hidx⟩ := Option.bind_eq_some_iff.mp hnamed
      exact lastIdx?_lt hidx
    · exact lastIdx?_lt hshared

/-! ### The starts of the generations -/

theorem act_started (entry : TxEntry) (d : DispatchFold) : (act entry d).started = d.started := by
  unfold act
  split_ifs <;> rfl

theorem withRun_started (entry : TxEntry) (d : DispatchFold) :
    (d.withRun entry).started = d.started := by
  unfold DispatchFold.withRun
  split <;> rfl

theorem startOrRun_started (dispatches : List DispatchFold) (entry : TxEntry) :
    (startOrRun dispatches entry).map DispatchFold.started =
      dispatches.map DispatchFold.started ++ starts [entry] := by
  unfold startOrRun starts
  split_ifs with hstart hrun
  · simp [hstart, DispatchFold.fresh]
  · simp only [List.filter_cons, hstart, Bool.false_eq_true, if_false, List.filter_nil,
      List.append_nil]
    exact map_modifyLast_of_eq _ _ (withRun_started entry) dispatches
  · simp [hstart]

theorem foldl_startOrRun_started (entries : List TxEntry) (dispatches : List DispatchFold) :
    (entries.foldl startOrRun dispatches).map DispatchFold.started =
      dispatches.map DispatchFold.started ++ starts entries := by
  induction entries generalizing dispatches with
  | nil => simp [starts]
  | cons entry entries ih =>
      rw [List.foldl_cons, ih, startOrRun_started, List.append_assoc]
      unfold starts
      rw [← List.filter_append, List.singleton_append]

theorem openDispatches_started (entries : List TxEntry) :
    (openDispatches entries).map DispatchFold.started = starts entries := by
  unfold openDispatches
  rw [recover_started, foldl_startOrRun_started, List.map_nil, List.nil_append]

theorem settle_started (dispatches : List DispatchFold) (entry : TxEntry) :
    (settle dispatches entry).map DispatchFold.started =
      dispatches.map DispatchFold.started := by
  rw [settle_eq]
  cases selected dispatches entry with
  | some index => exact map_modify_of_eq _ (act_started entry) dispatches index
  | none => rfl

theorem foldl_settle_started (entries : List TxEntry) (dispatches : List DispatchFold) :
    (entries.foldl settle dispatches).map DispatchFold.started =
      dispatches.map DispatchFold.started := by
  induction entries generalizing dispatches with
  | nil => rfl
  | cons entry entries ih => rw [List.foldl_cons, ih, settle_started]

/-- One generation for each start, in the order of the ledger. -/
theorem foldDispatches_started (entries : List TxEntry) :
    (foldDispatches entries).map DispatchFold.started = starts entries := by
  unfold foldDispatches
  rw [foldl_settle_started, openDispatches_started]

/-- The search of a close that names its generation. -/
theorem lastIdx?_started {dispatches : List DispatchFold} {rows : List TxEntry}
    (h : dispatches.map DispatchFold.started = rows) (tx : Text) :
    lastIdx? (fun d : DispatchFold => d.started.txId = tx) dispatches =
      lastIdx? (fun row : TxEntry => row.txId = tx) rows := by
  rw [← h, lastIdx?_map]

/-- Rows of other kinds do nothing in the last pass. -/
theorem settle_of_not {entry : TxEntry} (hreport : entry.isReport = false)
    (hclose : entry.isClose = false) (dispatches : List DispatchFold) :
    settle dispatches entry = dispatches := by
  simp [settle, hreport, hclose]

/-! ### Rows of a small ledger -/

/-- The first dispatch of a task. -/
def firstStart : TxEntry :=
  { TxEntry.new "tx-1".toList "manager.dispatch_started".toList "[2026-05-21 Thu 19:35:16]".toList
      "manager".toList "m1".toList with
    task := some "TASK-1".toList, extra := [("KIND".toList, "implementer".toList)] }

/-- The next dispatch of the task. -/
def secondStart : TxEntry := { firstStart with txId := "tx-3".toList }

/-- A close of the task that names no generation. -/
def untaggedDone : TxEntry :=
  { TxEntry.new "tx-2".toList "implementer.done".toList "[2026-05-21 Thu 20:02:40]".toList
      "implementer".toList "m1".toList with task := some "TASK-1".toList }

end Orgasmic
