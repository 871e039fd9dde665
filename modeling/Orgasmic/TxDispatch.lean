import Orgasmic.LastMatch
import Orgasmic.TxEntry
import Mathlib.Algebra.BigOperators.Group.List.Basic
import Mathlib.Data.Finset.Card

/-! # Dispatch generations

`foldDispatches` reads the ledger in three passes.

* **Starts and initial runs** in the order of the ledger: a start opens a generation, an initial
  run is attached to the newest generation it matches.
* **Recovery runs**, again and again until nothing changes, so that a chain of recoveries belongs
  to one generation in whatever order its rows stand.  `recover_fixed`: the bound on the number of
  rounds is never reached early.
* **Reports and closes** in the order of the ledger, over the generations of the whole ledger. -/

namespace Orgasmic

open Text LastMatch

/-- One dispatch generation derived from the ledger. -/
structure DispatchFold where
  started : TxEntry
  run : Option TxEntry
  addressedRunId : Option Text
  runIds : Finset Text
  closedTasks : Finset Text
  cleanupAlreadyRun : Bool
  reported : Bool
  closed : Bool
deriving DecidableEq

namespace TxEntry

/-- The row opens a generation. -/
def isStart (entry : TxEntry) : Bool :=
  entry.ty = "manager.dispatch_started".toList && entry.entryTasks ≠ [] &&
    (entry.extra? "KIND".toList).isSome

def isInitialRun (entry : TxEntry) : Bool :=
  entry.ty = "run.created".toList && entry.extra? "ORIGIN".toList = some "cli_dispatch".toList

def isRecovery (entry : TxEntry) : Bool :=
  entry.ty = "run.created".toList && entry.extra? "ORIGIN".toList = some "recovery".toList

def isReport (entry : TxEntry) : Bool :=
  entry.ty = "implementer.reported".toList || entry.ty = "reviewer.reported".toList ||
    entry.ty = "architector.reported".toList

def isClose (entry : TxEntry) : Bool :=
  entry.ty = "implementer.done".toList || entry.ty = "reviewer.done".toList ||
    entry.ty = "architector.done".toList || entry.ty = "manager.dispatch_aborted".toList

/-- The row names a task of the other row. -/
def sharesTask (entry started : TxEntry) : Bool :=
  entry.entryTasks.any fun task => task ∈ started.entryTasks

end TxEntry

namespace DispatchFold

/-- A generation that was just opened. -/
def fresh (entry : TxEntry) : DispatchFold := ⟨entry, none, none, ∅, ∅, false, false, false⟩

/-! ### Starts and initial runs -/

def exactRun (entry : TxEntry) (d : DispatchFold) : Bool :=
  entry.extra? "DISPATCH_TX".toList = some d.started.txId

/-- The rule for rows that do not name their generation. -/
def legacyRun (entry : TxEntry) (d : DispatchFold) : Bool :=
  entry.entryTasks ≠ [] && entry.sharesTask d.started &&
    ((entry.extra? "KIND".toList).map fun kind =>
      decide (d.started.extra? "KIND".toList = some kind)).getD true &&
    d.addressedRunId.isNone

def withRun (entry : TxEntry) (d : DispatchFold) : DispatchFold :=
  match entry.extra? "RUN_ID".toList with
  | some runId =>
      { d with runIds := insert runId d.runIds, addressedRunId := some runId, run := some entry }
  | none => { d with run := some entry }

/-! ### Closes -/

def close (entry : TxEntry) (d : DispatchFold) : DispatchFold :=
  let closeTasks := entry.entryTasks
  let cleanup := entry.extra? "CLEANUP_STATUS".toList = some "ok".toList ||
    entry.extra? "CLEANUP_STATUS".toList = some "worktree_missing".toList
  let startedTasks := d.started.entryTasks
  let closedTasks := d.closedTasks ∪
    (if closeTasks = [] then startedTasks
      else closeTasks.filter (· ∈ startedTasks)).toFinset
  { d with
    cleanupAlreadyRun := if cleanup then true else d.cleanupAlreadyRun
    closedTasks := closedTasks
    closed := startedTasks.length ≤ closedTasks.card }

end DispatchFold

def attachInitialRun (dispatches : List DispatchFold) (entry : TxEntry) : List DispatchFold :=
  modifyLast (fun d => d.exactRun entry || d.legacyRun entry) (DispatchFold.withRun entry)
    dispatches

/-- One row of the first pass. -/
def startOrRun (dispatches : List DispatchFold) (entry : TxEntry) : List DispatchFold :=
  if entry.isStart then dispatches ++ [DispatchFold.fresh entry]
  else if entry.isInitialRun then attachInitialRun dispatches entry
  else dispatches

/-- A generation whose run was replaced. -/
def DispatchFold.replaced (replacement : Text) (d : DispatchFold) : DispatchFold :=
  { d with runIds := insert replacement d.runIds, addressedRunId := some replacement }

/-- One row of a recovery round; the flag says whether the round changed anything so far. -/
def recoverRow (state : List DispatchFold × Bool) (entry : TxEntry) : List DispatchFold × Bool :=
  if entry.isRecovery then
    match entry.extra? "ORIGIN_RUN_ID".toList, entry.extra? "RUN_ID".toList with
    | some origin, some replacement =>
        match lastIdx? (fun d : DispatchFold => origin ∈ d.runIds) state.1 with
        | some index =>
            match state.1[index]? with
            | some dispatch =>
                if replacement ∈ dispatch.runIds then state
                else (state.1.modify index (DispatchFold.replaced replacement), true)
            | none => state
        | none => state
    | _, _ => state
  else state

def recoverRound (entries : List TxEntry) (dispatches : List DispatchFold) :
    List DispatchFold × Bool := entries.foldl recoverRow (dispatches, false)

/-- The rounds of the loop, at most `n` of them. -/
def recoverLoop (entries : List TxEntry) : ℕ → List DispatchFold → List DispatchFold
  | 0, dispatches => dispatches
  | n + 1, dispatches =>
      let (dispatches', changed) := recoverRound entries dispatches
      if changed then recoverLoop entries n dispatches' else dispatches'

/-- The loop until nothing changes: every round but the last adds a run id of some row to some
generation. -/
def recover (entries : List TxEntry) (dispatches : List DispatchFold) : List DispatchFold :=
  recoverLoop entries (entries.length * dispatches.length + 1) dispatches

def markReported (dispatches : List DispatchFold) (entry : TxEntry) : List DispatchFold :=
  match entry.extra? "RUN_ID".toList with
  | some runId =>
      modifyLast (fun d => !d.closed && decide (runId ∈ d.runIds))
        (fun d => { d with reported := true }) dispatches
  | none =>
      modifyLast (fun d => !d.closed && entry.sharesTask d.started)
        (fun d => { d with reported := true }) dispatches

def closeIndex (dispatches : List DispatchFold) (entry : TxEntry) : Option ℕ :=
  ((entry.extra? "CLOSED_TX".toList).bind fun tx =>
    lastIdx? (fun d : DispatchFold => d.started.txId = tx) dispatches).or
      (lastIdx? (fun d => !d.closed && entry.sharesTask d.started) dispatches)

def closeDispatch (dispatches : List DispatchFold) (entry : TxEntry) : List DispatchFold :=
  match closeIndex dispatches entry with
  | some index => dispatches.modify index (DispatchFold.close entry)
  | none => dispatches

/-- One row of the last pass. -/
def settle (dispatches : List DispatchFold) (entry : TxEntry) : List DispatchFold :=
  if entry.isReport then markReported dispatches entry
  else if entry.isClose then closeDispatch dispatches entry
  else dispatches

/-- The generations with their runs. -/
def openDispatches (entries : List TxEntry) : List DispatchFold :=
  recover entries (entries.foldl startOrRun [])

/-- Fold the project-level dispatch lifecycle. -/
def foldDispatches (entries : List TxEntry) : List DispatchFold :=
  entries.foldl settle (openDispatches entries)

/-! ### Kinds of rows -/

namespace TxEntry
variable {entry : TxEntry}

theorem isStart_iff : entry.isStart = true ↔ entry.ty = "manager.dispatch_started".toList ∧
    entry.entryTasks ≠ [] ∧ (entry.extra? "KIND".toList).isSome = true := by
  unfold isStart
  rw [Bool.and_eq_true, Bool.and_eq_true, decide_eq_true_iff, decide_eq_true_iff, and_assoc]

theorem isInitialRun_iff : entry.isInitialRun = true ↔ entry.ty = "run.created".toList ∧
    entry.extra? "ORIGIN".toList = some "cli_dispatch".toList := by
  unfold isInitialRun
  rw [Bool.and_eq_true, decide_eq_true_iff, decide_eq_true_iff]

theorem isRecovery_iff : entry.isRecovery = true ↔ entry.ty = "run.created".toList ∧
    entry.extra? "ORIGIN".toList = some "recovery".toList := by
  unfold isRecovery
  rw [Bool.and_eq_true, decide_eq_true_iff, decide_eq_true_iff]

theorem isReport_iff : entry.isReport = true ↔ entry.ty ∈ ["implementer.reported".toList,
    "reviewer.reported".toList, "architector.reported".toList] := by
  unfold isReport
  rw [Bool.or_eq_true, Bool.or_eq_true, decide_eq_true_iff, decide_eq_true_iff,
    decide_eq_true_iff, List.mem_cons, List.mem_cons, List.mem_singleton, or_assoc]

theorem isClose_iff : entry.isClose = true ↔ entry.ty ∈ ["implementer.done".toList,
    "reviewer.done".toList, "architector.done".toList, "manager.dispatch_aborted".toList] := by
  unfold isClose
  rw [Bool.or_eq_true, Bool.or_eq_true, Bool.or_eq_true, decide_eq_true_iff, decide_eq_true_iff,
    decide_eq_true_iff, decide_eq_true_iff, List.mem_cons, List.mem_cons, List.mem_cons,
    List.mem_singleton, or_assoc, or_assoc]

/-- A row is of one kind. -/
theorem not_of_isStart (h : entry.isStart = true) :
    entry.isRecovery = false ∧ entry.isReport = false ∧ entry.isClose = false := by
  have ht := (isStart_iff.mp h).1
  refine ⟨?_, ?_, ?_⟩ <;> refine Bool.eq_false_iff.mpr fun h' => ?_
  · exact absurd (ht.symm.trans (isRecovery_iff.mp h').1) (by decide)
  · exact absurd (ht ▸ isReport_iff.mp h') (by decide)
  · exact absurd (ht ▸ isClose_iff.mp h') (by decide)

theorem not_of_isClose (h : entry.isClose = true) :
    entry.isStart = false ∧ entry.isInitialRun = false ∧ entry.isRecovery = false ∧
      entry.isReport = false := by
  have ht := isClose_iff.mp h
  refine ⟨?_, ?_, ?_, ?_⟩ <;> refine Bool.eq_false_iff.mpr fun h' => ?_
  · exact absurd ((isStart_iff.mp h').1 ▸ ht) (by decide)
  · exact absurd ((isInitialRun_iff.mp h').1 ▸ ht) (by decide)
  · exact absurd ((isRecovery_iff.mp h').1 ▸ ht) (by decide)
  · have hdisjoint : ∀ ty ∈ ["implementer.done".toList, "reviewer.done".toList,
        "architector.done".toList, "manager.dispatch_aborted".toList],
        ty ∉ ["implementer.reported".toList, "reviewer.reported".toList,
          "architector.reported".toList] := by decide
    exact hdisjoint _ ht (isReport_iff.mp h')

theorem not_of_isInitialRun (h : entry.isInitialRun = true) :
    entry.isStart = false ∧ entry.isRecovery = false ∧ entry.isReport = false ∧
      entry.isClose = false := by
  obtain ⟨ht, horigin⟩ := isInitialRun_iff.mp h
  refine ⟨?_, ?_, ?_, ?_⟩ <;> refine Bool.eq_false_iff.mpr fun h' => ?_
  · exact absurd (ht.symm.trans (isStart_iff.mp h').1) (by decide)
  · exact absurd (Option.some.inj (horigin.symm.trans (isRecovery_iff.mp h').2)) (by decide)
  · exact absurd (ht ▸ isReport_iff.mp h') (by decide)
  · exact absurd (ht ▸ isClose_iff.mp h') (by decide)

end TxEntry

end Orgasmic
