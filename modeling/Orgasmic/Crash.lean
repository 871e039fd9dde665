import Mathlib.Data.List.Basic

/-! # Operations that a crash can cut short

A history is the operations of an object with their answers, `none` where a crash came first
(`Runs`).

* **Simulation.** `Runs.simulate`: an abstraction that every step commutes with explains every
  history of an implementation by the object. -/

namespace Crash

variable {Op Answer State : Type*}

/-- Histories, step by step. -/
inductive Runs (step : State → Op → Option Answer → State → Prop) :
    State → List (Op × Option Answer) → State → Prop
  | nil (s : State) : Runs step s [] s
  | cons {s t u : State} {op : Op} {answer : Option Answer} {rest : List (Op × Option Answer)}
      (first : step s op answer t) (later : Runs step t rest u) :
      Runs step s ((op, answer) :: rest) u

/-- **Simulation.**  The steps are those of the history. -/
theorem Runs.simulate {Concrete : Type*} {step : Concrete → Op → Option Answer → Concrete → Prop}
    {spec : State → Op → Option Answer → State → Prop} (abs : Concrete → State → Prop)
    {history : List (Op × Option Answer)} {c c' : Concrete} (runs : Runs step c history c')
    (hstep : ∀ e ∈ history, ∀ {c c' s}, step c e.1 e.2 c' → abs c s →
      ∃ s', abs c' s' ∧ spec s e.1 e.2 s') {s : State} (hs : abs c s) :
    ∃ s', abs c' s' ∧ Runs spec s history s' := by
  induction runs generalizing s with
  | nil c => exact ⟨s, hs, .nil s⟩
  | cons first _ ih =>
      obtain ⟨t, ht, hspec⟩ := hstep _ List.mem_cons_self first hs
      obtain ⟨u, hu, later⟩ := ih (fun e he => hstep e (List.mem_cons_of_mem _ he)) ht
      exact ⟨u, hu, .cons hspec later⟩

end Crash
