import Mathlib.Data.Nat.Notation
import Mathlib.Logic.Relation

/-! # Interleavings

A system takes one action at a time; an action that is not enabled in a state has no successor.
Some results hold only along runs whose actions all meet a condition on the state before them.
`Recorded` keeps, beside the state, every action so far with the state that it was taken in; what
happened at a moment stays there. -/

namespace Interleaving

variable {State Action : Type*}

/-- One action that meets the condition. -/
def Step (step : State → Action → Option State) (cond : State → Action → Prop) (s t : State) : Prop :=
  ∃ a, cond s a ∧ step s a = some t

/-- The states reached by actions that all meet the condition. -/
def Reaches (step : State → Action → Option State) (cond : State → Action → Prop) :
    State → State → Prop :=
  Relation.ReflTransGen (Step step cond)

/-- The state after a list of actions. -/
def run (step : State → Action → Option State) : State → List Action → Option State
  | s, [] => some s
  | s, a :: rest => (step s a).bind fun t => run step t rest

variable {step : State → Action → Option State} {cond : State → Action → Prop}

/-- **The invariant rule.** -/
theorem Reaches.invariant {P : State → Prop} {s t : State} (h : Reaches step cond s t)
    (hstep : ∀ {s t : State} {a : Action}, cond s a → step s a = some t → P s → P t)
    (hs : P s) : P t := by
  induction h with
  | refl => exact hs
  | tail _ last ih =>
      obtain ⟨a, meets, next⟩ := last
      exact hstep meets next ih

/-- A weaker condition lets more runs through. -/
theorem Reaches.mono {cond' : State → Action → Prop} {s t : State} (h : Reaches step cond s t)
    (weaker : ∀ s a, cond s a → cond' s a) : Reaches step cond' s t := by
  induction h with
  | refl => exact .refl
  | tail _ last ih =>
      obtain ⟨a, meets, next⟩ := last
      exact ih.tail ⟨a, weaker _ a meets, next⟩

/-- What a list of actions leads to is reached, if the actions meet the condition anywhere. -/
theorem reaches_of_run {s t : State} {l : List Action}
    (meets : ∀ a ∈ l, ∀ s, cond s a) (h : run step s l = some t) :
    Reaches step cond s t := by
  induction l generalizing s with
  | nil =>
      obtain rfl := Option.some.inj h
      exact .refl
  | cons a rest ih =>
      obtain ⟨u, first, later⟩ := Option.bind_eq_some_iff.mp h
      exact .head ⟨a, meets a List.mem_cons_self s, first⟩
        (ih (fun b hb => meets b (List.mem_cons_of_mem a hb)) later)

/-- What a list of actions leads to is reached, if each action passes a check in its state. -/
theorem reaches_of_checked {s t : State} {l : List Action} {ok : State → Action → Bool}
    (sound : ∀ s a, ok s a = true → cond s a)
    (h : run (fun s a => if ok s a then step s a else none) s l = some t) :
    Reaches step cond s t := by
  induction l generalizing s with
  | nil =>
      obtain rfl := Option.some.inj h
      exact .refl
  | cons a rest ih =>
      obtain ⟨u, first, later⟩ := Option.bind_eq_some_iff.mp h
      dsimp only at first
      split at first
      · next checked => exact .head ⟨a, sound s a checked, first⟩ (ih later)
      · cases first

/-! ### Runs with their history -/

/-- A state with the actions that led to it, the oldest first; their positions are the moments. -/
structure Recorded (State Action : Type*) where
  past : List (State × Action)
  current : State

/-- The step that also records the action. -/
def recordStep (step : State → Action → Option State) (r : Recorded State Action) (a : Action) :
    Option (Recorded State Action) :=
  (step r.current a).map fun t => ⟨r.past ++ [(r.current, a)], t⟩

theorem recordStep_eq_some {r r' : Recorded State Action} {a : Action}
    (h : recordStep step r a = some r') :
    step r.current a = some r'.current ∧ r'.past = r.past ++ [(r.current, a)] := by
  obtain ⟨t, next, rfl⟩ := Option.map_eq_some_iff.mp h
  exact ⟨next, rfl⟩

variable {α : Type*} {past : List α} {x y : α} {m : ℕ}

/-- What happened at a moment stays there. -/
theorem at_append (h : past[m]? = some x) : (past ++ [y])[m]? = some x := by
  rw [List.getElem?_append_left (List.getElem?_eq_some_iff.mp h).1]
  exact h

theorem at_now : (past ++ [y])[past.length]? = some y := by simp

/-- A moment of the longer history is one of the shorter, or the last. -/
theorem at_append_iff :
    (past ++ [y])[m]? = some x ↔ past[m]? = some x ∨ (m = past.length ∧ y = x) := by
  constructor
  · intro h
    by_cases inside : m < past.length
    · rw [List.getElem?_append_left inside] at h
      exact .inl h
    · obtain ⟨below, at_m⟩ := List.getElem?_eq_some_iff.mp h
      rw [List.length_append, List.length_singleton] at below
      obtain rfl : m = past.length := by omega
      rw [at_now] at h
      exact .inr ⟨rfl, Option.some.inj h⟩
  · rintro (h | ⟨rfl, rfl⟩)
    · exact at_append h
    · exact at_now

/-- Whoever is not replaced stays. -/
theorem eq_or_mem_set {z : α} (there : past[m]? = some x) (mem : y ∈ past) :
    y = x ∨ y ∈ past.set m z := by
  obtain ⟨j, hj⟩ := List.mem_iff_getElem?.mp mem
  by_cases same : m = j
  · subst same
    exact .inl (Option.some.inj (hj.symm.trans there))
  · refine .inr (List.mem_of_getElem? (i := j) ?_)
    rw [List.getElem?_set_ne same]
    exact hj

theorem at_lt (h : past[m]? = some x) : m < past.length := (List.getElem?_eq_some_iff.mp h).1

end Interleaving
