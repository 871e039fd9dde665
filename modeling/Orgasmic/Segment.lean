import Mathlib.Data.List.Basic
import Mathlib.Order.Basic
import Mathlib.Tactic.Common

/-! # Cutting a list at its heads

A scanner reads a list from left to right with a state; an element may be a *head*, depending on
the state it is read in.  `cut` splits the list into the elements before the first head and the
chunks, one for each head, with the elements up to the next head.

`cut_eq_iff` says that the result is the only decomposition of its kind: `NoHead` of the
elements before the first head and `Chunks` of the rest.  Both predicates distribute over
concatenation, so a change in the middle of the list is reasoned about at the chunk it falls in.
The number of heads is additive (`heads_append`), and where a larger state hides heads it only
falls when the state grows (`heads_anti`). -/

namespace Segment

variable {σ α : Type*} (step : σ → α → σ) (head : σ → α → Bool)

/-- The state after a list. -/
def run (s : σ) (as : List α) : σ := as.foldl step s

/-- The elements before the first head, and one chunk for every head. -/
def cut : σ → List α → List α × List (α × List α)
  | _, [] => ([], [])
  | s, a :: as =>
      let p := cut (step s a) as
      if head s a then ([], (a, p.1) :: p.2) else (a :: p.1, p.2)

/-- The elements of a list of chunks. -/
def join (cs : List (α × List α)) : List α := cs.flatMap fun c => c.1 :: c.2

/-- No element of the list is a head. -/
def NoHead : σ → List α → Prop
  | _, [] => True
  | s, a :: as => head s a = false ∧ NoHead (step s a) as

/-- Every chunk starts with a head and has no other. -/
def Chunks : σ → List (α × List α) → Prop
  | _, [] => True
  | s, c :: cs => head s c.1 = true ∧ NoHead step head (step s c.1) c.2 ∧
      Chunks (run step (step s c.1) c.2) cs

/-- The number of heads. -/
def heads : σ → List α → ℕ
  | _, [] => 0
  | s, a :: as => (if head s a then 1 else 0) + heads (step s a) as

@[simp] theorem run_nil (s : σ) : run step s [] = s := rfl

@[simp] theorem run_cons (s : σ) (a : α) (as : List α) :
    run step s (a :: as) = run step (step s a) as := rfl

@[simp] theorem run_append (s : σ) (as bs : List α) :
    run step s (as ++ bs) = run step (run step s as) bs := by simp [run]

@[simp] theorem join_nil : join ([] : List (α × List α)) = [] := rfl

@[simp] theorem join_cons (c : α × List α) (cs : List (α × List α)) :
    join (c :: cs) = c.1 :: (c.2 ++ join cs) := by simp [join]

@[simp] theorem join_append (cs ds : List (α × List α)) : join (cs ++ ds) = join cs ++ join ds := by
  simp [join]

theorem join_eq_nil_iff (cs : List (α × List α)) : join cs = [] ↔ cs = [] := by
  cases cs <;> simp

theorem length_le_join (cs : List (α × List α)) : cs.length ≤ (join cs).length := by
  induction cs with
  | nil => simp
  | cons c cs ih => simp only [join_cons, List.length_cons, List.length_append]; omega

theorem noHead_append (s : σ) (as bs : List α) :
    NoHead step head s (as ++ bs) ↔ NoHead step head s as ∧ NoHead step head (run step s as) bs := by
  induction as generalizing s with
  | nil => simp [NoHead]
  | cons a as ih => simp [NoHead, ih, and_assoc]

theorem chunks_append (s : σ) (cs ds : List (α × List α)) :
    Chunks step head s (cs ++ ds) ↔
      Chunks step head s cs ∧ Chunks step head (run step s (join cs)) ds := by
  induction cs generalizing s with
  | nil => simp [Chunks]
  | cons c cs ih => simp [Chunks, ih, and_assoc]

theorem cut_spec (s : σ) (as : List α) :
    as = (cut step head s as).1 ++ join (cut step head s as).2 ∧
      NoHead step head s (cut step head s as).1 ∧
      Chunks step head (run step s (cut step head s as).1) (cut step head s as).2 := by
  induction as generalizing s with
  | nil => simp [cut, NoHead, Chunks]
  | cons a as ih =>
      obtain ⟨h1, h2, h3⟩ := ih (step s a)
      by_cases hh : head s a = true
      · simp only [cut, hh, if_true]
        refine ⟨?_, trivial, hh, h2, h3⟩
        rw [join_cons, List.nil_append, ← h1]
      · simp only [cut, if_neg hh]
        refine ⟨by rw [List.cons_append, ← h1], ⟨by simpa using hh, h2⟩, h3⟩

theorem cut_noHead_append {s : σ} {p : List α} (hp : NoHead step head s p) (as : List α) :
    cut step head s (p ++ as) =
      (p ++ (cut step head (run step s p) as).1, (cut step head (run step s p) as).2) := by
  induction p generalizing s with
  | nil => simp
  | cons a p ih =>
      obtain ⟨ha, hp⟩ := hp
      simp [cut, ha, ih hp]

theorem cut_join {s : σ} {cs : List (α × List α)} (h : Chunks step head s cs) :
    cut step head s (join cs) = ([], cs) := by
  induction cs generalizing s with
  | nil => rfl
  | cons c cs ih =>
      obtain ⟨hc, hb, h⟩ := h
      rw [join_cons]
      simp only [cut, hc, if_true, cut_noHead_append step head hb, ih h, List.append_nil]

/-- **The decomposition is unique.** -/
theorem cut_eq_iff (s : σ) (as p : List α) (cs : List (α × List α)) :
    cut step head s as = (p, cs) ↔
      as = p ++ join cs ∧ NoHead step head s p ∧ Chunks step head (run step s p) cs := by
  constructor
  · intro h
    have := cut_spec step head s as
    rwa [h] at this
  · rintro ⟨rfl, hp, hc⟩
    rw [cut_noHead_append step head hp, cut_join step head hc, List.append_nil]

/-! ### Counting heads -/

theorem heads_append (s : σ) (as bs : List α) :
    heads step head s (as ++ bs) = heads step head s as + heads step head (run step s as) bs := by
  induction as generalizing s with
  | nil => simp [heads]
  | cons a as ih => simp only [List.cons_append, heads, ih, run_cons]; omega

theorem heads_eq_zero_iff (s : σ) (as : List α) :
    heads step head s as = 0 ↔ NoHead step head s as := by
  induction as generalizing s with
  | nil => simp [heads, NoHead]
  | cons a as ih => cases h : head s a <;> simp [heads, NoHead, h, ih]

theorem heads_join {s : σ} {cs : List (α × List α)} (h : Chunks step head s cs) :
    heads step head s (join cs) = cs.length := by
  induction cs generalizing s with
  | nil => rfl
  | cons c cs ih =>
      obtain ⟨hc, hb, h⟩ := h
      have hb := (heads_eq_zero_iff step head _ _).mpr hb
      simp only [join_cons, heads, hc, if_true, heads_append, hb, ih h, List.length_cons]
      omega

section Monotone
variable [Preorder σ] (hstep : ∀ {s t : σ} (a : α), s ≤ t → step s a ≤ step t a)
  (hhead : ∀ {s t : σ} (a : α), s ≤ t → head t a = true → head s a = true)
include hstep

theorem run_mono {s t : σ} (h : s ≤ t) (as : List α) : run step s as ≤ run step t as := by
  induction as generalizing s t with
  | nil => exact h
  | cons a as ih =>
      rw [run_cons, run_cons]
      exact ih (hstep a h)

include hhead

/-- **A larger state hides heads.** -/
theorem heads_anti {s t : σ} (h : s ≤ t) (as : List α) :
    heads step head t as ≤ heads step head s as := by
  induction as generalizing s t with
  | nil => simp [heads]
  | cons a as ih =>
      have ih := ih (hstep a h)
      simp only [heads]
      cases ht : head t a with
      | false => simp only [Bool.false_eq_true, if_false]; omega
      | true => rw [hhead a h ht]; omega

end Monotone

end Segment
