import Mathlib.Algebra.Order.Group.Int
import Mathlib.Logic.Function.Basic
import Mathlib.Tactic.Linarith

/-! # Generations

Numbered places, the youngest item at place `0`.  An item moves up by one place at a time and takes
the place of what is there.

* **Order** (`Ordered`).  Every item is younger than those at higher places.  Moving an item up keeps
  the order (`Ordered.shift`), and so does a new item at place `0` (`Ordered.update`).
* **Ages.** Over places that are all taken the ages grow with the places (`Ordered.full`). -/

namespace Generations

variable {α : Type*} (born : α → ℤ) {d : ℕ → Option α}

/-- Move the item at place `i` to place `i + 1`. -/
def shift (d : ℕ → Option α) (i : ℕ) : ℕ → Option α := fun p =>
  if p = i + 1 then d i else if p = i then none else d p

def Ordered (d : ℕ → Option α) : Prop :=
  ∀ p q x y, p < q → d p = some x → d q = some y → born y < born x

theorem shift_same (d : ℕ → Option α) (i : ℕ) : shift d i i = none := by
  rw [shift, if_neg (by omega), if_pos rfl]

theorem shift_next (d : ℕ → Option α) (i : ℕ) : shift d i (i + 1) = d i := if_pos rfl

theorem shift_other {i p : ℕ} (h : p ≠ i) (h' : p ≠ i + 1) : shift d i p = d p := by
  rw [shift, if_neg h', if_neg h]

theorem update_same (d : ℕ → Option α) (p : ℕ) (x : Option α) : Function.update d p x p = x :=
  Function.update_self ..

/-- Where an item comes from. -/
theorem shift_some {i p : ℕ} {x : α} (h : shift d i p = some x) :
    p = i + 1 ∧ d i = some x ∨ p ≠ i ∧ p ≠ i + 1 ∧ d p = some x := by
  unfold shift at h
  split at h
  · next heq => exact .inl ⟨heq, h⟩
  · next hnext =>
      split at h
      · cases h
      · next hne => exact .inr ⟨hne, hnext, h⟩

variable {born}

/-- Two items of one age are at one place. -/
theorem Ordered.place_unique (h : Ordered born d) {p q : ℕ} {x y : α} (hx : d p = some x)
    (hy : d q = some y) (heq : born x = born y) : p = q := by
  obtain hlt | rfl | hlt := Nat.lt_trichotomy p q
  · have := h p q x y hlt hx hy
    omega
  · rfl
  · have := h q p y x hlt hy hx
    omega

theorem Ordered.shift (h : Ordered born d) (i : ℕ) : Ordered born (shift d i) := by
  intro p q x y hlt hx hy
  obtain ⟨rfl, hx'⟩ | ⟨hpi, hpn, hx'⟩ := shift_some hx
  · obtain ⟨rfl, _⟩ | ⟨_, _, hy'⟩ := shift_some hy
    · omega
    · exact h i q x y (by omega) hx' hy'
  · obtain ⟨rfl, hy'⟩ | ⟨_, _, hy'⟩ := shift_some hy
    · exact h p i x y (by omega) hx' hy'
    · exact h p q x y hlt hx' hy'

/-- The item at place `0` may be replaced by one that is younger than all the others. -/
theorem Ordered.update (h : Ordered born d) {x : α}
    (hx : ∀ p y, d (p + 1) = some y → born y < born x) :
    Ordered born (Function.update d 0 (some x)) := by
  intro p q y z hlt hy hz
  rw [Function.update_of_ne (by omega)] at hz
  obtain ⟨q, rfl⟩ := Nat.exists_eq_succ_of_ne_zero (show q ≠ 0 by omega)
  obtain rfl | hp := Nat.eq_zero_or_pos p
  · rw [Function.update_self] at hy
    cases hy
    exact hx q z hz
  · rw [Function.update_of_ne (by omega)] at hy
    exact h p (q + 1) y z hlt hy hz

/-- **Ages**: over `n + 1` places that are all taken the last item is older by `n`. -/
theorem Ordered.full (h : Ordered born d) {a n : ℕ}
    (hfull : ∀ p, a ≤ p → p ≤ a + n → (d p).isSome = true) {x y : α} (hx : d a = some x)
    (hy : d (a + n) = some y) : born y + n ≤ born x := by
  induction n generalizing y with
  | zero =>
      rw [Nat.add_zero, hx] at hy
      cases hy
      simp
  | succ n ih =>
      obtain ⟨z, hz⟩ := Option.isSome_iff_exists.mp (hfull (a + n) (by omega) (by omega))
      have hle := ih (fun p hp hp' => hfull p hp (by omega)) hz
      have hlt := h (a + n) (a + (n + 1)) z y (by omega) hz hy
      push_cast
      omega

end Generations
