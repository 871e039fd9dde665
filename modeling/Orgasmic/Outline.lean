import Mathlib.Data.List.Forall2
import Mathlib.Tactic.Common

/-! # Outlines: reading a list of items by their depth

An outline is a list of items, each with a depth, such as the headings of a document in the order
they are written.  `below` reads the items deeper than a floor off the front of the list, in the
way a recursive descent does: an item may be at most one level deeper than the one before it
(`Stepped`), and the first item that is not deeper than the floor ends the reading.

`below_split` is the recursion a descent rests on: what is deeper than a floor is what is deeper
than the next level, followed by what comes at the next level.  `below_eq_some_iff` describes the
result without the recursion. -/

namespace Outline

variable {α β : Type*}

/-- Each depth is at most one more than the depth before it. -/
def Stepped : ℕ → List ℕ → Prop
  | _, [] => True
  | prev, l :: ls => l ≤ prev + 1 ∧ Stepped l ls

instance decidableStepped : (prev : ℕ) → (ls : List ℕ) → Decidable (Stepped prev ls)
  | _, [] => isTrue trivial
  | prev, l :: ls =>
      have := decidableStepped l ls
      inferInstanceAs (Decidable (l ≤ prev + 1 ∧ Stepped l ls))

/-- The depth of the last item, or `prev` if there is none. -/
def lastDepth (prev : ℕ) (ls : List ℕ) : ℕ := ls.getLast?.getD prev

theorem stepped_append (prev : ℕ) (as bs : List ℕ) :
    Stepped prev (as ++ bs) ↔ Stepped prev as ∧ Stepped (lastDepth prev as) bs := by
  induction as generalizing prev with
  | nil => simp [Stepped, lastDepth]
  | cons a as ih =>
      have e : lastDepth prev (a :: as) = lastDepth a as := by
        simp [lastDepth, List.getLast?_cons]
      simp [Stepped, ih, e, and_assoc]

theorem stepped_of_le {prev : ℕ} {ls : List ℕ} (h : ∀ l ∈ ls, l ≤ 1) : Stepped prev ls := by
  induction ls generalizing prev with
  | nil => trivial
  | cons l ls ih =>
      obtain ⟨hl, hls⟩ := List.forall_mem_cons.mp h
      exact ⟨by omega, ih hls⟩

/-- Without an item and what is below it, each depth is still at most one more than the one before. -/
theorem Stepped.removed {prev m : ℕ} {as ms bs : List ℕ} (h : Stepped prev (as ++ m :: ms ++ bs))
    (hbs : ∀ b ∈ bs.head?, b ≤ m) : Stepped prev (as ++ bs) := by
  rw [List.append_assoc, stepped_append] at h
  obtain ⟨has, hm, h⟩ := h
  rw [stepped_append]
  refine ⟨has, ?_⟩
  cases bs with
  | nil => trivial
  | cons b bs =>
      obtain ⟨-, htail⟩ := (stepped_append m ms (b :: bs)).mp h
      exact ⟨by have := hbs b rfl; omega, htail.2⟩

variable (depth : β → ℕ) (read : β → Option α)

/-- Read the items deeper than `floor`; the item before them has depth `prev`. -/
def below (floor : ℕ) : ℕ → List β → Option (List α × List β)
  | _, [] => some ([], [])
  | prev, b :: bs =>
      if depth b ≤ floor then some ([], b :: bs)
      else if depth b ≤ prev + 1 then
        (read b).bind fun a => (below floor (depth b) bs).map fun r => (a :: r.1, r.2)
      else none

/-- **One level at a time.** -/
theorem below_split {floor prev : ℕ} (h : floor + 1 ≤ prev) (bs : List β) :
    below depth read floor prev bs =
      (below depth read (floor + 1) prev bs).bind fun r =>
        (below depth read floor floor r.2).map fun r' => (r.1 ++ r'.1, r'.2) := by
  induction bs generalizing prev with
  | nil => rfl
  | cons b bs ih =>
      by_cases h0 : depth b ≤ floor
      · have h1 : depth b ≤ floor + 1 := by omega
        simp [below, h0, h1]
      · by_cases h1 : depth b ≤ floor + 1
        · have h2 : depth b ≤ prev + 1 := by omega
          simp [below, h0, h1, h2]
        · by_cases h2 : depth b ≤ prev + 1
          · have ih := @ih (depth b) (by omega)
            simp only [below, if_neg h0, if_neg h1, if_pos h2, ih]
            cases read b with
            | none => rfl
            | some a =>
                cases below depth read (floor + 1) (depth b) bs with
                | none => rfl
                | some r =>
                    cases h3 : below depth read floor floor r.2 <;> simp [h3]
          · simp [below, h0, h1, h2]

/-- **The items read**: the longest front part deeper than the floor, if every item of it can be
read and is at most one level deeper than the one before. -/
theorem below_eq_some_iff (floor prev : ℕ) (bs : List β) (as : List α) (rest : List β) :
    below depth read floor prev bs = some (as, rest) ↔
      ∃ taken, bs = taken ++ rest ∧ List.Forall₂ (fun b a => read b = some a) taken as ∧
        (∀ b ∈ taken, floor < depth b) ∧ Stepped prev (taken.map depth) ∧
        ∀ b ∈ rest.head?, depth b ≤ floor := by
  induction bs generalizing prev as with
  | nil =>
      simp only [below, Option.some.injEq, Prod.mk.injEq]
      constructor
      · rintro ⟨rfl, rfl⟩
        exact ⟨[], by simp [Stepped]⟩
      · rintro ⟨taken, h, hr, -, -, -⟩
        obtain ⟨rfl, rfl⟩ := List.append_eq_nil_iff.mp h.symm
        cases hr
        simp
  | cons b bs ih =>
      simp only [below]
      split_ifs with h0 h1
      · simp only [Option.some.injEq, Prod.mk.injEq]
        constructor
        · rintro ⟨rfl, rfl⟩
          exact ⟨[], by simp [Stepped, h0]⟩
        · rintro ⟨taken, h, hr, hd, -, -⟩
          cases taken with
          | nil => cases hr; simpa using h
          | cons t ts =>
              obtain ⟨rfl, -⟩ := List.cons.inj h
              have := hd b List.mem_cons_self
              omega
      · simp only [Option.bind_eq_some_iff, Option.map_eq_some_iff, Prod.exists, Prod.mk.injEq]
        constructor
        · rintro ⟨a, ha, as', rest', hb, rfl, rfl⟩
          obtain ⟨taken, rfl, hr, hd, hs, hrest⟩ := (ih _ _).mp hb
          refine ⟨b :: taken, rfl, .cons ha hr, ?_, ⟨h1, hs⟩, hrest⟩
          intro x hx
          rcases List.mem_cons.mp hx with rfl | hx
          · omega
          · exact hd x hx
        · rintro ⟨taken, h, hr, hd, hs, hrest⟩
          cases taken with
          | nil =>
              rw [List.nil_append] at h
              subst h
              have := hrest b rfl
              omega
          | cons t ts =>
              obtain ⟨rfl, rfl⟩ := List.cons.inj h
              cases hr with
              | cons ha hr =>
                  refine ⟨_, ha, _, _, (ih _ _).mpr ⟨ts, rfl, hr, fun x hx =>
                    hd x (List.mem_cons_of_mem _ hx), hs.2, hrest⟩, rfl, rfl⟩
      · constructor
        · intro h; cases h
        · rintro ⟨taken, h, hr, hd, hs, hrest⟩
          cases taken with
          | nil =>
              rw [List.nil_append] at h
              subst h
              have := hrest b rfl
              omega
          | cons t ts =>
              obtain ⟨rfl, rfl⟩ := List.cons.inj h
              exact absurd hs.1 h1

/-- Two lists related item by item are split alike. -/
theorem forall₂_append_right_iff {R : α → β → Prop} {l : List α} {bs bs' : List β} :
    List.Forall₂ R l (bs ++ bs') ↔
      ∃ as as', l = as ++ as' ∧ List.Forall₂ R as bs ∧ List.Forall₂ R as' bs' := by
  constructor
  · intro h
    exact ⟨_, _, (List.take_append_drop bs.length l).symm, List.forall₂_take_append l bs bs' h,
      List.forall₂_drop_append l bs bs' h⟩
  · rintro ⟨as, as', rfl, h, h'⟩
    exact List.rel_append h h'

/-! ### Places in a list -/

/-- The first element with a property is at one place. -/
theorem split_unique {p : α → Prop} {as as' bs bs' : List α} {x x' : α}
    (h : as ++ x :: bs = as' ++ x' :: bs') (ha : ∀ a ∈ as, ¬ p a) (hx : p x)
    (ha' : ∀ a ∈ as', ¬ p a) (hx' : p x') : as = as' ∧ x = x' ∧ bs = bs' := by
  induction as generalizing as' with
  | nil =>
      cases as' with
      | nil =>
          rw [List.nil_append, List.nil_append, List.cons.injEq] at h
          exact ⟨rfl, h⟩
      | cons a' as' =>
          obtain rfl := (List.cons.inj h).1
          exact absurd hx (ha' x List.mem_cons_self)
  | cons a as ih =>
      cases as' with
      | nil =>
          obtain rfl := (List.cons.inj h).1
          exact absurd hx' (ha a List.mem_cons_self)
      | cons a' as' =>
          rw [List.cons_append, List.cons_append, List.cons.injEq] at h
          obtain ⟨rfl, h⟩ := h
          obtain ⟨has, hbs⟩ := ih h (fun b hb => ha b (List.mem_cons_of_mem _ hb))
            fun b hb => ha' b (List.mem_cons_of_mem _ hb)
          exact ⟨congrArg _ has, hbs⟩

/-- The longest run of elements with a property ends at one place. -/
theorem span_unique {p : α → Prop} {as as' bs bs' : List α} (h : as ++ bs = as' ++ bs')
    (ha : ∀ a ∈ as, p a) (hb : ∀ b ∈ bs.head?, ¬ p b) (ha' : ∀ a ∈ as', p a)
    (hb' : ∀ b ∈ bs'.head?, ¬ p b) : as = as' ∧ bs = bs' := by
  induction as generalizing as' with
  | nil =>
      cases as' with
      | nil => exact ⟨rfl, h⟩
      | cons a' as' =>
          rw [List.nil_append, List.cons_append] at h
          rw [h] at hb
          exact absurd (ha' a' List.mem_cons_self) (hb a' rfl)
  | cons a as ih =>
      cases as' with
      | nil =>
          rw [List.nil_append, List.cons_append] at h
          rw [← h] at hb'
          exact absurd (ha a List.mem_cons_self) (hb' a rfl)
      | cons a' as' =>
          rw [List.cons_append, List.cons_append, List.cons.injEq] at h
          obtain ⟨rfl, h⟩ := h
          obtain ⟨has, hbs⟩ := ih h (fun b hb => ha b (List.mem_cons_of_mem _ hb))
            fun b hb => ha' b (List.mem_cons_of_mem _ hb)
          exact ⟨congrArg _ has, hbs⟩

end Outline
