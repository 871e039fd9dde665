import Mathlib.Data.List.Basic
import Mathlib.Tactic.Common

/-! # Cutting a list at a pattern

`cutAt` finds the first occurrence of a pattern.  A list in which some occurrences of the pattern
are marked is a list of `Option`s, with `none` for an occurrence; `restore` puts a list in the place
of every mark.

`marks_unique`: what the list is with the pattern at the marks, and what it is with another element
there, decides where the marks are. -/

namespace Pattern

variable {α : Type*}

section cut
variable [DecidableEq α]

/-- The elements before and after the first occurrence of the pattern. -/
def cutAt (pattern : List α) : List α → Option (List α × List α)
  | [] => if pattern = [] then some ([], []) else none
  | a :: as =>
      if pattern.isPrefixOf (a :: as) then some ([], (a :: as).drop pattern.length)
      else (cutAt pattern as).map fun p => (a :: p.1, p.2)

theorem isPrefixOf_iff {pattern as : List α} :
    pattern.isPrefixOf as = true ↔ ∃ rest, as = pattern ++ rest := by
  rw [List.isPrefixOf_iff_prefix]
  exact ⟨fun ⟨rest, h⟩ => ⟨rest, h.symm⟩, fun ⟨rest, h⟩ => ⟨rest, h.symm⟩⟩

/-- **The first occurrence**: the list is cut there, and no occurrence is further to the left. -/
theorem cutAt_eq_some_iff {pattern as before after : List α} :
    cutAt pattern as = some (before, after) ↔ as = before ++ (pattern ++ after) ∧
      ∀ b r, as = b ++ (pattern ++ r) → before.length ≤ b.length := by
  induction as generalizing before with
  | nil =>
      rw [cutAt]
      split_ifs with hnil
      · subst hnil
        constructor
        · intro h
          simp only [Option.some.injEq, Prod.mk.injEq] at h
          obtain ⟨rfl, rfl⟩ := h
          exact ⟨rfl, by simp⟩
        · rintro ⟨h, -⟩
          obtain ⟨rfl, h⟩ := List.append_eq_nil_iff.mp h.symm
          rw [List.nil_append, List.nil_append] at h
          rw [← h]
      · refine ⟨nofun, fun ⟨h, _⟩ => ?_⟩
        obtain ⟨-, h⟩ := List.append_eq_nil_iff.mp h.symm
        exact absurd (List.append_eq_nil_iff.mp h).1 hnil
  | cons a as ih =>
      rw [cutAt]
      split_ifs with hprefix
      · obtain ⟨rest, hrest⟩ := isPrefixOf_iff.mp hprefix
        rw [hrest, List.drop_left]
        constructor
        · intro h
          simp only [Option.some.injEq, Prod.mk.injEq] at h
          obtain ⟨rfl, rfl⟩ := h
          exact ⟨rfl, fun _ _ _ => Nat.zero_le _⟩
        · rintro ⟨h, hleast⟩
          have hzero := hleast [] rest rfl
          obtain rfl := List.length_eq_zero_iff.mp (Nat.le_zero.mp hzero)
          rw [List.append_cancel_left h]
      · constructor
        · intro h
          obtain ⟨⟨b, r⟩, hcut, h⟩ := Option.map_eq_some_iff.mp h
          simp only [Prod.mk.injEq] at h
          obtain ⟨rfl, rfl⟩ := h
          obtain ⟨hsplit, hleast⟩ := ih.mp hcut
          refine ⟨by rw [hsplit]; rfl, fun b' r' h' => ?_⟩
          cases b' with
          | nil => exact absurd (isPrefixOf_iff.mpr ⟨r', h'⟩) hprefix
          | cons c b' =>
              have := hleast b' r' (List.cons.inj h').2
              simpa using this
        · rintro ⟨h, hleast⟩
          cases before with
          | nil => exact absurd (isPrefixOf_iff.mpr ⟨after, h⟩) hprefix
          | cons c before =>
              obtain ⟨rfl, htail⟩ := List.cons.inj h
              rw [ih.mpr ⟨htail, fun b r hb => ?_⟩]
              · rfl
              · have := hleast (a :: b) r (by rw [hb]; rfl)
                simpa using this

end cut

/-! ### Marked occurrences -/

/-- The list with `token` at every mark. -/
def restore (token : List α) (ps : List (Option α)) : List α :=
  ps.flatMap fun p => (p.map fun a => [a]).getD token

@[simp] theorem restore_nil (token : List α) : restore token [] = [] := rfl

@[simp] theorem restore_none (token : List α) (ps : List (Option α)) :
    restore token (none :: ps) = token ++ restore token ps := rfl

@[simp] theorem restore_some (token : List α) (a : α) (ps : List (Option α)) :
    restore token (some a :: ps) = a :: restore token ps := rfl

@[simp] theorem restore_append (token : List α) (ps qs : List (Option α)) :
    restore token (ps ++ qs) = restore token ps ++ restore token qs := by simp [restore]

@[simp] theorem restore_map_some (token as : List α) : restore token (as.map some) = as := by
  induction as with
  | nil => rfl
  | cons a as ih => rw [List.map_cons, restore_some, ih]

/-- A mark stands behind these elements. -/
def MarkedAt (token : List α) (ps : List (Option α)) (before : List α) : Prop :=
  ∃ qs rs, ps = qs ++ none :: rs ∧ restore token qs = before

theorem markedAt_iff {token : List α} {ps : List (Option α)} {before : List α} :
    MarkedAt token ps before ↔
      ∃ i < ps.length, ps[i]? = some none ∧ restore token (ps.take i) = before := by
  constructor
  · rintro ⟨qs, rs, rfl, rfl⟩
    exact ⟨qs.length, by simp, by simp, by simp⟩
  · rintro ⟨i, hi, hnone, rfl⟩
    refine ⟨ps.take i, ps.drop (i + 1), ?_, rfl⟩
    rw [List.getElem?_eq_getElem hi, Option.some.injEq] at hnone
    rw [← hnone, List.getElem_cons_drop, List.take_append_drop]

instance [DecidableEq α] (token : List α) (ps : List (Option α)) (before : List α) :
    Decidable (MarkedAt token ps before) := decidable_of_iff _ markedAt_iff.symm

theorem markedAt_nil (token before : List α) : ¬MarkedAt token [] before := by
  rintro ⟨qs, rs, h, -⟩
  simp at h

/-- The marks of two lists, one behind the other. -/
theorem markedAt_append {token : List α} {ps ps' : List (Option α)} {before : List α} :
    MarkedAt token (ps ++ ps') before ↔ MarkedAt token ps before ∨
      ∃ b, MarkedAt token ps' b ∧ before = restore token ps ++ b := by
  constructor
  · rintro ⟨qs, rs, h, rfl⟩
    rcases List.append_eq_append_iff.mp h with ⟨us, rfl, hus⟩ | ⟨us, rfl, hus⟩
    · exact .inr ⟨_, ⟨us, rs, hus, rfl⟩, restore_append token ps us⟩
    · cases us with
      | nil => exact .inr ⟨[], ⟨[], rs, by simpa using hus.symm, rfl⟩, by simp⟩
      | cons u us =>
          rw [List.cons_append, List.cons.injEq] at hus
          obtain ⟨rfl, -⟩ := hus
          exact .inl ⟨qs, us, rfl, rfl⟩
  · rintro (⟨qs, rs, rfl, rfl⟩ | ⟨b, ⟨qs, rs, rfl, rfl⟩, rfl⟩)
    · exact ⟨qs, rs ++ ps', by simp, rfl⟩
    · exact ⟨ps ++ qs, rs, by simp, restore_append token ps qs⟩

theorem not_markedAt_of_no_mark {token : List α} {ps : List (Option α)} (h : none ∉ ps)
    (before : List α) : ¬MarkedAt token ps before := by
  rintro ⟨qs, rs, rfl, -⟩
  exact h (by simp)

/-- A marked list has a mark somewhere. -/
theorem exists_markedAt {ps : List (Option α)} (token : List α) (h : none ∈ ps) :
    ∃ before, MarkedAt token ps before := by
  obtain ⟨qs, rs, rfl⟩ := List.append_of_mem h
  exact ⟨_, qs, rs, rfl, rfl⟩

@[simp] theorem none_notMem_map_some (as : List α) : none ∉ as.map some := by simp

/-- A mark is behind the elements that are none. -/
theorem eq_append_of_map_some {as : List α} {ps qs rs : List (Option α)}
    (h : as.map some ++ ps = qs ++ none :: rs) :
    ∃ qs', qs = as.map some ++ qs' ∧ ps = qs' ++ none :: rs := by
  induction as generalizing qs with
  | nil => exact ⟨qs, rfl, h⟩
  | cons a as ih =>
      rw [List.map_cons, List.cons_append] at h
      cases qs with
      | nil => simp at h
      | cons q qs =>
          rw [List.cons_append, List.cons.injEq] at h
          obtain ⟨rfl, h⟩ := h
          obtain ⟨qs', rfl, hps⟩ := ih h
          exact ⟨qs', rfl, hps⟩

/-- Without marks the token does not matter. -/
theorem restore_of_no_mark {ps : List (Option α)} (h : none ∉ ps) (token token' : List α) :
    restore token ps = restore token' ps := by
  induction ps with
  | nil => rfl
  | cons p ps ih =>
      rw [List.mem_cons, not_or] at h
      cases p with
      | none => exact absurd rfl h.1
      | some a => rw [restore_some, restore_some, ih h.2]

/-- **The marks are unique**, if the pattern does not begin with the other element. -/
theorem marks_unique {a d : α} {as : List α} (hne : a ≠ d) {ps qs : List (Option α)}
    (h : restore (a :: as) ps = restore (a :: as) qs) (h' : restore [d] ps = restore [d] qs) :
    ps = qs := by
  induction ps generalizing qs with
  | nil =>
      cases qs with
      | nil => rfl
      | cons q qs => cases q <;> simp at h
  | cons p ps ih =>
      cases qs with
      | nil => cases p <;> simp at h
      | cons q qs =>
          cases p with
          | none =>
              cases q with
              | none =>
                  rw [restore_none, restore_none] at h h'
                  rw [ih (List.append_cancel_left h) (List.append_cancel_left h')]
              | some b =>
                  rw [restore_none, restore_some, List.cons_append, List.cons.injEq] at h
                  rw [restore_none, restore_some, List.cons_append, List.cons.injEq] at h'
                  exact absurd (h.1.trans h'.1.symm) hne
          | some b =>
              cases q with
              | none =>
                  rw [restore_none, restore_some, List.cons_append, List.cons.injEq] at h
                  rw [restore_none, restore_some, List.cons_append, List.cons.injEq] at h'
                  exact absurd (h.1.symm.trans h'.1) hne
              | some c =>
                  rw [restore_some, restore_some, List.cons.injEq] at h h'
                  rw [h.1, ih h.2 h'.2]

end Pattern
