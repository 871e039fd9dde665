import Mathlib.Data.List.Basic
import Mathlib.Tactic.Common

/-! # The last element with a property

Lists that grow at the end and are searched from the end, as a log of generations is: a row of the
log changes the newest generation it matches.

* `lastIdx?` is the position of the last element with a property, `modifyLast` changes that
  element.
* `lastIdx?_append` and `lastIdx?_eq_some_iff` say which element that is.
* `AgreeOff i`: two lists that differ at most in position `i`; `AgreeOff.lastIdx?_eq` says when a
  search finds the same place in both. -/

namespace LastMatch

variable {α : Type*}

/-- The position of the last element with property `p`. -/
def lastIdx? (p : α → Bool) : List α → Option ℕ
  | [] => none
  | a :: as =>
      match lastIdx? p as with
      | some i => some (i + 1)
      | none => if p a then some 0 else none

/-- Change the last element with property `p`. -/
def modifyLast (p : α → Bool) (f : α → α) (l : List α) : List α :=
  match lastIdx? p l with
  | some i => l.modify i f
  | none => l

theorem lastIdx?_eq_none_iff {p : α → Bool} {l : List α} :
    lastIdx? p l = none ↔ ∀ a ∈ l, p a = false := by
  induction l with
  | nil => simp [lastIdx?]
  | cons a as ih =>
      unfold lastIdx?
      cases h : lastIdx? p as with
      | some i =>
          rw [h] at ih
          simp only [reduceCtorEq, false_iff] at ih ⊢
          exact fun h' => ih fun b hb => h' b (List.mem_cons_of_mem _ hb)
      | none =>
          have has := ih.mp h
          cases hp : p a with
          | true => simp [hp]
          | false => simpa [hp] using has

theorem lastIdx?_append (p : α → Bool) (as bs : List α) :
    lastIdx? p (as ++ bs) = ((lastIdx? p bs).map (as.length + ·)).or (lastIdx? p as) := by
  induction as with
  | nil => cases h : lastIdx? p bs <;> simp [lastIdx?, h]
  | cons a as ih =>
      rw [List.cons_append, lastIdx?, ih, lastIdx?]
      cases lastIdx? p bs with
      | some i =>
          simp only [Option.map_some, Option.some_or, List.length_cons, Option.some.injEq]
          omega
      | none => simp

/-- The last match, by what is before it and after it. -/
theorem lastIdx?_eq_some_iff {p : α → Bool} {l : List α} {i : ℕ} :
    lastIdx? p l = some i ↔
      ∃ as a bs, l = as ++ a :: bs ∧ as.length = i ∧ p a = true ∧ ∀ b ∈ bs, p b = false := by
  constructor
  · intro h
    induction l generalizing i with
    | nil => cases h
    | cons a as ih =>
        unfold lastIdx? at h
        cases has : lastIdx? p as with
        | some j =>
            rw [has, Option.some.injEq] at h
            obtain ⟨xs, x, ys, rfl, hlen, hx⟩ := ih has
            exact ⟨a :: xs, x, ys, rfl, by rw [List.length_cons, hlen, h], hx⟩
        | none =>
            rw [has] at h
            cases hp : p a with
            | false => simp [hp] at h
            | true =>
                simp only [hp, if_true, Option.some.injEq] at h
                exact ⟨[], a, as, rfl, h, hp, lastIdx?_eq_none_iff.mp has⟩
  · rintro ⟨as, a, bs, rfl, rfl, ha, hbs⟩
    rw [lastIdx?_append, lastIdx?, lastIdx?_eq_none_iff.mpr hbs]
    simp [ha]

theorem lastIdx?_lt {p : α → Bool} {l : List α} {i : ℕ} (h : lastIdx? p l = some i) :
    i < l.length := by
  obtain ⟨as, a, bs, rfl, rfl, -⟩ := lastIdx?_eq_some_iff.mp h
  simp

theorem lastIdx?_getElem? {p : α → Bool} {l : List α} {i : ℕ} (h : lastIdx? p l = some i) :
    ∃ a, l[i]? = some a ∧ p a = true := by
  obtain ⟨as, a, bs, rfl, rfl, ha, -⟩ := lastIdx?_eq_some_iff.mp h
  exact ⟨a, by simp, ha⟩

theorem lastIdx?_isSome {p : α → Bool} {l : List α} {a : α} (ha : a ∈ l) (hp : p a = true) :
    ∃ i, lastIdx? p l = some i := by
  cases h : lastIdx? p l with
  | some i => exact ⟨i, rfl⟩
  | none =>
      rw [lastIdx?_eq_none_iff.mp h a ha] at hp
      cases hp

/-- The last match, by its position. -/
theorem lastIdx?_eq_some_iff_getElem? {p : α → Bool} {l : List α} {i : ℕ} :
    lastIdx? p l = some i ↔
      (∃ a, l[i]? = some a ∧ p a = true) ∧ ∀ j a, i < j → l[j]? = some a → p a = false := by
  constructor
  · intro h
    refine ⟨lastIdx?_getElem? h, fun j b hj hb => ?_⟩
    obtain ⟨as, a, bs, rfl, rfl, -, hbs⟩ := lastIdx?_eq_some_iff.mp h
    obtain ⟨k, rfl⟩ : ∃ k, j = as.length + (k + 1) := ⟨j - as.length - 1, by omega⟩
    rw [List.getElem?_append_right (by omega), Nat.add_sub_cancel_left,
      List.getElem?_cons_succ] at hb
    exact hbs b (List.mem_of_getElem? hb)
  · rintro ⟨⟨a, ha, hp⟩, hlater⟩
    obtain ⟨k, hk⟩ := lastIdx?_isSome (List.mem_of_getElem? ha) hp
    obtain ⟨b, hb, hpb⟩ := lastIdx?_getElem? hk
    obtain hlt | rfl | hgt := Nat.lt_trichotomy i k
    · rw [hlater k b hlt hb] at hpb
      cases hpb
    · exact hk
    · obtain ⟨as, c, bs, rfl, rfl, -, hbs⟩ := lastIdx?_eq_some_iff.mp hk
      obtain ⟨j, rfl⟩ : ∃ j, i = as.length + (j + 1) := ⟨i - as.length - 1, by omega⟩
      rw [List.getElem?_append_right (by omega), Nat.add_sub_cancel_left,
        List.getElem?_cons_succ] at ha
      rw [hbs a (List.mem_of_getElem? ha)] at hp
      cases hp

/-- A search by what `f` gives. -/
theorem lastIdx?_map {β : Type*} (f : α → β) (p : β → Bool) (l : List α) :
    lastIdx? p (l.map f) = lastIdx? (fun a => p (f a)) l := by
  induction l with
  | nil => rfl
  | cons a as ih => rw [List.map_cons, lastIdx?, lastIdx?, ih]

/-! ### An element at the end -/

theorem lastIdx?_concat (p : α → Bool) (l : List α) (a : α) :
    lastIdx? p (l ++ [a]) = if p a then some l.length else lastIdx? p l := by
  rw [lastIdx?_append]
  cases h : p a <;> simp [lastIdx?, h]

theorem modify_concat_lt {l : List α} {i : ℕ} (h : i < l.length) (f : α → α) (a : α) :
    (l ++ [a]).modify i f = l.modify i f ++ [a] := by
  induction l generalizing i with
  | nil => simp at h
  | cons b l ih =>
      cases i with
      | zero => rfl
      | succ i =>
          rw [List.cons_append, List.modify_succ_cons, List.modify_succ_cons, List.cons_append,
            ih (by simpa using h)]

theorem modify_middle (as bs : List α) (f : α → α) (a : α) :
    (as ++ a :: bs).modify as.length f = as ++ f a :: bs := by
  induction as with
  | nil => rfl
  | cons b as ih => rw [List.cons_append, List.length_cons, List.modify_succ_cons, ih]; rfl

/-- A change that keeps what `g` gives. -/
theorem map_modify_of_eq {β : Type*} (g : α → β) {f : α → α} (h : ∀ a, g (f a) = g a) (l : List α)
    (i : ℕ) : (l.modify i f).map g = l.map g := by
  induction l generalizing i with
  | nil => simp
  | cons a l ih => cases i <;> simp [h, ih]

theorem forall_mem_modify {P : α → Prop} {f : α → α} {l : List α}
    (hf : ∀ a ∈ l, P a → P (f a)) (h : ∀ a ∈ l, P a) (i : ℕ) : ∀ a ∈ l.modify i f, P a := by
  intro a ha
  obtain ⟨j, hj⟩ := List.mem_iff_getElem?.mp ha
  rw [List.getElem?_modify] at hj
  obtain ⟨b, hb, rfl⟩ := Option.map_eq_some_iff.mp hj
  have hmem := List.mem_of_getElem? hb
  split_ifs
  · exact hf b hmem (h b hmem)
  · exact h b hmem

theorem map_modifyLast_of_eq {β : Type*} (g : α → β) (p : α → Bool) {f : α → α}
    (h : ∀ a, g (f a) = g a) (l : List α) : (modifyLast p f l).map g = l.map g := by
  unfold modifyLast
  cases lastIdx? p l with
  | some i => exact map_modify_of_eq g h l i
  | none => rfl

/-! ### Lists that differ in one place -/

/-- The lists differ at most in position `i`. -/
def AgreeOff (i : ℕ) (l l' : List α) : Prop :=
  l.length = l'.length ∧ ∀ j, j ≠ i → l[j]? = l'[j]?

/-- A change in one place keeps lists alike elsewhere. -/
theorem AgreeOff.modify {l l' : List α} {i : ℕ} (h : AgreeOff i l l') (j : ℕ) (f : α → α) :
    AgreeOff i (l.modify j f) (l'.modify j f) := by
  refine ⟨by simpa using h.1, fun k hk => ?_⟩
  rw [List.getElem?_modify, List.getElem?_modify, h.2 k hk]

end LastMatch
