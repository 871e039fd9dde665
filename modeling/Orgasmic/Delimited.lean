import Mathlib.Data.List.DropRight
import Mathlib.Data.List.Infix
import Mathlib.Tactic.Common

/-! # Records between delimiters

A list is read as a sequence of records, each ended by a delimiter.  There are two readings.

* `records` keeps the delimiters, and the last record may lack one.  Nothing is lost
  (`records_flatten`), and it commutes with concatenation at a *closed* list, one that is empty or
  ends with a delimiter (`records_append`).
* `pieces` is what stands between the delimiters, so a closed list has an empty last piece
  (`pieces_eq`).

A reader that sees only a window of the list drops the partial records at the window's edges:
`closedPart` in front, `afterFirst` behind.  `records_windows` says that what is left are records of
the whole list, a first part and a last part of them, in order. -/

namespace Delimited

variable {α : Type*} [DecidableEq α] (d : α)

/-- The list cut after each delimiter. -/
def records : List α → List (List α)
  | [] => []
  | a :: as =>
      if a = d then [a] :: records as
      else match records as with
        | [] => [[a]]
        | r :: rs => (a :: r) :: rs

/-- The parts between the delimiters. -/
def pieces : List α → List (List α)
  | [] => [[]]
  | a :: as =>
      if a = d then [] :: pieces as
      else match pieces as with
        | [] => [[a]]
        | p :: ps => (a :: p) :: ps

/-- A record without its delimiter. -/
def content (r : List α) : List α := if r.getLast? = some d then r.dropLast else r

/-- The record has its delimiter. -/
def Ended (r : List α) : Prop := r.getLast? = some d

/-- The list is empty or ends with a delimiter. -/
def Closed (as : List α) : Prop := as = [] ∨ as.getLast? = some d

instance (r : List α) : Decidable (Ended d r) := inferInstanceAs (Decidable (_ = _))

instance (as : List α) : Decidable (Closed d as) := inferInstanceAs (Decidable (_ ∨ _))

/-- The list up to its last delimiter. -/
def closedPart (as : List α) : List α := as.rdropWhile (· ≠ d)

/-- The list after its first delimiter. -/
def afterFirst (as : List α) : List α := (as.dropWhile (· ≠ d)).tail

omit [DecidableEq α] in
/-- A list is cut at its first delimiter in one way. -/
theorem first_cut {d : α} {p q as bs : List α} (hp : d ∉ p) (hq : d ∉ q)
    (h : p ++ d :: as = q ++ d :: bs) : p = q ∧ as = bs := by
  induction p generalizing q with
  | nil =>
      cases q with
      | nil => exact ⟨rfl, (List.cons.inj h).2⟩
      | cons b q => exact absurd ((List.cons.inj h).1 ▸ List.mem_cons_self) hq
  | cons a p ih =>
      cases q with
      | nil => exact absurd ((List.cons.inj h).1 ▸ List.mem_cons_self) hp
      | cons b q =>
          obtain ⟨rfl, tails⟩ := List.cons.inj h
          obtain ⟨rfl, same⟩ := ih (fun mem => hp (List.mem_cons_of_mem _ mem))
            (fun mem => hq (List.mem_cons_of_mem _ mem)) tails
          exact ⟨rfl, same⟩

/-! ### Records -/

theorem records_ne_nil {as : List α} (h : as ≠ []) : records d as ≠ [] := by
  cases as with
  | nil => exact absurd rfl h
  | cons a as =>
      simp only [records]
      split
      · exact List.cons_ne_nil _ _
      · split <;> exact List.cons_ne_nil _ _

theorem records_eq_nil_iff {as : List α} : records d as = [] ↔ as = [] :=
  ⟨fun h => by_contra fun hne => records_ne_nil d hne h, fun h => by rw [h, records]⟩

@[simp] theorem records_flatten (as : List α) : (records d as).flatten = as := by
  induction as with
  | nil => rfl
  | cons a as ih =>
      simp only [records]
      by_cases ha : a = d
      · rw [if_pos ha, List.flatten_cons, ih, List.singleton_append]
      · rw [if_neg ha]
        cases hr : records d as with
        | nil =>
            rw [records_eq_nil_iff] at hr
            simp [hr]
        | cons r rs =>
            rw [hr, List.flatten_cons] at ih
            simp only [List.flatten_cons, List.cons_append, ih]

theorem records_of_notMem {p : List α} (hp : d ∉ p) (hne : p ≠ []) : records d p = [p] := by
  induction p with
  | nil => exact absurd rfl hne
  | cons a p ih =>
      obtain ⟨ha, hp⟩ := not_or.mp (fun h => hp (List.mem_cons.mpr h))
      simp only [records, if_neg (Ne.symm ha)]
      cases p with
      | nil => rfl
      | cons b p => rw [ih hp (List.cons_ne_nil _ _)]

theorem ne_nil_of_mem_records {as r : List α} (h : r ∈ records d as) : r ≠ [] := by
  induction as generalizing r with
  | nil => cases h
  | cons a as ih =>
      simp only [records] at h
      split at h
      · rw [List.mem_cons] at h
        cases h with
        | inl h => rw [h]; exact List.cons_ne_nil _ _
        | inr h => exact ih h
      · split at h
        · rw [List.mem_singleton] at h
          rw [h]
          exact List.cons_ne_nil _ _
        · next s rs hr =>
            rw [List.mem_cons] at h
            cases h with
            | inl h => rw [h]; exact List.cons_ne_nil _ _
            | inr h => exact ih (by rw [hr]; exact List.mem_cons_of_mem _ h)

omit [DecidableEq α] in
theorem closed_snoc (as : List α) : Closed d (as ++ [d]) := .inr (by simp)

theorem content_cons (a : α) {r : List α} (h : r ≠ []) : content d (a :: r) = a :: content d r := by
  unfold content
  rw [List.getLast?_cons_of_ne_nil h, List.dropLast_cons_of_ne_nil h]
  split <;> rfl

/-- **At a closed list the records are cut apart.** -/
theorem records_append {as : List α} (h : Closed d as) (bs : List α) :
    records d (as ++ bs) = records d as ++ records d bs := by
  induction as with
  | nil => rfl
  | cons a as ih =>
      have htail : as ≠ [] → Closed d as := by
        intro hne
        cases h with
        | inl h => cases h
        | inr h => exact .inr (by rwa [List.getLast?_cons_of_ne_nil hne] at h)
      by_cases hne : as = []
      · subst hne
        obtain rfl : a = d := by
          cases h with
          | inl h => cases h
          | inr h => simpa using h
        simp [records]
      · have ih := ih (htail hne)
        simp only [List.cons_append, records, ih]
        by_cases ha : a = d
        · simp [ha]
        · simp only [if_neg ha]
          cases hr : records d as with
          | nil => exact absurd ((records_eq_nil_iff d).mp hr) hne
          | cons r rs => rfl

/-- Only the last record may lack its delimiter. -/
theorem ended_of_mem_dropLast {as r : List α} (h : r ∈ (records d as).dropLast) : Ended d r := by
  induction as generalizing r with
  | nil => cases h
  | cons a as ih =>
      simp only [records] at h
      by_cases ha : a = d
      · rw [if_pos ha] at h
        cases hr : records d as with
        | nil => rw [hr] at h; cases h
        | cons s rs =>
            rw [hr, List.dropLast_cons_cons, List.mem_cons] at h
            cases h with
            | inl h => rw [h, ha]; rfl
            | inr h => exact ih (by rw [hr]; exact h)
      · rw [if_neg ha] at h
        cases hr : records d as with
        | nil => rw [hr] at h; cases h
        | cons s rs =>
            simp only [hr] at h
            cases rs with
            | nil => cases h
            | cons t rs =>
                rw [List.dropLast_cons_cons, List.mem_cons] at h
                cases h with
                | inl h =>
                    subst h
                    have hs : Ended d s := ih (by rw [hr]; exact List.mem_cons_self)
                    have hne : s ≠ [] := by intro he; rw [he] at hs; cases hs
                    unfold Ended at hs ⊢
                    rwa [List.getLast?_cons_of_ne_nil hne]
                | inr h => exact ih (by rw [hr]; exact List.mem_cons_of_mem _ h)

theorem content_notMem {as r : List α} (h : r ∈ records d as) : d ∉ content d r := by
  induction as generalizing r with
  | nil => cases h
  | cons a as ih =>
      simp only [records] at h
      by_cases ha : a = d
      · rw [if_pos ha, List.mem_cons] at h
        cases h with
        | inl h => rw [h, ha]; simp [content]
        | inr h => exact ih h
      · rw [if_neg ha] at h
        cases hr : records d as with
        | nil =>
            simp only [hr, List.mem_singleton] at h
            rw [h]
            simp [content, ha, Ne.symm ha]
        | cons s rs =>
            simp only [hr, List.mem_cons] at h
            cases h with
            | inr h => exact ih (by rw [hr]; exact List.mem_cons_of_mem _ h)
            | inl h =>
                have hs : s ∈ records d as := by rw [hr]; exact List.mem_cons_self
                rw [h, content_cons d a (ne_nil_of_mem_records d hs), List.mem_cons, not_or]
                exact ⟨Ne.symm ha, ih hs⟩

/-! ### Pieces -/

/-- **The pieces are the contents of the records**, and an empty one after a closed list. -/
theorem pieces_eq (as : List α) :
    pieces d as = (records d as).map (content d) ++ if Closed d as then [[]] else [] := by
  induction as with
  | nil => simp [pieces, records, Closed]
  | cons a as ih =>
      by_cases hne : as = []
      · subst hne
        by_cases ha : a = d
        · simp [pieces, records, content, Closed, ha]
        · simp [pieces, records, content, Closed, ha]
      · have hclosed : Closed d (a :: as) ↔ Closed d as := by
          simp [Closed, List.getLast?_cons_of_ne_nil hne, hne]
        simp only [pieces, records, hclosed]
        by_cases ha : a = d
        · simp [ha, ih, content]
        · simp only [if_neg ha]
          cases hr : records d as with
          | nil => exact absurd ((records_eq_nil_iff d).mp hr) hne
          | cons r rs =>
              rw [hr, List.map_cons, List.cons_append] at ih
              have hs : r ≠ [] := ne_nil_of_mem_records d (by rw [hr]; exact List.mem_cons_self)
              rw [ih, List.map_cons, List.cons_append, content_cons d a hs]

/-! ### Windows -/

theorem closed_closedPart (as : List α) : Closed d (closedPart d as) := by
  by_cases h : closedPart d as = []
  · exact .inl h
  · refine .inr ?_
    have hlast := List.rdropWhile_last_not (· ≠ d) as h
    rw [List.getLast?_eq_some_getLast h]
    simpa [closedPart] using hlast

theorem afterFirst_eq_nil {as : List α} (h : d ∉ as) : afterFirst d as = [] := by
  have : as.dropWhile (· ≠ d) = [] := by
    rw [List.dropWhile_eq_nil_iff]
    intro a ha
    simpa using fun he : a = d => h (he ▸ ha)
  rw [afterFirst, this, List.tail_nil]

/-- A list with a delimiter ends with what is after the first one, behind a closed list. -/
theorem eq_append_afterFirst {as : List α} (h : d ∈ as) : ∃ p, as = p ++ [d] ++ afterFirst d as := by
  refine ⟨as.takeWhile (· ≠ d), ?_⟩
  have hdrop : as.dropWhile (· ≠ d) = d :: afterFirst d as := by
    have hne : as.dropWhile (· ≠ d) ≠ [] := by
      rw [Ne, List.dropWhile_eq_nil_iff]
      intro hall
      simpa using hall d h
    obtain ⟨b, bs, hb⟩ := List.exists_cons_of_ne_nil hne
    have hhead := List.head?_dropWhile_not (· ≠ d) as
    rw [hb] at hhead
    simp only [List.head?_cons, ne_eq, decide_not, Bool.not_eq_false', decide_eq_true_eq] at hhead
    rw [afterFirst, hb, List.tail_cons, hhead]
  have := List.takeWhile_append_dropWhile (p := (· ≠ d)) (l := as)
  rw [hdrop] at this
  rw [List.append_assoc, List.singleton_append, this]

/-- **Two windows show a first and a last part of the records.** -/
theorem records_windows (as : List α) {m n : ℕ} (h : m ≤ n) :
    ∃ gap, records d as = records d (closedPart d (as.take m)) ++ gap ++
      records d (afterFirst d (as.drop n)) := by
  obtain ⟨edge, hedge⟩ : ∃ edge, as.take m = closedPart d (as.take m) ++ edge :=
    ⟨_, (List.rdropWhile_append_rtakeWhile ..).symm⟩
  obtain ⟨mid, hmid⟩ : ∃ mid, as = closedPart d (as.take m) ++ (mid ++ as.drop n) := by
    refine ⟨edge ++ (as.drop m).take (n - m), ?_⟩
    have hdrop : as.drop m = (as.drop m).take (n - m) ++ as.drop n := by
      have := (List.take_append_drop (n - m) (as.drop m)).symm
      rwa [List.drop_drop, Nat.add_sub_cancel' h] at this
    rw [List.append_assoc edge, ← hdrop, ← List.append_assoc, ← hedge, List.take_append_drop]
  have hclosed := closed_closedPart d (as.take m)
  by_cases hd : d ∈ as.drop n
  · obtain ⟨p, hp⟩ := eq_append_afterFirst d hd
    refine ⟨records d (mid ++ (p ++ [d])), ?_⟩
    conv_lhs => rw [hmid, records_append d hclosed, hp, ← List.append_assoc mid,
      ← List.append_assoc mid, records_append d (closed_snoc d _)]
    simp only [List.append_assoc]
  · refine ⟨records d (mid ++ as.drop n), ?_⟩
    rw [afterFirst_eq_nil d hd, records, List.append_nil]
    conv_lhs => rw [hmid, records_append d hclosed]

end Delimited
