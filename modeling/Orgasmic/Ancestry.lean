import Mathlib.Data.List.Basic
import Mathlib.Data.List.Chain
import Mathlib.Data.List.Nodup
import Mathlib.Data.List.Perm.Subperm
import Mathlib.Logic.Relation

/-! # Following a pointer upward

Every element has at most one element above it (`up`).  The elements need not be finite in number;
what is finite is the list of elements that are above another one.

* **Climbing** (`climb`).  From an element to its root, within a number of steps.  Whoever climbs
  to a root is on no cycle and below none (`not_cyclic_of_climb`); a climb that is not over after
  `n` steps has passed `n` elements (`exists_path_of_climb_none`), so without cycles it ends after
  at most as many steps as there are elements above others (`exists_climb`).
* **Searching for a cycle** (`repeated`).  The climb that remembers what it has passed.  It ends
  within the same number of steps, cycles or not (`repeated_ends`), and it finds a repetition only
  where there is a cycle (`cyclic_of_repeated`). -/

namespace Ancestry

open Relation

variable {α : Type*} (up : α → Option α)

/-- `b` is the element above `a`. -/
def Points (a b : α) : Prop := up a = some b

/-- No element is above itself, through any number of others. -/
def Acyclic : Prop := ∀ a, ¬ TransGen (Points up) a a

/-- The elements above `a`, nearest first; `none` if the root is not reached in the given number of
steps. -/
def climb : ℕ → α → Option (List α)
  | 0, _ => none
  | n + 1, a =>
      match up a with
      | none => some []
      | some b => (climb n b).map (b :: ·)

variable {up}

/-! ### Climbing -/

theorem climb_root {n : ℕ} {a : α} (h : up a = none) : climb up (n + 1) a = some [] := by
  simp only [climb, h]

theorem climb_step {n : ℕ} {a b : α} (h : up a = some b) :
    climb up (n + 1) a = (climb up n b).map (b :: ·) := by
  simp only [climb, h]

theorem climb_mono {n m : ℕ} {a : α} {above : List α} (le : n ≤ m)
    (h : climb up n a = some above) : climb up m a = some above := by
  induction n generalizing m a above with
  | zero => cases h
  | succ n ih =>
      obtain ⟨m, rfl⟩ : ∃ k, m = k + 1 := ⟨m - 1, by omega⟩
      cases at_a : up a with
      | none =>
          rw [climb_root at_a] at h ⊢
          exact h
      | some b =>
          rw [climb_step at_a] at h ⊢
          obtain ⟨rest, hrest, rfl⟩ := Option.map_eq_some_iff.mp h
          rw [ih (by omega) hrest]
          rfl

/-- A climb goes from one element to the one above it and ends at a root. -/
theorem isChain_of_climb {n : ℕ} {a : α} {above : List α} (h : climb up n a = some above) :
    List.IsChain (Points up) (a :: above) ∧ up (above.getLastD a) = none := by
  induction n generalizing a above with
  | zero => cases h
  | succ n ih =>
      cases at_a : up a with
      | none =>
          rw [climb_root at_a] at h
          obtain rfl := Option.some.inj h
          exact ⟨.singleton a, at_a⟩
      | some b =>
          rw [climb_step at_a] at h
          obtain ⟨rest, hrest, rfl⟩ := Option.map_eq_some_iff.mp h
          obtain ⟨chain, root⟩ := ih hrest
          exact ⟨chain.cons_cons at_a, by rwa [List.getLastD_cons]⟩

/-- What is above an element has a shorter climb. -/
theorem climb_above {n : ℕ} {a b : α} {above : List α} (h : climb up n a = some above)
    (ab : TransGen (Points up) a b) :
    ∃ rest, climb up n b = some rest ∧ rest.length < above.length := by
  have step : ∀ {a b above}, climb up n a = some above → Points up a b →
      ∃ rest, climb up n b = some rest ∧ rest.length < above.length := by
    intro a b above h ab
    obtain ⟨n, rfl⟩ : ∃ k, n = k + 1 := by
      cases n with
      | zero => cases h
      | succ k => exact ⟨k, rfl⟩
    rw [climb_step ab] at h
    obtain ⟨rest, hrest, rfl⟩ := Option.map_eq_some_iff.mp h
    exact ⟨rest, climb_mono (Nat.le_succ n) hrest, Nat.lt_succ_self _⟩
  induction ab with
  | single ab => exact step h ab
  | tail _ bc ih =>
      obtain ⟨rest, hrest, short⟩ := ih
      obtain ⟨rest', hrest', short'⟩ := step hrest bc
      exact ⟨rest', hrest', short'.trans short⟩

theorem not_cyclic_of_climb {n : ℕ} {a : α} {above : List α} (h : climb up n a = some above) :
    ¬ TransGen (Points up) a a := by
  intro cycle
  obtain ⟨rest, hrest, short⟩ := climb_above h cycle
  rw [h] at hrest
  obtain rfl := Option.some.inj hrest
  exact short.false

theorem nodup_of_isChain (acyclic : Acyclic up) {path : List α}
    (chain : List.IsChain (Points up) path) : path.Nodup := by
  have pairs : path.Pairwise (TransGen (Points up)) :=
    List.isChain_iff_pairwise.mp (chain.imp fun _ _ => TransGen.single)
  refine pairs.imp ?_
  rintro a b ab rfl
  exact acyclic a ab

/-- Nobody is met twice on the way to a root. -/
theorem nodup_of_climb {n : ℕ} {a : α} {above : List α} (h : climb up n a = some above) :
    (a :: above).Nodup := by
  induction n generalizing a above with
  | zero => cases h
  | succ n ih =>
      cases at_a : up a with
      | none =>
          rw [climb_root at_a] at h
          obtain rfl := Option.some.inj h
          exact List.nodup_singleton a
      | some b =>
          refine List.nodup_cons.mpr ⟨fun mem => ?_, ?_⟩
          · have pairs : (a :: above).Pairwise (TransGen (Points up)) :=
              List.isChain_iff_pairwise.mp ((isChain_of_climb h).1.imp fun _ _ => TransGen.single)
            exact not_cyclic_of_climb h (List.rel_of_pairwise_cons pairs mem)
          · rw [climb_step at_a] at h
            obtain ⟨rest, hrest, rfl⟩ := Option.map_eq_some_iff.mp h
            exact ih hrest

theorem exists_path_of_climb_none {n : ℕ} {a : α} (h : climb up n a = none) :
    ∃ path : List α, path.length = n ∧ List.IsChain (Points up) (a :: path) := by
  induction n generalizing a with
  | zero => exact ⟨[], rfl, .singleton a⟩
  | succ n ih =>
      cases at_a : up a with
      | none =>
          rw [climb_root at_a] at h
          cases h
      | some b =>
          rw [climb_step at_a, Option.map_eq_none_iff] at h
          obtain ⟨path, long, chain⟩ := ih h
          exact ⟨b :: path, by rw [List.length_cons, long], chain.cons_cons at_a⟩

theorem subset_of_isChain {targets : List α} (closed : ∀ a b, up a = some b → b ∈ targets) {a : α}
    {path : List α} (chain : List.IsChain (Points up) (a :: path)) : path ⊆ targets := by
  induction path generalizing a with
  | nil => exact List.nil_subset _
  | cons b path ih =>
      obtain ⟨ab, rest⟩ := List.isChain_cons_cons.mp chain
      exact List.cons_subset.mpr ⟨closed a b ab, ih rest⟩

/-- Without cycles a climb takes no more steps than there are elements above others. -/
theorem exists_climb (acyclic : Acyclic up) {targets : List α}
    (closed : ∀ a b, up a = some b → b ∈ targets) {n : ℕ} (enough : targets.length < n) (a : α) :
    ∃ above, climb up n a = some above := by
  cases h : climb up n a with
  | some above => exact ⟨above, rfl⟩
  | none =>
      obtain ⟨path, long, chain⟩ := exists_path_of_climb_none h
      have apart : path.Nodup := (List.nodup_cons.mp (nodup_of_isChain acyclic chain)).2
      have few := (List.subperm_of_subset apart (subset_of_isChain closed chain)).length_le
      omega

/-- A climb that goes on for more steps than there are elements above others leads to a cycle. -/
theorem exists_cycle {targets : List α} (closed : ∀ a b, up a = some b → b ∈ targets) {n : ℕ}
    (enough : targets.length < n) {a : α} (h : climb up n a = none) :
    ∃ b, TransGen (Points up) a b ∧ TransGen (Points up) b b := by
  obtain ⟨path, long, chain⟩ := exists_path_of_climb_none h
  have pairs : (a :: path).Pairwise (TransGen (Points up)) :=
    List.isChain_iff_pairwise.mp (chain.imp fun _ _ => TransGen.single)
  have twice : ¬ path.Nodup := by
    intro apart
    have few := (List.subperm_of_subset apart (subset_of_isChain closed chain)).length_le
    omega
  rw [List.nodup_iff_sublist, not_forall] at twice
  obtain ⟨b, hb⟩ := twice
  have two : [b, b].Sublist path := not_not.mp hb
  refine ⟨b, List.rel_of_pairwise_cons pairs (two.subset List.mem_cons_self), ?_⟩
  exact List.rel_of_pairwise_cons ((List.Pairwise.of_cons pairs).sublist two)
    (List.mem_singleton_self b)

/-- A climb is a way to a root. -/
theorem reaches_of_climb {n : ℕ} {a : α} {above : List α} (h : climb up n a = some above) :
    ∃ root, ReflTransGen (Points up) a root ∧ up root = none := by
  induction n generalizing a above with
  | zero => cases h
  | succ n ih =>
      cases at_a : up a with
      | none => exact ⟨a, .refl, at_a⟩
      | some b =>
          rw [climb_step at_a] at h
          obtain ⟨rest, hrest, -⟩ := Option.map_eq_some_iff.mp h
          obtain ⟨root, way, top⟩ := ih hrest
          exact ⟨root, .head at_a way, top⟩

/-- A way to a root is a climb. -/
theorem climb_of_reaches {a root : α} (way : ReflTransGen (Points up) a root)
    (top : up root = none) : ∃ n above, climb up n a = some above := by
  induction way using ReflTransGen.head_induction_on with
  | refl => exact ⟨1, [], climb_root top⟩
  | @head a b first _ ih =>
      obtain ⟨n, above, climbed⟩ := ih
      refine ⟨n + 1, b :: above, ?_⟩
      rw [climb_step first, climbed]
      rfl

/-! ### Searching for a cycle -/

variable [DecidableEq α]

variable (up) in
/-- Climb from `current` and stop at the first element that was passed before: `some (some trail)`
is the trail up to and including it, `some none` means that a root came first and `none` that the
steps ran out. -/
def repeated : ℕ → List α → List α → α → Option (Option (List α))
  | 0, _, _, _ => none
  | n + 1, seen, trail, current =>
      match up current with
      | none => some none
      | some above =>
          if above ∈ seen then some (some (trail ++ [above]))
          else repeated n (above :: seen) (trail ++ [above]) above

theorem repeated_step {n : ℕ} {seen trail : List α} {a b : α} (h : up a = some b)
    (new : b ∉ seen) :
    repeated up (n + 1) seen trail a = repeated up n (b :: seen) (trail ++ [b]) b := by
  simp only [repeated, h, if_neg new]

theorem climb_of_repeated {n : ℕ} {seen trail : List α} {a : α}
    (h : repeated up n seen trail a = some none) : ∃ above, climb up n a = some above := by
  induction n generalizing seen trail a with
  | zero => cases h
  | succ n ih =>
      cases at_a : up a with
      | none => exact ⟨[], climb_root at_a⟩
      | some b =>
          by_cases old : b ∈ seen
          · simp only [repeated, at_a, if_pos old] at h
            cases h
          · rw [repeated_step at_a old] at h
            obtain ⟨above, habove⟩ := ih h
            exact ⟨b :: above, by rw [climb_step at_a, habove]; rfl⟩

theorem cyclic_of_repeated {n : ℕ} {seen trail cycle : List α} {a : α}
    (behind : ∀ b ∈ seen, ReflTransGen (Points up) b a)
    (h : repeated up n seen trail a = some (some cycle)) :
    ∃ b, TransGen (Points up) b b := by
  induction n generalizing seen trail a with
  | zero => cases h
  | succ n ih =>
      cases at_a : up a with
      | none =>
          simp only [repeated, at_a] at h
          cases h
      | some b =>
          by_cases old : b ∈ seen
          · exact ⟨b, TransGen.tail' (behind b old) at_a⟩
          · rw [repeated_step at_a old] at h
            refine ih ?_ h
            intro c hc
            obtain rfl | hc := List.mem_cons.mp hc
            · exact .refl
            · exact (behind c hc).tail at_a

/-- The search ends once every element that is above another one has been passed. -/
theorem repeated_ends {targets : List α} (closed : ∀ a b, up a = some b → b ∈ targets) {n : ℕ}
    {seen : List α} (apart : seen.Nodup) (known : seen ⊆ targets)
    (enough : targets.length < n + seen.length) (trail : List α) (a : α) :
    repeated up n seen trail a ≠ none := by
  induction n generalizing seen trail a with
  | zero =>
      have few := (List.subperm_of_subset apart known).length_le
      omega
  | succ n ih =>
      cases at_a : up a with
      | none => simp only [repeated, at_a, ne_eq, reduceCtorEq, not_false_eq_true]
      | some b =>
          by_cases old : b ∈ seen
          · simp only [repeated, at_a, if_pos old, ne_eq, reduceCtorEq, not_false_eq_true]
          · rw [repeated_step at_a old]
            refine ih (List.nodup_cons.mpr ⟨old, apart⟩)
              (List.cons_subset.mpr ⟨closed a b at_a, known⟩) ?_ _ b
            rw [List.length_cons]
            omega

/-- Without cycles the search comes to a root. -/
theorem repeated_eq_none (acyclic : Acyclic up) {targets : List α}
    (closed : ∀ a b, up a = some b → b ∈ targets) {n : ℕ} (enough : targets.length < n)
    (trail : List α) (a : α) : repeated up n [] trail a = some none := by
  have ends := repeated_ends closed (.nil : ([] : List α).Nodup) (List.nil_subset _)
    (by simpa using enough) trail a
  obtain ⟨found, hfound⟩ := Option.ne_none_iff_exists'.mp ends
  cases found with
  | none => exact hfound
  | some cycle =>
      obtain ⟨b, hb⟩ := cyclic_of_repeated (fun _ h => absurd h List.not_mem_nil) hfound
      exact absurd hb (acyclic b)

end Ancestry
