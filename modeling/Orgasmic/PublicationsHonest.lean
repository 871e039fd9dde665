import Orgasmic.Publications
import Mathlib.Data.List.Basic

/-! # Whether an unprojected write is noticed

* `Accounted`, in every run: a committed path that was not applied since is queued, or a call still
  has it before it.  Where no call is in progress it is queued.
* `Owned`: a write that has returned has its failure on record, or all its paths are applied.  A
  repair that clears the failures breaks this for a write that failed after the repair took the
  queue; it holds in the runs where that does not happen (`Mends`). -/

namespace Orgasmic

open Text Interleaving

/-- The call will still apply the path after commit `n`, or queue it. -/
def CallPhase.due (phase : CallPhase) (path : FilePath) (n : ℕ) : Prop :=
  match phase with
  | .pending rest => path ∈ rest
  | .applying current rest since => (path = current ∧ n ≤ since) ∨ path ∈ rest
  | .failed _ paths => path ∈ paths
  | .recorded paths => path ∈ paths
  | _ => False

namespace PublishState

/-- The path is queued, or a call will still apply or queue it. -/
def Due (s : PublishState) (path : FilePath) (n : ℕ) : Prop :=
  path ∈ s.unapplied ∨ ∃ call ∈ s.calls, call.phase.due path n

/-- Every path of a write was applied after its commit, or that is still to be done. -/
structure Accounted (s : PublishState) : Prop where
  serial : ∀ call ∈ s.calls, ∀ paths n, call.write? = some (paths, n) → n ≤ s.clock
  due : ∀ call ∈ s.calls, ∀ paths n, call.write? = some (paths, n) → ∀ path ∈ paths,
    n ≤ s.covered path ∨ s.Due path n

/-- What a write knows of its paths. -/
def Progress (s : PublishState) (call : PublishCall) (paths : List FilePath) (n : ℕ) : Prop :=
  match call.phase with
  | .pending rest => ∀ path ∈ paths, path ∈ rest ∨ n ≤ s.covered path
  | .applying current rest since =>
      n ≤ since ∧ ∀ path ∈ paths, path = current ∨ path ∈ rest ∨ n ≤ s.covered path
  | .failed _ _ => True
  | .recorded _ | .returned => ∀ owner, call.owner = some owner →
      s.failures owner ≠ none ∨ ∀ path ∈ paths, n ≤ s.covered path
  | .taken none => ∀ path ∈ paths, n ≤ s.covered path
  | .taken (some _) => True

structure Owned (s : PublishState) : Prop where
  distinct : ∀ (i j : ℕ) (c d : PublishCall) (owner : Text), s.calls[i]? = some c →
    s.calls[j]? = some d → c.owner = some owner → d.owner = some owner → i = j
  progress : ∀ call ∈ s.calls, ∀ paths n, call.write? = some (paths, n) →
    s.Progress call paths n

/-- A repair that clears the failures finds no write with a recorded failure that has a path not
applied since and still queued or before a call. -/
def Mends (s : PublishState) : PublishAction → Prop
  | .finish i => s.calls[i]? = some ⟨.repair, .pending []⟩ →
      ∀ call ∈ s.calls, ∀ paths n owner, call.write? = some (paths, n) →
        call.owner = some owner → s.failures owner ≠ none →
          ∀ path ∈ paths, s.covered path < n → ¬ s.Due path n
  | _ => True

section
variable {s t : PublishState} {a : PublishAction} {i : ℕ} {c : PublishCall} {phase : CallPhase}

/-! ### One call moves on -/

theorem mem_set_self {c' : PublishCall} (there : s.calls[i]? = some c) :
    c' ∈ s.calls.set i c' :=
  List.mem_set (List.getElem?_eq_some_iff.mp there).1 _

/-- A call moves on and takes what is due along. -/
theorem Accounted.move (h : Accounted s) (there : s.calls[i]? = some c)
    (calls : t.calls = s.calls.set i { c with phase := phase }) (clock : t.clock = s.clock)
    (covered : ∀ path, s.covered path ≤ t.covered path)
    (moves : ∀ path n, n ≤ s.clock → path ∈ s.unapplied ∨ c.phase.due path n →
      n ≤ t.covered path ∨ path ∈ t.unapplied ∨ phase.due path n) : Accounted t := by
  have before : ∀ d ∈ t.calls, ∃ d₀ ∈ s.calls, d₀.write? = d.write? := by
    intro d hd
    rw [calls] at hd
    obtain hd | rfl := List.mem_or_eq_of_mem_set hd
    · exact ⟨d, hd, rfl⟩
    · exact ⟨c, List.mem_of_getElem? there, rfl⟩
  refine ⟨fun d hd paths n hw => ?_, fun d hd paths n hw path hp => ?_⟩
  · obtain ⟨d₀, hd₀, same⟩ := before d hd
    rw [clock]
    exact h.serial d₀ hd₀ paths n (same.trans hw)
  · obtain ⟨d₀, hd₀, same⟩ := before d hd
    have old := h.serial d₀ hd₀ paths n (same.trans hw)
    have stays : path ∈ t.unapplied ∨ phase.due path n → t.Due path n := by
      rintro (queued | due)
      · exact .inl queued
      · exact .inr ⟨_, calls ▸ mem_set_self there, due⟩
    obtain done | queued | ⟨e, he, due⟩ := h.due d₀ hd₀ paths n (same.trans hw) path hp
    · exact .inl (done.trans (covered path))
    · exact (moves path n old (.inl queued)).imp_right stays
    · obtain rfl | he := eq_or_mem_set (z := { c with phase := phase }) there he
      · exact (moves path n old (.inr due)).imp_right stays
      · exact .inr (.inr ⟨e, calls ▸ he, due⟩)

/-- What is due does not get lost when a call is added. -/
theorem Due.add {path : FilePath} {n : ℕ} {call : PublishCall} (h : s.Due path n)
    (calls : t.calls = s.calls ++ [call])
    (queue : path ∈ s.unapplied → path ∈ t.unapplied ∨ call.phase.due path n) : t.Due path n := by
  obtain queued | ⟨d, hd, due⟩ := h
  · refine (queue queued).imp_right fun due => ⟨call, ?_, due⟩
    rw [calls]
    simp
  · refine .inr ⟨d, ?_, due⟩
    rw [calls]
    exact List.mem_append_left _ hd

/-- **Every step keeps account of the committed paths.** -/
theorem Accounted.step (h : Accounted s) (next : s.step a = some t) : Accounted t := by
  cases a with
  | commit owner paths =>
      simp only [PublishState.step] at next
      split_ifs at next
      obtain rfl := Option.some.inj next
      refine ⟨fun d hd ps n hw => ?_, fun d hd ps n hw path hp => ?_⟩
      · obtain hd | hd := List.mem_append.mp hd
        · exact (h.serial d hd ps n hw).trans (Nat.le_succ _)
        · obtain rfl := List.mem_singleton.mp hd
          obtain ⟨-, rfl⟩ := Prod.mk.inj (Option.some.inj hw)
          exact Nat.le_refl _
      · obtain hd | hd := List.mem_append.mp hd
        · exact (h.due d hd ps n hw path hp).imp_right fun due => due.add rfl .inl
        · -- the new write has all its paths before it
          refine .inr (.inr ⟨d, List.mem_append_right _ hd, ?_⟩)
          obtain rfl := List.mem_singleton.mp hd
          obtain ⟨rfl, -⟩ := Prod.mk.inj (Option.some.inj hw)
          exact hp
  | repair =>
      obtain rfl := Option.some.inj next
      refine ⟨fun d hd ps n hw => ?_, fun d hd ps n hw path hp => ?_⟩
      · obtain hd | hd := List.mem_append.mp hd
        · exact h.serial d hd ps n hw
        · obtain rfl := List.mem_singleton.mp hd
          cases hw
      · obtain hd | hd := List.mem_append.mp hd
        · exact (h.due d hd ps n hw path hp).imp_right fun due => due.add rfl .inr
        · obtain rfl := List.mem_singleton.mp hd
          cases hw
  | beginApply i =>
      simp only [PublishState.step] at next
      split at next
      · next kind path rest there =>
          obtain rfl := Option.some.inj next
          refine h.move there rfl rfl (fun _ => Nat.le_refl _) fun p n old => ?_
          rintro (queued | due)
          · exact .inr (.inl queued)
          · obtain rfl | due := List.mem_cons.mp due
            · exact .inr (.inr (.inl ⟨rfl, old⟩))
            · exact .inr (.inr (.inr due))
      · cases next
  | endApply i error =>
      simp only [PublishState.step] at next
      split at next
      · next kind path rest since there =>
          cases error with
          | some error =>
              obtain rfl := Option.some.inj next
              refine h.move there rfl rfl (fun _ => Nat.le_refl _) fun p n _ => ?_
              rintro (queued | ⟨rfl, -⟩ | due)
              · exact .inr (.inl queued)
              · exact .inr (.inr List.mem_cons_self)
              · exact .inr (.inr (List.mem_cons_of_mem _ due))
          | none =>
              obtain rfl := Option.some.inj next
              have grows : ∀ p, s.covered p ≤
                  Function.update s.covered path (max (s.covered path) since) p := by
                intro p
                rw [Function.update_apply]
                split_ifs with same
                · rw [same]
                  exact Nat.le_max_left _ _
                · exact Nat.le_refl _
              refine h.move there rfl rfl grows fun p n _ => ?_
              rintro (queued | ⟨rfl, due⟩ | due)
              · exact .inr (.inl queued)
              · refine .inl ?_
                show n ≤ Function.update s.covered p _ p
                rw [Function.update_self]
                exact due.trans (Nat.le_max_right _ _)
              · exact .inr (.inr due)
      · cases next
  | record i =>
      simp only [PublishState.step] at next
      split at next
      · next owner paths serial error rest there =>
          cases owner with
          | some owner =>
              obtain rfl := Option.some.inj next
              exact h.move there rfl rfl (fun _ => Nat.le_refl _) fun _ _ _ due => .inr due
          | none =>
              obtain rfl := Option.some.inj next
              exact h.move there rfl rfl (fun _ => Nat.le_refl _) fun _ _ _ due => .inr due
      · cases next
  | queue i =>
      simp only [PublishState.step] at next
      split at next
      · next owner paths serial rest there =>
          obtain rfl := Option.some.inj next
          refine h.move there rfl rfl (fun _ => Nat.le_refl _) fun p n _ => ?_
          rintro (queued | due)
          · exact .inr (.inl (List.mem_append_left _ queued))
          · exact .inr (.inl (List.mem_append_right _ due))
      · next error rest there =>
          obtain rfl := Option.some.inj next
          refine h.move there rfl rfl (fun _ => Nat.le_refl _) fun p n _ => ?_
          rintro (queued | due)
          · exact .inr (.inl (List.mem_append_right _ queued))
          · exact .inr (.inl (List.mem_append_left _ due))
      · cases next
  | finish i =>
      simp only [PublishState.step] at next
      split at next
      · next owner paths serial there =>
          obtain rfl := Option.some.inj next
          refine h.move there rfl rfl (fun _ => Nat.le_refl _) fun p n _ => ?_
          rintro (queued | due)
          · exact .inr (.inl queued)
          · cases due
      · next there =>
          obtain rfl := Option.some.inj next
          refine h.move there rfl rfl (fun _ => Nat.le_refl _) fun p n _ => ?_
          rintro (queued | due)
          · exact .inr (.inl queued)
          · cases due
      · cases next
  | take i =>
      simp only [PublishState.step] at next
      split at next
      · next owner paths serial there =>
          obtain rfl := Option.some.inj next
          exact h.move there rfl rfl (fun _ => Nat.le_refl _) fun p n _ due => .inr due
      · next owner paths serial answer there =>
          obtain rfl := Option.some.inj next
          exact ⟨h.serial, h.due⟩
      · cases next

/-! ### What the owner is told -/

variable {d : PublishCall} {paths : List FilePath} {n : ℕ}

/-- What a write knows stays true while more is applied and its failure is kept. -/
theorem Progress.frame (h : s.Progress d paths n)
    (covered : ∀ path, s.covered path ≤ t.covered path)
    (failures : ∀ owner, d.owner = some owner → s.failures owner ≠ none →
      t.failures owner ≠ none ∨ ∀ path ∈ paths, n ≤ t.covered path) : t.Progress d paths n := by
  have later : ∀ path, n ≤ s.covered path → n ≤ t.covered path := fun path done =>
    done.trans (covered path)
  have told : (∀ owner, d.owner = some owner → s.failures owner ≠ none ∨
      ∀ path ∈ paths, n ≤ s.covered path) → ∀ owner, d.owner = some owner →
        t.failures owner ≠ none ∨ ∀ path ∈ paths, n ≤ t.covered path := by
    intro h owner own
    obtain kept | done := h owner own
    · exact failures owner own kept
    · exact .inr fun path hp => later path (done path hp)
  unfold Progress at h ⊢
  split at h
  · exact fun path hp => (h path hp).imp_right (later path)
  · exact ⟨h.1, fun path hp => (h.2 path hp).imp_right (Or.imp_right (later path))⟩
  · trivial
  · exact told h
  · exact told h
  · exact fun path hp => later path (h path hp)
  · trivial

/-- A call moves on; the others keep what they know. -/
theorem Owned.move (h : Owned s) (there : s.calls[i]? = some c)
    (calls : t.calls = s.calls.set i { c with phase := phase })
    (covered : ∀ path, s.covered path ≤ t.covered path)
    (others : ∀ j d paths n owner, j ≠ i → s.calls[j]? = some d → d.write? = some (paths, n) →
      d.owner = some owner → s.failures owner ≠ none →
        t.failures owner ≠ none ∨ ∀ path ∈ paths, n ≤ t.covered path)
    (own : ∀ paths n, c.write? = some (paths, n) → s.Progress c paths n →
      t.Progress { c with phase := phase } paths n) : Owned t := by
  have inRange := (List.getElem?_eq_some_iff.mp there).1
  have at_ : ∀ (j : ℕ) (d : PublishCall), t.calls[j]? = some d →
      (j = i ∧ d = { c with phase := phase }) ∨ (j ≠ i ∧ s.calls[j]? = some d) := by
    intro j d hd
    rw [calls, List.getElem?_set] at hd
    split_ifs at hd with same
    · exact .inl ⟨same.symm, (Option.some.inj hd).symm⟩
    · exact .inr ⟨Ne.symm same, hd⟩
  refine ⟨fun j k d e owner hd he hdo heo => ?_, fun d hd paths n hw => ?_⟩
  · obtain ⟨rfl, rfl⟩ | ⟨hj, hd⟩ := at_ j d hd
    · obtain ⟨rfl, rfl⟩ | ⟨-, he⟩ := at_ k e he
      · rfl
      · exact h.distinct _ _ _ _ owner there he hdo heo
    · obtain ⟨rfl, rfl⟩ | ⟨-, he⟩ := at_ k e he
      · exact h.distinct _ _ _ _ owner hd there hdo heo
      · exact h.distinct _ _ _ _ owner hd he hdo heo
  · obtain ⟨j, hj⟩ := List.mem_iff_getElem?.mp hd
    obtain ⟨rfl, rfl⟩ | ⟨other, hj⟩ := at_ j d hj
    · exact own paths n hw (h.progress c (List.mem_of_getElem? there) paths n hw)
    · exact (h.progress d (List.mem_of_getElem? hj) paths n hw).frame covered
        fun owner ho => others j d paths n owner other hj hw ho

/-- A step that keeps the failures and what is applied keeps what the other calls know. -/
theorem Owned.advance (h : Owned s) (there : s.calls[i]? = some c)
    (calls : t.calls = s.calls.set i { c with phase := phase }) (covered : t.covered = s.covered)
    (failures : t.failures = s.failures)
    (own : ∀ paths n, c.write? = some (paths, n) → s.Progress c paths n →
      t.Progress { c with phase := phase } paths n) : Owned t :=
  h.move there calls (fun _ => by rw [covered])
    (fun _ _ _ _ _ _ _ _ _ kept => .inl (by rw [failures]; exact kept)) own

theorem Owned.add (h : Owned s) {call : PublishCall} (calls : t.calls = s.calls ++ [call])
    (covered : t.covered = s.covered) (failures : t.failures = s.failures)
    (fresh : ∀ owner, call.owner = some owner → ∀ d ∈ s.calls, d.owner ≠ some owner)
    (own : ∀ paths n, call.write? = some (paths, n) → t.Progress call paths n) : Owned t := by
  refine ⟨fun j k d e owner hd he hdo heo => ?_, fun d hd paths n hw => ?_⟩
  · rw [calls, at_append_iff] at hd he
    obtain hd | ⟨rfl, rfl⟩ := hd
    · obtain he | ⟨rfl, rfl⟩ := he
      · exact h.distinct _ _ _ _ owner hd he hdo heo
      · exact absurd hdo (fresh owner heo d (List.mem_of_getElem? hd))
    · obtain he | ⟨rfl, rfl⟩ := he
      · exact absurd heo (fresh owner hdo e (List.mem_of_getElem? he))
      · rfl
  · rw [calls] at hd
    obtain hd | hd := List.mem_append.mp hd
    · refine (h.progress d hd paths n hw).frame (fun _ => by rw [covered]) fun owner _ kept => ?_
      rw [failures]
      exact .inl kept
    · obtain rfl := List.mem_singleton.mp hd
      exact own paths n hw

/-- Every step that meets the condition keeps what the writes know. -/
theorem Owned.step (h : Owned s) (account : Accounted s) (mends : Mends s a)
    (next : s.step a = some t) : Owned t := by
  cases a with
  | commit owner paths =>
      simp only [PublishState.step] at next
      split_ifs at next with fresh
      obtain rfl := Option.some.inj next
      refine h.add rfl rfl rfl ?_ ?_
      · rintro o rfl d hd same
        simp only [PublishState.freshOwner, Option.isNone_some, Bool.false_or] at fresh
        exact of_decide_eq_true (List.all_eq_true.mp fresh d hd) same
      · intro ps n hw
        obtain ⟨rfl, -⟩ := Prod.mk.inj (Option.some.inj hw)
        exact fun path hp => .inl hp
  | repair =>
      obtain rfl := Option.some.inj next
      refine h.add rfl rfl rfl (fun owner ho => ?_) (fun ps n hw => ?_)
      · cases ho
      · cases hw
  | beginApply i =>
      simp only [PublishState.step] at next
      split at next
      · next kind path rest there =>
          obtain rfl := Option.some.inj next
          refine h.advance there rfl rfl rfl fun ps n hw known => ?_
          refine ⟨account.serial _ (List.mem_of_getElem? there) ps n hw, fun p hp => ?_⟩
          obtain before | done := known p hp
          · obtain rfl | before := List.mem_cons.mp before
            · exact .inl rfl
            · exact .inr (.inl before)
          · exact .inr (.inr done)
      · cases next
  | endApply i error =>
      simp only [PublishState.step] at next
      split at next
      · next kind path rest since there =>
          cases error with
          | some error =>
              obtain rfl := Option.some.inj next
              exact h.advance there rfl rfl rfl fun _ _ _ _ => trivial
          | none =>
              obtain rfl := Option.some.inj next
              have grows : ∀ p, s.covered p ≤
                  Function.update s.covered path (max (s.covered path) since) p := by
                intro p
                rw [Function.update_apply]
                split_ifs with same
                · rw [same]
                  exact Nat.le_max_left _ _
                · exact Nat.le_refl _
              refine h.move there rfl grows (fun _ _ _ _ _ _ _ _ _ kept => .inl kept)
                fun ps n hw known => ?_
              intro p hp
              obtain rfl | before | done := known.2 p hp
              · refine .inr ?_
                show n ≤ Function.update s.covered p _ p
                rw [Function.update_self]
                exact known.1.trans (Nat.le_max_right _ _)
              · exact .inl before
              · exact .inr (done.trans (grows p))
      · cases next
  | record i =>
      simp only [PublishState.step] at next
      split at next
      · next owner paths serial error rest there =>
          cases owner with
          | some owner =>
              obtain rfl := Option.some.inj next
              have kept : ∀ o, s.failures o ≠ none ∨ o = owner →
                  Function.update s.failures owner (some error) o ≠ none := by
                rintro o failed
                rw [Function.update_apply]
                split_ifs with same
                · simp
                · exact failed.resolve_right same
              refine h.move there rfl (fun _ => Nat.le_refl _)
                (fun _ _ _ _ o _ _ _ _ failed => .inl (kept o (.inl failed)))
                fun ps n hw _ o own => .inl (kept o (.inr ?_))
              exact (Option.some.inj own).symm
          | none =>
              obtain rfl := Option.some.inj next
              refine h.advance there rfl rfl rfl fun ps n hw _ o own => ?_
              cases own
      · cases next
  | queue i =>
      simp only [PublishState.step] at next
      split at next
      · next owner paths serial rest there =>
          obtain rfl := Option.some.inj next
          exact h.advance there rfl rfl rfl fun _ _ _ known => known
      · next error rest there =>
          obtain rfl := Option.some.inj next
          refine h.advance there rfl rfl rfl fun _ _ hw _ => ?_
          cases hw
      · cases next
  | finish i =>
      simp only [PublishState.step] at next
      split at next
      · next owner paths serial there =>
          obtain rfl := Option.some.inj next
          refine h.advance there rfl rfl rfl fun ps n hw known o _ => .inr fun p hp => ?_
          exact (known p hp).resolve_left List.not_mem_nil
      · next there =>
          obtain rfl := Option.some.inj next
          refine h.move there rfl (fun _ => Nat.le_refl _) (fun j d ps n o _ hd hw ho failed => ?_)
            fun _ _ hw _ => ?_
          · -- what the repair clears has been applied
            refine .inr fun p hp => ?_
            have mem := List.mem_of_getElem? hd
            by_contra late
            obtain done | due := account.due d mem ps n hw p hp
            · exact late done
            · exact mends there d mem ps n o hw ho failed p hp (Nat.lt_of_not_le late) due
          · cases hw
      · cases next
  | take i =>
      simp only [PublishState.step] at next
      split at next
      · next owner paths serial there =>
          obtain rfl := Option.some.inj next
          refine h.move there rfl (fun _ => Nat.le_refl _) (fun j d ps n o other hd hw ho failed =>
            .inl ?_) fun ps n hw known => ?_
          · show Function.update s.failures owner none o ≠ none
            rw [Function.update_of_ne]
            · exact failed
            · rintro rfl
              exact other (h.distinct _ _ _ _ o hd there ho rfl)
          · unfold Progress
            dsimp only
            cases failure : s.failures owner with
            | some error => trivial
            | none => exact (known owner rfl).resolve_left fun failed => failed failure
      · next owner paths serial answer there =>
          obtain rfl := Option.some.inj next
          refine ⟨h.distinct, fun d hd ps n hw => ?_⟩
          obtain ⟨j, hj⟩ := List.mem_iff_getElem?.mp hd
          by_cases same : j = i
          · subst same
            obtain rfl := Option.some.inj (there.symm.trans hj)
            cases answer <;> exact h.progress _ hd ps n hw
          · refine (h.progress d hd ps n hw).frame (fun _ => Nat.le_refl _)
              fun o ho failed => .inl ?_
            show Function.update s.failures owner none o ≠ none
            rw [Function.update_of_ne]
            · exact failed
            · rintro rfl
              exact same (h.distinct _ _ _ _ o hj there ho rfl)
      · cases next

/-! ### Runs -/

theorem start_accounted : Accounted start where
  serial call mem := by cases mem
  due call mem := by cases mem

theorem start_owned : Owned start where
  distinct i j c d owner hc := by cases hc
  progress call mem := by cases mem

theorem accounted {cond : PublishState → PublishAction → Prop}
    (reached : Reaches step cond start s) : Accounted s :=
  reached.invariant (P := Accounted) (fun _ next h => h.step next) start_accounted

end

/-! ### A repair beside a failing write -/

namespace LateFailure

def path : FilePath := ["node.org".toList]

/-- A write fails while a repair of an empty queue is on its way. -/
def late : List PublishAction :=
  [.repair, .commit (some "tx-1".toList) [path], .beginApply 1,
    .endApply 1 (some "io".toList), .record 1, .queue 1, .finish 0, .take 1]

end LateFailure

end PublishState

end Orgasmic
