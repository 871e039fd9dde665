import Mathlib.Order.MinMax
import Orgasmic.ProjectionUpdates

/-! # The projection at rest

When every update has ended, the projection has the contents of the last writes, if no update has
put back contents that were read before those it replaces.

* `InOrder`: the condition on a step.
* `Current`: what a read is worth; `FileRead.takeOver`: taking it over keeps that.
* `Fresh`: the invariant; every write is projected or is covered by an apply in progress. -/

namespace Orgasmic

open Text Interleaving

namespace ProjectionState

variable {accepted : Text → Text → Bool} {s s' : ProjectionState}

/-- The apply takes over what it has read. -/
def installs (s : ProjectionState) (file : ProjectFile) (got : List (ProjectFile × FileRead)) :
    Bool :=
  s.unchanged got || file.isTx || s.loaded

/-- The step puts no other contents into the projection than were read after those that it
replaces, and no apply fails. -/
def InOrder (s : ProjectionState) : ProjectionAction → Prop
  | .install i => ∀ file got, s.updates[i]? = some ⟨some file, .reading [] got⟩ →
      s.installs file got = true → ∀ entry ∈ got, entry.1.isLinks = false →
        entry.2.contents ≠ s.projected entry.1 → s.projectedAt entry.1 ≤ entry.2.since
  | .publish i => ∀ target begun scan, s.updates[i]? = some ⟨target, .scanning begun scan⟩ →
      ∀ file, file.isLinks = false → (scan file).contents ≠ s.projected file →
        s.projectedAt file ≤ (scan file).since
  | .fail i => ∀ update, s.updates[i]? = some update → update.file = none
  | _ => True

/-- If the file was not written after the read, the contents are those of the disk. -/
structure Current (s : ProjectionState) (file : ProjectFile) (contents : Option Text)
    (since : ℕ) : Prop where
  past : since < s.clock
  same : s.writtenAt file ≤ since → contents = s.disk file

/-- The reads of an update are worth what they say. -/
def Honest (s : ProjectionState) (update : Update) : Prop :=
  match update.phase with
  | .reading rest got => (got.map Prod.fst ++ rest).Nodup ∧
      ∀ entry ∈ got, entry.1.isLinks = false → s.Current entry.1 entry.2.contents entry.2.since
  | .awaiting since => since < s.clock
  | .scanning begun scan => begun < s.clock ∧ (∀ file, begun ≤ (scan file).since) ∧
      ∀ file, file.isLinks = false → s.Current file (scan file).contents (scan file).since
  | _ => True

end ProjectionState

def UpdatePhase.ended : UpdatePhase → Bool
  | .finished => true
  | .failed => true
  | _ => false

/-- The update will take over a read of the file that is not before the moment. -/
def Update.Covers (update : Update) (file : ProjectFile) (moment : ℕ) : Prop :=
  update.file ≠ none ∧
    match update.phase with
    | .reading rest got => file ∈ rest ∨ ∃ r, (file, r) ∈ got ∧ moment ≤ r.since
    | .awaiting since => moment ≤ since
    | _ => False

namespace ProjectionState

variable {accepted : Text → Text → Bool} {s s' : ProjectionState} {loaded : Bool}

/-- Every file that is loaded or written is projected, or is covered by an apply. -/
structure Fresh (loaded : Bool) (s : ProjectionState) : Prop where
  written : ∀ file, 1 ≤ s.writtenAt file ∧ s.writtenAt file < s.clock
  projected : ∀ file, file.isLinks = false →
    s.Current file (s.projected file) (s.projectedAt file)
  honest : ∀ update ∈ s.updates, s.Honest update
  published : ∀ file, s.publishedSince ≤ s.projectedAt file
  due : ∀ file, file.isLinks = false → loaded = true ∨ 1 < s.writtenAt file →
    s.writtenAt file ≤ s.projectedAt file ∨
      ∃ update ∈ s.updates, update.Covers file (s.writtenAt file)

theorem scanned_of_ledger {file : ProjectFile} (links : file.isLinks = false)
    (contents : Option Text) : scanned accepted file contents = contents := by
  unfold scanned
  split
  · cases links
  · rfl

theorem honest_of_ages (ages : ∀ {file contents since}, s.Current file contents since →
      s'.Current file contents since) (clock : s.clock ≤ s'.clock) {update : Update}
    (h : s.Honest update) : s'.Honest update := by
  unfold Honest at h ⊢
  split at h
  · exact ⟨h.1, fun entry mem links => ages (h.2 entry mem links)⟩
  · exact h.trans_le clock
  · exact ⟨h.1.trans_le clock, h.2.1, fun file links => ages (h.2.2 file links)⟩
  · trivial

/-- A read at this moment. -/
theorem current_now {file : ProjectFile} (clock : s'.clock = s.clock + 1) (disk : s'.disk = s.disk) :
    s'.Current file (s.disk file) s.clock :=
  ⟨by rw [clock]; exact Nat.lt_succ_self _, fun _ => by rw [disk]⟩

/-- What is taken over is worth what it says if it is not older than what it replaces. -/
theorem takeOver_current (reads : ProjectFile → Option FileRead) {file : ProjectFile}
    (current : s.Current file (s.projected file) (s.projectedAt file))
    (honest : ∀ r, reads file = some r → s.Current file r.contents r.since)
    (inOrder : ∀ r, reads file = some r → r.contents ≠ s.projected file →
      s.projectedAt file ≤ r.since) :
    s.Current file ((s.takeOver reads).projected file) ((s.takeOver reads).projectedAt file) := by
  unfold takeOver
  dsimp only
  cases found : reads file with
  | none => simpa using current
  | some r =>
      have read := honest r found
      refine ⟨max_lt read.past current.past, fun after => ?_⟩
      by_cases same : r.contents = s.projected file
      · obtain before | before := le_max_iff.mp after
        · exact read.same before
        · exact same.trans (current.same before)
      · have newer := inOrder r found same
        exact read.same (by simpa [max_eq_left newer] using after)

theorem projectedAt_le_takeOver (reads : ProjectFile → Option FileRead) (file : ProjectFile) :
    s.projectedAt file ≤ (s.takeOver reads).projectedAt file :=
  le_max_right _ _

/-- An update moves on: it has honest reads again, and what it covered is covered or projected. -/
theorem Fresh.move (fresh : Fresh loaded s) {i : ℕ} {update : Update} {phase : UpdatePhase}
    (there : s.updates[i]? = some update) (disk : s'.disk = s.disk)
    (writtenAt : s'.writtenAt = s.writtenAt) (clock : s'.clock = s.clock + 1)
    (updates : s'.updates = s.updates.set i { update with phase := phase })
    (projected : ∀ file, file.isLinks = false →
      s.Current file (s'.projected file) (s'.projectedAt file))
    (later : ∀ file, s.projectedAt file ≤ s'.projectedAt file)
    (published : ∀ file, s'.publishedSince ≤ s'.projectedAt file)
    (honest : s'.Honest { update with phase := phase })
    (covers : ∀ file, file.isLinks = false → update.Covers file (s.writtenAt file) →
      s.writtenAt file ≤ s'.projectedAt file ∨
        ({ update with phase := phase } : Update).Covers file (s.writtenAt file)) :
    Fresh loaded s' := by
  have ages : ∀ {file contents since}, s.Current file contents since →
      s'.Current file contents since := fun h =>
    ⟨by rw [clock]; exact h.past.trans (Nat.lt_succ_self _), by rw [writtenAt, disk]; exact h.same⟩
  refine ⟨fun file => ?_, fun file links => ages (projected file links), fun other mem => ?_,
    published, fun file links h => ?_⟩
  · rw [writtenAt, clock]
    exact ⟨(fresh.written file).1, (fresh.written file).2.trans (Nat.lt_succ_self _)⟩
  · rw [updates] at mem
    obtain mem | rfl := List.mem_or_eq_of_mem_set mem
    · exact honest_of_ages ages (by rw [clock]; exact Nat.le_succ _) (fresh.honest other mem)
    · exact honest
  · rw [writtenAt] at h ⊢
    rw [updates]
    obtain done | ⟨other, mem, due⟩ := fresh.due file links h
    · exact .inl (done.trans (later file))
    · obtain rfl | stays := eq_or_mem_set (z := { update with phase := phase }) there mem
      · obtain done | due := covers file links due
        · exact .inl done
        · exact .inr ⟨_, List.mem_set (List.getElem?_eq_some_iff.mp there).1 _, due⟩
      · exact .inr ⟨other, stays, due⟩

/-- A new update with honest reads. -/
theorem Fresh.begin (fresh : Fresh loaded s) {update : Update}
    (honest : ({ s with
      updates := s.updates ++ [update]
      clock := s.clock + 1 } : ProjectionState).Honest update) :
    Fresh loaded { s with
      updates := s.updates ++ [update]
      clock := s.clock + 1 } := by
  have ages : ∀ {file contents since}, s.Current file contents since →
      ({ s with
        updates := s.updates ++ [update]
        clock := s.clock + 1 } : ProjectionState).Current file contents since := fun h =>
    ⟨h.past.trans (Nat.lt_succ_self _), h.same⟩
  refine ⟨fun file => ⟨(fresh.written file).1, (fresh.written file).2.trans (Nat.lt_succ_self _)⟩,
    fun file links => ages (fresh.projected file links), fun other mem => ?_, fresh.published,
    fun file links h => ?_⟩
  · obtain mem | mem := List.mem_append.mp mem
    · exact honest_of_ages ages (Nat.le_succ _) (fresh.honest other mem)
    · rw [List.mem_singleton.mp mem]
      exact honest
  · obtain done | ⟨other, mem, due⟩ := fresh.due file links h
    · exact .inl done
    · exact .inr ⟨other, List.mem_append_left _ mem, due⟩

theorem applyUnit_nodup (file : ProjectFile) : file.applyUnit.Nodup := by
  cases file <;> simp [ProjectFile.applyUnit]

theorem mem_applyUnit {file : ProjectFile} : file ∈ file.applyUnit := by
  obtain path | ⟨collection, nodeId, part⟩ := file
  · exact List.mem_singleton_self _
  · cases part <;> simp [ProjectFile.applyUnit]

/-- A write is covered by its own apply. -/
theorem Fresh.write (fresh : Fresh loaded s) (file : ProjectFile) (contents : Option Text) :
    Fresh loaded { s with
      disk := Function.update s.disk file contents
      writtenAt := Function.update s.writtenAt file s.clock
      updates := s.updates ++ [⟨some file, .reading file.applyUnit []⟩]
      clock := s.clock + 1 } := by
  have ages : ∀ {target read since}, s.Current target read since →
      ({ s with
        disk := Function.update s.disk file contents
        writtenAt := Function.update s.writtenAt file s.clock
        updates := s.updates ++ [⟨some file, .reading file.applyUnit []⟩]
        clock := s.clock + 1 } : ProjectionState).Current target read since := by
    intro target read since h
    refine ⟨h.past.trans (Nat.lt_succ_self _), fun after => ?_⟩
    dsimp only at after ⊢
    by_cases same : target = file
    · subst same
      rw [Function.update_self] at after
      exact absurd h.past (Nat.not_lt.mpr after)
    · rw [Function.update_of_ne same] at after ⊢
      exact h.same after
  refine ⟨fun target => ?_, fun target links => ages (fresh.projected target links),
    fun other mem => ?_, fresh.published, fun target links h => ?_⟩
  · dsimp only
    have written := fresh.written target
    have now := fresh.written file
    by_cases same : target = file
    · subst same
      rw [Function.update_self]
      omega
    · rw [Function.update_of_ne same]
      omega
  · obtain mem | mem := List.mem_append.mp mem
    · exact honest_of_ages ages (Nat.le_succ _) (fresh.honest other mem)
    · rw [List.mem_singleton.mp mem]
      exact ⟨by simpa using applyUnit_nodup file, fun _ mem => by cases mem⟩
  · dsimp only at h ⊢
    by_cases same : target = file
    · subst same
      exact .inr ⟨_, List.mem_append_right _ (List.mem_singleton_self _), by simp,
        .inl mem_applyUnit⟩
    · rw [Function.update_of_ne same] at h ⊢
      obtain done | ⟨other, mem, due⟩ := fresh.due target links h
      · exact .inl done
      · exact .inr ⟨other, List.mem_append_left _ mem, due⟩

theorem mem_of_lookup {got : List (ProjectFile × FileRead)} {file : ProjectFile} {r : FileRead}
    (found : got.lookup file = some r) : (file, r) ∈ got := by
  obtain ⟨before, after, eq, -⟩ := List.lookup_eq_some_iff.mp found
  rw [eq]
  simp

theorem lookup_of_mem {got : List (ProjectFile × FileRead)} {file : ProjectFile} {r : FileRead}
    (nodup : (got.map Prod.fst).Nodup) (mem : (file, r) ∈ got) : got.lookup file = some r := by
  induction got with
  | nil => cases mem
  | cons entry rest ih =>
      obtain ⟨fresh, others⟩ := List.nodup_cons.mp nodup
      obtain rfl | later := List.mem_cons.mp mem
      · simp
      · have other : file ≠ entry.1 := by
          rintro rfl
          exact fresh (List.mem_map.mpr ⟨_, later, rfl⟩)
        have other' : (file == entry.1) = false := by simpa using other
        obtain ⟨first, read⟩ := entry
        rw [List.lookup_cons, other']
        exact ih others later

theorem Fresh.step (fresh : Fresh loaded s) {a : ProjectionAction} (inOrder : s.InOrder a)
    (taken : s.step accepted a = some s') : Fresh loaded s' := by
  obtain ⟨u, h, rfl⟩ := Option.map_eq_some_iff.mp taken
  cases a with
  | write file contents =>
      obtain rfl := Option.some.inj h
      exact fresh.write file contents
  | apply file =>
      obtain rfl := Option.some.inj h
      exact fresh.begin ⟨by simpa using applyUnit_nodup file, fun _ mem => by cases mem⟩
  | refresh =>
      obtain rfl := Option.some.inj h
      exact fresh.begin ⟨Nat.lt_succ_self _, fun _ => le_rfl, fun file links =>
        ⟨Nat.lt_succ_self _, fun _ => scanned_of_ledger links _⟩⟩
  | read i =>
      unfold turn at h
      dsimp only at h
      split at h
      · next file next rest got there =>
          obtain rfl := Option.some.inj h
          have honest := fresh.honest _ (List.mem_of_getElem? there)
          refine fresh.move there rfl rfl rfl rfl fresh.projected (fun _ => le_rfl) fresh.published
            ⟨by simpa using honest.1, fun entry mem links => ?_⟩ fun target links due =>
              .inr ⟨due.1, ?_⟩
          · obtain mem | mem := List.mem_append.mp mem
            · have current := honest.2 entry mem links
              exact ⟨current.past.trans (Nat.lt_succ_self _), current.same⟩
            · rw [List.mem_singleton.mp mem]
              exact current_now rfl rfl
          · obtain queued | ⟨r, mem, late⟩ := due.2
            · obtain rfl | queued := List.mem_cons.mp queued
              · exact .inr ⟨_, List.mem_append_right _ (List.mem_singleton_self _),
                  (fresh.written target).2.le⟩
              · exact .inl queued
            · exact .inr ⟨r, List.mem_append_left _ mem, late⟩
      · cases h
  | rescan i file =>
      unfold turn at h
      dsimp only at h
      split at h
      · next target begun scan there =>
          obtain rfl := Option.some.inj h
          have honest := fresh.honest _ (List.mem_of_getElem? there)
          refine fresh.move there rfl rfl rfl rfl fresh.projected (fun _ => le_rfl) fresh.published
            ⟨honest.1.trans (Nat.lt_succ_self _), fun other => ?_, fun other links => ?_⟩
            fun _ _ due => due.2.elim
          · by_cases same : other = file
            · subst same
              rw [Function.update_self]
              exact honest.1.le
            · rw [Function.update_of_ne same]
              exact honest.2.1 other
          · by_cases same : other = file
            · subst same
              rw [Function.update_self, scanned_of_ledger links]
              exact current_now rfl rfl
            · rw [Function.update_of_ne same]
              have old := honest.2.2 other links
              exact ⟨old.past.trans (Nat.lt_succ_self _), old.same⟩
      · cases h
  | install i =>
      unfold turn at h
      dsimp only at h
      split at h
      · next file got there =>
          have honest := fresh.honest _ (List.mem_of_getElem? there)
          split at h
          · next installs =>
              obtain rfl := Option.some.inj h
              refine fresh.move there rfl rfl rfl rfl (fun target links => ?_)
                (projectedAt_le_takeOver _)
                (fun target => (fresh.published target).trans (le_max_right _ _))
                trivial fun target links due => .inl ?_
              · refine takeOver_current (fun file => got.lookup file) (fresh.projected target links)
                  (fun r found => ?_) fun r found => ?_
                · exact honest.2 (target, r) (mem_of_lookup found) links
                · exact inOrder file got there installs (target, r) (mem_of_lookup found) links
              · obtain queued | ⟨r, mem, late⟩ := due.2
                · cases queued
                · have nodup : (got.map Prod.fst).Nodup := by simpa using honest.1
                  refine late.trans (le_trans ?_ (le_max_left _ _))
                  simp [lookup_of_mem nodup mem]
          · obtain rfl := Option.some.inj h
            refine fresh.move there rfl rfl rfl rfl fresh.projected (fun _ => le_rfl)
              fresh.published (Nat.lt_succ_self _) fun target links due => .inr ⟨due.1, ?_⟩
            exact (fresh.written target).2.le
      · cases h
  | acknowledge i =>
      unfold turn at h
      dsimp only at h
      split at h
      · next file since there =>
          split at h
          · next acknowledged =>
              obtain rfl := Option.some.inj h
              exact fresh.move there rfl rfl rfl rfl fresh.projected (fun _ => le_rfl)
                fresh.published trivial fun target links due =>
                  .inl ((due.2.trans acknowledged).trans (fresh.published target))
          · cases h
      · cases h
  | publish i =>
      unfold turn at h
      dsimp only at h
      split at h
      · next target begun scan there =>
          obtain rfl := Option.some.inj h
          have honest := fresh.honest _ (List.mem_of_getElem? there)
          refine fresh.move there rfl rfl rfl rfl (fun file links => ?_)
            (projectedAt_le_takeOver _) (fun file => ?_) trivial fun _ _ due => due.2.elim
          · refine takeOver_current (fun file => some (scan file)) (fresh.projected file links)
              (fun r found => ?_) fun r found => ?_
            · obtain rfl := Option.some.inj found
              exact honest.2.2 file links
            · obtain rfl := Option.some.inj found
              exact inOrder target begun scan there file links
          · exact max_le ((fresh.published file).trans (le_max_right _ _))
              ((honest.2.1 file).trans (le_max_left _ _))
      · cases h
  | fail i =>
      unfold turn at h
      dsimp only at h
      split at h
      · next update there =>
          obtain rfl := Option.some.inj h
          exact fresh.move there rfl rfl rfl rfl fresh.projected (fun _ => le_rfl)
            fresh.published trivial fun _ _ due => absurd (inOrder update there) due.1
      · cases h

/-! ### Every run -/

namespace Ledger

def file : ProjectFile := .tx ["tx".toList]

def old : Text := "old".toList

def new : Text := "new".toList

def begin : ProjectionState := start (fun _ _ => true) (fun _ => some old) true

end Ledger

end ProjectionState

end Orgasmic
