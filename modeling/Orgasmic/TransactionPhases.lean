import Orgasmic.Transactions
import Mathlib.Data.List.Forall2

/-! # The phases of a transaction

What each phase of `transaction_multi_inner` leaves at every path.

* **Staging and backups** never touch a file that is there; they add sidecars
  (`stageRewrites_spec`, `backUpTargets_spec`).
* **Renames** put the new contents at the targets, and the rollback puts the old ones back
  (`renameRewrites_spec`, `rollback_spec`).
* **Cleanups** remove sidecars only. -/

namespace Orgasmic

open Text

/-! ### Sidecar names -/

theorem sidecarPath_inj {p q : FilePath} {kind rid : Text} (hp : fileName p ≠ none)
    (hq : fileName q ≠ none) (h : sidecarPath p kind rid = sidecarPath q kind rid) : p = q := by
  obtain ⟨hdir, hname⟩ := List.append_inj' h rfl
  rw [List.cons.injEq] at hname
  have hname := hname.1
  simp only [List.append_assoc] at hname
  have hlast := List.append_cancel_right hname
  obtain ⟨a, ha⟩ := Option.ne_none_iff_exists'.mp hp
  obtain ⟨b, hb⟩ := Option.ne_none_iff_exists'.mp hq
  rw [ha, hb] at hlast
  have hab : a = b := hlast
  subst hab
  rw [← List.dropLast_append_getLast? a ha, hdir, List.dropLast_append_getLast? a hb]

/-- A staged file is no backup. -/
theorem tmpPath_ne_backupPath (p q : FilePath) (rid : Text) : tmpPath p rid ≠ backupPath q rid := by
  intro h
  obtain ⟨-, hname⟩ := List.append_inj' h rfl
  rw [List.cons.injEq] at hname
  have hname := List.append_cancel_right hname.1
  have hname := List.append_cancel_right hname
  have hkind := (List.append_inj' hname rfl).2
  exact absurd hkind (by decide)

/-! ### Staging -/

section
variable (answers : Answers) (rid : Text)

/-- The rewrite once its contents are in the sidecar. -/
def stagedOf (rewrite : FileRewrite) : StagedRewrite :=
  ⟨rewrite.path, tmpPath rewrite.path rid, none⟩

/-- What staging leaves: files that were there, other paths, and the new contents. -/
structure Staged (rewrites : List FileRewrite) (disk : Disk) (staged : List StagedRewrite)
    (out : Phase) : Prop where
  kept : ∀ p, (disk p).isSome → out.disk p = disk p
  away : ∀ p, (∀ r ∈ rewrites, p ≠ tmpPath r.path rid) → out.disk p = disk p
  members : ∀ s ∈ out.staged, s ∈ staged ∨ ∃ r ∈ rewrites, s = stagedOf rid r
  done : out.failed = none → out.staged = staged ++ rewrites.map (stagedOf rid) ∧
    ∀ r ∈ rewrites, fileName r.path ≠ none ∧
      out.disk (tmpPath r.path rid) = some r.newContents

theorem stageRewrites_spec (i : ℕ) (rewrites : List FileRewrite) (disk : Disk)
    (staged : List StagedRewrite) :
    Staged rid rewrites disk staged (stageRewrites answers rid i rewrites disk staged) := by
  induction rewrites generalizing i disk staged with
  | nil => exact ⟨fun _ _ => rfl, fun _ _ => rfl, fun s hs => .inl hs, fun _ => ⟨by simp [stageRewrites], by simp⟩⟩
  | cons r rest ih =>
      unfold stageRewrites
      dsimp only
      split_ifs with hname hcreate
      · exact ⟨fun _ _ => rfl, fun _ _ => rfl, fun s hs => .inl hs, fun h => by cases h⟩
      · exact ⟨fun _ _ => rfl, fun _ _ => rfl, fun s hs => .inl hs, fun h => by cases h⟩
      · rw [not_or, Option.not_isSome_iff_eq_none] at hcreate
        have hkept : ∀ (left : Bytes) p, (disk p).isSome →
            Function.update disk (tmpPath r.path rid) (some left) p = disk p := by
          intro left p hp
          refine Function.update_of_ne ?_ _ _
          rintro rfl
          rw [hcreate.2] at hp
          cases hp
        have hmembers : ∀ s ∈ staged ++ [stagedOf rid r], s ∈ staged ∨
            ∃ q ∈ r :: rest, s = stagedOf rid q := by
          intro s hs
          rcases List.mem_append.mp hs with hs | hs
          · exact .inl hs
          · exact .inr ⟨r, List.mem_cons_self, List.mem_singleton.mp hs⟩
        cases answers.writeTmpFails i with
        | some left =>
            refine ⟨hkept left, fun p hp => ?_, hmembers, fun h => by cases h⟩
            exact Function.update_of_ne (hp r List.mem_cons_self) _ _
        | none =>
            obtain ⟨kept, away, members, done⟩ :=
              ih (i + 1) (Function.update disk (tmpPath r.path rid) (some r.newContents))
                (staged ++ [⟨r.path, tmpPath r.path rid, none⟩])
            dsimp only
            refine ⟨fun p hp => ?_, fun p hp => ?_, fun s hs => ?_, fun h => ?_⟩
            · rw [kept p (by rw [hkept _ p hp]; exact hp), hkept _ p hp]
            · rw [away p fun q hq => hp q (List.mem_cons_of_mem _ hq),
                Function.update_of_ne (hp r List.mem_cons_self)]
            · rcases members s hs with hs | ⟨q, hq, rfl⟩
              · exact hmembers s hs
              · exact .inr ⟨q, List.mem_cons_of_mem _ hq, rfl⟩
            · obtain ⟨hstaged, hall⟩ := done h
              refine ⟨by rw [hstaged]; simp [stagedOf], List.forall_mem_cons.mpr ⟨⟨hname, ?_⟩, hall⟩⟩
              rw [kept _ (by rw [Function.update_self]; rfl), Function.update_self]

/-! ### Backups -/

/-- The rewrite once its target is backed up. -/
def BackedUp (disk disk' : Disk) (s s' : StagedRewrite) : Prop :=
  s'.target = s.target ∧ s'.tmp = s.tmp ∧
    ((disk s.target = none ∧ s'.backup = s.backup) ∨
      ∃ bytes, disk s.target = some bytes ∧ s'.backup = some (backupPath s.target rid) ∧
        disk' (backupPath s.target rid) = some bytes)

/-- What the backups leave. -/
structure BackedUpAll (todo : List StagedRewrite) (disk : Disk) (staged : List StagedRewrite)
    (out : Phase) : Prop where
  kept : ∀ p, (disk p).isSome → out.disk p = disk p
  away : ∀ p, (∀ s ∈ todo, p ≠ backupPath s.target rid) → out.disk p = disk p
  members : ∀ s' ∈ out.staged, s' ∈ staged ∨ ∃ s ∈ todo, s'.target = s.target ∧ s'.tmp = s.tmp ∧
    (s'.backup = s.backup ∨ s'.backup = some (backupPath s.target rid))
  done : out.failed = none → (∀ s ∈ todo, ∀ q ∈ todo, s.target ≠ backupPath q.target rid) →
    ∃ ss, out.staged = staged ++ ss ∧ List.Forall₂ (BackedUp rid disk out.disk) todo ss

theorem backUpTargets_spec (i : ℕ) (todo : List StagedRewrite) (disk : Disk)
    (staged : List StagedRewrite) :
    BackedUpAll rid todo disk staged (backUpTargets answers rid i todo disk staged) := by
  induction todo generalizing i disk staged with
  | nil =>
      exact ⟨fun _ _ => rfl, fun _ _ => rfl, fun s hs => .inl hs,
        fun _ _ => ⟨[], by simp [backUpTargets], .nil⟩⟩
  | cons r rest ih =>
      have hself : ∀ s' ∈ staged ++ r :: rest, s' ∈ staged ∨ ∃ s ∈ r :: rest,
          s'.target = s.target ∧ s'.tmp = s.tmp ∧
            (s'.backup = s.backup ∨ s'.backup = some (backupPath s.target rid)) := by
        intro s' hs'
        rcases List.mem_append.mp hs' with hs' | hs'
        · exact .inl hs'
        · exact .inr ⟨s', hs', rfl, rfl, .inl rfl⟩
      unfold backUpTargets
      cases htarget : disk r.target with
      | none =>
          obtain ⟨kept, away, members, done⟩ := ih (i + 1) disk (staged ++ [r])
          refine ⟨kept, fun p hp => away p fun s hs => hp s (List.mem_cons_of_mem _ hs),
            fun s' hs' => ?_, fun h hsep => ?_⟩
          · rcases members s' hs' with hs' | ⟨s, hs, h⟩
            · rcases List.mem_append.mp hs' with hs' | hs'
              · exact .inl hs'
              · rw [List.mem_singleton.mp hs']
                exact .inr ⟨r, List.mem_cons_self, rfl, rfl, .inl rfl⟩
            · exact .inr ⟨s, List.mem_cons_of_mem _ hs, h⟩
          · obtain ⟨ss, hss, hall⟩ := done h fun s hs q hq =>
              hsep s (List.mem_cons_of_mem _ hs) q (List.mem_cons_of_mem _ hq)
            exact ⟨r :: ss, by rw [hss]; simp, .cons ⟨rfl, rfl, .inl ⟨htarget, rfl⟩⟩ hall⟩
      | some bytes =>
          dsimp only
          split_ifs with hcreate
          · exact ⟨fun _ _ => rfl, fun _ _ => rfl, hself, fun h => by cases h⟩
          · rw [not_or, Option.not_isSome_iff_eq_none] at hcreate
            have hkept : ∀ (left : Bytes) p, (disk p).isSome →
                Function.update disk (backupPath r.target rid) (some left) p = disk p := by
              intro left p hp
              refine Function.update_of_ne ?_ _ _
              rintro rfl
              rw [hcreate.2] at hp
              cases hp
            cases answers.copyBackupFails i with
            | some left =>
                refine ⟨hkept left, fun p hp => ?_, fun s' hs' => ?_, fun h => by cases h⟩
                · exact Function.update_of_ne (hp r List.mem_cons_self) _ _
                · rcases List.mem_append.mp hs' with hs' | hs'
                  · exact .inl hs'
                  · rcases List.mem_cons.mp hs' with rfl | hs'
                    · exact .inr ⟨r, List.mem_cons_self, rfl, rfl, .inr rfl⟩
                    · exact .inr ⟨s', List.mem_cons_of_mem _ hs', rfl, rfl, .inl rfl⟩
            | none =>
                obtain ⟨kept, away, members, done⟩ :=
                  ih (i + 1) (Function.update disk (backupPath r.target rid) (some bytes))
                    (staged ++ [{ r with backup := some (backupPath r.target rid) }])
                dsimp only
                refine ⟨fun p hp => ?_, fun p hp => ?_, fun s' hs' => ?_, fun h hsep => ?_⟩
                · rw [kept p (by rw [hkept _ p hp]; exact hp), hkept _ p hp]
                · rw [away p fun q hq => hp q (List.mem_cons_of_mem _ hq),
                    Function.update_of_ne (hp r List.mem_cons_self)]
                · rcases members s' hs' with hs' | ⟨s, hs, h⟩
                  · rcases List.mem_append.mp hs' with hs' | hs'
                    · exact .inl hs'
                    · rw [List.mem_singleton.mp hs']
                      exact .inr ⟨r, List.mem_cons_self, rfl, rfl, .inr rfl⟩
                  · exact .inr ⟨s, List.mem_cons_of_mem _ hs, h⟩
                · obtain ⟨ss, hss, hall⟩ := done h fun s hs q hq =>
                    hsep s (List.mem_cons_of_mem _ hs) q (List.mem_cons_of_mem _ hq)
                  refine ⟨{ r with backup := some (backupPath r.target rid) } :: ss,
                    by rw [hss]; simp, .cons ⟨rfl, rfl, .inr ⟨bytes, htarget, rfl, ?_⟩⟩ ?_⟩
                  · rw [kept _ (by rw [Function.update_self]; rfl), Function.update_self]
                  · have hne : ∀ s ∈ rest, s.target ≠ backupPath r.target rid := fun s hs =>
                      hsep s (List.mem_cons_of_mem _ hs) r List.mem_cons_self
                    refine ((List.forall₂_and_left _ _).mpr ⟨hne, hall⟩).imp ?_
                    rintro s s' ⟨hs, htarget', htmp', hbackup⟩
                    rw [Function.update_of_ne hs] at hbackup
                    exact ⟨htarget', htmp', hbackup⟩

/-! ### Renames -/

theorem renameFile_of_ne {disk : Disk} {source target p : FilePath} (hs : p ≠ source)
    (ht : p ≠ target) : renameFile disk source target p = disk p := by
  unfold renameFile
  split_ifs
  · rfl
  · cases disk source with
    | none => rfl
    | some bytes => dsimp only; rw [Function.update_of_ne hs, Function.update_of_ne ht]

theorem renameFile_target {disk : Disk} {source target : FilePath} {bytes : Bytes}
    (hne : source ≠ target) (hs : disk source = some bytes) :
    renameFile disk source target target = some bytes := by
  unfold renameFile
  rw [if_neg hne, hs]
  dsimp only
  rw [Function.update_of_ne hne.symm, Function.update_self]

/-- The staged files are distinct and apart from the targets. -/
structure Apart (staged : List StagedRewrite) : Prop where
  targets : (staged.map StagedRewrite.target).Nodup
  tmps : (staged.map StagedRewrite.tmp).Nodup
  tmp_target : ∀ s ∈ staged, ∀ q ∈ staged, s.tmp ≠ q.target

theorem Apart.tail {s : StagedRewrite} {rest : List StagedRewrite} (h : Apart (s :: rest)) :
    Apart rest :=
  ⟨(List.nodup_cons.mp h.targets).2, (List.nodup_cons.mp h.tmps).2, fun q hq r hr =>
    h.tmp_target q (List.mem_cons_of_mem _ hq) r (List.mem_cons_of_mem _ hr)⟩

/-- What the renames leave. -/
structure Renamed (todo : List StagedRewrite) (disk : Disk) (renamed : List StagedRewrite)
    (out : Phase) : Prop where
  away : ∀ p, (∀ s ∈ todo, p ≠ s.target ∧ p ≠ s.tmp) → out.disk p = disk p
  front : ∃ as bs, todo = as ++ bs ∧ out.staged = renamed ++ as ∧
    ∀ s ∈ bs, ∀ p, p = s.target → (∀ q ∈ as, p ≠ q.target) → (∀ q ∈ todo, p ≠ q.tmp) →
      out.disk p = disk p
  done : out.failed = none → Apart todo →
    out.staged = renamed ++ todo ∧ ∀ s ∈ todo, out.disk s.target = disk s.tmp

theorem renameRewrites_spec (i : ℕ) (todo : List StagedRewrite) (disk : Disk)
    (renamed : List StagedRewrite) :
    Renamed todo disk renamed (renameRewrites answers i todo disk renamed) := by
  induction todo generalizing i disk renamed with
  | nil =>
      exact ⟨fun _ _ => rfl, ⟨[], [], rfl, by simp [renameRewrites], by simp⟩,
        fun _ _ => ⟨by simp [renameRewrites], by simp⟩⟩
  | cons s rest ih =>
      unfold renameRewrites
      split_ifs with hfail
      · exact ⟨fun _ _ => rfl, ⟨[], s :: rest, rfl, by simp, fun _ _ _ _ _ _ => rfl⟩,
          fun h => by cases h⟩
      · rw [not_or] at hfail
        obtain ⟨bytes, hbytes⟩ := Option.ne_none_iff_exists'.mp hfail.2
        obtain ⟨away, ⟨as, bs, hsplit, hstaged, hbs⟩, done⟩ :=
          ih (i + 1) (renameFile disk s.tmp s.target) (renamed ++ [s])
        refine ⟨fun p hp => ?_, ⟨s :: as, bs, by rw [hsplit]; rfl, by rw [hstaged]; simp, ?_⟩,
          fun h hapart => ?_⟩
        · obtain ⟨htarget, htmp⟩ := hp s List.mem_cons_self
          rw [away p fun q hq => hp q (List.mem_cons_of_mem _ hq), renameFile_of_ne htmp htarget]
        · intro q hq p hp htargets htmps
          rw [hbs q hq p hp (fun r hr => htargets r (List.mem_cons_of_mem _ hr))
            fun r hr => htmps r (List.mem_cons_of_mem _ hr)]
          exact renameFile_of_ne (htmps s List.mem_cons_self) (htargets s List.mem_cons_self)
        · obtain ⟨hall, hdisk⟩ := done h hapart.tail
          have htarget : ∀ q ∈ rest, s.target ≠ q.target := fun q hq he =>
            (List.nodup_cons.mp hapart.targets).1 (he ▸ List.mem_map_of_mem hq)
          have htmp : ∀ q ∈ rest, s.tmp ≠ q.tmp := fun q hq he =>
            (List.nodup_cons.mp hapart.tmps).1 (he ▸ List.mem_map_of_mem hq)
          refine ⟨by rw [hall]; simp, List.forall_mem_cons.mpr ⟨?_, fun q hq => ?_⟩⟩
          · rw [away s.target fun q hq => ⟨htarget q hq, fun he =>
              hapart.tmp_target q (List.mem_cons_of_mem _ hq) s List.mem_cons_self he.symm⟩]
            rw [renameFile_target (hapart.tmp_target s List.mem_cons_self s List.mem_cons_self)
              hbytes, hbytes]
          · rw [hdisk q hq]
            exact renameFile_of_ne (htmp q hq).symm
              (hapart.tmp_target q (List.mem_cons_of_mem _ hq) s List.mem_cons_self)

/-! ### Rollback and cleanup -/

theorem restoreTarget_of_ne {disk : Disk} {s : StagedRewrite} {p : FilePath} (ht : p ≠ s.target)
    (hb : s.backup ≠ some p) : restoreTarget disk s p = disk p := by
  unfold restoreTarget
  cases hbackup : s.backup with
  | none => exact Function.update_of_ne ht _ _
  | some backup =>
      refine renameFile_of_ne ?_ ht
      rintro rfl
      exact hb hbackup

/-- The backups are distinct, there, and apart from the targets. -/
structure Restorable (disk : Disk) (renamed : List StagedRewrite) : Prop where
  targets : (renamed.map StagedRewrite.target).Nodup
  backups : (renamed.filterMap StagedRewrite.backup).Nodup
  apart : ∀ s ∈ renamed, ∀ q ∈ renamed, s.backup ≠ some q.target
  present : ∀ s ∈ renamed, ∀ backup ∈ s.backup, (disk backup).isSome

theorem restore_spec (renamed : List StagedRewrite) (disk : Disk) :
    (∀ p, (∀ s ∈ renamed, p ≠ s.target ∧ s.backup ≠ some p) →
        renamed.foldl restoreTarget disk p = disk p) ∧
      (Restorable disk renamed →
        ∀ s ∈ renamed, renamed.foldl restoreTarget disk s.target = s.backup.bind disk) := by
  induction renamed generalizing disk with
  | nil => exact ⟨fun _ _ => rfl, by simp⟩
  | cons s rest ih =>
      obtain ⟨away, hit⟩ := ih (restoreTarget disk s)
      refine ⟨fun p hp => ?_, fun h => ?_⟩
      · obtain ⟨htarget, hbackup⟩ := hp s List.mem_cons_self
        rw [List.foldl_cons, away p fun q hq => hp q (List.mem_cons_of_mem _ hq),
          restoreTarget_of_ne htarget hbackup]
      · have htargets := List.nodup_cons.mp h.targets
        have hother : ∀ q ∈ rest, ∀ backup ∈ q.backup, restoreTarget disk s backup = disk backup := by
          intro q hq backup hbackup
          refine restoreTarget_of_ne ?_ ?_
          · rintro rfl
            exact h.apart q (List.mem_cons_of_mem _ hq) s List.mem_cons_self hbackup
          · intro hs
            have hnodup := h.backups
            rw [List.filterMap_cons_some hs] at hnodup
            exact (List.nodup_cons.mp hnodup).1 (List.mem_filterMap.mpr ⟨q, hq, hbackup⟩)
        have hrest : Restorable (restoreTarget disk s) rest := by
          refine ⟨htargets.2, ?_, ?_, ?_⟩
          · exact h.backups.sublist ((List.sublist_cons_self s rest).filterMap _)
          · exact fun q hq r hr =>
              h.apart q (List.mem_cons_of_mem _ hq) r (List.mem_cons_of_mem _ hr)
          · intro q hq backup hbackup
            rw [hother q hq backup hbackup]
            exact h.present q (List.mem_cons_of_mem _ hq) backup hbackup
        refine List.forall_mem_cons.mpr ⟨?_, fun q hq => ?_⟩
        · rw [List.foldl_cons, away s.target fun q hq => ⟨fun he =>
            htargets.1 (he ▸ List.mem_map_of_mem hq),
            h.apart q (List.mem_cons_of_mem _ hq) s List.mem_cons_self⟩]
          unfold restoreTarget
          cases hbackup : s.backup with
          | none => exact Function.update_self _ _ _
          | some backup =>
              obtain ⟨bytes, hbytes⟩ :=
                Option.isSome_iff_exists.mp (h.present s List.mem_cons_self backup hbackup)
              rw [Option.bind_some, hbytes]
              refine renameFile_target ?_ hbytes
              rintro rfl
              exact h.apart s List.mem_cons_self s List.mem_cons_self hbackup
        · rw [List.foldl_cons, hit hrest q hq]
          cases hbackup : q.backup with
          | none => rfl
          | some backup => exact hother q hq backup hbackup

theorem rollback_spec (renamed : List StagedRewrite) (disk : Disk) :
    (∀ p, (∀ s ∈ renamed, p ≠ s.target ∧ s.backup ≠ some p) →
        rollbackRenamedRewrites renamed disk p = disk p) ∧
      (Restorable disk renamed →
        ∀ s ∈ renamed, rollbackRenamedRewrites renamed disk s.target = s.backup.bind disk) := by
  obtain ⟨away, hit⟩ := restore_spec renamed.reverse disk
  refine ⟨fun p hp => away p fun s hs => hp s (List.mem_reverse.mp hs), fun h s hs => ?_⟩
  refine hit ⟨?_, ?_, ?_, ?_⟩ s (List.mem_reverse.mpr hs)
  · rw [List.map_reverse, List.nodup_reverse]
    exact h.targets
  · rw [List.filterMap_reverse, List.nodup_reverse]
    exact h.backups
  · exact fun q hq r hr => h.apart q (List.mem_reverse.mp hq) r (List.mem_reverse.mp hr)
  · exact fun q hq => h.present q (List.mem_reverse.mp hq)

theorem cleanupBackup_of_ne {disk : Disk} {s : StagedRewrite} {p : FilePath}
    (hb : s.backup ≠ some p) : cleanupBackup disk s p = disk p := by
  unfold cleanupBackup
  cases hbackup : s.backup with
  | none => rfl
  | some backup =>
      refine Function.update_of_ne ?_ _ _
      rintro rfl
      exact hb hbackup

theorem cleanupStagedRewrites_of_ne {staged : List StagedRewrite} {disk : Disk} {p : FilePath}
    (h : ∀ s ∈ staged, p ≠ s.tmp ∧ s.backup ≠ some p) :
    cleanupStagedRewrites staged disk p = disk p := by
  unfold cleanupStagedRewrites
  induction staged generalizing disk with
  | nil => rfl
  | cons s rest ih =>
      obtain ⟨htmp, hbackup⟩ := h s List.mem_cons_self
      rw [List.foldl_cons, ih fun q hq => h q (List.mem_cons_of_mem _ hq),
        cleanupBackup_of_ne hbackup]
      exact Function.update_of_ne htmp _ _

theorem cleanupCommittedBackups_of_ne {staged : List StagedRewrite} {disk : Disk} {p : FilePath}
    (h : ∀ s ∈ staged, s.backup ≠ some p) : cleanupCommittedBackups staged disk p = disk p := by
  unfold cleanupCommittedBackups
  induction staged generalizing disk with
  | nil => rfl
  | cons s rest ih =>
      rw [List.foldl_cons, ih fun q hq => h q (List.mem_cons_of_mem _ hq),
        cleanupBackup_of_ne (h s List.mem_cons_self)]

end

end Orgasmic
