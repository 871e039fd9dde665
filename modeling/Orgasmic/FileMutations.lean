import Orgasmic.TransactionAtomic

/-! # Single files read, changed and written back

`mutate_file_inner` and `transaction_mutate_file_inner`, and what a run that fails leaves behind.

* **Opening.** The file is opened with `create` before it is locked, read and handed to the
  transformation (`openTarget`); an absent file is an empty one from then on.
* **Sidecars.** A locked transaction that fails removes what it staged (`locked_error_elsewhere`);
  `mutate_file_inner` has no such cleanup. -/

namespace Orgasmic

open Text

/-! ### What an aborted transaction leaves -/

/-- The files that a staged rewrite has beside its target. -/
def StagedRewrite.sidecars (s : StagedRewrite) : List FilePath := s.tmp :: s.backup.toList

/-- The sidecars are new, and nothing but them has changed. -/
structure SidecarsTracked (disk₀ disk : Disk) (staged : List StagedRewrite) : Prop where
  fresh : ∀ s ∈ staged, ∀ p ∈ s.sidecars, disk₀ p = none
  changed : ∀ p, disk p = disk₀ p ∨ ∃ s ∈ staged, p ∈ s.sidecars

/-- A sidecar made at a free path. -/
theorem SidecarsTracked.create {disk₀ disk : Disk} {staged staged' : List StagedRewrite} {q : FilePath}
    (h : SidecarsTracked disk₀ disk staged) (bytes : Bytes) (hfree : disk q = none)
    (hold : ∀ s ∈ staged, ∃ s' ∈ staged', ∀ p ∈ s.sidecars, p ∈ s'.sidecars)
    (hnew : ∀ s' ∈ staged', ∀ p ∈ s'.sidecars, p = q ∨ ∃ s ∈ staged, p ∈ s.sidecars)
    (hq : ∃ s' ∈ staged', q ∈ s'.sidecars) :
    SidecarsTracked disk₀ (Function.update disk q (some bytes)) staged' := by
  have hfree₀ : disk₀ q = none := by
    rcases h.changed q with hsame | ⟨s, hs, hp⟩
    · exact hsame.symm.trans hfree
    · exact h.fresh s hs q hp
  refine ⟨fun s' hs' p hp => ?_, fun p => ?_⟩
  · rcases hnew s' hs' p hp with rfl | ⟨s, hs, hp⟩
    · exact hfree₀
    · exact h.fresh s hs p hp
  · by_cases hpq : p = q
    · exact .inr (hpq ▸ hq)
    · rw [Function.update_of_ne hpq]
      refine (h.changed p).imp_right fun ⟨s, hs, hp⟩ => ?_
      obtain ⟨s', hs', hsub⟩ := hold s hs
      exact ⟨s', hs', hsub p hp⟩

section
variable (answers : Answers) {rid : Text}

theorem stageRewrites_tracked {disk₀ : Disk} (i : ℕ) (rewrites : List FileRewrite) (disk : Disk)
    (staged : List StagedRewrite) (h : SidecarsTracked disk₀ disk staged) :
    SidecarsTracked disk₀ (stageRewrites answers rid i rewrites disk staged).disk
      (stageRewrites answers rid i rewrites disk staged).staged := by
  induction rewrites generalizing i disk staged with
  | nil => exact h
  | cons r rest ih =>
      unfold stageRewrites
      dsimp only
      split_ifs with hname hcreate
      · exact h
      · exact h
      · rw [not_or, Option.not_isSome_iff_eq_none] at hcreate
        have hmade (bytes : Bytes) : SidecarsTracked disk₀
            (Function.update disk (tmpPath r.path rid) (some bytes)) (staged ++ [stagedOf rid r]) := by
          refine h.create bytes hcreate.2
            (fun s hs => ⟨s, List.mem_append_left _ hs, fun _ => id⟩) (fun s hs p hp => ?_)
            ⟨_, List.mem_append_right _ (List.mem_singleton_self _), List.mem_cons_self⟩
          rcases List.mem_append.mp hs with hs | hs
          · exact .inr ⟨s, hs, hp⟩
          · rw [List.mem_singleton.mp hs] at hp
            exact .inl (by simpa [StagedRewrite.sidecars, stagedOf] using hp)
        cases answers.writeTmpFails i with
        | some left => exact hmade left
        | none => exact ih (i + 1) _ _ (hmade r.newContents)

theorem backUpTargets_tracked {disk₀ : Disk} (i : ℕ) (todo : List StagedRewrite) (disk : Disk)
    (staged : List StagedRewrite) (hnone : ∀ s ∈ todo, s.backup = none)
    (h : SidecarsTracked disk₀ disk (staged ++ todo)) :
    SidecarsTracked disk₀ (backUpTargets answers rid i todo disk staged).disk
      (backUpTargets answers rid i todo disk staged).staged := by
  induction todo generalizing i disk staged with
  | nil => simpa [backUpTargets] using h
  | cons s rest ih =>
      have hrest := fun q hq => hnone q (List.mem_cons_of_mem _ hq)
      unfold backUpTargets
      cases htarget : disk s.target with
      | none => exact ih (i + 1) disk (staged ++ [s]) hrest (by simpa using h)
      | some bytes =>
          dsimp only
          split_ifs with hcreate
          · exact h
          · rw [not_or, Option.not_isSome_iff_eq_none] at hcreate
            have hmade (bytes : Bytes) : SidecarsTracked disk₀
                (Function.update disk (backupPath s.target rid) (some bytes))
                (staged ++ { s with backup := some (backupPath s.target rid) } :: rest) := by
              refine h.create bytes hcreate.2 (fun q hq => ?_) (fun q hq p hp => ?_)
                ⟨_, List.mem_append_right _ List.mem_cons_self, by simp [StagedRewrite.sidecars]⟩
              · rcases List.mem_append.mp hq with hq | hq
                · exact ⟨q, List.mem_append_left _ hq, fun _ => id⟩
                · rcases List.mem_cons.mp hq with rfl | hq
                  · refine ⟨_, List.mem_append_right _ List.mem_cons_self, fun p hp => ?_⟩
                    simp only [StagedRewrite.sidecars, hnone q List.mem_cons_self, Option.toList_none,
                      List.mem_singleton] at hp
                    exact hp ▸ List.mem_cons_self
                  · exact ⟨q, List.mem_append_right _ (List.mem_cons_of_mem _ hq), fun _ => id⟩
              · rcases List.mem_append.mp hq with hq | hq
                · exact .inr ⟨q, List.mem_append_left _ hq, hp⟩
                · rcases List.mem_cons.mp hq with rfl | hq
                  · rcases List.mem_cons.mp hp with rfl | hp
                    · exact .inr ⟨s, List.mem_append_right _ List.mem_cons_self, List.mem_cons_self⟩
                    · exact .inl (by simpa using hp)
                  · exact .inr ⟨q, List.mem_append_right _ (List.mem_cons_of_mem _ hq), hp⟩
            cases answers.copyBackupFails i with
            | some left => exact hmade left
            | none =>
                refine ih (i + 1) _ _ hrest ?_
                simpa using hmade bytes

/-- The cleanup removes every sidecar. -/
theorem cleanupStagedRewrites_of_mem {staged : List StagedRewrite} {disk : Disk} {p : FilePath}
    (h : ∃ s ∈ staged, p ∈ s.sidecars) : cleanupStagedRewrites staged disk p = none := by
  have hstep (d : Disk) (s : StagedRewrite) (hp : p ∈ s.sidecars ∨ d p = none) :
      cleanupBackup (removeFile d s.tmp) s p = none := by
    unfold cleanupBackup removeFile
    cases hbackup : s.backup with
    | none =>
        by_cases he : p = s.tmp
        · exact he ▸ Function.update_self ..
        · simpa [StagedRewrite.sidecars, hbackup, he] using hp
    | some backup =>
        by_cases hb : p = backup
        · exact hb ▸ Function.update_self ..
        · dsimp only
          rw [Function.update_of_ne hb]
          by_cases he : p = s.tmp
          · exact he ▸ Function.update_self ..
          · simpa [StagedRewrite.sidecars, hbackup, he, hb] using hp
  have hrun (d : Disk) (hp : (∃ s ∈ staged, p ∈ s.sidecars) ∨ d p = none) :
      cleanupStagedRewrites staged d p = none := by
    unfold cleanupStagedRewrites
    clear h
    induction staged generalizing d with
    | nil => simpa using hp
    | cons s rest ih =>
        rw [List.foldl_cons]
        by_cases hrest : ∃ q ∈ rest, p ∈ q.sidecars
        · exact ih _ (.inl hrest)
        · refine ih _ (.inr (hstep d s ?_))
          rcases hp with ⟨q, hq, hp⟩ | hp
          · rcases List.mem_cons.mp hq with rfl | hq
            · exact .inl hp
            · exact absurd ⟨q, hq, hp⟩ hrest
          · exact .inr hp
  exact hrun disk (.inl h)

variable (isUuid : Text → Bool) {rewrites : List FileRewrite} {ledger : FilePath}
variable (handles : TxHandles) (disk : Disk) (txs : List TxAppend)

/-- What the first two phases staged is tracked. -/
theorem backupPhase_tracked :
    SidecarsTracked disk (stageRewrites answers rid 0 rewrites disk []).disk
        (stageRewrites answers rid 0 rewrites disk []).staged ∧
      SidecarsTracked disk (backupPhase answers rid disk rewrites).disk
        (backupPhase answers rid disk rewrites).staged := by
  have hstage : SidecarsTracked disk (stageRewrites answers rid 0 rewrites disk []).disk
      (stageRewrites answers rid 0 rewrites disk []).staged :=
    stageRewrites_tracked answers 0 rewrites disk [] ⟨by simp, fun _ => .inl rfl⟩
  refine ⟨hstage, backUpTargets_tracked answers 0 _ _ [] (fun s hs => ?_) hstage⟩
  rcases (stageRewrites_spec answers rid 0 rewrites disk []).members s hs with hs | ⟨r, -, rfl⟩
  · cases hs
  · rfl

/-- **A locked transaction that fails changes its targets and its ledger at most.** -/
theorem locked_error_elsewhere {e : WriterError}
    (he : (transactionMultiLockedInner isUuid answers handles disk rewrites ledger txs rid).result =
      .error e) {p : FilePath} (hledger : p ≠ ledger) (htarget : ∀ r ∈ rewrites, p ≠ r.path) :
    (transactionMultiLockedInner isUuid answers handles disk rewrites ledger txs rid).disk p =
      disk p := by
  obtain ⟨hstage, hbackup⟩ : SidecarsTracked disk (stageRewrites answers rid 0 rewrites disk []).disk
        (stageRewrites answers rid 0 rewrites disk []).staged ∧
      SidecarsTracked disk (backupPhase answers rid disk rewrites).disk
        (backupPhase answers rid disk rewrites).staged := backupPhase_tracked answers disk
  -- what is no sidecar is as the phases left it, a sidecar is removed
  have hclean {d d' : Disk} {staged : List StagedRewrite} (ht : SidecarsTracked disk d staged)
      (hd : (∀ s ∈ staged, p ∉ s.sidecars) → d' p = d p) :
      cleanupStagedRewrites staged d' p = disk p := by
    by_cases hp : ∃ s ∈ staged, p ∈ s.sidecars
    · obtain ⟨s, hs, hp'⟩ := hp
      rw [cleanupStagedRewrites_of_mem ⟨s, hs, hp'⟩, ht.fresh s hs p hp']
    · have hp' : ∀ s ∈ staged, p ∉ s.sidecars := fun s hs hmem => hp ⟨s, hs, hmem⟩
      rw [cleanupStagedRewrites_of_ne fun s hs => ?_, hd hp', (ht.changed p).resolve_right hp]
      have hnot := hp' s hs
      simp only [StagedRewrite.sidecars, List.mem_cons, Option.mem_toList, not_or] at hnot
      exact hnot
  have hmem : ∀ s ∈ (backupPhase answers rid disk rewrites).staged, Belongs rid rewrites s :=
    backup_belongs answers disk
  have hrename := renameRewrites_spec answers 0 (backupPhase answers rid disk rewrites).staged
    (backupPhase answers rid disk rewrites).disk []
  change Renamed _ _ _ (renamePhase answers rid disk rewrites) at hrename
  obtain ⟨as, bs, hsplit, hfront, -⟩ := hrename.front
  have hrolled (d : Disk) (hd : d p = (renamePhase answers rid disk rewrites).disk p)
      (hp : ∀ s ∈ (backupPhase answers rid disk rewrites).staged, p ∉ s.sidecars) :
      rollbackRenamedRewrites (renamePhase answers rid disk rewrites).staged d p =
        (backupPhase answers rid disk rewrites).disk p := by
    have haway : ∀ s ∈ (backupPhase answers rid disk rewrites).staged,
        p ≠ s.target ∧ p ≠ s.tmp ∧ s.backup ≠ some p := by
      intro s hs
      obtain ⟨r, hr, hrt, -⟩ := hmem s hs
      have hnot := hp s hs
      simp only [StagedRewrite.sidecars, List.mem_cons, Option.mem_toList, not_or] at hnot
      exact ⟨hrt ▸ htarget r hr, hnot⟩
    rw [(rollback_spec _ d).1 p fun s hs => ?_, hd,
      hrename.away p fun s hs => ⟨(haway s hs).1, (haway s hs).2.1⟩]
    rw [hfront, List.nil_append] at hs
    have hs' := haway s (hsplit ▸ List.mem_append_left _ hs)
    exact ⟨hs'.1, hs'.2.2⟩
  rw [locked_eq] at he ⊢
  dsimp only at he ⊢
  cases hs : (stageRewrites answers rid 0 rewrites disk []).failed with
  | some e => exact hclean hstage fun _ => rfl
  | none =>
      cases hb : (backupPhase answers rid disk rewrites).failed with
      | some e => exact hclean hbackup fun _ => rfl
      | none =>
          simp only [hs, hb] at he ⊢
          cases hv : answers.verifyFails with
          | true => exact hclean hbackup fun _ => rfl
          | false =>
              cases hr : (renamePhase answers rid disk rewrites).failed with
              | some e => exact hclean hbackup (hrolled _ rfl)
              | none =>
                  simp only [hv, hr, if_neg Bool.false_ne_true] at he ⊢
                  obtain ⟨-, -, haway⟩ := appendTxsInner_local isUuid answers handles
                    (renamePhase answers rid disk rewrites).disk _ ledger txs rfl
                  have hat := haway p hledger
                  revert he hat
                  rcases appendTxsInner isUuid answers handles
                    (renamePhase answers rid disk rewrites).disk ledger txs with ⟨handles', d, result⟩
                  cases result with
                  | ok results => exact fun he => by cases he
                  | error e => exact fun _ hat => hclean hbackup (hrolled d hat)

end

/-! ### The operations -/

/-- What the file system answers until the transformation has its text. -/
structure OpeningAnswers where
  isDir : Bool
  createDirFails : Bool
  openFails : Bool
  lockFails : Bool
  readFails : Bool
deriving DecidableEq, Repr

/-- The answers of `mutate_file_inner`. -/
structure MutateAnswers extends OpeningAnswers where
  /-- What a write that fails leaves at the temporary path; `some none` if it was not opened. -/
  writeTmpFails : Option (Option Bytes)
  renameFails : Bool
deriving DecidableEq, Repr

/-- `FileMutateTransform`. -/
abbrev FileMutateTransform := Text → Except WriterError Bytes

section
variable (opening : OpeningAnswers) (disk : Disk) (path : FilePath)

/-- The disk once the file is opened with `create`. -/
def createdAt : Disk := Function.update disk path (some ((disk path).getD []))

/-- The file is opened, and made if there is none, then locked. -/
def openTarget : Disk × Except WriterError Unit :=
  if opening.isDir then
    (disk, .error (.message ("rewrite target is a directory: ".toList ++ displayPath path)))
  else if opening.createDirFails then (disk, .error (.io "create".toList))
  else if opening.openFails then (disk, .error (.io "open".toList))
  else if opening.lockFails then (createdAt disk path, .error (.io "flock contention".toList))
  else (createdAt disk path, .ok ())

/-- What the transformation makes of the file. -/
def transformTarget (transform : FileMutateTransform) : Except WriterError Bytes :=
  if opening.readFails then .error (.io "read".toList)
  else match readToString ((disk path).getD []) with
    | none => .error (.io "read".toList)
    | some source => transform source

/-- The sidecar of `mutate_file_inner`. -/
def mutateTmpPath : FilePath :=
  path.dropLast ++ [(fileName path).getD [] ++ ".tmp".toList]

end

/-- `mutate_file_inner`. -/
def mutateFileInner (answers : MutateAnswers) (disk : Disk) (path : FilePath)
    (transform : FileMutateTransform) : Disk × Except WriterError Unit :=
  match openTarget answers.toOpeningAnswers disk path with
  | (disk, .error e) => (disk, .error e)
  | (disk, .ok ()) =>
      match transformTarget answers.toOpeningAnswers disk path transform with
      | .error e => (disk, .error e)
      | .ok newContents =>
          let tmp := mutateTmpPath path
          if fileName path = none then
            (disk, .error (.message "mutate target has no filename".toList))
          else match answers.writeTmpFails with
            | some none => (disk, .error (.io "write".toList))
            | some (some left) =>
                (Function.update disk tmp (some left), .error (.io "write".toList))
            | none =>
                let disk := Function.update disk tmp (some newContents)
                if answers.renameFails then (disk, .error (.io "rename".toList))
                else (renameFile disk tmp path, .ok ())

/-- `transaction_mutate_file_inner`. -/
def transactionMutateFileInner (isUuid : Text → Bool) (opening : OpeningAnswers) (answers : Answers)
    (handles : TxHandles) (disk : Disk) (path : FilePath) (transform : FileMutateTransform)
    (tx : TxAppend) (requestId : Text) : TransactionOutcome :=
  match openTarget opening disk path with
  | (disk, .error e) => ⟨handles, disk, .error e⟩
  | (disk, .ok ()) =>
      match transformTarget opening disk path transform with
      | .error e => ⟨handles, disk, .error e⟩
      | .ok newContents =>
          -- there is nothing to verify before the commit
          transactionMultiLockedInner isUuid { answers with verifyFails := false } handles disk
            [⟨path, newContents⟩] tx.txPath [tx] requestId

/-! ### After an error -/

/-- The file is opened, and so is there from then on. -/
def OpeningAnswers.Opens (opening : OpeningAnswers) : Prop :=
  opening.isDir = false ∧ opening.createDirFails = false ∧ opening.openFails = false

/-- The temporary file is written and stays behind, and is not what was there. -/
def LeavesSidecar (answers : MutateAnswers) (disk : Disk) (path : FilePath)
    (transform : FileMutateTransform) : Prop :=
  answers.Opens ∧ answers.lockFails = false ∧ fileName path ≠ none ∧
    ∃ newContents left, transformTarget answers.toOpeningAnswers disk path transform =
        .ok newContents ∧
      (answers.writeTmpFails = some (some left) ∨
        answers.writeTmpFails = none ∧ answers.renameFails = true ∧ left = newContents) ∧
      disk (mutateTmpPath path) ≠ some left

/-- With an error no file but the ledger has changed, and the ledger has no row. -/
def TransactionOutcome.AsBefore (answers : Answers) (handles : TxHandles) (disk : Disk)
    (ledger : FilePath) (out : TransactionOutcome) : Prop :=
  (∀ p ≠ ledger, out.disk p = disk p) ∧ Opened answers handles disk ledger (out.disk ledger)

section
variable (opening : OpeningAnswers) (disk : Disk) (path : FilePath)

theorem createdAt_of_ne {p : FilePath} (h : p ≠ path) : createdAt disk path p = disk p :=
  Function.update_of_ne h _ _

theorem createdAt_eq_iff : createdAt disk path path = disk path ↔ disk path ≠ none := by
  rw [createdAt, Function.update_self]
  cases disk path with
  | none => simp
  | some bytes => simp

theorem createdAt_eq_self_iff : createdAt disk path = disk ↔ disk path ≠ none := by
  rw [← createdAt_eq_iff]
  refine ⟨fun h => congrFun h path, fun h => funext fun p => ?_⟩
  by_cases hp : p = path
  · exact hp ▸ h
  · exact createdAt_of_ne disk path hp

/-- A sidecar written beside the opened file. -/
theorem update_createdAt_eq_self_iff {tmp : FilePath} (htmp : tmp ≠ path) (left : Bytes) :
    Function.update (createdAt disk path) tmp (some left) = disk ↔
      disk path ≠ none ∧ disk tmp = some left := by
  constructor
  · intro h
    refine ⟨(createdAt_eq_iff disk path).mp ?_, ?_⟩
    · have hpath := congrFun h path
      rwa [Function.update_of_ne htmp.symm] at hpath
    · rw [← h, Function.update_self]
  · rintro ⟨hpath, hleft⟩
    rw [(createdAt_eq_self_iff disk path).mpr hpath, ← hleft, Function.update_eq_self]

/-- The transformation gets the empty text for an absent file. -/
theorem transformTarget_createdAt (transform : FileMutateTransform) :
    transformTarget opening (createdAt disk path) path transform =
      transformTarget opening disk path transform := by
  unfold transformTarget createdAt
  rw [Function.update_self, Option.getD_some]

theorem openTarget_cases :
    (¬opening.Opens ∧ ∃ e, openTarget opening disk path = (disk, .error e)) ∨
      opening.Opens ∧ (opening.lockFails = true ∧
          (∃ e, openTarget opening disk path = (createdAt disk path, .error e)) ∨
        opening.lockFails = false ∧
          openTarget opening disk path = (createdAt disk path, .ok ())) := by
  unfold openTarget OpeningAnswers.Opens
  cases opening.isDir with
  | true => exact .inl ⟨by simp, _, rfl⟩
  | false =>
      cases opening.createDirFails with
      | true => exact .inl ⟨by simp, _, rfl⟩
      | false =>
          cases opening.openFails with
          | true => exact .inl ⟨by simp, _, rfl⟩
          | false =>
              cases opening.lockFails with
              | true => exact .inr ⟨by simp, .inl ⟨rfl, _, rfl⟩⟩
              | false => exact .inr ⟨by simp, .inr ⟨rfl, rfl⟩⟩

theorem sidecar_ne_of_length {name extra : Text} (h : extra ≠ [])
    (hname : name = (fileName path).getD []) : path.dropLast ++ [name ++ extra] ≠ path := by
  subst hname
  intro he
  have hlast := congrArg List.getLast? he
  rw [List.getLast?_concat] at hlast
  rw [fileName, ← hlast] at hlast
  have hlength := congrArg List.length (Option.some.inj hlast)
  have hpos := List.length_pos_of_ne_nil h
  simp only [Option.getD_some, List.length_append] at hlength
  omega

theorem mutateTmpPath_ne : mutateTmpPath path ≠ path :=
  sidecar_ne_of_length path (by decide) rfl

theorem sidecarPath_ne (kind rid : Text) : sidecarPath path kind rid ≠ path := by
  unfold sidecarPath
  rw [List.append_assoc, List.append_assoc, List.append_assoc]
  exact sidecar_ne_of_length path (by simp) rfl

end

/-- A failed `mutate_file_inner` changes nothing iff it made no file and left no sidecar. -/
theorem mutateFileInner_error_iff (answers : MutateAnswers) (disk : Disk) (path : FilePath)
    (transform : FileMutateTransform) {e : WriterError}
    (he : (mutateFileInner answers disk path transform).2 = .error e) :
    (mutateFileInner answers disk path transform).1 = disk ↔
      ¬(answers.Opens ∧ disk path = none) ∧ ¬LeavesSidecar answers disk path transform := by
  -- up to the write nothing but the file itself can change
  have hcreated (hopens : answers.Opens) (hleaves : ¬LeavesSidecar answers disk path transform) :
      createdAt disk path = disk ↔
        ¬(answers.Opens ∧ disk path = none) ∧ ¬LeavesSidecar answers disk path transform := by
    rw [createdAt_eq_self_iff, not_and]
    exact ⟨fun h => ⟨fun _ => h, hleaves⟩, fun h => h.1 hopens⟩
  unfold mutateFileInner at he ⊢
  rcases openTarget_cases answers.toOpeningAnswers disk path with
    ⟨hnot, e', hopen⟩ | ⟨hopens, ⟨hlock, e', hopen⟩ | ⟨hlock, hopen⟩⟩
  · rw [hopen]
    exact iff_of_true rfl ⟨fun h => hnot h.1, fun h => hnot h.1⟩
  · rw [hopen]
    refine hcreated hopens fun h => ?_
    rw [h.2.1] at hlock
    cases hlock
  · simp only [hopen, transformTarget_createdAt] at he ⊢
    cases htransform : transformTarget answers.toOpeningAnswers disk path transform with
    | error e' =>
        refine hcreated hopens ?_
        rintro ⟨-, -, -, newContents, -, htransform', -⟩
        rw [htransform'] at htransform
        cases htransform
    | ok newContents =>
        simp only [htransform] at he ⊢
        by_cases hname : fileName path = none
        · rw [if_pos hname]
          exact hcreated hopens fun h => h.2.2.1 hname
        · rw [if_neg hname] at he ⊢
          -- the sidecar holds `left` in the end
          have hwritten (left : Bytes) (hleft : ∀ left',
              (answers.writeTmpFails = some (some left') ∨ answers.writeTmpFails = none ∧
                answers.renameFails = true ∧ left' = newContents) ↔ left' = left) :
              Function.update (createdAt disk path) (mutateTmpPath path) (some left) = disk ↔
                ¬(answers.Opens ∧ disk path = none) ∧
                  ¬LeavesSidecar answers disk path transform := by
            rw [update_createdAt_eq_self_iff disk path (mutateTmpPath_ne path), not_and]
            constructor
            · rintro ⟨hpath, hsame⟩
              refine ⟨fun _ => hpath, ?_⟩
              rintro ⟨-, -, -, newContents', left', htransform', hcases, hdiff⟩
              rw [htransform, Except.ok.injEq] at htransform'
              subst htransform'
              exact hdiff ((hleft left').mp hcases ▸ hsame)
            · rintro ⟨hpath, hleaves⟩
              refine ⟨hpath hopens, ?_⟩
              by_contra hdiff
              exact hleaves ⟨hopens, hlock, hname, newContents, left, htransform,
                (hleft left).mpr rfl, hdiff⟩
          cases hwrite : answers.writeTmpFails with
          | some opened =>
              cases opened with
              | none =>
                  refine hcreated hopens ?_
                  rintro ⟨-, -, -, _, left, -, hcases, -⟩
                  rw [hwrite] at hcases
                  simp at hcases
              | some left =>
                  refine hwritten left fun left' => ?_
                  rw [hwrite]
                  simp only [Option.some.injEq, reduceCtorEq, false_and, or_false]
                  exact eq_comm
          | none =>
              simp only [hwrite] at he ⊢
              cases hrename : answers.renameFails with
              | true => exact hwritten newContents fun left' => by simp [hwrite, hrename]
              | false =>
                  rw [hrename] at he
                  cases he

/-- One row alone is never refused late. -/
theorem not_lateRefusal_singleton (w : CachedTxWriter) (entry : TxEntry) :
    ¬LateRefusal w [entry] := by
  rintro ⟨⟨row, hrow, hrefused⟩, first, hfirst, haccepted⟩
  have hrows : newRows (w.eventIds.map Prod.fst) [entry] = [] ∨
      newRows (w.eventIds.map Prod.fst) [entry] = [entry] := by
    simp only [newRows]
    split_ifs
    · exact .inl rfl
    · exact .inr rfl
  rcases hrows with hrows | hrows
  · rw [hrows] at hrow
    cases hrow
  · rw [hrows] at hrow hfirst
    rw [List.mem_singleton.mp hrow] at hrefused
    rw [← Option.some.inj hfirst, hrefused] at haccepted
    cases haccepted

/-- What opening the ledger leaves depends on the ledger alone. -/
theorem opened_congr {answers answers' : Answers} {handles : TxHandles} {d₁ d₂ : Disk}
    {ledger : FilePath} (h : d₁ ledger = d₂ ledger) (hnames : answers.namesWriter = answers'.namesWriter)
    (hfails : answers.openLedgerFails = answers'.openLedgerFails) (content : Option Bytes) :
    Opened answers handles d₁ ledger content ↔ Opened answers' handles d₂ ledger content := by
  unfold Opened openedLedger
  rw [hnames, hfails, h, (handleAt_local _ d₁ d₂ ledger _ h).2.2.1]

/-- A failed `transaction_mutate_file_inner` leaves all as before iff it made no file. -/
theorem transactionMutateFileInner_error_iff (isUuid : Text → Bool) (opening : OpeningAnswers)
    (answers : Answers) (handles : TxHandles) (disk : Disk) (path : FilePath)
    (transform : FileMutateTransform) (tx : TxAppend) (rid : Text)
    (hledger : tx.txPath ∉ [path, tmpPath path rid, backupPath path rid]) {e : WriterError}
    (he : (transactionMutateFileInner isUuid opening answers handles disk path transform tx
      rid).result = .error e) :
    (transactionMutateFileInner isUuid opening answers handles disk path transform tx rid).AsBefore
        answers handles disk tx.txPath ↔ ¬(opening.Opens ∧ disk path = none) := by
  simp only [List.mem_cons, List.not_mem_nil, or_false, not_or] at hledger
  obtain ⟨hpath, htmp, hbackup⟩ := hledger
  have htarget : path ≠ tx.txPath := Ne.symm hpath
  have hat : createdAt disk path tx.txPath = disk tx.txPath := createdAt_of_ne disk path hpath
  -- all that can have changed is the file that was made
  have hcreated (hopens : opening.Opens) (out : TransactionOutcome)
      (hout : ∀ p ≠ tx.txPath, out.disk p = createdAt disk path p)
      (hopened : Opened answers handles disk tx.txPath (out.disk tx.txPath)) :
      out.AsBefore answers handles disk tx.txPath ↔ ¬(opening.Opens ∧ disk path = none) := by
    rw [not_and]
    constructor
    · rintro ⟨hsame, -⟩ -
      exact (createdAt_eq_iff disk path).mp ((hout path htarget).symm.trans (hsame path htarget))
    · intro hthere
      refine ⟨fun p hp => ?_, hopened⟩
      rw [hout p hp, (createdAt_eq_self_iff disk path).mpr (hthere hopens)]
  unfold transactionMutateFileInner at he ⊢
  rcases openTarget_cases opening disk path with
    ⟨hnot, e', hopen⟩ | ⟨hopens, ⟨-, e', hopen⟩ | ⟨-, hopen⟩⟩
  · rw [hopen]
    exact iff_of_true ⟨fun _ _ => rfl, .inl rfl⟩ fun h => hnot h.1
  · rw [hopen]
    exact hcreated hopens _ (fun _ _ => rfl) (.inl (congrArg (·.getD []) hat))
  · simp only [hopen, transformTarget_createdAt] at he ⊢
    cases htransform : transformTarget opening disk path transform with
    | error e' => exact hcreated hopens _ (fun _ _ => rfl) (.inl (congrArg (·.getD []) hat))
    | ok newContents =>
        simp only [htransform] at he ⊢
        have hseparate : Separate rid [⟨path, newContents⟩] tx.txPath := by
          constructor <;> simp only [List.mem_singleton, forall_eq]
          · exact htarget
          · exact Ne.symm htmp
          · exact Ne.symm hbackup
          · exact sidecarPath_ne path _ rid
          · exact sidecarPath_ne path _ rid
        have hall := (locked_allOrNothing_iff isUuid { answers with verifyFails := false } handles
          (createdAt disk path) [tx] hseparate (List.nodup_singleton _)).mpr ?_
        · rw [AllOrNothing, he] at hall
          obtain ⟨hrestored, hopened⟩ := hall
          refine hcreated hopens _ (fun p hp => ?_) ((opened_congr hat rfl rfl _).mp hopened)
          by_cases hptarget : p = path
          · exact hptarget ▸ hrestored _ (List.mem_singleton_self _)
          · exact locked_error_elsewhere _ isUuid handles _ [tx] he hp fun r hr => by
              rw [List.mem_singleton.mp hr]
              exact hptarget
        · rintro ⟨-, -, entries, w, hprepare, -, hlate⟩
          have hsingle : ∃ entry, entries = [entry] := by
            rw [prepareTxEntries] at hprepare
            cases hentry : prepareTxEntry isUuid (answers.minted 0) tx with
            | error e => simp [hentry] at hprepare
            | ok entry =>
                simp only [hentry, prepareTxEntries, Except.map, Except.ok.injEq] at hprepare
                exact ⟨entry, hprepare.symm⟩
          obtain ⟨entry, rfl⟩ := hsingle
          exact not_lateRefusal_singleton w entry hlate

/-- **After an error the files are as before**, unless the file was absent and could be opened, or
the temporary file of a plain mutation was written. -/
theorem mutateFile_asBefore_iff (isUuid : Text → Bool) (opening : OpeningAnswers)
    (mutate : MutateAnswers) (answers : Answers) (handles : TxHandles) (disk : Disk)
    (path : FilePath) (transform : FileMutateTransform) (tx : TxAppend) (rid : Text)
    (hledger : tx.txPath ∉ [path, tmpPath path rid, backupPath path rid]) :
    ((∃ e, (mutateFileInner mutate disk path transform).2 = .error e) →
        ((mutateFileInner mutate disk path transform).1 = disk ↔
          ¬(mutate.Opens ∧ disk path = none) ∧ ¬LeavesSidecar mutate disk path transform)) ∧
      ((∃ e, (transactionMutateFileInner isUuid opening answers handles disk path transform tx
          rid).result = .error e) →
        ((transactionMutateFileInner isUuid opening answers handles disk path transform tx
            rid).AsBefore answers handles disk tx.txPath ↔ ¬(opening.Opens ∧ disk path = none))) := by
  constructor
  · rintro ⟨e, he⟩
    exact mutateFileInner_error_iff mutate disk path transform he
  · rintro ⟨e, he⟩
    exact transactionMutateFileInner_error_iff isUuid opening answers handles disk path transform tx
      rid hledger he

namespace Mutation

def path : FilePath := ["node-1".toList, "node.org".toList]

/-- Nothing fails. -/
def fair : OpeningAnswers := ⟨false, false, false, false, false⟩

/-- The transformation refuses whatever it reads. -/
def refuse : FileMutateTransform := fun _ => .error (.message "refused".toList)

end Mutation

theorem mutateFile_asBefore_iff_sample :
    ((∃ e, (mutateFileInner ⟨Mutation.fair, none, false⟩ Refused.disk Mutation.path
          Mutation.refuse).2 = .error e) →
        ((mutateFileInner ⟨Mutation.fair, none, false⟩ Refused.disk Mutation.path
            Mutation.refuse).1 = Refused.disk ↔
          ¬(Mutation.fair.Opens ∧ Refused.disk Mutation.path = none) ∧
            ¬LeavesSidecar ⟨Mutation.fair, none, false⟩ Refused.disk Mutation.path
              Mutation.refuse)) ∧
      ((∃ e, (transactionMutateFileInner (fun _ => true) Mutation.fair Refused.answers
          Refused.handles Refused.disk Mutation.path Mutation.refuse (Refused.note "a".toList)
          "r".toList).result = .error e) →
        ((transactionMutateFileInner (fun _ => true) Mutation.fair Refused.answers Refused.handles
            Refused.disk Mutation.path Mutation.refuse (Refused.note "a".toList)
            "r".toList).AsBefore Refused.answers Refused.handles Refused.disk
              (Refused.note "a".toList).txPath ↔
          ¬(Mutation.fair.Opens ∧ Refused.disk Mutation.path = none))) :=
  mutateFile_asBefore_iff (fun _ => true) Mutation.fair ⟨Mutation.fair, none, false⟩
    Refused.answers Refused.handles Refused.disk Mutation.path Mutation.refuse
    (Refused.note "a".toList) "r".toList (by decide)

/-- The transformation refuses an absent file: an empty file stays, with either operation. -/
theorem mutateFile_asBefore_fails :
    Refused.disk Mutation.path = none ∧
      (mutateFileInner ⟨Mutation.fair, none, false⟩ Refused.disk Mutation.path
        Mutation.refuse).2 = .error (.message "refused".toList) ∧
      (mutateFileInner ⟨Mutation.fair, none, false⟩ Refused.disk Mutation.path
        Mutation.refuse).1 Mutation.path = some [] ∧
      (transactionMutateFileInner (fun _ => true) Mutation.fair Refused.answers Refused.handles
        Refused.disk Mutation.path Mutation.refuse (Refused.note "a".toList) "r".toList).disk
          Mutation.path = some [] := by
  decide +kernel

end Orgasmic
