import Orgasmic.TransactionPhases

/-! # All or nothing

When a transaction changes all of its files and its ledger, or none.

* **Files.** `locked_spec`: before the append every failure leaves the targets as they were, and an
  append that fails is rolled back.
* **Ledger.** `appendMany` writes the accepted rows in front of the first one that is refused, and
  the rollback does not take them out again: `LateRefusal`. -/

namespace Orgasmic

open Text

section
variable (isUuid : Text → Bool) (answers : Answers) (rid : Text)

/-! ### Files -/

/-- Targets, sidecars and the ledger are different files. -/
structure Separate (rewrites : List FileRewrite) (ledger : FilePath) : Prop where
  target_ledger : ∀ r ∈ rewrites, r.path ≠ ledger
  tmp_ledger : ∀ r ∈ rewrites, tmpPath r.path rid ≠ ledger
  backup_ledger : ∀ r ∈ rewrites, backupPath r.path rid ≠ ledger
  tmp_target : ∀ r ∈ rewrites, ∀ q ∈ rewrites, tmpPath r.path rid ≠ q.path
  backup_target : ∀ r ∈ rewrites, ∀ q ∈ rewrites, backupPath r.path rid ≠ q.path

/-- The backups of the staged rewrites. -/
def backupPhase (disk : Disk) (rewrites : List FileRewrite) : Phase :=
  let s := stageRewrites answers rid 0 rewrites disk []
  backUpTargets answers rid 0 s.staged s.disk []

/-- The renames of the backed up rewrites. -/
def renamePhase (disk : Disk) (rewrites : List FileRewrite) : Phase :=
  let b := backupPhase answers rid disk rewrites
  renameRewrites answers 0 b.staged b.disk []

/-- Every step on the files before the append succeeds. -/
def FilesReady (disk : Disk) (rewrites : List FileRewrite) : Prop :=
  (stageRewrites answers rid 0 rewrites disk []).failed = none ∧
    (backupPhase answers rid disk rewrites).failed = none ∧ answers.verifyFails = false ∧
      (renamePhase answers rid disk rewrites).failed = none

/-- The staged rewrites belong to the rewrites; their backups, if any, to the targets. -/
def Belongs (rewrites : List FileRewrite) (s : StagedRewrite) : Prop :=
  ∃ r ∈ rewrites, s.target = r.path ∧ s.tmp = tmpPath r.path rid ∧
    (s.backup = none ∨ s.backup = some (backupPath r.path rid))

variable {rid}

theorem Separate.cleanup {rewrites : List FileRewrite} {ledger : FilePath}
    (h : Separate rid rewrites ledger) {staged : List StagedRewrite}
    (hs : ∀ s ∈ staged, Belongs rid rewrites s) (disk : Disk) {p : FilePath}
    (hp : p = ledger ∨ ∃ r ∈ rewrites, p = r.path) :
    cleanupStagedRewrites staged disk p = disk p ∧
      cleanupCommittedBackups staged disk p = disk p := by
  have hfree : ∀ s ∈ staged, p ≠ s.tmp ∧ s.backup ≠ some p := by
    intro s hs'
    obtain ⟨r, hr, -, htmp, hbackup⟩ := hs s hs'
    rw [htmp]
    constructor
    · rcases hp with rfl | ⟨q, hq, rfl⟩
      · exact (h.tmp_ledger r hr).symm
      · exact (h.tmp_target r hr q hq).symm
    · rcases hbackup with hbackup | hbackup
      · rw [hbackup]
        simp
      · rw [hbackup, ne_eq, Option.some.injEq]
        rcases hp with rfl | ⟨q, hq, rfl⟩
        · exact h.backup_ledger r hr
        · exact h.backup_target r hr q hq
  exact ⟨cleanupStagedRewrites_of_ne hfree, cleanupCommittedBackups_of_ne fun s hs => (hfree s hs).2⟩

variable {rewrites : List FileRewrite} {ledger : FilePath} (disk : Disk)

theorem stage_belongs :
    ∀ s ∈ (stageRewrites answers rid 0 rewrites disk []).staged, Belongs rid rewrites s := by
  intro s hs
  rcases (stageRewrites_spec answers rid 0 rewrites disk []).members s hs with hs | ⟨r, hr, rfl⟩
  · cases hs
  · exact ⟨r, hr, rfl, rfl, .inl rfl⟩

theorem backup_belongs :
    ∀ s ∈ (backupPhase answers rid disk rewrites).staged, Belongs rid rewrites s := by
  intro s' hs'
  rcases (backUpTargets_spec answers rid 0 _ _ []).members s' hs' with hs' | ⟨s, hs, htarget, htmp, hb⟩
  · cases hs'
  · obtain ⟨r, hr, htarget', htmp', hb'⟩ := stage_belongs answers disk s hs
    refine ⟨r, hr, htarget.trans htarget', htmp.trans htmp', ?_⟩
    rcases hb with hb | hb
    · rw [hb]
      exact hb'
    · rw [hb, htarget']
      exact .inr rfl

theorem Separate.stage_disk (h : Separate rid rewrites ledger) {p : FilePath}
    (hp : p = ledger ∨ ∃ r ∈ rewrites, p = r.path) :
    (stageRewrites answers rid 0 rewrites disk []).disk p = disk p := by
  refine (stageRewrites_spec answers rid 0 rewrites disk []).away p fun r hr => ?_
  rcases hp with rfl | ⟨q, hq, rfl⟩
  · exact (h.tmp_ledger r hr).symm
  · exact (h.tmp_target r hr q hq).symm

theorem Separate.backup_disk (h : Separate rid rewrites ledger) {p : FilePath}
    (hp : p = ledger ∨ ∃ r ∈ rewrites, p = r.path) :
    (backupPhase answers rid disk rewrites).disk p = disk p := by
  rw [← h.stage_disk answers disk hp]
  refine (backUpTargets_spec answers rid 0 _ _ []).away p fun s hs => ?_
  obtain ⟨r, hr, htarget, -, -⟩ := stage_belongs answers disk s hs
  rw [htarget]
  rcases hp with rfl | ⟨q, hq, rfl⟩
  · exact (h.backup_ledger r hr).symm
  · exact (h.backup_target r hr q hq).symm

/-- The backed up rewrites, one for each rewrite. -/
theorem Separate.backed_up (h : Separate rid rewrites ledger)
    (hs : (stageRewrites answers rid 0 rewrites disk []).failed = none)
    (hb : (backupPhase answers rid disk rewrites).failed = none) :
    List.Forall₂ (fun r s => fileName r.path ≠ none ∧ s.target = r.path ∧
        s.tmp = tmpPath r.path rid ∧
        (backupPhase answers rid disk rewrites).disk s.tmp = some r.newContents ∧
        ((disk r.path = none ∧ s.backup = none) ∨ ∃ bytes, disk r.path = some bytes ∧
          s.backup = some (backupPath r.path rid) ∧
          (backupPhase answers rid disk rewrites).disk (backupPath r.path rid) = some bytes))
      rewrites (backupPhase answers rid disk rewrites).staged := by
  have hstage := stageRewrites_spec answers rid 0 rewrites disk []
  obtain ⟨hstaged, hnew⟩ := hstage.done hs
  have hbackup := backUpTargets_spec answers rid 0
    (stageRewrites answers rid 0 rewrites disk []).staged
    (stageRewrites answers rid 0 rewrites disk []).disk []
  have hsep : ∀ s ∈ (stageRewrites answers rid 0 rewrites disk []).staged,
      ∀ q ∈ (stageRewrites answers rid 0 rewrites disk []).staged,
        s.target ≠ backupPath q.target rid := by
    intro s hs q hq
    obtain ⟨r, hr, hrt, -, -⟩ := stage_belongs answers disk s hs
    obtain ⟨r', hr', hrt', -, -⟩ := stage_belongs answers disk q hq
    rw [hrt, hrt']
    exact (h.backup_target r' hr' r hr).symm
  obtain ⟨ss, hss, hall⟩ := hbackup.done hb hsep
  rw [List.nil_append] at hss hstaged
  have hss' : (backupPhase answers rid disk rewrites).staged = ss := hss
  change List.Forall₂ (BackedUp rid _ (backupPhase answers rid disk rewrites).disk) _ ss at hall
  rw [hstaged, List.forall₂_map_left_iff] at hall
  rw [hss']
  have hmem : ∀ r ∈ rewrites, r ∈ rewrites := fun _ => id
  refine ((List.forall₂_and_left _ _).mpr ⟨hmem, hall⟩).imp ?_
  rintro r s ⟨hr, htarget, htmp, hcopy⟩
  have hkept := hbackup.kept (tmpPath r.path rid) (by rw [(hnew r hr).2]; rfl)
  refine ⟨(hnew r hr).1, htarget, htmp, ?_, ?_⟩
  · rw [htmp]
    exact hkept.trans (hnew r hr).2
  · rw [show (stagedOf rid r).target = r.path from rfl,
      h.stage_disk answers disk (.inr ⟨r, hr, rfl⟩)] at hcopy
    exact hcopy

theorem map_eq_of_forall₂ {α β γ : Type*} {f : α → γ} {g : β → γ} {as : List α} {bs : List β}
    (h : List.Forall₂ (fun a b => g b = f a) as bs) : bs.map g = as.map f := by
  induction h with
  | nil => rfl
  | cons hab _ ih => rw [List.map_cons, List.map_cons, hab, ih]

theorem exists_left_of_forall₂ {α β : Type*} {R : α → β → Prop} {as : List α} {bs : List β}
    (h : List.Forall₂ R as bs) : ∀ b ∈ bs, ∃ a ∈ as, R a b := by
  induction h with
  | nil => simp
  | cons hab _ ih =>
      refine List.forall_mem_cons.mpr ⟨⟨_, List.mem_cons_self, hab⟩, fun b hb => ?_⟩
      obtain ⟨a, ha, hr⟩ := ih b hb
      exact ⟨a, List.mem_cons_of_mem _ ha, hr⟩

theorem exists_right_of_forall₂ {α β : Type*} {R : α → β → Prop} {as : List α} {bs : List β}
    (h : List.Forall₂ R as bs) : ∀ a ∈ as, ∃ b ∈ bs, R a b :=
  exists_left_of_forall₂ h.flip

/-- The backed up rewrites are distinct and can be told from the targets. -/
theorem Separate.staged_apart (h : Separate rid rewrites ledger)
    (hnodup : (rewrites.map FileRewrite.path).Nodup)
    (hs : (stageRewrites answers rid 0 rewrites disk []).failed = none)
    (hb : (backupPhase answers rid disk rewrites).failed = none) :
    Apart (backupPhase answers rid disk rewrites).staged ∧
      ((backupPhase answers rid disk rewrites).staged.filterMap StagedRewrite.backup).Nodup := by
  have hall := h.backed_up answers disk hs hb
  have hmem := exists_left_of_forall₂ hall
  generalize (backupPhase answers rid disk rewrites).staged = ss at hall hmem ⊢
  have htargets : (ss.map StagedRewrite.target).Nodup := by
    rw [map_eq_of_forall₂ (hall.imp fun r s hrs => hrs.2.1)]
    exact hnodup
  have hpairwise : ss.Pairwise fun s q => s.target ≠ q.target := List.pairwise_map.mp htargets
  refine ⟨⟨htargets, List.pairwise_map.mpr ?_, ?_⟩, List.pairwise_filterMap.mpr ?_⟩
  · refine hpairwise.imp_of_mem fun {s q} hs hq hne he => hne ?_
    obtain ⟨r, -, hname, htarget, htmp, -⟩ := hmem s hs
    obtain ⟨r', -, hname', htarget', htmp', -⟩ := hmem q hq
    rw [htmp, htmp'] at he
    rw [htarget, htarget', sidecarPath_inj hname hname' he]
  · intro s hs q hq
    obtain ⟨r, hr, -, -, htmp, -⟩ := hmem s hs
    obtain ⟨r', hr', -, htarget', -⟩ := hmem q hq
    rw [htmp, htarget']
    exact h.tmp_target r hr r' hr'
  · refine hpairwise.imp_of_mem fun {s q} hs hq hne b hsb b' hqb' he => hne ?_
    obtain ⟨r, -, hname, htarget, -, -, hbackup⟩ := hmem s hs
    obtain ⟨r', -, hname', htarget', -, -, hbackup'⟩ := hmem q hq
    subst he
    rcases hbackup with ⟨-, hnone⟩ | ⟨_, -, hsome, -⟩
    · rw [hnone] at hsb
      cases hsb
    · rcases hbackup' with ⟨-, hnone⟩ | ⟨_, -, hsome', -⟩
      · rw [hnone] at hqb'
        cases hqb'
      · rw [hsome] at hsb
        rw [hsome'] at hqb'
        have he := (Option.some.inj hsb).trans (Option.some.inj hqb').symm
        rw [htarget, htarget', sidecarPath_inj hname hname' he]

/-- The renames: the ledger stays; the new contents are at the targets, or the rollback puts the
old ones back. -/
theorem Separate.rename_disk (h : Separate rid rewrites ledger)
    (hnodup : (rewrites.map FileRewrite.path).Nodup)
    (hs : (stageRewrites answers rid 0 rewrites disk []).failed = none)
    (hb : (backupPhase answers rid disk rewrites).failed = none) :
    (renamePhase answers rid disk rewrites).disk ledger = disk ledger ∧
      ((renamePhase answers rid disk rewrites).failed = none → ∀ r ∈ rewrites,
        (renamePhase answers rid disk rewrites).disk r.path = some r.newContents) ∧
      (∀ s ∈ (renamePhase answers rid disk rewrites).staged,
        s ∈ (backupPhase answers rid disk rewrites).staged) ∧
      ∀ d : Disk, (∀ p ≠ ledger, d p = (renamePhase answers rid disk rewrites).disk p) →
        rollbackRenamedRewrites (renamePhase answers rid disk rewrites).staged d ledger =
            d ledger ∧
          ∀ r ∈ rewrites,
            rollbackRenamedRewrites (renamePhase answers rid disk rewrites).staged d r.path =
              disk r.path := by
  have hall := h.backed_up answers disk hs hb
  have hmem := exists_left_of_forall₂ hall
  have hmem' := exists_right_of_forall₂ hall
  obtain ⟨hapart, hbackups⟩ := h.staged_apart answers disk hnodup hs hb
  have hrename := renameRewrites_spec answers 0 (backupPhase answers rid disk rewrites).staged
    (backupPhase answers rid disk rewrites).disk []
  change Renamed _ _ _ (renamePhase answers rid disk rewrites) at hrename
  obtain ⟨away, ⟨as, bs, hsplit, hfront, hbs⟩, done⟩ := hrename
  rw [List.nil_append] at hfront
  have hsub : ∀ s ∈ (renamePhase answers rid disk rewrites).staged,
      s ∈ (backupPhase answers rid disk rewrites).staged := by
    intro s hs
    rw [hfront] at hs
    rw [hsplit]
    exact List.mem_append_left _ hs
  have hledger : (renamePhase answers rid disk rewrites).disk ledger = disk ledger := by
    rw [away ledger, h.backup_disk answers disk (.inl rfl)]
    intro s hs
    obtain ⟨r, hr, -, htarget, htmp, -⟩ := hmem s hs
    rw [htarget, htmp]
    exact ⟨(h.target_ledger r hr).symm, (h.tmp_ledger r hr).symm⟩
  refine ⟨hledger, fun hdone r hr => ?_, hsub, fun d hd => ?_⟩
  · obtain ⟨s, hs', -, htarget, -, hnew, -⟩ := hmem' r hr
    obtain ⟨-, hat⟩ := done hdone hapart
    rw [← htarget, hat s hs', hnew]
  · rw [hfront] at hsub ⊢
    obtain ⟨raway, rhit⟩ := rollback_spec as d
    -- a backup is where the backups left it
    have hcopy : ∀ s ∈ as, s.backup.bind d = disk s.target := by
      intro s hs'
      obtain ⟨r, hr, -, htarget, -, -, hbackup⟩ := hmem s (hsub s hs')
      rw [htarget]
      rcases hbackup with ⟨hnone, hb'⟩ | ⟨bytes, hsome, hb', hbytes⟩
      · rw [hb', hnone]
        rfl
      · rw [hb', Option.bind_some, hsome, hd _ (h.backup_ledger r hr), away _ ?_, hbytes]
        intro q hq
        obtain ⟨r', hr', -, htarget', htmp', -⟩ := hmem q hq
        rw [htarget', htmp']
        exact ⟨h.backup_target r hr r' hr', (tmpPath_ne_backupPath _ _ _).symm⟩
    have hapart' : ∀ s ∈ as, ∀ q ∈ as ++ bs, s.backup ≠ some q.target := by
      intro s hs' q hq
      obtain ⟨r, hr, -, -, -, -, hbackup⟩ := hmem s (hsub s hs')
      obtain ⟨r', hr', -, htarget', -⟩ := hmem q (hsplit ▸ hq)
      rcases hbackup with ⟨-, hb'⟩ | ⟨_, -, hb', -⟩
      · rw [hb']
        simp
      · rw [hb', htarget', ne_eq, Option.some.injEq]
        exact h.backup_target r hr r' hr'
    have htargets := hapart.targets
    rw [hsplit, List.map_append, List.nodup_append] at htargets
    have hrestorable : Restorable d as := by
      refine ⟨htargets.1, ?_, fun s hs' q hq => hapart' s hs' q (List.mem_append_left _ hq), ?_⟩
      · rw [hsplit, List.filterMap_append] at hbackups
        exact (List.nodup_append.mp hbackups).1
      · intro s hs' backup hbackup
        have hbind := hcopy s hs'
        obtain ⟨r, hr, -, htarget, -, -, hcases⟩ := hmem s (hsub s hs')
        rcases hcases with ⟨-, hb'⟩ | ⟨bytes, hsome, -, -⟩
        · rw [hb'] at hbackup
          cases hbackup
        · rw [Option.mem_def.mp hbackup, Option.bind_some, htarget, hsome] at hbind
          rw [hbind]
          rfl
    refine ⟨raway ledger fun s hs' => ?_, fun r hr => ?_⟩
    · obtain ⟨r, hr, -, htarget, -, -, hcases⟩ := hmem s (hsub s hs')
      rw [htarget]
      refine ⟨(h.target_ledger r hr).symm, ?_⟩
      rcases hcases with ⟨-, hb'⟩ | ⟨_, -, hb', -⟩
      · rw [hb']
        simp
      · rw [hb', ne_eq, Option.some.injEq]
        exact h.backup_ledger r hr
    · obtain ⟨s, hs', -, htarget, -⟩ := hmem' r hr
      rw [← htarget]
      rw [hsplit] at hs'
      rcases List.mem_append.mp hs' with hs' | hs'
      · rw [rhit hrestorable s hs', hcopy s hs']
      · rw [raway s.target fun q hq => ⟨?_, hapart' q hq s (List.mem_append_right _ hs')⟩]
        · rw [htarget, hd _ (h.target_ledger r hr), ← htarget,
            hbs s hs' s.target rfl ?_ ?_, htarget, h.backup_disk answers disk (.inr ⟨r, hr, rfl⟩)]
          · exact fun q hq he => htargets.2.2 _ (List.mem_map_of_mem hq) _
              (List.mem_map_of_mem hs') he.symm
          · intro q hq
            obtain ⟨r', hr', -, -, htmp', -⟩ := hmem q hq
            rw [htmp', htarget]
            exact (h.tmp_target r' hr' r hr).symm
        · exact fun he => htargets.2.2 _ (List.mem_map_of_mem hq) _ (List.mem_map_of_mem hs') he.symm

end

/-! ### The rows of a group -/

/-- The rows of the group that the ledger does not have yet. -/
def newRows (known : List Text) : List TxEntry → List TxEntry
  | [] => []
  | entry :: entries =>
      if eventId entry ∈ known then newRows known entries
      else entry :: newRows (eventId entry :: known) entries

namespace LedgerWriter

/-- What rows are written as, one after the other. -/
def blocks (w : LedgerWriter) : List TxEntry → Except WriterError Text
  | [] => .ok []
  | entry :: entries =>
      match w.block entry with
      | .error e => .error e
      | .ok text => (w.after.blocks entries).map (text ++ ·)

/-- The row does not pass the checks of the ledger. -/
def refuses (w : LedgerWriter) (entry : TxEntry) : Bool := !(w.block entry).isOk

theorem refuses_after (w : LedgerWriter) (entry : TxEntry) :
    w.after.refuses entry = w.refuses entry := by
  cases w with
  | journal => rfl
  | tx blank =>
      simp only [refuses, after, block, TxWriter.appendMany, if_neg (List.cons_ne_nil _ _)]
      cases TxWriter.compose [entry] with
      | error e => rfl
      | ok text => rfl

theorem block_ne_nil {w : LedgerWriter} {entry : TxEntry} {text : Text}
    (h : w.block entry = .ok text) : text ≠ [] := by
  cases w with
  | journal =>
      simp only [block] at h
      cases hv : (journalEntry entry).validate with
      | error e => simp [hv] at h
      | ok u =>
          cases hp : rejectJournalProse (journalEntry entry).body with
          | error e => simp [hv, hp] at h
          | ok u' =>
              simp only [hv, hp, Except.ok.injEq] at h
              subst h
              simp [journalEntryBlock]
  | tx blank =>
      simp only [block, TxWriter.appendMany, if_neg (List.cons_ne_nil _ _)] at h
      cases hc : TxWriter.compose [entry] with
      | error e => simp [hc] at h
      | ok rendered =>
          simp only [hc, Except.ok.injEq] at h
          subst h
          have hrendered : rendered ≠ [] := by
            simp only [TxWriter.compose, bind, Except.bind] at hc
            split at hc
            · cases hc
            · split at hc
              · cases hc
              · simp only [Except.ok.injEq] at hc
                subst hc
                simp
          simp [hrendered]

end LedgerWriter

/-- A row that is refused stands behind one that was written. -/
def LateRefusal (w : CachedTxWriter) (entries : List TxEntry) : Prop :=
  let rows := newRows (w.eventIds.map Prod.fst) entries
  (∃ row ∈ rows, w.writer.refuses row = true) ∧ ∃ row ∈ rows.head?, w.writer.refuses row = false

theorem known?_eq_none_iff (w : CachedTxWriter) (id : Text) :
    w.known? id = none ↔ id ∉ w.eventIds.map Prod.fst := by
  rw [CachedTxWriter.known?, Option.map_eq_none_iff, List.find?_eq_none]
  simp only [List.mem_map, not_exists, not_and, decide_eq_true_eq]

/-- What `append_many` writes: the new rows, or those in front of the first one refused. -/
theorem appendMany_spec (w : CachedTxWriter) (entries : List TxEntry) :
    match w.appendMany entries with
    | (_, text, .ok _) =>
        w.writer.blocks (newRows (w.eventIds.map Prod.fst) entries) = .ok text
    | (_, text, .error _) => ∃ pre bad post,
        newRows (w.eventIds.map Prod.fst) entries = pre ++ bad :: post ∧
          w.writer.blocks pre = .ok text ∧ w.writer.refuses bad = true := by
  induction entries generalizing w with
  | nil => rfl
  | cons entry entries ih =>
      rw [CachedTxWriter.appendMany]
      cases hknown : w.known? (eventId entry) with
      | some existing =>
          have hmem : eventId entry ∈ w.eventIds.map Prod.fst := by
            by_contra hnot
            rw [(known?_eq_none_iff w _).mpr hnot] at hknown
            cases hknown
          have happend : w.append entry = .ok (w, [], existing) := by
            rw [CachedTxWriter.append, hknown]
          simp only [happend, newRows, if_pos hmem, List.nil_append]
          have ih := ih w
          revert ih
          rcases w.appendMany entries with ⟨w', text, result⟩
          cases result with
          | error e => exact id
          | ok ids => exact id
      | none =>
          have hmem := (known?_eq_none_iff w _).mp hknown
          simp only [newRows, if_neg hmem]
          cases hblock : w.writer.block entry with
          | error e =>
              have happend : w.append entry = .error e := by
                rw [CachedTxWriter.append, hknown]
                dsimp only
                rw [hblock]
              simp only [happend]
              exact ⟨[], entry, _, rfl, rfl, by rw [LedgerWriter.refuses, hblock]; rfl⟩
          | ok text =>
              have happend : w.append entry = .ok (⟨w.writer.after,
                  (eventId entry, entry.txId) :: w.eventIds⟩, text, entry.txId) := by
                rw [CachedTxWriter.append, hknown]
                dsimp only
                rw [hblock]
              simp only [happend]
              have ih := ih ⟨w.writer.after, (eventId entry, entry.txId) :: w.eventIds⟩
              revert ih
              rcases CachedTxWriter.appendMany _ entries with ⟨w', rest, result⟩
              cases result with
              | error e =>
                  rintro ⟨pre, bad, post, hrows, hpre, hbad⟩
                  refine ⟨entry :: pre, bad, post, ?_, ?_, ?_⟩
                  · exact congrArg (entry :: ·) hrows
                  · simp only [LedgerWriter.blocks, hblock, hpre]
                    rfl
                  · rw [← LedgerWriter.refuses_after]
                    exact hbad
              | ok ids =>
                  intro hrest
                  simp only [Except.map, LedgerWriter.blocks, hblock]
                  simp only [List.map_cons] at hrest
                  rw [hrest]

/-- A row is refused late exactly if `append_many` fails with something written. -/
theorem lateRefusal_iff (w : CachedTxWriter) (entries : List TxEntry) :
    LateRefusal w entries ↔
      (∃ e, (w.appendMany entries).2.2 = .error e) ∧ (w.appendMany entries).2.1 ≠ [] := by
  have hspec := appendMany_spec w entries
  have haccepted : ∀ {l : LedgerWriter} {rows : List TxEntry} {text : Text},
      l.blocks rows = .ok text → ∀ row ∈ rows, l.refuses row = false := by
    intro l rows
    induction rows generalizing l with
    | nil => simp
    | cons row rows ih =>
        intro text htext
        rw [LedgerWriter.blocks] at htext
        cases hblock : l.block row with
        | error e =>
            rw [hblock] at htext
            cases htext
        | ok t =>
            rw [hblock] at htext
            cases hrest : l.after.blocks rows with
            | error e =>
                simp only [hrest] at htext
                cases htext
            | ok rest =>
                refine List.forall_mem_cons.mpr ⟨by rw [LedgerWriter.refuses, hblock]; rfl, ?_⟩
                intro q hq
                rw [← LedgerWriter.refuses_after]
                exact ih hrest q hq
  unfold LateRefusal
  dsimp only
  generalize newRows (w.eventIds.map Prod.fst) entries = rows at hspec ⊢
  revert hspec
  rcases w.appendMany entries with ⟨w', text, result⟩
  cases result with
  | ok ids =>
      intro htext
      constructor
      · rintro ⟨⟨row, hrow, hrefused⟩, -⟩
        rw [haccepted htext row hrow] at hrefused
        cases hrefused
      · rintro ⟨⟨e, he⟩, -⟩
        cases he
  | error e =>
      rintro ⟨pre, bad, post, rfl, hpre, hbad⟩
      refine ⟨fun ⟨_, first, hfirst, haccept⟩ => ⟨⟨e, rfl⟩, ?_⟩, fun ⟨_, hne⟩ => ⟨⟨bad, by simp, hbad⟩, ?_⟩⟩
      · cases pre with
        | nil =>
            have he : bad = first := by simpa using hfirst
            rw [he, haccept] at hbad
            cases hbad
        | cons row pre =>
            rw [LedgerWriter.blocks] at hpre
            cases hblock : w.writer.block row with
            | error e =>
                rw [hblock] at hpre
                cases hpre
            | ok t =>
                rw [hblock] at hpre
                cases hrest : w.writer.after.blocks pre with
                | error e =>
                    simp only [hrest] at hpre
                    cases hpre
                | ok rest =>
                    simp only [hrest] at hpre
                    cases hpre
                    exact fun h => LedgerWriter.block_ne_nil hblock (List.append_eq_nil_iff.mp h).1
      · cases pre with
        | nil =>
            rw [LedgerWriter.blocks, Except.ok.injEq] at hpre
            exact absurd hpre.symm hne
        | cons row pre => exact ⟨row, rfl, haccepted hpre row List.mem_cons_self⟩

/-! ### The append -/

section
variable (isUuid : Text → Bool) (answers : Answers)

/-- The handle that the append goes through and the ledger as opening it left it. -/
def openedLedger (handles : TxHandles) (disk : Disk) (ledger : FilePath) :
    TxHandles × Disk × Except WriterError CachedTxWriter :=
  handleAt (detach handles ledger answers.namesWriter) disk ledger answers.openLedgerFails

theorem openAt_local (d₁ d₂ : Disk) (ledger : FilePath) (h : d₁ ledger = d₂ ledger) :
    (CachedTxWriter.openAt d₁ ledger).2 = (CachedTxWriter.openAt d₂ ledger).2 ∧
      (CachedTxWriter.openAt d₁ ledger).1 ledger = (CachedTxWriter.openAt d₂ ledger).1 ledger ∧
      ∀ p ≠ ledger, (CachedTxWriter.openAt d₁ ledger).1 p = d₁ p := by
  have hbytes : CachedTxWriter.openedBytes d₁ ledger = CachedTxWriter.openedBytes d₂ ledger := by
    unfold CachedTxWriter.openedBytes
    rw [h]
  unfold CachedTxWriter.openAt
  rw [hbytes, h]
  cases CachedTxWriter.openedBytes d₂ ledger with
  | none => exact ⟨rfl, by simp, fun p hp => Function.update_of_ne hp _ _⟩
  | some bytes =>
      dsimp only
      cases readToString bytes with
      | none => exact ⟨rfl, by simp, fun p hp => Function.update_of_ne hp _ _⟩
      | some source =>
          dsimp only
          cases readEventIds ledger source with
          | error e => exact ⟨rfl, by simp, fun p hp => Function.update_of_ne hp _ _⟩
          | ok ids => exact ⟨rfl, by simp, fun p hp => Function.update_of_ne hp _ _⟩

theorem handleAt_local (handles : TxHandles) (d₁ d₂ : Disk) (ledger : FilePath) (fails : Bool)
    (h : d₁ ledger = d₂ ledger) :
    (handleAt handles d₁ ledger fails).1 = (handleAt handles d₂ ledger fails).1 ∧
      (handleAt handles d₁ ledger fails).2.2 = (handleAt handles d₂ ledger fails).2.2 ∧
      (handleAt handles d₁ ledger fails).2.1 ledger =
        (handleAt handles d₂ ledger fails).2.1 ledger ∧
      ∀ p ≠ ledger, (handleAt handles d₁ ledger fails).2.1 p = d₁ p := by
  obtain ⟨hresult, hat, haway⟩ := openAt_local d₁ d₂ ledger h
  unfold handleAt
  cases handles ledger with
  | some w => exact ⟨rfl, rfl, h, fun _ _ => rfl⟩
  | none =>
      cases fails with
      | true => exact ⟨rfl, rfl, h, fun _ _ => rfl⟩
      | false =>
          revert hresult hat haway
          rcases CachedTxWriter.openAt d₁ ledger with ⟨d₁', r₁⟩
          rcases CachedTxWriter.openAt d₂ ledger with ⟨d₂', r₂⟩
          intro hresult hat haway
          dsimp only at hresult hat haway ⊢
          subst hresult
          cases r₁ with
          | error e => exact ⟨rfl, rfl, hat, haway⟩
          | ok w => exact ⟨rfl, rfl, hat, haway⟩

/-- **The append touches the ledger alone**, and depends on no other file. -/
theorem appendTxsInner_local (handles : TxHandles) (d₁ d₂ : Disk) (ledger : FilePath)
    (reqs : List TxAppend) (h : d₁ ledger = d₂ ledger) :
    (appendTxsInner isUuid answers handles d₁ ledger reqs).2.2 =
        (appendTxsInner isUuid answers handles d₂ ledger reqs).2.2 ∧
      (appendTxsInner isUuid answers handles d₁ ledger reqs).2.1 ledger =
        (appendTxsInner isUuid answers handles d₂ ledger reqs).2.1 ledger ∧
      ∀ p ≠ ledger, (appendTxsInner isUuid answers handles d₁ ledger reqs).2.1 p = d₁ p := by
  obtain ⟨hhandles, hresult, hat, haway⟩ := handleAt_local
    (detach handles ledger answers.namesWriter) d₁ d₂ ledger answers.openLedgerFails h
  unfold appendTxsInner
  dsimp only
  cases prepareTxEntries isUuid answers.minted 0 reqs with
  | error e => exact ⟨rfl, h, fun _ _ => rfl⟩
  | ok entries =>
      dsimp only
      cases answers.createDirFails with
      | true => exact ⟨rfl, h, fun _ _ => rfl⟩
      | false =>
          revert hhandles hresult hat haway
          rcases handleAt (detach handles ledger answers.namesWriter) d₁ ledger
            answers.openLedgerFails with ⟨h₁, d₁', r₁⟩
          rcases handleAt (detach handles ledger answers.namesWriter) d₂ ledger
            answers.openLedgerFails with ⟨h₂, d₂', r₂⟩
          intro hhandles hresult hat haway
          dsimp only at hhandles hresult hat haway ⊢
          subst hhandles hresult
          cases r₁ with
          | error e => exact ⟨rfl, hat, haway⟩
          | ok w =>
              refine ⟨rfl, ?_, fun p hp => ?_⟩
              · simp only [if_neg (Bool.false_ne_true), appendText, Function.update_self, hat]
              · simp only [if_neg (Bool.false_ne_true), appendText]
                rw [Function.update_of_ne hp, haway p hp]

end

/-! ### The transaction -/

section
variable (isUuid : Text → Bool) (answers : Answers) {rid : Text}
variable {rewrites : List FileRewrite} {ledger : FilePath} (handles : TxHandles) (disk : Disk)
variable (txs : List TxAppend)

/-- The locked transaction in its phases. -/
theorem locked_eq : transactionMultiLockedInner isUuid answers handles disk rewrites ledger txs rid =
    let s := stageRewrites answers rid 0 rewrites disk []
    let b := backupPhase answers rid disk rewrites
    let r := renamePhase answers rid disk rewrites
    match s.failed with
    | some e => ⟨handles, cleanupStagedRewrites s.staged s.disk, .error e⟩
    | none => match b.failed with
      | some e => ⟨handles, cleanupStagedRewrites b.staged b.disk, .error e⟩
      | none =>
          if answers.verifyFails then ⟨handles, cleanupStagedRewrites b.staged b.disk,
            .error (.message "verify before commit".toList)⟩
          else match r.failed with
            | some e => ⟨handles, cleanupStagedRewrites b.staged
                (rollbackRenamedRewrites r.staged r.disk), .error e⟩
            | none => match appendTxsInner isUuid answers handles r.disk ledger txs with
              | (handles, d, .error e) => ⟨handles, cleanupStagedRewrites b.staged
                  (rollbackRenamedRewrites r.staged d), .error e⟩
              | (handles, d, .ok results) => ⟨handles, cleanupCommittedBackups b.staged d,
                  .ok ⟨results, !answers.syncFails⟩⟩ :=
  rfl

/-- A step on the files that fails leaves the targets and the ledger as they were. -/
theorem locked_of_not_ready (h : Separate rid rewrites ledger)
    (hnodup : (rewrites.map FileRewrite.path).Nodup)
    (hready : ¬FilesReady answers rid disk rewrites) :
    let out := transactionMultiLockedInner isUuid answers handles disk rewrites ledger txs rid
    (∃ e, out.result = .error e) ∧
      ∀ p, (p = ledger ∨ ∃ r ∈ rewrites, p = r.path) → out.disk p = disk p := by
  have hstaged := fun p => h.cleanup (p := p) (stage_belongs answers disk)
    (stageRewrites answers rid 0 rewrites disk []).disk
  have hbacked := fun (d : Disk) p => h.cleanup (p := p) (backup_belongs answers disk) d
  dsimp only
  rw [locked_eq]
  dsimp only
  cases hs : (stageRewrites answers rid 0 rewrites disk []).failed with
  | some e => exact ⟨⟨e, rfl⟩, fun p hp => (hstaged p hp).1.trans (h.stage_disk answers disk hp)⟩
  | none =>
      cases hb : (backupPhase answers rid disk rewrites).failed with
      | some e =>
          exact ⟨⟨e, rfl⟩, fun p hp => (hbacked _ p hp).1.trans (h.backup_disk answers disk hp)⟩
      | none =>
          dsimp only
          cases hv : answers.verifyFails with
          | true =>
              exact ⟨⟨_, rfl⟩, fun p hp => (hbacked _ p hp).1.trans (h.backup_disk answers disk hp)⟩
          | false =>
              cases hr : (renamePhase answers rid disk rewrites).failed with
              | none => exact absurd ⟨hs, hb, hv, hr⟩ hready
              | some e =>
                  obtain ⟨hledger, -, -, hrollback⟩ := h.rename_disk answers disk hnodup hs hb
                  obtain ⟨hkeep, hrestored⟩ := hrollback _ fun _ _ => rfl
                  refine ⟨⟨e, rfl⟩, fun p hp => (hbacked _ p hp).1.trans ?_⟩
                  rcases hp with rfl | ⟨r, hr, rfl⟩
                  · exact hkeep.trans hledger
                  · exact hrestored r hr

/-- Otherwise the append decides. -/
theorem locked_of_ready (h : Separate rid rewrites ledger)
    (hnodup : (rewrites.map FileRewrite.path).Nodup)
    (hready : FilesReady answers rid disk rewrites) :
    let out := transactionMultiLockedInner isUuid answers handles disk rewrites ledger txs rid
    let appended := appendTxsInner isUuid answers handles disk ledger txs
    out.disk ledger = appended.2.1 ledger ∧
      match appended.2.2 with
      | .error e => out.result = .error e ∧ ∀ r ∈ rewrites, out.disk r.path = disk r.path
      | .ok results => out.result = .ok ⟨results, !answers.syncFails⟩ ∧
          ∀ r ∈ rewrites, out.disk r.path = some r.newContents := by
  have hbacked := fun (d : Disk) p => h.cleanup (p := p) (backup_belongs answers disk) d
  obtain ⟨hs, hb, hv, hr⟩ := hready
  obtain ⟨hledger, hnew, -, hrollback⟩ := h.rename_disk answers disk hnodup hs hb
  obtain ⟨hresult, hat, haway⟩ := appendTxsInner_local isUuid answers handles
    (renamePhase answers rid disk rewrites).disk disk ledger txs hledger
  dsimp only
  rw [locked_eq]
  simp only [hs, hb, hv, hr, if_neg Bool.false_ne_true]
  revert hresult hat haway
  rcases appendTxsInner isUuid answers handles (renamePhase answers rid disk rewrites).disk
    ledger txs with ⟨handles', d, result⟩
  rcases appendTxsInner isUuid answers handles disk ledger txs with ⟨handles'', d', result'⟩
  intro hresult hat haway
  dsimp only at hresult hat haway ⊢
  subst hresult
  cases result with
  | error e =>
      obtain ⟨hkeep, hrestored⟩ := hrollback d haway
      refine ⟨?_, rfl, fun r hr => ?_⟩
      · exact (hbacked _ _ (.inl rfl)).1.trans (hkeep.trans hat)
      · exact (hbacked _ _ (.inr ⟨r, hr, rfl⟩)).1.trans (hrestored r hr)
  | ok results =>
      refine ⟨(hbacked _ _ (.inl rfl)).2.trans hat, rfl, fun r hmem => ?_⟩
      calc cleanupCommittedBackups (backupPhase answers rid disk rewrites).staged d r.path
        _ = d r.path := (hbacked _ _ (.inr ⟨r, hmem, rfl⟩)).2
        _ = (renamePhase answers rid disk rewrites).disk r.path :=
            haway _ (h.target_ledger r hmem)
        _ = some r.newContents := hnew hr r hmem

/-- The bytes of the ledger as they were, or as opening it left them. -/
def Opened (ledger : FilePath) (content : Option Bytes) : Prop :=
  content.getD [] = (disk ledger).getD [] ∨
    content.getD [] = ((openedLedger answers handles disk ledger).2.1 ledger).getD []

/-- **All or nothing**: with an error the targets are as they were and the ledger has no row of the
group; otherwise the targets have their new contents and the ledger the new rows, in order. -/
def AllOrNothing (rewrites : List FileRewrite) (ledger : FilePath) (out : TransactionOutcome) :
    Prop :=
  match out.result with
  | .error _ => (∀ r ∈ rewrites, out.disk r.path = disk r.path) ∧
      Opened answers handles disk ledger (out.disk ledger)
  | .ok _ => (∀ r ∈ rewrites, out.disk r.path = some r.newContents) ∧
      ∃ before entries w text, Opened answers handles disk ledger before ∧
        prepareTxEntries isUuid answers.minted 0 txs = .ok entries ∧
          (openedLedger answers handles disk ledger).2.2 = .ok w ∧
            w.writer.blocks (newRows (w.eventIds.map Prod.fst) entries) = .ok text ∧
              out.disk ledger = some (before.getD [] ++ utf8 text)

/-- The append is reached and refuses a row behind one that it has written. -/
def RefusedLate (rewrites : List FileRewrite) (ledger : FilePath) (rid : Text) : Prop :=
  duplicateRequestId txs = none ∧ firstRepeated [] (rewrites.map FileRewrite.path) = none ∧
    (∀ i ∈ List.range rewrites.length, answers.lockFails i = false) ∧
      FilesReady answers rid disk rewrites ∧ answers.createDirFails = false ∧
        ∃ entries w, prepareTxEntries isUuid answers.minted 0 txs = .ok entries ∧
          (openedLedger answers handles disk ledger).2.2 = .ok w ∧ LateRefusal w entries

/-- What opening writes is the header of a ledger that is empty. -/
theorem openedLedger_content (ledger : FilePath) :
    (openedLedger answers handles disk ledger).2.1 ledger = disk ledger ∨
      (disk ledger).getD [] = [] ∧ ((openedLedger answers handles disk ledger).2.1 ledger).getD [] =
        ((CachedTxWriter.headerAt ledger).map utf8).getD [] := by
  have hopen : (CachedTxWriter.openAt disk ledger).1 ledger = disk ledger ∨
      (disk ledger).getD [] = [] ∧ ((CachedTxWriter.openAt disk ledger).1 ledger).getD [] =
        ((CachedTxWriter.headerAt ledger).map utf8).getD [] := by
    have hcontent : (CachedTxWriter.openAt disk ledger).1 ledger =
        some ((CachedTxWriter.openedBytes disk ledger).getD ((disk ledger).getD [])) := by
      unfold CachedTxWriter.openAt
      cases CachedTxWriter.openedBytes disk ledger with
      | none => simp
      | some bytes =>
          dsimp only
          cases readToString bytes with
          | none => simp
          | some source =>
              dsimp only
              cases readEventIds ledger source with
              | error e => simp
              | ok ids => simp
    rw [hcontent, CachedTxWriter.openedBytes]
    rcases disk ledger with _ | _ | ⟨b, bs⟩
    · exact .inr ⟨rfl, by cases CachedTxWriter.headerAt ledger <;> rfl⟩
    · exact .inr ⟨rfl, by cases CachedTxWriter.headerAt ledger <;> rfl⟩
    · exact .inl rfl
  unfold openedLedger handleAt
  cases detach handles ledger answers.namesWriter ledger with
  | some w => exact .inl rfl
  | none =>
      dsimp only
      cases answers.openLedgerFails with
      | true => exact .inl rfl
      | false =>
          revert hopen
          rcases CachedTxWriter.openAt disk ledger with ⟨d, result⟩
          cases result with
          | error e => exact id
          | ok w => exact id

theorem utf8_ne_nil {t : Text} (ht : t ≠ []) : utf8 t ≠ [] := by
  obtain ⟨c, t, rfl⟩ := List.exists_cons_of_ne_nil ht
  rw [utf8, List.flatMap_cons]
  intro h
  have hlength := congrArg List.length (List.append_eq_nil_iff.mp h).1
  rw [String.length_utf8EncodeChar] at hlength
  exact absurd hlength (Char.utf8Size_pos c).ne'

/-- A ledger that has been written to is not as it was. -/
theorem not_opened_append {text : Text} (ht : text ≠ []) :
    ¬Opened answers handles disk ledger
      (some ((((openedLedger answers handles disk ledger).2.1 ledger).getD []) ++ utf8 text)) := by
  have hne := utf8_ne_nil ht
  rintro (h | h)
  · rcases openedLedger_content answers handles disk ledger with he | ⟨hempty, -⟩
    · rw [he] at h
      simp [hne] at h
    · rw [hempty] at h
      simp [hne] at h
  · simp [hne] at h

/-- What the append does to the ledger once the entries are prepared and the ledger is open. -/
theorem appendTxsInner_opened {entries : List TxEntry} {w : CachedTxWriter}
    (hprepare : prepareTxEntries isUuid answers.minted 0 txs = .ok entries)
    (hdir : answers.createDirFails = false)
    (hopen : (openedLedger answers handles disk ledger).2.2 = .ok w) :
    (appendTxsInner isUuid answers handles disk ledger txs).2.1 ledger =
        some (((openedLedger answers handles disk ledger).2.1 ledger).getD [] ++
          utf8 (w.appendMany entries).2.1) ∧
      (appendTxsInner isUuid answers handles disk ledger txs).2.2 =
        (w.appendMany entries).2.2.map fun ids => ids.map fun txId => ⟨txId, ledger⟩ := by
  unfold openedLedger at hopen ⊢
  unfold appendTxsInner
  simp only [hprepare, hdir, if_neg Bool.false_ne_true]
  revert hopen
  rcases handleAt (detach handles ledger answers.namesWriter) disk ledger answers.openLedgerFails
    with ⟨h, d, result⟩
  intro hopen
  dsimp only at hopen ⊢
  subst hopen
  exact ⟨by simp only [appendText, Function.update_self], rfl⟩

/-- Otherwise nothing is appended. -/
theorem appendTxsInner_unopened
    (h : ¬∃ entries w, prepareTxEntries isUuid answers.minted 0 txs = .ok entries ∧
      answers.createDirFails = false ∧ (openedLedger answers handles disk ledger).2.2 = .ok w) :
    (∃ e, (appendTxsInner isUuid answers handles disk ledger txs).2.2 = .error e) ∧
      Opened answers handles disk ledger
        ((appendTxsInner isUuid answers handles disk ledger txs).2.1 ledger) := by
  unfold Opened
  unfold openedLedger at h ⊢
  unfold appendTxsInner
  dsimp only
  cases hprepare : prepareTxEntries isUuid answers.minted 0 txs with
  | error e => exact ⟨⟨e, rfl⟩, .inl rfl⟩
  | ok entries =>
      dsimp only
      cases hdir : answers.createDirFails with
      | true => exact ⟨⟨_, rfl⟩, .inl rfl⟩
      | false =>
          simp only [if_neg Bool.false_ne_true]
          revert h
          rcases handleAt (detach handles ledger answers.namesWriter) disk ledger
            answers.openLedgerFails with ⟨hs, d, result⟩
          intro h
          cases result with
          | ok w => exact absurd ⟨entries, w, hprepare, hdir, rfl⟩ h
          | error e => exact ⟨⟨e, rfl⟩, .inr rfl⟩

/-- The locked transaction is all or nothing unless a row is refused late. -/
theorem locked_allOrNothing_iff (h : Separate rid rewrites ledger)
    (hnodup : (rewrites.map FileRewrite.path).Nodup) :
    AllOrNothing isUuid answers handles disk txs rewrites ledger
        (transactionMultiLockedInner isUuid answers handles disk rewrites ledger txs rid) ↔
      ¬(FilesReady answers rid disk rewrites ∧ answers.createDirFails = false ∧
        ∃ entries w, prepareTxEntries isUuid answers.minted 0 txs = .ok entries ∧
          (openedLedger answers handles disk ledger).2.2 = .ok w ∧ LateRefusal w entries) := by
  by_cases hready : FilesReady answers rid disk rewrites
  swap
  · obtain ⟨⟨e, he⟩, hkept⟩ := locked_of_not_ready isUuid answers handles disk txs h hnodup hready
    refine iff_of_true ?_ fun hlate => hready hlate.1
    rw [AllOrNothing, he]
    exact ⟨fun r hr => hkept _ (.inr ⟨r, hr, rfl⟩), .inl (congrArg (·.getD []) (hkept _ (.inl rfl)))⟩
  obtain ⟨hledger, hresult⟩ := locked_of_ready isUuid answers handles disk txs h hnodup hready
  rw [AllOrNothing, hledger]
  by_cases hopen : ∃ entries w, prepareTxEntries isUuid answers.minted 0 txs = .ok entries ∧
      answers.createDirFails = false ∧ (openedLedger answers handles disk ledger).2.2 = .ok w
  swap
  · obtain ⟨⟨e, he⟩, hopened⟩ := appendTxsInner_unopened isUuid answers handles disk txs hopen
    rw [he] at hresult
    rw [hresult.1]
    refine iff_of_true ⟨hresult.2, hopened⟩ ?_
    rintro ⟨-, hdir, entries, w, hprepare, hw, -⟩
    exact hopen ⟨entries, w, hprepare, hdir, hw⟩
  obtain ⟨entries, w, hprepare, hdir, hw⟩ := hopen
  obtain ⟨hat, happended⟩ := appendTxsInner_opened isUuid answers handles disk txs hprepare hdir hw
  have hlate := lateRefusal_iff w entries
  have hrows := appendMany_spec w entries
  rw [hat]
  rw [happended] at hresult
  have hiff : (FilesReady answers rid disk rewrites ∧ answers.createDirFails = false ∧
      ∃ entries w, prepareTxEntries isUuid answers.minted 0 txs = .ok entries ∧
        (openedLedger answers handles disk ledger).2.2 = .ok w ∧ LateRefusal w entries) ↔
      LateRefusal w entries := by
    rw [hprepare, hw]
    simp [hready, hdir]
  rw [hiff, hlate]
  revert hresult hrows
  rcases w.appendMany entries with ⟨w', text, result⟩
  cases result with
  | error e =>
      rintro ⟨hresult, htargets⟩ -
      rw [hresult]
      constructor
      · rintro ⟨-, hopened⟩ ⟨-, htext⟩
        exact not_opened_append answers handles disk htext hopened
      · intro hnot
        have htext : text = [] := by
          by_contra hne
          exact hnot ⟨⟨e, rfl⟩, hne⟩
        subst htext
        exact ⟨htargets, .inr (by simp [utf8])⟩
  | ok ids =>
      rintro ⟨hresult, htargets⟩ hrows
      rw [hresult]
      refine iff_of_true ⟨htargets, _, entries, w, text, .inr rfl, hprepare, hw, hrows, rfl⟩ ?_
      rintro ⟨⟨e, he⟩, -⟩
      cases he

/-- **A transaction is all or nothing exactly if no row is refused behind one that was written.** -/
theorem transactionMultiInner_allOrNothing_iff (h : Separate rid rewrites ledger) (hne : txs ≠ [])
    (hone : ∀ tx ∈ txs, tx.txPath = ledger) :
    AllOrNothing isUuid answers handles disk txs rewrites ledger
        (transactionMultiInner isUuid answers handles disk rewrites txs rid) ↔
      ¬RefusedLate isUuid answers handles disk txs rewrites ledger rid := by
  have hrefuse : ∀ e, AllOrNothing isUuid answers handles disk txs rewrites ledger
      ⟨handles, disk, .error e⟩ := fun e => ⟨fun _ _ => rfl, .inl rfl⟩
  obtain ⟨first, rest, rfl⟩ := List.exists_cons_of_ne_nil hne
  have hsame : ¬∃ tx ∈ first :: rest, tx.txPath ≠ first.txPath := by
    rintro ⟨tx, htx, hdiff⟩
    exact hdiff ((hone tx htx).trans (hone first List.mem_cons_self).symm)
  unfold transactionMultiInner RefusedLate
  dsimp only
  rw [if_neg hsame]
  cases hid : duplicateRequestId (first :: rest) with
  | some id => exact iff_of_true (hrefuse _) fun hlate => by cases hlate.1
  | none =>
      cases htarget : firstRepeated [] (rewrites.map FileRewrite.path) with
      | some target => exact iff_of_true (hrefuse _) fun hlate => by cases hlate.2.1
      | none =>
          dsimp only
          by_cases hlock : ∃ i ∈ List.range rewrites.length, answers.lockFails i = true
          · rw [if_pos hlock]
            obtain ⟨i, hi, hfails⟩ := hlock
            refine iff_of_true (hrefuse _) fun hlate => ?_
            rw [hlate.2.2.1 i hi] at hfails
            cases hfails
          · rw [if_neg hlock, hone first List.mem_cons_self,
              locked_allOrNothing_iff isUuid answers handles disk _ h
                (firstRepeated_eq_none_iff.mp htarget).1]
            have hunlocked : ∀ i ∈ List.range rewrites.length, answers.lockFails i = false := by
              intro i hi
              by_contra hfails
              exact hlock ⟨i, hi, by simpa using hfails⟩
            exact not_congr ⟨fun hlate => ⟨rfl, rfl, hunlocked, hlate⟩, fun hlate => hlate.2.2.2⟩

end

/-! ### Before the locks -/

/-- The error does not say that a request id was reused. -/
def WriterError.Plain : WriterError → Prop
  | .requestIdReuse _ => False
  | _ => True

theorem plain_message (text : Text) : (WriterError.message text).Plain := trivial

theorem plain_io (context : Text) : (WriterError.io context).Plain := trivial

/-- A transaction is refused before it takes its locks, or runs under them. -/
theorem transactionMultiInner_cases (isUuid : Text → Bool) (answers : Answers) (handles : TxHandles) (disk : Disk)
    (rewrites : List FileRewrite) (txs : List TxAppend) (rid : Text) :
    (∃ e : WriterError, e.Plain ∧
      transactionMultiInner isUuid answers handles disk rewrites txs rid =
        ⟨handles, disk, .error e⟩) ∨
    ∃ first ∈ txs.head?, (∀ tx ∈ txs, tx.txPath = first.txPath) ∧
      transactionMultiInner isUuid answers handles disk rewrites txs rid =
        transactionMultiLockedInner isUuid answers handles disk rewrites first.txPath txs rid := by
  unfold transactionMultiInner
  cases txs with
  | nil => exact .inl ⟨_, plain_message _, rfl⟩
  | cons first rest =>
      dsimp only
      by_cases hone : ∃ tx ∈ first :: rest, tx.txPath ≠ first.txPath
      · rw [if_pos hone]
        exact .inl ⟨_, plain_message _, rfl⟩
      · rw [if_neg hone]
        cases duplicateRequestId (first :: rest) with
        | some id => exact .inl ⟨_, plain_message _, rfl⟩
        | none =>
            cases firstRepeated [] (rewrites.map FileRewrite.path) with
            | some target => exact .inl ⟨_, plain_message _, rfl⟩
            | none =>
                dsimp only
                by_cases hlock : ∃ i ∈ List.range rewrites.length, answers.lockFails i = true
                · rw [if_pos hlock]
                  exact .inl ⟨_, plain_io _, rfl⟩
                · rw [if_neg hlock]
                  refine .inr ⟨first, rfl, fun tx htx => ?_, rfl⟩
                  by_contra hne
                  exact hone ⟨tx, htx, hne⟩

/-! ### A row refused behind one that was written -/

namespace Refused

def ledger : FilePath := ["node-1".toList, "journal.org".toList]

def target : FilePath := ["node-1".toList, "node.org".toList]

/-- A note for the journal; the actor is the caller's. -/
def note (actor : Text) : TxAppend :=
  ⟨ledger, TxEntry.new ("tx-".toList ++ actor) "note".toList "[2024-01-01]".toList actor "m".toList,
    none, .preserve, none⟩

def rewrites : List FileRewrite := [⟨target, utf8 "new".toList⟩]

/-- An empty journal behind an open handle. -/
def disk : Disk := Function.update (fun _ => none) ledger (some (utf8 (journalHeader "node-1".toList)))

def handles : TxHandles := Function.update (fun _ => none) ledger (some ⟨.journal, []⟩)

def answers : Answers := .fair fun i => ⟨[], List.replicate (i + 1) 'e'⟩

theorem separate : Separate "r".toList rewrites ledger := by
  constructor <;> decide

end Refused

/-- Both rows are accepted. -/
theorem transactionMultiInner_allOrNothing_iff_sample :
    AllOrNothing (fun _ => true) Refused.answers Refused.handles Refused.disk
        [Refused.note "a".toList, Refused.note "b".toList] Refused.rewrites Refused.ledger
        (transactionMultiInner (fun _ => true) Refused.answers Refused.handles Refused.disk
          Refused.rewrites [Refused.note "a".toList, Refused.note "b".toList] "r".toList) ↔
      ¬RefusedLate (fun _ => true) Refused.answers Refused.handles Refused.disk
        [Refused.note "a".toList, Refused.note "b".toList] Refused.rewrites Refused.ledger
        "r".toList :=
  transactionMultiInner_allOrNothing_iff _ _ _ _ _ Refused.separate (by decide) (by decide)

/-- The second actor has a line break: the file is rolled back, the first row stays. -/
theorem transactionMultiInner_allOrNothing_fails :
    ¬AllOrNothing (fun _ => true) Refused.answers Refused.handles Refused.disk
        [Refused.note "a".toList, Refused.note "\n".toList] Refused.rewrites Refused.ledger
        (transactionMultiInner (fun _ => true) Refused.answers Refused.handles Refused.disk
          Refused.rewrites [Refused.note "a".toList, Refused.note "\n".toList] "r".toList) := by
  have hfails : (transactionMultiInner (fun _ => true) Refused.answers Refused.handles Refused.disk
      Refused.rewrites [Refused.note "a".toList, Refused.note "\n".toList] "r".toList).result.isOk =
        false := by decide +kernel
  have hledger : ¬Opened Refused.answers Refused.handles Refused.disk Refused.ledger
      ((transactionMultiInner (fun _ => true) Refused.answers Refused.handles Refused.disk
        Refused.rewrites [Refused.note "a".toList, Refused.note "\n".toList] "r".toList).disk
          Refused.ledger) := by
    unfold Opened
    decide +kernel
  intro h
  rw [AllOrNothing] at h
  revert hfails h
  cases (transactionMultiInner (fun _ => true) Refused.answers Refused.handles Refused.disk
    Refused.rewrites [Refused.note "a".toList, Refused.note "\n".toList] "r".toList).result with
  | error e => exact fun _ h => hledger h.2
  | ok commit => exact fun hfails => by cases hfails

end Orgasmic
