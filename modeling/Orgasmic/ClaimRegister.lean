import Orgasmic.ClaimStore
import Orgasmic.Crash

/-! # The claim of one origin as a register

What the claim files of one origin are for: a register that holds the claim which the rescue of the
origin belongs to.  It is about the time from a claim on disk to the next removal.

* **Operations.** `ClaimOp.run` is the code.  `ClaimStep` runs one operation on the files of the
  origin: any of its reads may fail, and a failed write or a crash may cut it short.
* **The register.** `FileStep` is what an operation is for, on the bytes of the claim file alone.
* **Refinement.** `Does` is the rule of pre- and postconditions for computations over the store.  One
  lemma for each function gives `claimStep_refines`, which `Crash.Runs.simulate` takes to histories.

A read that fails does not say that a file is absent which is there (`Sound`). -/

namespace Orgasmic.ClaimRegister

open Text

/-! ### Operations -/

/-- One origin of one project, by names that are safe components. -/
structure ClaimOrigin where
  projectId : Text
  originRunId : Text
  safeProject : validateSafeComponent projectId = true
  safeOrigin : validateSafeComponent originRunId = true

inductive ClaimOp (Value : Type) where
  | plan (spec : PendingRecoveryClaimSpec Value) (draws : Draws)
  | markSpawnStarted (ids : Text × Text)
  | commit (details : CommitRecoveryDetails) (ids : Text × Text)
  | quarantine
  | remove
  | load

/-- The operation is meant to take the claim file away. -/
def ClaimOp.discards {Value : Type} : ClaimOp Value → Bool
  | .quarantine | .remove => true
  | .plan .. | .markSpawnStarted _ | .commit .. | .load => false

/-- The spec for the origin. -/
def forOrigin {Value : Type} (spec : PendingRecoveryClaimSpec Value) (origin : ClaimOrigin) :
    PendingRecoveryClaimSpec Value :=
  { spec with projectId := origin.projectId, originRunId := origin.originRunId }

/-- What an operation answers. -/
abbrev ClaimAnswer (Value : Type) := Except (RecoveryClaimError Value) (Option (RecoveryClaim Value))

/-- Reads that fail as they may, but not by saying that what is there is absent. -/
def Sound (reads : ℕ → ReadPoint → Option ObservationClass) : Prop :=
  ∀ n point, reads n point ≠ some .absent

/-- The bytes of the claim file. -/
def claimFile (dir : Option ClaimDir) : Option Bytes := dir.bind (·.claim)

/-- The error does not name a claim. -/
def Unclaimed {Value : Type} : RecoveryClaimError Value → Prop
  | .alreadyClaimed _ => False
  | _ => True

/-- No answer, or the error of a write. -/
def CutShort {Value : Type} (answer : Option (ClaimAnswer Value)) : Prop :=
  answer = none ∨ ∃ e, answer = some (.error e) ∧ Unclaimed e

section Host

variable {Value : Type} (host : ClaimHost Value)

def ClaimOp.run (origin : ClaimOrigin) :
    ClaimOp Value → ClaimCall Value (Option (RecoveryClaim Value))
  | .plan spec draws => some <$> planPendingRecoveryClaim host (forOrigin spec origin) draws
  | .markSpawnStarted ids =>
      some <$> markPendingRecoverySpawnStarted host origin.projectId origin.originRunId ids
  | .commit details ids =>
      some <$> commitRecoveryClaim host origin.projectId origin.originRunId details ids
  | .quarantine => do
      quarantineInvalidClaim host origin.projectId origin.originRunId
      pure none
  | .remove => do
      removeRecoveryClaim host origin.projectId origin.originRunId
      pure none
  | .load => loadRecoveryClaim host origin.projectId origin.originRunId

/-- One operation on the files of the origin.  A crash or a failed write leaves the files as they
were, or one of the images in between. -/
def ClaimStep (token : Bytes) (origin : ClaimOrigin) (dir : Option ClaimDir) (op : ClaimOp Value)
    (answer : Option (ClaimAnswer Value)) (next : Option ClaimDir) : Prop :=
  ∃ reads, Sound reads ∧
    let out := op.run { host with reads } origin { token := some token, dir }
    (answer = some out.1 ∧ next = out.2.dir) ∨
      (CutShort answer ∧ (next = dir ∨ next ∈ out.2.cuts))

/-! ### The register -/

variable (key : Bytes) (origin : ClaimOrigin)

/-- The claim is one of the origin, complete and tagged by the key. -/
def Authentic (claim : RecoveryClaim Value) : Prop :=
  claim.projectId = origin.projectId ∧ claim.originRunId = origin.originRunId ∧
    claim.hasCompletePlan = true ∧ claim.authorityTag = some (tagOf host key claim)

instance (claim : RecoveryClaim Value) : Decidable (Authentic host key origin claim) :=
  inferInstanceAs (Decidable (_ ∧ _ ∧ _ ∧ _))

/-- The authentic claim that the bytes hold. -/
def readClaim (bytes : Bytes) : Option (RecoveryClaim Value) :=
  ((readToString bytes).bind host.serde.fromStr).filter fun claim =>
    decide (Authentic host key origin claim)

/-- The claim with the tag that the key gives it. -/
def signed (claim : RecoveryClaim Value) : RecoveryClaim Value :=
  { claim with authorityTag := some (tagOf host key claim) }

/-- The claim is pending and its spawn was not announced. -/
def Unstarted (claim : RecoveryClaim Value) : Prop :=
  claim.status = .pending ∧ claim.spawnStarted = false

/-- The bytes of a claim file that holds the claim. -/
def bytesOf (claim : RecoveryClaim Value) : Bytes := utf8 (host.serde.toStringPretty claim)

/-- If the error names a claim, it is the one that the bytes hold. -/
def Names (bytes : Bytes) : RecoveryClaimError Value → Prop
  | .alreadyClaimed claim => readClaim host key origin bytes = some claim
  | _ => True

/-- **The register.**  An operation on a claim file that is there, by its bytes before and after.  No
answer says that there is no claim, and no plan is accepted. -/
inductive FileStep : Bytes → ClaimOp Value → Option (ClaimAnswer Value) → Bytes → Prop
  | loads {file : Bytes} {claim : RecoveryClaim Value}
      (held : readClaim host key origin file = some claim) :
      FileStep file .load (some (.ok (some claim))) file
  | keeps {file : Bytes} {claim : RecoveryClaim Value} {ids : Text × Text}
      (held : readClaim host key origin file = some claim) (started : ¬ Unstarted claim) :
      FileStep file (.markSpawnStarted ids) (some (.ok (some claim))) file
  | marks {file : Bytes} {claim : RecoveryClaim Value} {ids : Text × Text}
      (held : readClaim host key origin file = some claim) (unstarted : Unstarted claim) :
      FileStep file (.markSpawnStarted ids)
        (some (.ok (some (signed host key { claim with spawnStarted := true }))))
        (bytesOf host (signed host key { claim with spawnStarted := true }))
  | commits {file : Bytes} {claim : RecoveryClaim Value} {details : CommitRecoveryDetails}
      {ids : Text × Text} (held : readClaim host key origin file = some claim)
      (agrees : contradicts claim details = false) :
      FileStep file (.commit details ids) (some (.ok (some { claim with status := .committed })))
        (bytesOf host { claim with status := .committed })
  | refuses {file : Bytes} {op : ClaimOp Value} {e : RecoveryClaimError Value}
      (names : Names host key origin file e) :
      FileStep file op (some (.error e)) file
  | lost {file : Bytes} {op : ClaimOp Value} {answer : Option (ClaimAnswer Value)}
      (short : CutShort answer) : FileStep file op answer file
  | cut {file next : Bytes} {op : ClaimOp Value} {answer answer' : Option (ClaimAnswer Value)}
      (step : FileStep file op answer next) (short : CutShort answer') :
      FileStep file op answer' next

/-! ### Computations that leave the claim file -/

section Rules

variable {α β : Type} {token file : Bytes} {P : α → Prop} {Q : β → Prop}
  {G : β → ClaimStore → Prop}

/-- The error neither names a claim nor says that one is absent. -/
def Quiet : RecoveryClaimError Value → Prop
  | .alreadyClaimed _ | .io .absent => False
  | _ => True

/-- Nothing was done to the claim file. -/
structure Untouched (token file : Bytes) (s : ClaimStore) : Prop where
  key : s.token = some token
  claim : claimFile s.dir = some file
  images : ∀ cut ∈ s.cuts, claimFile cut = some file

/-- The claim file was replaced at once. -/
structure Replaced (file bytes : Bytes) (s : ClaimStore) : Prop where
  claim : claimFile s.dir = some bytes
  images : ∀ cut ∈ s.cuts, claimFile cut = some file ∨ claimFile cut = some bytes

/-- An outcome: `G` holds of an answer, and an error is quiet and leaves the claim file. -/
def Ends (token file : Bytes) (out : Except (RecoveryClaimError Value) β × ClaimStore)
    (G : β → ClaimStore → Prop) : Prop :=
  match out.1 with
  | .ok a => G a out.2
  | .error e => Quiet e ∧ Untouched token file out.2

/-- From a claim file with these bytes, the computation ends with `G`. -/
def Does (token file : Bytes) (x : ClaimCall Value β) (G : β → ClaimStore → Prop) : Prop :=
  ∀ s, Untouched token file s → Ends token file (x s) G

/-- The computation leaves the claim file, and `P` holds of its answer. -/
abbrev Leaves (token file : Bytes) (x : ClaimCall Value α) (P : α → Prop) : Prop :=
  Does token file x fun a s => P a ∧ Untouched token file s

theorem Leaves.bind {x : ClaimCall Value α} {f : α → ClaimCall Value β}
    (hx : Leaves token file x P) (hf : ∀ a, P a → Does token file (f a) G) :
    Does token file (x >>= f) G := by
  intro s hs
  have h := hx s hs
  rw [ClaimCall.bind_run]
  rcases hxs : x s with ⟨_ | a, t⟩
  · rw [hxs] at h
    exact h
  · rw [hxs] at h
    exact hf a h.1 t h.2

theorem Does.map {x : ClaimCall Value α} {K : α → ClaimStore → Prop} (g : α → β)
    (hx : Does token file x K) (hg : ∀ a s, K a s → G (g a) s) :
    Does token file (x >>= fun a => pure (g a)) G := by
  intro s hs
  have h := hx s hs
  rw [ClaimCall.bind_run]
  rcases hxs : x s with ⟨_ | a, t⟩
  · rw [hxs] at h
    exact h
  · rw [hxs] at h
    exact hg a t h

theorem Leaves.pure {a : α} (h : P a) : Leaves token file (Pure.pure a : ClaimCall Value α) P :=
  fun _ hs => ⟨h, hs⟩

theorem Does.fail {e : RecoveryClaimError Value} (h : Quiet e) :
    Does token file (ClaimCall.fail e : ClaimCall Value β) G := fun _ hs => ⟨h, hs⟩

/-- What a computation reads of the store. -/
theorem Does.store {f : ClaimStore → ClaimCall Value β}
    (hf : ∀ s, Untouched token file s → Does token file (f s) G) :
    Does token file (ClaimCall.store >>= f) G := fun s hs => hf s hs s hs

theorem Leaves.attempt {x : ClaimCall Value α} (hx : Leaves token file x P) :
    Leaves token file (ClaimCall.attempt x) fun r =>
      match r with
      | .ok a => P a
      | .error e => Quiet e := by
  intro s hs
  have h := hx s hs
  rcases hxs : x s with ⟨_ | a, t⟩ <;> rw [hxs] at h <;> simp only [ClaimCall.attempt, hxs] <;>
    exact h

theorem Does.attempt {x : ClaimCall Value α} {K : α → ClaimStore → Prop}
    {f : Except (RecoveryClaimError Value) α → ClaimCall Value β} (hx : Does token file x K)
    (hok : ∀ a s, K a s → Ends token file (f (.ok a) s) G)
    (herr : ∀ e, Quiet e → Does token file (f (.error e)) G) :
    Does token file (ClaimCall.attempt x >>= f) G := by
  intro s hs
  have h := hx s hs
  rw [ClaimCall.bind_run]
  rcases hxs : x s with ⟨e | a, t⟩ <;> rw [hxs] at h <;> simp only [ClaimCall.attempt, hxs]
  · exact herr e h.1 t h.2
  · exact hok a t h

theorem Untouched.replaced {s : ClaimStore} (h : Untouched token file s) : Replaced file file s :=
  ⟨h.claim, fun cut hcut => .inl (h.images cut hcut)⟩

theorem Untouched.files {s : ClaimStore} (h : Untouched token file s) :
    s.dir = some s.files ∧ s.files.claim = some file := by
  obtain ⟨dir, hdir, hclaim⟩ := Option.bind_eq_some_iff.mp h.claim
  simp [ClaimStore.files, hdir, hclaim]

end Rules

/-! ### One lemma for each function -/

variable {host} {origin} {token file : Bytes}

theorem quiet_claimIoError {reason : UnobservedSession} {c : ObservationClass} (h : c ≠ .absent) :
    Quiet (claimIoError reason c : RecoveryClaimError Value) := by
  cases c with
  | absent => exact absurd rfl h
  | decided => exact trivial
  | unobserved => exact trivial

/-- A complete claim has every field that a commit would fill in. -/
theorem committedClaim_eq {claim : RecoveryClaim Value} (h : claim.hasCompletePlan = true)
    (details : CommitRecoveryDetails) :
    committedClaim claim details = { claim with status := .committed } := by
  have isSome_of_given : ∀ {field : Option Text}, given field = true → field.isSome
    | some _, _ => rfl
  simp only [RecoveryClaim.hasCompletePlan, Bool.and_eq_true, and_assoc] at h
  obtain ⟨-, -, runtime, boot, action, target, draft, -⟩ := h
  have runtime : claim.runtimeId.isSome := by
    rw [of_decide_eq_true runtime]
    rfl
  rw [committedClaim, Option.or_of_isSome runtime, Option.or_of_isSome (isSome_of_given boot),
    Option.or_of_isSome (isSome_of_given action), Option.or_of_isSome (isSome_of_given target),
    Option.or_of_isSome draft]

theorem Quiet.names {key bytes : Bytes} {e : RecoveryClaimError Value} (h : Quiet e) :
    Names host key origin bytes e := by
  cases e with
  | alreadyClaimed claim => exact h.elim
  | _ => exact trivial

theorem claimFileName_leaves (originRunId : Text) :
    Leaves token file (claimFileName originRunId : ClaimCall Value Unit) fun _ => True := by
  unfold claimFileName
  split
  · exact Leaves.pure trivial
  · exact Does.fail trivial

theorem durable_leaves {images : List ClaimDir} {dir : ClaimDir}
    (himages : ∀ image ∈ images, image.claim = some file) (hdir : dir.claim = some file) :
    Leaves token file (ClaimCall.durable images dir : ClaimCall Value Unit) fun _ => True := by
  refine fun s hs => ⟨trivial, hs.key, hdir, fun cut hcut => ?_⟩
  rcases List.mem_append.mp hcut with old | new
  · exact hs.images cut old
  · obtain ⟨image, himage, rfl⟩ := List.mem_map.mp new
    rcases List.mem_append.mp himage with h | h
    · exact himages image h
    · rw [List.mem_singleton.mp h]
      exact hdir

theorem removeTemp_leaves (id : Text) :
    Leaves token file (removeTemp id : ClaimCall Value Unit) fun _ => True :=
  Does.store fun _ hs => durable_leaves nofun hs.files.2

theorem createTemp_leaves (id : Text) (bytes : Bytes) :
    Leaves token file (createTemp id bytes : ClaimCall Value Unit) fun _ => True := by
  refine Does.store fun s hs => ?_
  split
  · exact Does.fail trivial
  · refine durable_leaves (fun image himage => ?_) hs.files.2
    obtain ⟨part, -, rfl⟩ := List.mem_map.mp himage
    exact hs.files.2

/-- The temporary file that was created is there, with its bytes. -/
theorem createTemp_file {id : Text} {bytes : Bytes} {s t : ClaimStore}
    (h : (createTemp id bytes : ClaimCall Value Unit) s = (.ok (), t)) :
    t.files.file (.temp id) = some bytes := by
  unfold createTemp at h
  rw [ClaimCall.bind_run] at h
  dsimp only [ClaimCall.store] at h
  split at h
  · cases h
  · rename_i fresh
    obtain rfl := (Prod.mk.inj h).2
    have none : s.files.temps.find? (·.1 = id) = none :=
      List.find?_eq_none.mpr fun temp htemp heq =>
        fresh (List.mem_map.mpr ⟨temp, htemp, of_decide_eq_true heq⟩)
    change ((s.files.temps ++ [(id, bytes)]).find? (·.1 = id)).map (·.2) = some bytes
    rw [List.find?_append, none]
    simp

theorem renameTemp_does {id : Text} {bytes : Bytes} {s : ClaimStore}
    (hs : Untouched token file s) (h : s.files.file (.temp id) = some bytes) :
    ∃ t, (renameTemp id : ClaimCall Value Unit) s = (.ok (), t) ∧ Replaced file bytes t := by
  unfold renameTemp
  rw [ClaimCall.bind_run]
  dsimp only [ClaimCall.store]
  rw [h]
  refine ⟨_, rfl, rfl, fun cut hcut => ?_⟩
  rcases List.mem_append.mp hcut with old | new
  · exact .inl (hs.images cut old)
  · rw [List.mem_singleton.mp new]
    exact .inr rfl

section Reads

variable (sound : Sound host.reads)

include sound

theorem look_leaves (point : ReadPoint) : Leaves token file (look host point) (· ≠ some .absent) :=
  fun s hs => ⟨sound s.log.length point, hs.key, hs.claim, hs.images⟩

theorem observe_leaves (point : ReadPoint) {onError : ObservationClass → RecoveryClaimError Value}
    (h : ∀ c, c ≠ .absent → Quiet (onError c)) :
    Leaves token file (observe host point onError) fun _ => True := by
  unfold observe
  refine (look_leaves sound point).bind fun r hr => ?_
  cases r with
  | none => exact Leaves.pure trivial
  | some c => exact Does.fail (h c fun hc => hr (congrArg some hc))

theorem openComponent_leaves (create : Bool) (make : ClaimCall Value Unit) :
    Leaves token file (openComponent host create make) (· = true) := by
  unfold openComponent
  refine Does.store fun s hs => (look_leaves sound _).bind fun r hr => ?_
  have dir : s.dir ≠ none := by simp [hs.files.1]
  rw [if_neg fun h => dir h.2]
  match r with
  | none =>
      exact (observe_leaves sound _ fun _ => quiet_claimIoError).bind fun _ _ => Leaves.pure rfl
  | some .absent => exact absurd rfl hr
  | some .decided => exact Does.fail trivial
  | some .unobserved => exact Does.fail trivial

theorem openClaimDirectory_leaves (projectId : Text) (create : Bool) :
    Leaves token file (openClaimDirectory host projectId create) (· = true) := by
  unfold openClaimDirectory
  split
  · exact Does.fail trivial
  · refine (observe_leaves sound _ fun _ => quiet_claimIoError).bind fun _ _ => ?_
    refine (observe_leaves sound _ fun _ => quiet_claimIoError).bind fun _ _ => ?_
    refine (openComponent_leaves sound create _).bind fun there hthere => ?_
    rw [if_pos hthere]
    exact openComponent_leaves sound create _

/-- The claim file is there, so a reading that fails does not say that it is absent. -/
theorem readRegular_leaves :
    Leaves token file (readRegular host .claim) fun raw => readToString file = some raw := by
  unfold readRegular
  refine (observe_leaves sound _ fun _ => quiet_claimIoError).bind fun _ _ => ?_
  refine Does.store fun s hs => ?_
  rw [ClaimDir.file, hs.files.2]
  refine (observe_leaves sound _ fun _ => quiet_claimIoError).bind fun _ _ => ?_
  refine (observe_leaves sound _ fun _ => quiet_claimIoError).bind fun _ _ => ?_
  cases h : readToString file with
  | none => exact Does.fail trivial
  | some raw => exact Leaves.pure rfl

theorem authorityKey_leaves :
    Leaves token file (authorityKey host) (· = trimKey token) := by
  have present : Leaves token file (tokenIsPresent host) (· = true) := by
    unfold tokenIsPresent
    refine (look_leaves sound _).bind fun r hr => ?_
    match r with
    | none => exact Does.store fun s hs => Leaves.pure (by rw [hs.key]; rfl)
    | some .absent => exact absurd rfl hr
    | some .decided => exact Does.fail trivial
    | some .unobserved => exact Does.fail trivial
  have io : ∀ c, c ≠ .absent → Quiet (.io c : RecoveryClaimError Value) :=
    fun c hc => by cases c <;> first | exact trivial | exact absurd rfl hc
  unfold authorityKey
  refine present.bind fun there hthere => ?_
  subst hthere
  refine (observe_leaves sound _ io).bind fun _ _ => Does.store fun s hs => ?_
  rw [hs.key]
  refine (observe_leaves sound _ io).bind fun _ _ => (observe_leaves sound _ io).bind fun _ _ => ?_
  dsimp only
  split
  · exact Does.fail trivial
  · exact Leaves.pure rfl

theorem claimHasValidAuthority_leaves (claim : RecoveryClaim Value) :
    Leaves token file (claimHasValidAuthority host claim) fun evidence =>
      evidence = .valid → claim.authorityTag = some (tagOf host (trimKey token) claim) := by
  unfold claimHasValidAuthority
  split
  · exact Leaves.pure nofun
  · rename_i actual htag
    refine (authorityKey_leaves sound).attempt.bind fun r hr => ?_
    split
    · subst hr
      refine Leaves.pure fun h => ?_
      rw [ClaimEvidence.verified] at h
      split at h
      · rename_i heq
        rw [htag, of_decide_eq_true heq]
      · cases h
    · exact Leaves.pure nofun
    · exact Leaves.pure nofun

theorem reconcileStaleClaimTemp_leaves (projectId originRunId : Text) :
    Leaves token file (reconcileStaleClaimTemp host projectId originRunId) fun _ => True := by
  unfold reconcileStaleClaimTemp
  refine (openClaimDirectory_leaves sound _ _).bind fun there hthere => ?_
  subst hthere
  refine (claimFileName_leaves originRunId).bind fun _ _ => ?_
  refine (readRegular_leaves sound).attempt.bind fun r hr => ?_
  split
  · exact Leaves.pure trivial
  · exact hr.elim
  · exact Does.fail hr

theorem readClaimFile_leaves (projectId originRunId : Text) :
    Leaves token file (readClaimFile host projectId originRunId) fun r =>
      ∃ raw, r = some raw ∧ readToString file = some raw := by
  unfold readClaimFile
  refine (openClaimDirectory_leaves sound _ _).bind fun there hthere => ?_
  subst hthere
  refine (readRegular_leaves sound).attempt.bind fun r hr => ?_
  split
  · exact Leaves.pure ⟨_, rfl, hr⟩
  · exact hr.elim
  · exact Does.fail hr

/-- A claim that is loaded is the authentic one of the file. -/
theorem loadRecoveryClaim_leaves :
    Leaves token file (loadRecoveryClaim host origin.projectId origin.originRunId) fun r =>
      ∃ claim, r = some claim ∧ readClaim host (trimKey token) origin file = some claim := by
  unfold loadRecoveryClaim
  refine (claimFileName_leaves _).bind fun _ _ => ?_
  refine (readClaimFile_leaves sound _ _).bind fun r hr => ?_
  obtain ⟨raw, rfl, hraw⟩ := hr
  dsimp only
  split
  · exact Does.fail trivial
  · rename_i claim hclaim
    split
    · exact Does.fail trivial
    rename_i own
    split
    · exact Does.fail trivial
    rename_i complete
    refine (claimHasValidAuthority_leaves sound claim).bind fun evidence hvalid => ?_
    split
    · obtain ⟨project, run⟩ := not_or.mp own
      have authentic : Authentic host (trimKey token) origin claim :=
        ⟨not_not.mp project, not_not.mp run, by simpa using complete, hvalid rfl⟩
      refine Leaves.pure ⟨claim, rfl, ?_⟩
      rw [readClaim, hraw, Option.bind_some, hclaim, Option.filter_some, if_pos (by simpa)]
    · exact Does.fail trivial
    · exact Does.fail trivial

theorem writeClaimAtomic_does (id : Text) (claim : RecoveryClaim Value) :
    Does token file (writeClaimAtomic host id claim) fun _ => Replaced file (bytesOf host claim) := by
  have written : Does token file (do createTemp id (bytesOf host claim); renameTemp id :
      ClaimCall Value Unit) fun _ => Replaced file (bytesOf host claim) := by
    intro s hs
    have created : Ends token file
      ((createTemp id (bytesOf host claim) : ClaimCall Value Unit) s) _ := createTemp_leaves _ _ s hs
    rw [ClaimCall.bind_run]
    rcases hc : (createTemp id (bytesOf host claim) : ClaimCall Value Unit) s with ⟨e | _, t⟩ <;>
      rw [hc] at created
    · exact created
    · obtain ⟨u, hu, replaced⟩ := renameTemp_does created.2 (createTemp_file hc)
      dsimp only
      rw [hu]
      exact replaced
  unfold writeClaimAtomic
  refine (openClaimDirectory_leaves sound _ _).bind fun there hthere => ?_
  subst hthere
  refine (claimFileName_leaves _).bind fun _ _ => written.attempt (fun _ _ h => h) fun e he => ?_
  exact (removeTemp_leaves id).bind fun _ _ => Does.fail he

theorem writeClaimAtomicOrReconcile_does (ids : Text × Text) (claim : RecoveryClaim Value) :
    Does token file (writeClaimAtomicOrReconcile host ids claim) fun _ =>
      Replaced file (bytesOf host claim) := by
  refine (writeClaimAtomic_does sound ids.1 claim).attempt (fun _ _ h => h) fun e he => ?_
  cases e with
  | alreadyExists =>
      exact (reconcileStaleClaimTemp_leaves sound _ _).bind fun _ _ =>
        writeClaimAtomic_does sound ids.2 claim
  | alreadyClaimed _ => exact he.elim
  | _ => exact Does.fail he

/-! ### The operations -/

variable (host origin token file) in
omit sound in
/-- The answer and the claim file are those of the register. -/
def Effect (op : ClaimOp Value) (answer : Option (RecoveryClaim Value)) (s : ClaimStore) : Prop :=
  ∃ next, FileStep host (trimKey token) origin file op (some (.ok answer)) next ∧
    Replaced file next s

theorem planPendingRecoveryClaim_refuses (spec : PendingRecoveryClaimSpec Value) (draws : Draws)
    {s : ClaimStore} (hs : Untouched token file s) :
    ∃ e t, planPendingRecoveryClaim host (forOrigin spec origin) draws s = (.error e, t) ∧
      Untouched token file t ∧ Names host (trimKey token) origin file e := by
  unfold planPendingRecoveryClaim
  split
  · exact ⟨_, _, rfl, hs, trivial⟩
  · rw [ClaimCall.bind_run]
    have loaded : Ends token file (loadRecoveryClaim host (forOrigin spec origin).projectId
      (forOrigin spec origin).originRunId s) _ := loadRecoveryClaim_leaves sound s hs
    rcases hl : loadRecoveryClaim host (forOrigin spec origin).projectId
      (forOrigin spec origin).originRunId s with ⟨e | r, t⟩ <;> rw [hl] at loaded
    · exact ⟨e, t, rfl, loaded.2, loaded.1.names⟩
    · obtain ⟨⟨claim, rfl, held⟩, ht⟩ := loaded
      exact ⟨_, t, rfl, ht, held⟩

theorem markPendingRecoverySpawnStarted_does (ids : Text × Text) :
    Does token file (markPendingRecoverySpawnStarted host origin.projectId origin.originRunId ids)
      fun w => Effect host origin token file (.markSpawnStarted ids) (some w) := by
  unfold markPendingRecoverySpawnStarted
  refine (loadRecoveryClaim_leaves sound).bind fun r hr => ?_
  obtain ⟨claim, rfl, held⟩ := hr
  dsimp only
  split
  · rename_i status
    exact fun s hs => ⟨file, .keeps held fun h => status h.1, hs.replaced⟩
  rename_i status
  split
  · rename_i started
    exact fun s hs => ⟨file, .keeps held fun h => by simp [h.2] at started, hs.replaced⟩
  rename_i started
  have unstarted : Unstarted claim := ⟨not_not.mp status, by simpa using started⟩
  refine Leaves.bind (P := (· = tagOf host (trimKey token) { claim with spawnStarted := true }))
    ?_ fun tag htag => ?_
  · exact (authorityKey_leaves sound).bind fun key hkey => Leaves.pure (by rw [hkey]; rfl)
  subst htag
  exact (writeClaimAtomicOrReconcile_does sound ids _).map _ fun _ s hs =>
    ⟨_, .marks held unstarted, hs⟩

theorem commitRecoveryClaim_does (details : CommitRecoveryDetails) (ids : Text × Text) :
    Does token file (commitRecoveryClaim host origin.projectId origin.originRunId details ids)
      fun w => Effect host origin token file (.commit details ids) (some w) := by
  unfold commitRecoveryClaim
  refine (loadRecoveryClaim_leaves sound).bind fun r hr => ?_
  obtain ⟨claim, rfl, held⟩ := hr
  dsimp only
  split
  · exact Does.fail trivial
  rename_i agrees
  have complete : claim.hasCompletePlan = true := by
    have h := (Option.filter_eq_some_iff.mp held).2
    exact (of_decide_eq_true h).2.2.1
  rw [committedClaim_eq complete]
  exact (writeClaimAtomicOrReconcile_does sound ids _).map _ fun _ s hs =>
    ⟨_, .commits held (by simpa using agrees), hs⟩

/-! ### Refinement -/

variable (origin) in
theorem run_refines (op : ClaimOp Value) (stays : op.discards = false) {s : ClaimStore}
    (hs : Untouched token file s) :
    ∃ next, FileStep host (trimKey token) origin file op (some (op.run host origin s).1) next ∧
      Replaced file next (op.run host origin s).2 := by
  suffices h : Does token file (op.run host origin) (Effect host origin token file op) ∨
      ∃ e t, op.run host origin s = (.error e, t) ∧ Untouched token file t ∧
        Names host (trimKey token) origin file e by
    rcases h with h | ⟨e, t, run, ht, names⟩
    · have h := h s hs
      rcases hrun : op.run host origin s with ⟨e | r, t⟩ <;> rw [hrun] at h
      · exact ⟨file, .refuses h.1.names, h.2.replaced⟩
      · exact h
    · rw [run]
      exact ⟨file, .refuses names, ht.replaced⟩
  cases op with
  | plan spec draws =>
      obtain ⟨e, t, run, h⟩ := planPendingRecoveryClaim_refuses sound spec draws hs
      refine .inr ⟨e, t, ?_, h⟩
      change (planPendingRecoveryClaim host (forOrigin spec origin) draws >>= _) s = _
      rw [ClaimCall.bind_run, run]
  | markSpawnStarted ids =>
      exact .inl ((markPendingRecoverySpawnStarted_does sound ids).map some fun _ _ h => h)
  | commit details ids =>
      exact .inl ((commitRecoveryClaim_does sound details ids).map some fun _ _ h => h)
  | quarantine => cases stays
  | remove => cases stays
  | load =>
      refine .inl fun s hs => ?_
      have h : Ends token file (loadRecoveryClaim host origin.projectId origin.originRunId s) _ :=
        loadRecoveryClaim_leaves sound s hs
      change Ends token file (loadRecoveryClaim host _ _ s) _
      rcases hl : loadRecoveryClaim host origin.projectId origin.originRunId s with ⟨e | r, t⟩ <;>
        rw [hl] at h
      · exact h
      · obtain ⟨⟨claim, rfl, held⟩, ht⟩ := h
        exact ⟨file, .loads held, ht.replaced⟩

end Reads

/-- The register does not read. -/
theorem FileStep.of_reads {key bytes next : Bytes} {op : ClaimOp Value}
    {reads : ℕ → ReadPoint → Option ObservationClass} {answer : Option (ClaimAnswer Value)}
    (h : FileStep { host with reads } key origin bytes op answer next) :
    FileStep host key origin bytes op answer next := by
  induction h with
  | loads held => exact .loads held
  | keeps held started => exact .keeps held started
  | marks held unstarted => exact .marks held unstarted
  | commits held agrees => exact .commits held agrees
  | refuses names => exact .refuses names
  | lost short => exact .lost short
  | cut _ short ih => exact ih.cut short

/-- **One operation.** -/
theorem claimStep_refines {dir next : Option ClaimDir} {op : ClaimOp Value}
    {answer : Option (ClaimAnswer Value)} (step : ClaimStep host token origin dir op answer next)
    (held : claimFile dir = some file) (stays : op.discards = false) :
    ∃ file', claimFile next = some file' ∧
      FileStep host (trimKey token) origin file op answer file' := by
  obtain ⟨reads, sound, h⟩ := step
  have hs : Untouched token file { token := some token, dir } := ⟨rfl, held, nofun⟩
  obtain ⟨file', refined, replaced⟩ := run_refines origin
    (show Sound { host with reads }.reads from sound) op stays hs
  have refined := refined.of_reads
  rcases h with ⟨rfl, rfl⟩ | ⟨short, rfl | image⟩
  · exact ⟨file', replaced.claim, refined⟩
  · exact ⟨file, held, .lost short⟩
  · rcases replaced.images next image with old | new
    · exact ⟨file, old, .lost short⟩
    · exact ⟨file', new, refined.cut short⟩

/-- **The claim file is the register.** -/
theorem claimFile_refines {dir last : Option ClaimDir}
    {history : List (ClaimOp Value × Option (ClaimAnswer Value))}
    (runs : Crash.Runs (ClaimStep host token origin) dir history last)
    (held : claimFile dir = some file) (stays : ∀ e ∈ history, e.1.discards = false) :
    ∃ file', claimFile last = some file' ∧
      Crash.Runs (FileStep host (trimKey token) origin) file history file' :=
  runs.simulate (fun dir file => claimFile dir = some file)
    (fun e he _ _ _ step held => claimStep_refines step held (stays e he)) held

end Host

/-- A claim of a rescue that was planned. -/
def rescueClaim : RecoveryClaim Unit where
  planVersion := some 1
  authorityTag := some (List.replicate 64 '0')
  projectId := "p".toList
  originRunId := "o".toList
  requestId := "q".toList
  status := .pending
  replacementRunId := "r".toList
  replacementSessionPath := []
  replacementRuntimeId := "t".toList
  runtimeId := some "t".toList
  bootId := some "b".toList
  action := some "start_recovery_run".toList
  target := some "run".toList
  draftPrompt := some []
  originSessionPath := some []
  plannedTmuxSession := some "s".toList
  taskId := some "T-1".toList
  kind := some "worker".toList
  workerId := some "w".toList
  role := some "coder".toList
  requiresWorkerFinalize := some false
  transport := some "tmux".toList
  harness := some "claude".toList
  driverConfig := some ()
  forceInert := some false
  worktree := none
  lastPath := none
  stdoutPath := none
  plannedNativeRuntime := none
  runOptions := some ⟨none, none, none, false⟩
  spawnStarted := false

def rescueHost : ClaimHost Unit where
  json := ⟨fun _ => none, fun _ => none, fun _ => none, fun _ _ => none, fun _ => none,
    fun _ => none, fun _ => none, fun _ => none, fun _ => (), fun _ => (), fun _ => (), fun _ => []⟩
  serde :=
    { fromStr := fun raw =>
        if raw = "pending".toList then some rescueClaim
        else if raw = "started".toList then some { rescueClaim with spawnStarted := true }
        else none
      fromValue := fun _ => none
      toStringPretty := fun claim =>
        if claim.status = .committed then "committed".toList
        else if claim.spawnStarted then "started".toList else "pending".toList
      toVec := fun _ => [] }
  sha256 _ := List.replicate 32 0
  sha256_length _ := List.length_replicate
  reads _ _ := none
  newToken := []

def rescueOrigin : ClaimOrigin := ⟨"p".toList, "o".toList, by decide, by decide⟩

/-- The host stops after the claim was marked; a load cannot open the file; a commit goes through. -/
def rescueHistory : List (ClaimOp Unit × Option (ClaimAnswer Unit)) :=
  [(.markSpawnStarted ("1".toList, "2".toList), none),
    (.load, some (.error (.unobserved .claimFileUnreadable))),
    (.commit ⟨"t".toList, "b".toList, "start_recovery_run".toList, "run".toList, none⟩
      ("3".toList, "4".toList),
      some (.ok (some { rescueClaim with spawnStarted := true, status := .committed })))]

theorem claimFile_refines_sample : ∃ file', claimFile (some { claim := some (utf8 "committed".toList) }) = some file' ∧
    Crash.Runs (FileStep rescueHost [107] rescueOrigin) (utf8 "pending".toList) rescueHistory file' := by
  let dir (text : Text) : Option ClaimDir := some { claim := some (utf8 text) }
  have runs : Crash.Runs (ClaimStep rescueHost [107] rescueOrigin) (dir "pending".toList)
      rescueHistory (dir "committed".toList) := by
    refine .cons (t := dir "started".toList) ?_
      (.cons (t := dir "started".toList) ?_ (.cons ?_ (.nil _)))
    · exact ⟨rescueHost.reads, fun _ _ => nofun, .inr ⟨.inl rfl, .inr (by decide +kernel)⟩⟩
    · refine ⟨fun _ point => if point = .claimOpen then some .unobserved else none, ?_,
        .inl ⟨by decide +kernel, by decide +kernel⟩⟩
      intro n point
      dsimp only
      split <;> nofun
    · exact ⟨rescueHost.reads, fun _ _ => nofun, .inl ⟨by decide +kernel, by decide +kernel⟩⟩
  exact claimFile_refines runs rfl (by decide)

end Orgasmic.ClaimRegister
