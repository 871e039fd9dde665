import Orgasmic.RepairUnderway

/-! # Settled repairs

* `Settled`: the files of a finished repair; `Staged`: also the index, and perhaps `HEAD`.
* `Steady`: the invariant of every instant.  The index is that of the beginning until the files are
  settled.
* `settled_of_verified`: what the last checks of a run say of the files.
* `expectedInitial` and `expectedFinal` agree where the repair changes nothing. -/

namespace Orgasmic

open Text

namespace Plan

variable {tools : RepairTools} {plan : Plan} {s₀ s t : RepairLedger}

/-- What a planned file has at the end. -/
def plannedBytes (file : PlannedFile) (first : WorkFile) : Bytes :=
  match file.after with
  | some text => utf8 text
  | none => first.bytes

/-- Every planned file is at its target with its planned bytes, the record is there, and nothing is
staged. -/
structure Settled (tools : RepairTools) (plan : Plan) (s₀ s : RepairLedger) : Prop where
  target : ∀ file ∈ plan.files, ∃ first found, s₀.files.find file.source = some first ∧
    s.files.find file.target = some found ∧ found.executable = first.executable ∧
    found.bytes = plannedBytes file first ∧
    (file.source ≠ file.target → s.files.find file.source = none)
  record : ∃ found, s.files.find plan.recordPath = some found ∧ found.bytes = utf8 plan.record
  unstaged : ∀ write ∈ plan.plannedWrites, s.files.find (plan.stagingPath tools write.1) = none

/-- The tree has the record. -/
def HasRecord (plan : Plan) (tree : Inventory FilePath GitBlob) : Prop :=
  ∃ blob, tree.find plan.recordPath = some blob ∧ blob.bytes = utf8 plan.record

/-- The index is that of the finished repair, which may be committed. -/
structure Staged (tools : RepairTools) (plan : Plan) (s₀ s : RepairLedger) : Prop where
  settled : Settled tools plan s₀ s
  plain : ∀ found, s.files.find plan.recordPath = some found → found.executable = false
  index : ∀ path, (stamps tools s.index).find path = (RepairLedger.expectedFinal plan).find path
  recorded : HasRecord plan s.index
  head : s.head = s₀.head ∨ (s.head.parent = some plan.checkpoint ∧
    (∀ path, (stamps tools s.head.tree).find path = (stamps tools s.index).find path) ∧
    HasRecord plan s.head.tree)

/-- The invariant of every instant. -/
structure Steady (tools : RepairTools) (plan : Plan) (s₀ s : RepairLedger) : Prop where
  underway : Underway tools plan s₀ s
  progress : (s.index = s₀.index ∧ s.head = s₀.head) ∨ Staged tools plan s₀ s

/-- The object id of the record is right, and no planned file has a reserved name. -/
structure Resumable (tools : RepairTools) (plan : Plan) : Prop where
  recordOid : tools.blobOid (utf8 plan.record) = plan.recordOid
  unreserved : plan.Unreserved tools

/-! ### What a settled repair is -/

section settled

variable {file : PlannedFile}

theorem first_mode (begins : Begins tools plan s₀) (mem : file ∈ plan.files) {first : WorkFile}
    (there : s₀.files.find file.source = some first) :
    gitMode first.executable = file.mode ∧ tools.blobOid first.bytes = file.oid := by
  obtain ⟨first', there', stamp⟩ := begins.source mem
  obtain rfl := Option.some.inj (there.symm.trans there')
  exact Prod.mk.inj stamp

/-- The path of a planned file that is there is its place. -/
theorem place_eq (underway : Underway tools plan s₀ s) (mem : file ∈ plan.files) {path : FilePath}
    {found : WorkFile} (there : s.files.find path = some found)
    (at_place : path = file.source ∨ path = file.target) : s.place file = path := by
  unfold RepairLedger.place RepairLedger.present
  obtain ⟨g, -, ⟨at_source, absent⟩ | ⟨at_target, absent⟩⟩ := underway.placed file mem
  · rw [at_source]
    obtain rfl | rfl := at_place
    · simp
    · by_cases same : file.source = file.target
      · simp [same]
      · rw [absent same] at there
        cases there
  · by_cases same : file.source = file.target
    · obtain rfl | rfl := at_place <;> simp [same]
    · rw [absent same]
      obtain rfl | rfl := at_place
      · rw [absent same] at there
        cases there
      · simp [same]

/-- What the last checks of a run say of the files. -/
theorem settled_of_verified (underway : Underway tools plan s₀ s)
    (verified : s.verifyState tools plan true = true) : Settled tools plan s₀ s := by
  simp only [RepairLedger.verifyState, Bool.and_eq_true] at verified
  obtain ⟨⟨⟨⟨⟨⟨⟨-, files⟩, record⟩, -⟩, staging⟩, -⟩, -⟩, -⟩ := verified
  refine ⟨fun file mem => ?_, ?_, fun write mem => ?_⟩
  · have ok := List.all_eq_true.mp files file mem
    simp only [RepairLedger.fileOk, Bool.and_eq_true, Bool.or_eq_true, decide_eq_true_eq] at ok
    obtain ⟨where_, what⟩ := ok
    obtain ⟨found, ⟨first, at_first, executable, bytes⟩, at_place⟩ := underway.placed file mem
    have at_target : s.files.find file.target = some found ∧
        (file.source ≠ file.target → s.files.find file.source = none) := by
      obtain ⟨at_source, -⟩ | at_target := at_place
      · by_cases same : file.source = file.target
        · exact ⟨same ▸ at_source, fun other => absurd same other⟩
        · have moved := (where_.resolve_left same).2
          simp [RepairLedger.present, at_source] at moved
      · exact at_target
    refine ⟨first, found, at_first, at_target.1, executable, ?_, at_target.2⟩
    rw [place_eq underway mem at_target.1 (.inr rfl), at_target.1] at what
    simp only [Option.any_some, Bool.and_eq_true, Bool.or_eq_true, Bool.not_true, Bool.false_eq_true,
      false_or] at what
    unfold plannedBytes
    cases after : file.after with
    | some text => simpa [after] using what.2
    | none => simpa [after] using bytes
  · unfold RepairLedger.recordOk at record
    split at record
    · next found there => exact ⟨found, there, of_decide_eq_true record⟩
    · cases record
  · have ok := List.all_eq_true.mp staging write mem
    unfold RepairLedger.stagingOk at ok
    split at ok
    · simp at ok
    · next absent => exact absent

/-- A settled file has what the plan says. -/
theorem Settled.stamp (settled : Settled tools plan s₀ s) (begins : Begins tools plan s₀)
    (mem : file ∈ plan.files) : ∃ found, s.files.find file.target = some found ∧
      found.blob.stamp tools = (file.mode, file.afterOid) := by
  obtain ⟨first, found, at_first, at_target, executable, bytes, -⟩ := settled.target file mem
  obtain ⟨mode, oid⟩ := first_mode begins mem at_first
  refine ⟨found, at_target, Prod.ext ?_ ?_⟩
  · show gitMode found.executable = file.mode
    rw [executable, mode]
  · show tools.blobOid found.bytes = file.afterOid
    have checked := afterOid_eq begins.valid mem
    rw [bytes]
    unfold plannedBytes
    cases after : file.after with
    | some text =>
        rw [after] at checked
        exact checked
    | none =>
        rw [after] at checked
        exact oid.trans checked

end settled

/-! ### The index -/

section index

variable {file : PlannedFile} {path : FilePath}

theorem final_nodup (begins : Begins tools plan s₀) :
    (((plan.recordPath, "100644".toList, plan.recordOid) ::
      plan.files.map fun file => (file.target, file.mode, file.afterOid)).map Prod.fst).Nodup := by
  rw [List.map_cons, List.map_map]
  refine List.nodup_cons.mpr ⟨fun mem => ?_, targets_nodup begins.valid⟩
  obtain ⟨file, inFiles, eq⟩ := List.mem_map.mp mem
  exact record_not_target begins.valid inFiles eq

theorem final_record (begins : Begins tools plan s₀) :
    (RepairLedger.expectedFinal plan).find plan.recordPath =
      some ("100644".toList, plan.recordOid) :=
  (Inventory.find_ofList (final_nodup begins)).mpr List.mem_cons_self

theorem final_target (begins : Begins tools plan s₀) (mem : file ∈ plan.files) :
    (RepairLedger.expectedFinal plan).find file.target = some (file.mode, file.afterOid) :=
  (Inventory.find_ofList (final_nodup begins)).mpr
    (List.mem_cons_of_mem _ (List.mem_map.mpr ⟨file, mem, rfl⟩))

theorem final_none (not_record : path ≠ plan.recordPath)
    (not_target : ∀ file ∈ plan.files, path ≠ file.target) :
    (RepairLedger.expectedFinal plan).find path = none := by
  refine Inventory.find_ofList_eq_none.mpr fun mem => ?_
  rw [List.map_cons, List.map_map] at mem
  obtain eq | mem := List.mem_cons.mp mem
  · exact not_record eq
  · obtain ⟨file, inFiles, eq⟩ := List.mem_map.mp mem
    exact not_target file inFiles eq.symm

/-- What the final index has is the record or a target. -/
theorem final_cases (begins : Begins tools plan s₀) {entry : Text × Text}
    (found : (RepairLedger.expectedFinal plan).find path = some entry) :
    (path = plan.recordPath ∧ entry = ("100644".toList, plan.recordOid)) ∨
      ∃ file ∈ plan.files, path = file.target ∧ entry = (file.mode, file.afterOid) := by
  have mem := (Inventory.find_ofList (final_nodup begins)).mp found
  obtain eq | mem := List.mem_cons.mp mem
  · exact .inl ⟨congrArg Prod.fst eq, congrArg Prod.snd eq⟩
  · obtain ⟨file, inFiles, eq⟩ := List.mem_map.mp mem
    exact .inr ⟨file, inFiles, (congrArg Prod.fst eq).symm, (congrArg Prod.snd eq).symm⟩

/-- The two indexes agree where nothing changes. -/
theorem final_of_unchanged (begins : Begins tools plan s₀)
    (unchanged : path ∉ RepairLedger.changedPaths plan) :
    (RepairLedger.expectedInitial plan).find path = (RepairLedger.expectedFinal plan).find path := by
  have still : ∀ file ∈ plan.files, path = file.source ∨ path = file.target →
      file.source = file.target ∧ file.after = none := by
    intro file mem at_file
    by_contra changes
    refine unchanged (List.mem_cons_of_mem _ (List.mem_flatMap.mpr ⟨file, List.mem_filter.mpr
      ⟨mem, ?_⟩, by simpa using at_file⟩))
    by_cases same : file.source = file.target
    · have after : file.after ≠ none := fun none => changes ⟨same, none⟩
      simp [Option.isSome_iff_ne_none, after]
    · simp [same]
  have not_record : path ≠ plan.recordPath := fun eq => unchanged (eq ▸ List.mem_cons_self)
  by_cases target : ∃ file ∈ plan.files, path = file.target
  · obtain ⟨file, mem, rfl⟩ := target
    obtain ⟨same, none⟩ := still file mem (.inr rfl)
    have oid := afterOid_eq begins.valid mem
    rw [none] at oid
    rw [final_target begins mem, ← same, ← oid]
    refine (Inventory.find_ofList ?_).mpr (List.mem_map.mpr ⟨file, mem, rfl⟩)
    rw [List.map_map]
    exact sources_nodup begins.valid
  · push Not at target
    rw [final_none not_record target]
    refine Inventory.find_ofList_eq_none.mpr fun mem => ?_
    rw [List.map_map] at mem
    obtain ⟨file, inFiles, eq⟩ := List.mem_map.mp mem
    obtain ⟨same, -⟩ := still file inFiles (.inl eq.symm)
    exact target file inFiles (eq.symm.trans same)

end index

end Plan

end Orgasmic
