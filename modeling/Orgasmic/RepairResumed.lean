import Orgasmic.Interleaving
import Orgasmic.RepairSettled

/-! # Resuming a repair

* `Steady.verified`: a run accepts the ledger at every instant.
* `steady_of_mem_trace`: what a step goes through is steady again.  A settled repair writes nothing
  more; the index changes when the files are settled, `HEAD` when the index is the final one.
* `repair_resumable`: the same for any number of runs, each cut short anywhere. -/

namespace Orgasmic

open Text Interleaving

namespace Plan

variable {tools : RepairTools} {plan : Plan} {s₀ s t : RepairLedger}

/-! ### Acceptance -/

section acceptance

variable {file : PlannedFile}

theorem Steady.fileOk (steady : Steady tools plan s₀ s) (begins : Begins tools plan s₀)
    (mem : file ∈ plan.files) : s.fileOk tools false file = true := by
  obtain ⟨found, ⟨first, at_first, executable, bytes⟩, at_place⟩ := steady.underway.placed file mem
  have apart : file.source = file.target ∨ s.present file.source ≠ s.present file.target := by
    refine or_iff_not_imp_left.mpr fun other => ?_
    unfold RepairLedger.present
    obtain ⟨there, absent⟩ | ⟨there, absent⟩ := at_place
    · simp [there, absent other]
    · simp [there, absent other]
  have there : s.files.find (s.place file) = some found := by
    obtain ⟨there, -⟩ | ⟨there, -⟩ := at_place
    · rw [place_eq steady.underway mem there (.inl rfl)]
      exact there
    · rw [place_eq steady.underway mem there (.inr rfl)]
      exact there
  have mode : found.executable = decide (file.mode = "100755".toList) := by
    rw [executable]
    exact gitMode_eq (first_mode begins mem at_first).1
  have contents : tools.sha256 found.bytes = file.sha256 ∨
      (file.after.any fun text => decide (found.bytes = utf8 text)) = true := by
    obtain same | ⟨text, after, same⟩ := bytes
    · have ok := begins.fileOk mem
      simp only [RepairLedger.fileOk, Bool.and_eq_true] at ok
      have what := ok.2
      rw [place_eq begins.underway mem at_first (.inl rfl), at_first] at what
      simp only [Option.any_some, Bool.and_eq_true, Bool.not_false, Bool.true_or, Bool.and_true,
        Bool.or_eq_true, decide_eq_true_eq] at what
      rw [same]
      exact what.2
    · right
      simp [after, same]
  simp only [RepairLedger.fileOk, there, Option.any_some, Bool.and_eq_true, Bool.or_eq_true,
    decide_eq_true_eq, Bool.not_false, Bool.true_or, Bool.and_true, Bool.and_false, bne_iff_ne]
  exact ⟨apart, mode, contents⟩

theorem Underway.recordOk (underway : Underway tools plan s₀ s) (begins : Begins tools plan s₀)
    {found : WorkFile} (there : s.files.find plan.recordPath = some found) :
    found.bytes = utf8 plan.record := by
  cases underway.known _ _ there with
  | planned file mem at_place =>
      obtain eq | eq := at_place
      · exact absurd eq.symm (record_not_source begins.valid mem)
      · exact absurd eq.symm (record_not_target begins.valid mem)
  | record _ bytes => exact bytes
  | staged write mem eq => exact absurd eq.symm (staging_ne_record begins.valid mem)
  | other unchanged => exact begins.recordOk unchanged

/-- What is staged is a part of its text. -/
theorem Underway.staged_part (underway : Underway tools plan s₀ s) (begins : Begins tools plan s₀)
    (unreserved : plan.Unreserved tools) {write : FilePath × Text}
    (mem : write ∈ plan.plannedWrites) {found : WorkFile}
    (there : s.files.find (plan.stagingPath tools write.1) = some found) :
    found.bytes <+: utf8 write.2 := by
  cases underway.known _ _ there with
  | planned file inFiles at_place =>
      obtain ⟨source, target⟩ := unreserved write mem file inFiles
      exact absurd at_place (not_or.mpr ⟨source, target⟩)
  | record eq => exact absurd eq (staging_ne_record begins.valid mem)
  | staged write' mem' eq part =>
      rwa [write_eq_of_staging begins.valid mem mem' eq]
  | other unchanged =>
      rw [begins.unstaged write mem] at unchanged
      cases unchanged

/-- A file that the repair knows is in its list. -/
theorem Underway.mem_actualPaths (underway : Underway tools plan s₀ s) {path : FilePath}
    {found : WorkFile} (there : s.files.find path = some found) :
    path ∈ s.actualPaths tools plan ∨ (tools.ignored path = true ∧
      ∀ m ∈ plan.mapping, ¬taskDir m.1 <+: path ∧ ¬taskDir m.2 <+: path) := by
  have present : s.present path = true := by simp [RepairLedger.present, there]
  unfold RepairLedger.actualPaths
  cases underway.known _ _ there with
  | planned file mem at_place =>
      refine .inl (List.mem_append_left _ (List.mem_append_left _ ?_))
      exact List.mem_map.mpr ⟨file, mem, place_eq underway mem there at_place⟩
  | record eq =>
      subst eq
      refine .inl (List.mem_append_left _ (List.mem_append_right _ ?_))
      exact List.mem_filter.mpr ⟨List.mem_singleton_self _, present⟩
  | staged write mem eq =>
      subst eq
      refine .inl (List.mem_append_right _ (List.mem_filter.mpr ⟨?_, present⟩))
      exact List.mem_map.mpr ⟨write, mem, rfl⟩
  | other _ ignored outside => exact .inr ⟨ignored, outside⟩

/-- No file has the name of the directory of a task. -/
theorem Underway.not_taskDir (underway : Underway tools plan s₀ s) (begins : Begins tools plan s₀)
    {id : Text} (dir : s₀.directoryOk tools plan id = true)
    (task : ∀ file ∈ plan.files, id.head? = some 'T')
    (outside : ∀ path, (∀ m ∈ plan.mapping, ¬taskDir m.1 <+: path ∧ ¬taskDir m.2 <+: path) →
      ¬taskDir id <+: path) : s.files.find (taskDir id) = none := by
  cases there : s.files.find (taskDir id) with
  | none => rfl
  | some found =>
      exfalso
      have not_source : ∀ file ∈ plan.files, file.source ≠ taskDir id := by
        intro file mem eq
        obtain ⟨first, at_first, -⟩ := begins.source mem
        have ok := Inventory.all_eq_true.mp dir _ _ at_first
        have self : (taskDir id).isPrefixOf (taskDir id) = true :=
          List.isPrefixOf_iff_prefix.mpr List.prefix_rfl
        simp [eq, self] at ok
      cases underway.known _ _ there with
      | planned file mem at_place =>
          obtain eq | eq := at_place
          · exact not_source file mem eq.symm
          · obtain ⟨same, -⟩ | ⟨m, -, tail, nonempty, -, target⟩ := target_cases begins.valid mem
            · exact not_source file mem (same.symm.trans eq.symm)
            · have whole : taskDir id ++ [] = taskDir m.2 ++ tail := by
                rw [List.append_nil, eq, target]
              exact nonempty (taskDir_append_inj whole).2.symm
      | record eq => exact record_outside begins.valid id (eq ▸ List.prefix_rfl)
      | staged write mem eq =>
          exact (staging_in_task begins.valid mem task (eq ▸ List.prefix_rfl)).1 eq.symm
      | other _ _ others => exact outside _ others List.prefix_rfl

theorem Underway.directoryOk (underway : Underway tools plan s₀ s) (begins : Begins tools plan s₀)
    {id : Text} (dir : s₀.directoryOk tools plan id = true)
    (task : ∀ file ∈ plan.files, id.head? = some 'T')
    (outside : ∀ path, (∀ m ∈ plan.mapping, ¬taskDir m.1 <+: path ∧ ¬taskDir m.2 <+: path) →
      ¬taskDir id <+: path) : s.directoryOk tools plan id = true := by
  refine Inventory.all_eq_true.mpr fun path found there => ?_
  by_cases inside : taskDir id <+: path
  · have not_dir : path ≠ taskDir id := by
      rintro rfl
      rw [underway.not_taskDir begins dir task outside] at there
      cases there
    have mem := (underway.mem_actualPaths there).resolve_right fun h => outside path h.2 inside
    simp [not_dir, mem]
  · have : (taskDir id).isPrefixOf path = false := by
      rwa [← Bool.not_eq_true, List.isPrefixOf_iff_prefix]
    simp [this]

/-- The modes of the beginning. -/
theorem Begins.indexOk (begins : Begins tools plan s₀) : s₀.indexOk tools plan = true := by
  have verified := begins.verified
  simp only [RepairLedger.verifyState, Bool.and_eq_true] at verified
  exact verified.1.1.1.1.2

theorem Begins.mode (begins : Begins tools plan s₀) (mem : file ∈ plan.files) :
    file.mode ∈ ["100644".toList, "100755".toList] := by
  obtain ⟨first, at_first, -⟩ := begins.source mem
  rw [← (first_mode begins mem at_first).1]
  cases first.executable <;> decide

theorem safeRelative_target (begins : Begins tools plan s₀) (mem : file ∈ plan.files) :
    safeRelative file.target = true := by
  have := validFile_of_mem begins.valid mem
  simp only [validFile, Bool.and_eq_true] at this
  exact this.1.1.1.1.2

theorem Steady.indexOk (steady : Steady tools plan s₀ s) (begins : Begins tools plan s₀) :
    s.indexOk tools plan = true := by
  obtain ⟨index, -⟩ | staged := steady.progress
  · unfold RepairLedger.indexOk
    rw [index]
    exact begins.indexOk
  · unfold RepairLedger.indexOk
    rw [Bool.and_eq_true]
    refine ⟨Inventory.all_eq_true.mpr fun path blob found => ?_, ?_⟩
    · have final := staged.index path
      rw [stamps, Inventory.find_map, found] at final
      obtain ⟨rfl, entry⟩ | ⟨file, mem, rfl, entry⟩ := final_cases begins final.symm
      · have safe := recordPath_valid begins.valid
        simp only [validRecordPath, Bool.and_eq_true] at safe
        have mode := congrArg Prod.fst entry
        simp only at mode
        simp [safe.1.1, mode]
      · have mode := congrArg Prod.fst entry
        simp only at mode
        rw [Bool.and_eq_true, decide_eq_true_eq, mode]
        exact ⟨safeRelative_target begins mem, begins.mode mem⟩
    · rw [Bool.or_eq_true]
      exact .inr (Inventory.agrees_eq_true.mpr staged.index)

/-- The worktree of a settled repair is what its index says. -/
theorem Staged.tracked (staged : Staged tools plan s₀ s) (begins : Begins tools plan s₀)
    (recordOid : tools.blobOid (utf8 plan.record) = plan.recordOid) {path : FilePath}
    {blob : GitBlob} (found : s.index.find path = some blob) :
    ∃ file, s.files.find path = some file ∧ file.blob.stamp tools = blob.stamp tools := by
  have final := staged.index path
  rw [stamps, Inventory.find_map, found] at final
  obtain ⟨rfl, entry⟩ | ⟨file, mem, rfl, entry⟩ := final_cases begins final.symm
  · obtain ⟨file, there, bytes⟩ := staged.settled.record
    refine ⟨file, there, ?_⟩
    have stamp : blob.stamp tools = ("100644".toList, plan.recordOid) := entry
    show (gitMode file.executable, tools.blobOid file.bytes) = _
    rw [stamp, bytes, recordOid, staged.plain file there]
    rfl
  · obtain ⟨found', there, stamp⟩ := staged.settled.stamp begins mem
    exact ⟨found', there, stamp.trans entry.symm⟩

/-- What is there when a repair is settled. -/
theorem Settled.cases (settled : Settled tools plan s₀ s) (underway : Underway tools plan s₀ s)
    {path : FilePath} {found : WorkFile} (there : s.files.find path = some found) :
    path = plan.recordPath ∨ (∃ file ∈ plan.files, path = file.target) ∨
      (s₀.files.find path = some found ∧ tools.ignored path = true) := by
  cases underway.known _ _ there with
  | planned file mem at_place =>
      refine .inr (.inl ⟨file, mem, ?_⟩)
      obtain rfl | eq := at_place
      · by_contra other
        obtain ⟨-, -, -, -, -, -, absent⟩ := settled.target file mem
        rw [absent other] at there
        cases there
      · exact eq
  | record eq => exact .inl eq
  | staged write mem eq =>
      subst eq
      rw [settled.unstaged write mem] at there
      cases there
  | other unchanged ignored => exact .inr (.inr ⟨unchanged, ignored⟩)

theorem Steady.headOk (steady : Steady tools plan s₀ s) (begins : Begins tools plan s₀)
    (recordOid : tools.blobOid (utf8 plan.record) = plan.recordOid) :
    s.headOk tools plan = true := by
  have old : s.head = s₀.head → s.headOk tools plan = true := by
    intro head
    unfold RepairLedger.headOk
    simp [head, begins.checkpoint]
  obtain ⟨-, head⟩ | staged := steady.progress
  · exact old head
  · obtain head | ⟨parent, tree, blob, recorded, bytes⟩ := staged.head
    · exact old head
    · have record : ((s.head.tree.find plan.recordPath).bind fun blob => readToString blob.bytes) =
          some plan.record := by
        rw [recorded]
        show readToString blob.bytes = _
        rw [bytes, readToString_utf8]
      have clean : s.statusClean tools = true := by
        unfold RepairLedger.statusClean
        rw [Bool.and_eq_true, Bool.and_eq_true]
        refine ⟨⟨Inventory.agrees_eq_true.mpr fun path => (tree path).symm,
          Inventory.all_eq_true.mpr fun path blob found => ?_⟩,
          Inventory.all_eq_true.mpr fun path found there => ?_⟩
        · obtain ⟨file, there, same⟩ := staged.tracked begins recordOid found
          rw [there]
          exact decide_eq_true same
        · have indexed : (RepairLedger.expectedFinal plan).find path ≠ none →
              (s.index.find path).isSome = true := by
            intro final
            rw [← staged.index path, stamps, Inventory.find_map] at final
            cases absent : s.index.find path with
            | none => simp [absent] at final
            | some blob => rfl
          rw [Bool.or_eq_true]
          obtain rfl | ⟨file, mem, rfl⟩ | ⟨-, ignored⟩ :=
            staged.settled.cases steady.underway there
          · exact .inl (indexed (by rw [final_record begins]; simp))
          · exact .inl (indexed (by rw [final_target begins mem]; simp))
          · exact .inr ignored
      unfold RepairLedger.headOk
      rw [Bool.or_eq_true, Bool.and_eq_true, Bool.and_eq_true]
      exact .inr ⟨⟨decide_eq_true parent, decide_eq_true record⟩, clean⟩

/-- **A run accepts the ledger at every instant.** -/
theorem Steady.verified (steady : Steady tools plan s₀ s) (begins : Begins tools plan s₀)
    (resumable : plan.Resumable tools) : s.verifyState tools plan false = true := by
  simp only [RepairLedger.verifyState, Bool.and_eq_true, Bool.not_false, Bool.true_or, and_true]
  refine ⟨⟨⟨⟨⟨⟨steady.headOk begins resumable.recordOid, List.all_eq_true.mpr fun file mem =>
    steady.fileOk begins mem⟩, ?_⟩, steady.indexOk begins⟩, ?_⟩, ?_⟩, ?_⟩
  · unfold RepairLedger.recordOk
    split
    · next found there => exact decide_eq_true (steady.underway.recordOk begins there)
    · rfl
  · refine List.all_eq_true.mpr fun write mem => ?_
    unfold RepairLedger.stagingOk
    split
    · next found there =>
        have part := steady.underway.staged_part begins resumable.unreserved mem there
        simpa using part
    · rfl
  · refine Inventory.all_eq_true.mpr fun path found there => ?_
    obtain mem | ⟨ignored, -⟩ := steady.underway.mem_actualPaths there
    · simp [mem]
    · simp [ignored]
  · refine List.all_eq_true.mpr fun m mapped => ?_
    have dirs := begins.directoryOk mapped
    have task := fun file (mem : file ∈ plan.files) =>
      validMapping_head (mapping_valid begins.valid mem mapped)
    rw [Bool.and_eq_true]
    exact ⟨steady.underway.directoryOk begins dirs.1 (fun file mem => (task file mem).1)
        fun path others => (others m mapped).1,
      steady.underway.directoryOk begins dirs.2 (fun file mem => (task file mem).2)
        fun path others => (others m mapped).2⟩

end acceptance

/-! ### The git commands -/

/-- After `git add` of settled files the index is the final one. -/
theorem Steady.added (steady : Steady tools plan s₀ s) (begins : Begins tools plan s₀)
    (recordOid : tools.blobOid (utf8 plan.record) = plan.recordOid)
    (settled : Settled tools plan s₀ s)
    (added : s.gitAdd tools (RepairLedger.changedPaths plan) = some t) :
    Staged tools plan s₀ t := by
  simp only [RepairLedger.gitAdd, Option.ite_none_right_eq_some] at added
  obtain ⟨allowed, eq⟩ := added
  obtain rfl := Option.some.inj eq
  have changed : plan.recordPath ∈ RepairLedger.changedPaths plan := List.mem_cons_self
  have plain : ∀ found, s.files.find plan.recordPath = some found → found.executable = false := by
    intro found there
    obtain ⟨same, -⟩ | staged := steady.progress
    · have unindexed : s.index.find plan.recordPath = none := by
        have initial := begins.index_find plan.recordPath
        have none : (RepairLedger.expectedInitial plan).find plan.recordPath = none := by
          refine Inventory.find_ofList_eq_none.mpr fun mem => ?_
          rw [List.map_map] at mem
          obtain ⟨file, inFiles, eq⟩ := List.mem_map.mp mem
          exact record_not_source begins.valid inFiles eq
        rw [none, stamps, Inventory.find_map, Option.map_eq_none_iff] at initial
        rw [same, initial]
      have may := List.all_eq_true.mp allowed _ changed
      rw [unindexed] at may
      simp only [Option.isSome_none, Bool.false_or, Bool.and_eq_true, Bool.not_eq_true'] at may
      cases steady.underway.known _ _ there with
      | planned file mem at_place =>
          obtain eq | eq := at_place
          · exact absurd eq.symm (record_not_source begins.valid mem)
          · exact absurd eq.symm (record_not_target begins.valid mem)
      | record _ _ plain =>
          refine plain.resolve_right fun ignored => ?_
          rw [ignored] at may
          cases may.2
      | staged write mem eq => exact absurd eq.symm (staging_ne_record begins.valid mem)
      | other _ ignored =>
          rw [ignored] at may
          cases may.2
    · exact staged.plain found there
  obtain ⟨record, at_record, bytes⟩ := settled.record
  have final : ∀ path, ((s.index.replace (RepairLedger.changedPaths plan) fun path =>
      (s.files.find path).map WorkFile.blob).find path).map (GitBlob.stamp tools) =
        (RepairLedger.expectedFinal plan).find path := by
    intro path
    by_cases mem : path ∈ RepairLedger.changedPaths plan
    · rw [Inventory.find_replace_of_mem mem]
      by_cases is_record : path = plan.recordPath
      · subst is_record
        rw [at_record, final_record begins, ← recordOid, ← bytes]
        show some (gitMode record.executable, tools.blobOid record.bytes) = _
        rw [plain record at_record]
        rfl
      · by_cases target : ∃ file ∈ plan.files, path = file.target
        · obtain ⟨file, inFiles, rfl⟩ := target
          obtain ⟨found, there, stamp⟩ := settled.stamp begins inFiles
          rw [there, final_target begins inFiles, ← stamp]
          rfl
        · push Not at target
          rw [final_none is_record target]
          obtain ⟨file, inFiles, at_file⟩ := List.mem_flatMap.mp
            ((List.mem_cons.mp mem).resolve_left is_record)
          have inPlan := (List.mem_filter.mp inFiles).1
          have at_source : path = file.source := by
            have := List.mem_cons.mp at_file
            simpa [target file inPlan] using this
          obtain ⟨-, -, -, -, -, -, absent⟩ := settled.target file inPlan
          rw [at_source, absent fun same => target file inPlan (at_source.trans same)]
          rfl
    · rw [Inventory.find_replace_of_not_mem mem]
      obtain ⟨same, -⟩ | staged := steady.progress
      · rw [same, ← final_of_unchanged begins mem, ← begins.index_find]
        rfl
      · exact staged.index path
  refine ⟨⟨settled.target, settled.record, settled.unstaged⟩, plain, final, ?_, ?_⟩
  · refine ⟨record.blob, ?_, bytes⟩
    show (s.index.replace _ _).find plan.recordPath = _
    rw [Inventory.find_replace_of_mem changed, at_record]
    rfl
  · obtain ⟨-, head⟩ | staged := steady.progress
    · exact .inl head
    · refine staged.head.imp_right ?_
      rintro ⟨parent, tree, recorded⟩
      refine ⟨parent, fun path => ?_, recorded⟩
      exact (tree path).trans ((staged.index path).trans (final path).symm)

/-- The commit of settled files is that of the final index. -/
theorem Steady.committed (steady : Steady tools plan s₀ s) (begins : Begins tools plan s₀)
    (head : s.head.id = plan.checkpoint) (committed : s.gitCommit tools = some t) :
    Staged tools plan s₀ t := by
  simp only [RepairLedger.gitCommit, Option.ite_none_left_eq_some] at committed
  obtain ⟨something, eq⟩ := committed
  obtain rfl := Option.some.inj eq
  obtain ⟨index, same⟩ | staged := steady.progress
  · exfalso
    have clean := begins.clean
    simp only [RepairLedger.statusClean, Bool.and_eq_true] at clean
    refine something ?_
    unfold RepairLedger.nothingStaged
    rw [index, same]
    exact clean.1.1
  · exact ⟨⟨staged.settled.target, staged.settled.record, staged.settled.unstaged⟩, staged.plain,
      staged.index, staged.recorded, .inr ⟨congrArg some head, fun _ => rfl, staged.recorded⟩⟩

/-! ### The steps of a run -/

/-- What writing a text goes through. -/
theorem mem_repairAtomicWrite {path : FilePath} {text : Text} {executable : Bool}
    (mem : t ∈ (s.repairAtomicWrite tools plan path text executable).1) :
    (∃ part : WorkFile, part.bytes <+: utf8 text ∧ t = s.staged tools plan path part) ∨
      t = s.persisted tools plan path text executable := by
  unfold RepairLedger.repairAtomicWrite at mem
  dsimp only at mem
  split at mem
  · next prefixed =>
      rw [List.isPrefixOf_iff_prefix] at prefixed
      simp only [List.mem_append, List.mem_cons, List.not_mem_nil, or_false, List.mem_map] at mem
      obtain ((rfl | rfl) | ⟨n, -, rfl⟩) | rfl := mem
      · exact .inl ⟨_, prefixed, rfl⟩
      · exact .inl ⟨⟨_, executable⟩, prefixed, rfl⟩
      · exact .inl ⟨⟨_, executable⟩, List.take_prefix n _, rfl⟩
      · exact .inr rfl
  · cases mem

/-- A settled repair has no malformed task left. -/
theorem Settled.not_holds (settled : Settled tools plan s₀ s) (underway : Underway tools plan s₀ s)
    (begins : Begins tools plan s₀) {m : Text × Text} (mapped : m ∈ plan.mapping) :
    s.holds (taskDir m.1) = false := by
  rw [← Bool.not_eq_true]
  intro holds
  obtain ⟨path, found, there, inside⟩ := Inventory.any_eq_true.mp holds
  obtain ⟨file, mem, tail, rfl, source, target⟩ := (underway.known _ _ there).of_inside begins mapped
    (List.isPrefixOf_iff_prefix.mp inside)
  obtain ⟨-, -, -, -, -, -, absent⟩ := settled.target file mem
  have moves : file.source ≠ file.target := by
    rw [source, target]
    intro same
    have valid := mapping_valid begins.valid mem mapped
    exact validMapping_apart valid valid (taskDir_append_inj same).1
  rw [absent moves] at there
  cases there

theorem mem_steps {step : RepairStep} (mem : step ∈ plan.steps) :
    match step with
    | .move old new => (old, new) ∈ plan.mapping
    | .write path text => ∃ file ∈ plan.files, file.after = some text ∧ file.target = path
    | _ => True := by
  simp only [steps, List.mem_append, List.mem_cons, List.not_mem_nil, or_false, List.mem_map,
    List.mem_filterMap, Option.map_eq_some_iff] at mem
  obtain ((rfl | ⟨m, mapped, rfl⟩) | ⟨file, inFiles, text, after, rfl⟩) | rfl | rfl | rfl | rfl | rfl :=
    mem
  · trivial
  · exact mapped
  · exact ⟨file, inFiles, after, rfl⟩
  all_goals trivial

/-- **What a step goes through is steady.** -/
theorem Steady.of_mem_trace (steady : Steady tools plan s₀ s) (begins : Begins tools plan s₀)
    (resumable : plan.Resumable tools) {step : RepairStep} (planned : step ∈ plan.steps)
    (mem : t ∈ (step.trace tools plan s).1) : Steady tools plan s₀ t := by
  have inPlan := mem_steps planned
  cases step with
  | verify => cases mem
  | move old new =>
      simp only [RepairStep.trace] at mem
      split at mem
      · cases mem
      · next holds =>
          split at mem
          · cases mem
          · next free =>
              obtain rfl := List.mem_singleton.mp mem
              rw [Bool.not_eq_true] at free
              refine ⟨steady.underway.moved begins inPlan free, ?_⟩
              obtain same | staged := steady.progress
              · exact .inl same
              · rw [staged.settled.not_holds steady.underway begins inPlan] at holds
                exact absurd rfl holds
  | write path text =>
      obtain ⟨file, inFiles, after, rfl⟩ := inPlan
      simp only [RepairStep.trace] at mem
      split at mem
      · cases mem
      · next old there =>
          split at mem
          · next needed =>
              have write : (file.target, text) ∈ plan.plannedWrites :=
                mem_plannedWrites.mpr (.inl ⟨file, inFiles, after, rfl⟩)
              have same : s.index = s₀.index ∧ s.head = s₀.head := by
                refine steady.progress.resolve_right fun staged => ?_
                obtain ⟨first, found, -, at_target, -, bytes, -⟩ := staged.settled.target file inFiles
                obtain rfl := Option.some.inj (there.symm.trans at_target)
                obtain other | present := needed
                · exact other (by rw [bytes, plannedBytes, after])
                · rw [RepairLedger.present, staged.settled.unstaged _ write] at present
                  cases present
              obtain ⟨part, prefixed, rfl⟩ | rfl := mem_repairAtomicWrite mem
              · exact ⟨steady.underway.staged resumable.unreserved write prefixed, .inl same⟩
              · exact ⟨steady.underway.persisted begins resumable.unreserved inFiles after there,
                  .inl same⟩
          · cases mem
  | createRecordDir =>
      simp only [RepairStep.trace] at mem
      split at mem
      · cases mem
      · split at mem
        · obtain rfl := List.mem_singleton.mp mem
          refine ⟨⟨steady.underway.placed, steady.underway.known⟩, steady.progress.imp_right ?_⟩
          exact fun staged => ⟨⟨staged.settled.target, staged.settled.record,
            staged.settled.unstaged⟩, staged.plain, staged.index, staged.recorded, staged.head⟩
        · cases mem
  | writeRecord =>
      simp only [RepairStep.trace] at mem
      split at mem
      · next needed =>
          have write : (plan.recordPath, plan.record) ∈ plan.plannedWrites :=
            mem_plannedWrites.mpr (.inr rfl)
          have same : s.index = s₀.index ∧ s.head = s₀.head := by
            refine steady.progress.resolve_right fun staged => ?_
            obtain ⟨record, there, -⟩ := staged.settled.record
            have unstaged := staged.settled.unstaged _ write
            simp [RepairLedger.present, there, unstaged] at needed
          obtain ⟨part, prefixed, rfl⟩ | rfl := mem_repairAtomicWrite mem
          · exact ⟨steady.underway.staged resumable.unreserved write prefixed, .inl same⟩
          · exact ⟨steady.underway.persisted_record begins resumable.unreserved, .inl same⟩
      · cases mem
  | add =>
      simp only [RepairStep.trace] at mem
      split at mem
      · cases mem
      · next verified =>
          simp only [Bool.not_eq_true', Bool.not_eq_false] at verified
          split at mem
          · split at mem
            · next added =>
                obtain rfl := List.mem_singleton.mp mem
                have settled := settled_of_verified steady.underway verified
                have staged := steady.added begins resumable.recordOid settled added
                refine ⟨?_, .inr staged⟩
                simp only [RepairLedger.gitAdd, Option.ite_none_right_eq_some] at added
                obtain rfl := Option.some.inj added.2
                exact ⟨steady.underway.placed, steady.underway.known⟩
            · cases mem
          · cases mem
  | commit =>
      simp only [RepairStep.trace] at mem
      split at mem
      · cases mem
      · next head =>
          split at mem
          · cases mem
          · split at mem
            · next committed =>
                obtain rfl := List.mem_singleton.mp mem
                refine ⟨?_, .inr (steady.committed begins (not_ne_iff.mp head) committed)⟩
                simp only [RepairLedger.gitCommit, Option.ite_none_left_eq_some] at committed
                obtain rfl := Option.some.inj committed.2
                exact ⟨steady.underway.placed, steady.underway.known⟩
            · cases mem
  | finish => cases mem

/-! ### Whole runs -/

/-- What all steps keep holds wherever they go through. -/
theorem mem_traceAll {P : RepairLedger → Prop} {steps : List RepairStep}
    (keeps : ∀ step ∈ steps, ∀ {s t : RepairLedger}, P s → t ∈ (step.trace tools plan s).1 → P t)
    (hs : P s) (mem : t ∈ (RepairStep.traceAll tools plan steps s).1) : P t := by
  induction steps generalizing s with
  | nil => cases mem
  | cons step rest ih =>
      unfold RepairStep.traceAll at mem
      dsimp only at mem
      have first : ∀ {u}, u ∈ (step.trace tools plan s).1 → P u :=
        keeps step List.mem_cons_self hs
      split at mem
      · obtain mem | mem := List.mem_append.mp mem
        · exact first mem
        · refine ih (fun step' mem' => keeps step' (List.mem_cons_of_mem _ mem')) ?_ mem
          rw [List.getLastD_eq_getLast?]
          cases last : (step.trace tools plan s).1.getLast? with
          | none => exact hs
          | some u => exact first (List.mem_of_getLast? last)
      · exact first mem

theorem Steady.of_mem_apply (steady : Steady tools plan s₀ s) (begins : Begins tools plan s₀)
    (resumable : plan.Resumable tools) (mem : t ∈ (plan.apply tools s).1) :
    Steady tools plan s₀ t :=
  mem_traceAll (fun _ planned _ _ steady mem => steady.of_mem_trace begins resumable planned mem)
    steady mem

theorem Steady.resume (steady : Steady tools plan s₀ s) (begins : Begins tools plan s₀)
    (resumable : plan.Resumable tools) {cut : ℕ} (resumed : plan.resume tools s cut = some t) :
    Steady tools plan s₀ t := by
  obtain rfl | mem := List.mem_cons.mp (List.mem_of_getElem? resumed)
  · exact steady
  · exact steady.of_mem_apply begins resumable mem

theorem traceAll_cons (step : RepairStep) (rest : List RepairStep) (s : RepairLedger) :
    RepairStep.traceAll tools plan (step :: rest) s =
      if (step.trace tools plan s).2 then
        ((step.trace tools plan s).1 ++ (RepairStep.traceAll tools plan rest
            ((step.trace tools plan s).1.getLastD s)).1,
          (RepairStep.traceAll tools plan rest ((step.trace tools plan s).1.getLastD s)).2)
      else ((step.trace tools plan s).1, false) := rfl

theorem traceAll_append (front back : List RepairStep) (s : RepairLedger) :
    (RepairStep.traceAll tools plan (front ++ back) s).2 = true →
      ∃ u, (RepairStep.traceAll tools plan back u).2 = true ∧
        (RepairStep.traceAll tools plan (front ++ back) s).1.getLastD s =
          (RepairStep.traceAll tools plan back u).1.getLastD u := by
  induction front generalizing s with
  | nil => exact fun ends => ⟨s, ends, rfl⟩
  | cons step rest ih =>
      intro ends
      rw [List.cons_append, traceAll_cons] at ends ⊢
      by_cases goesOn : (step.trace tools plan s).2 = true
      · rw [if_pos goesOn] at ends ⊢
        obtain ⟨u, done, last⟩ := ih _ ends
        refine ⟨u, done, ?_⟩
        rw [← last]
        simp only [List.getLastD_eq_getLast?, List.getLast?_append]
        cases (RepairStep.traceAll tools plan (rest ++ back) _).1.getLast? <;> rfl
      · rw [if_neg goesOn] at ends
        cases ends

/-- A run that completes passes the last checks. -/
theorem verified_of_completed (completed : plan.completed tools s = some t) :
    t.verifyState tools plan true = true := by
  simp only [Plan.completed, Option.ite_none_right_eq_some] at completed
  obtain ⟨ends, eq⟩ := completed
  obtain rfl := Option.some.inj eq
  have split : plan.steps = ([.verify] ++ (plan.mapping.map fun m => .move m.1 m.2) ++
      (plan.files.filterMap fun file => file.after.map fun text => .write file.target text) ++
        [.createRecordDir, .writeRecord, .add, .commit]) ++ [.finish] := by
    simp [steps]
  unfold apply at ends ⊢
  rw [split] at ends ⊢
  obtain ⟨u, done, last⟩ := traceAll_append _ _ s ends
  rw [last]
  rw [traceAll_cons] at done ⊢
  by_cases ok : (RepairStep.finish.trace tools plan u).2 = true
  · rw [if_pos ok]
    exact (Bool.and_eq_true_iff.mp ok).1
  · rw [if_neg ok] at done
    cases done

/-- What a completed repair leaves: the planned files at their targets with their planned bytes, the
record, and what git ignores as it was. -/
structure Repaired (tools : RepairTools) (plan : Plan) (s₀ t : RepairLedger) : Prop where
  target : ∀ file ∈ plan.files, ∃ first found, s₀.files.find file.source = some first ∧
    t.files.find file.target = some found ∧ found.executable = first.executable ∧
    found.bytes = plannedBytes file first
  record : ∃ found, t.files.find plan.recordPath = some found ∧ found.bytes = utf8 plan.record
  only : ∀ path found, t.files.find path = some found → path = plan.recordPath ∨
    (∃ file ∈ plan.files, path = file.target) ∨
      (s₀.files.find path = some found ∧ tools.ignored path = true)

/-- **The repair is resumable.**  If the record's object id is right and no planned file has a
reserved name, then after any number of runs cut short anywhere the ledger is accepted, every file
that is not rewritten has its bytes at its source or at its target, and a run that completes leaves
what is planned. -/
theorem repair_resumable (begins : Begins tools plan s₀) (resumable : plan.Resumable tools)
    (reached : Reaches (plan.resume tools) (fun _ _ => True) s₀ s) :
    s.verifyState tools plan false = true ∧
      (∀ file ∈ plan.files, file.after = none → ∃ first found path,
        s₀.files.find file.source = some first ∧ (path = file.source ∨ path = file.target) ∧
          s.files.find path = some found ∧ found.bytes = first.bytes) ∧
      ∀ t, plan.completed tools s = some t → Repaired tools plan s₀ t := by
  have steady : Steady tools plan s₀ s :=
    reached.invariant (fun _ resumed steady => steady.resume begins resumable resumed)
      ⟨begins.underway, .inl ⟨rfl, rfl⟩⟩
  refine ⟨steady.verified begins resumable, fun file mem none => ?_, fun t completed => ?_⟩
  · obtain ⟨found, ⟨first, at_first, -, bytes⟩, at_place⟩ := steady.underway.placed file mem
    have same : found.bytes = first.bytes := by
      refine bytes.resolve_right ?_
      rintro ⟨text, after, -⟩
      rw [none] at after
      cases after
    obtain ⟨there, -⟩ | ⟨there, -⟩ := at_place
    · exact ⟨first, found, file.source, at_first, .inl rfl, there, same⟩
    · exact ⟨first, found, file.target, at_first, .inr rfl, there, same⟩
  · have verified := verified_of_completed completed
    have steady' : Steady tools plan s₀ t := by
      simp only [Plan.completed, Option.ite_none_right_eq_some] at completed
      obtain ⟨-, eq⟩ := completed
      obtain rfl := Option.some.inj eq
      rw [List.getLastD_eq_getLast?]
      cases last : (plan.apply tools s).1.getLast? with
      | none => exact steady
      | some u => exact steady.of_mem_apply begins resumable (List.mem_of_getLast? last)
    have settled := settled_of_verified steady'.underway verified
    refine ⟨fun file mem => ?_, settled.record, fun path found there =>
      settled.cases steady'.underway there⟩
    obtain ⟨first, found, at_first, there, executable, bytes, -⟩ := settled.target file mem
    exact ⟨first, found, at_first, there, executable, bytes⟩

end Plan

namespace Plan.Fixture

def oldNode : Text := "* DONE TASK-CLM6W t\n:PROPERTIES:\n:ID: TASK-CLM6W\n:END:\n".toList

def newNode : Text := "* DONE TASK-ABCDE t\n:PROPERTIES:\n:ID: TASK-ABCDE\n:END:\n".toList

def journal : Text := "TASK-CLM6W\n".toList

def record : Text := "{}\n".toList

def recordPath : FilePath := [".orgasmic".toList, "repairs".toList, "task-ids-1.json".toList]

/-- The hashes of these texts. -/
def tools : RepairTools where
  sha256 := fun bytes =>
    if bytes = utf8 oldNode then
      "ced47840936af2460ec878fdbc0d3d82262dce8ff31b6fd9825ed056f429c86d".toList
    else if bytes = utf8 newNode then
      "0c31039bcb361c46eed1d8ef4f9e891760780423949fff1a1ce09a11f8e53491".toList
    else if bytes = utf8 journal then
      "4bcf4765f9b0ea631b4f9a5c75f849ce34cfd98ccf093ee5b6099ae851559c4e".toList
    else if bytes = utf8 (pathText recordPath) then
      "50f1b96462c87709f07b6232c27e0d11060bc6e21c3d87f4d1e7614b8cecf83d".toList
    else []
  blobOid := fun bytes =>
    if bytes = utf8 oldNode then "8871b106a345024cc2547369166b6e642d965362".toList
    else if bytes = utf8 newNode then "d855f89b40f112ef934b83de36e41a8b472364af".toList
    else if bytes = utf8 journal then "ae920a24474734eb8e6054a512cc864854f33aa2".toList
    else if bytes = utf8 record then "0967ef424bce6791893e9a57bb952f80fd536e93".toList
    else []
  ignored := fun _ => false
  commitId := fun _ _ => "f000000000000000000000000000000000000000".toList

def old : Text := "TASK-CLM6W".toList

def new : Text := "TASK-ABCDE".toList

def node : PlannedFile where
  source := taskDir old ++ ["node.org".toList]
  target := taskDir new ++ ["node.org".toList]
  sha256 := tools.sha256 (utf8 oldNode)
  mode := "100644".toList
  oid := tools.blobOid (utf8 oldNode)
  after := some newNode
  afterOid := tools.blobOid (utf8 newNode)

def history : PlannedFile where
  source := taskDir old ++ ["journal.org".toList]
  target := taskDir new ++ ["journal.org".toList]
  sha256 := tools.sha256 (utf8 journal)
  mode := "100644".toList
  oid := tools.blobOid (utf8 journal)
  after := none
  afterOid := tools.blobOid (utf8 journal)

/-- A plan for one malformed task, with this object id of its record. -/
def plan (recordOid : Text) : Plan where
  project := "p".toList
  checkpoint := "c000000000000000000000000000000000000000".toList
  mapping := [(old, new)]
  files := [history, node]
  recordPath := recordPath
  record := record
  recordOid := recordOid
  distinct := List.nodup_singleton _

def tree : Inventory FilePath GitBlob :=
  Inventory.ofList [(history.source, ⟨"100644".toList, utf8 journal⟩),
    (node.source, ⟨"100644".toList, utf8 oldNode⟩)]

def start : RepairLedger where
  files := tree.map fun blob => ⟨blob.bytes, false⟩
  recordDir := false
  index := tree
  head := ⟨"c000000000000000000000000000000000000000".toList, none, tree⟩

/-- The plan with the right object id, and one with another. -/
def right : Plan := plan (tools.blobOid (utf8 record))

def wrong : Plan := plan "0000000000000000000000000000000000000000".toList

theorem right_begins : Begins tools right start where
  valid := by decide +kernel
  verified := by decide +kernel
  clean := by decide +kernel
  checkpoint := rfl
  unstaged := by decide +kernel

theorem wrong_begins : Begins tools wrong start where
  valid := right_begins.valid
  verified := by decide +kernel
  clean := right_begins.clean
  checkpoint := rfl
  unstaged := right_begins.unstaged

theorem right_resumable : Resumable tools right where
  recordOid := rfl
  unreserved := by decide +kernel

end Plan.Fixture

namespace Plan

open Fixture

/-- `repair_resumable` for a run that is cut after the directory has been renamed. -/
theorem repair_resumable_sample : ∃ s : RepairLedger, start.files.find node.source ≠ none ∧
    s.files.find node.source = none ∧ s.verifyState tools right false = true := by
  have result : (run (right.resume tools) start [1]).map (fun s => s.files.find node.source) =
      some none := by
    decide +kernel
  obtain ⟨s, run, moved⟩ := Option.map_eq_some_iff.mp result
  have there : start.files.find node.source ≠ none := by decide +kernel
  exact ⟨s, there, moved, (repair_resumable right_begins right_resumable
    (reaches_of_run (fun _ _ _ => trivial) run)).1⟩

/-- A plan with a wrong object id of its record is valid; after `git add` no run accepts the
ledger. -/
theorem repair_resumable_fails : Begins tools wrong start ∧ ∃ s : RepairLedger,
    Reaches (wrong.resume tools) (fun _ _ => True) start s ∧
      s.verifyState tools wrong false = false := by
  have result : (run (wrong.resume tools) start [69]).map
      (fun s => s.verifyState tools wrong false) = some false := by
    decide +kernel
  obtain ⟨s, run, refused⟩ := Option.map_eq_some_iff.mp result
  exact ⟨wrong_begins, s, reaches_of_run (fun _ _ _ => trivial) run, refused⟩

end Plan

end Orgasmic
