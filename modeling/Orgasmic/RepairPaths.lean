import Orgasmic.RepairLedger

/-! # Where a validated plan puts its files

* `target_cases`: a planned file stays where it is, or goes from a malformed task to its new one.
* `stagingPath`: no two writes share one, and none is in a malformed task or is a task itself.
* `Begins`: what the first run starts from, and what is known of it. -/

namespace Orgasmic

open Text

/-! ### Directories of tasks -/

theorem below?_eq_some {dir path tail : FilePath} :
    below? dir path = some tail ↔ tail ≠ [] ∧ dir ++ tail = path := by
  unfold below?
  rw [Option.filter_eq_some_iff, List.isPrefixOf?_eq_some_iff_append_eq]
  simp [and_comm]

theorem taskDir_append_inj {id id' : Text} {tail tail' : FilePath}
    (h : taskDir id ++ tail = taskDir id' ++ tail') : id = id' ∧ tail = tail' := by
  simpa [taskDir] using h

theorem taskDir_nested {id id' : Text} {tail : FilePath} (h : taskDir id <+: taskDir id' ++ tail) :
    id = id' := by
  obtain ⟨rest, eq⟩ := h
  exact (taskDir_append_inj eq).1

theorem taskDir_last {front : FilePath} {name id : Text} (h : front ++ [name] = taskDir id) :
    name = id := by
  have concat : taskDir id = [".orgasmic".toList, "tasks".toList] ++ [id] := rfl
  rw [concat] at h
  exact List.singleton_inj.mp (List.append_inj' h rfl).2

/-- No task is among the repairs. -/
theorem not_taskDir_nested {id : Text} {rest : FilePath} :
    ¬taskDir id <+: ".orgasmic".toList :: "repairs".toList :: rest := by
  rintro ⟨tail, same⟩
  have second := (List.cons.inj (List.cons.inj same).2).1
  exact absurd second (by decide)

namespace Plan

variable {tools : RepairTools} {plan : Plan}

/-! ### Validated plans -/

theorem validMapping_apart {m m' : Text × Text} (h : validMapping m = true)
    (h' : validMapping m' = true) : m.1 ≠ m'.2 := by
  intro eq
  simp only [validMapping, Bool.and_eq_true, Bool.not_eq_true'] at h h'
  rw [eq, h'.2] at h
  exact Bool.noConfusion h.1.2

theorem isValidTaskPathId_head {id : Text} (h : isValidTaskPathId id = true) :
    id.head? = some 'T' := by
  unfold isValidTaskPathId at h
  split at h
  · cases h
  · next rest eq =>
      rw [List.isPrefixOf?_eq_some_iff_append_eq] at eq
      rw [← eq]
      rfl

theorem validMapping_head {m : Text × Text} (h : validMapping m = true) :
    m.1.head? = some 'T' ∧ m.2.head? = some 'T' := by
  simp only [validMapping, Bool.and_eq_true] at h
  obtain ⟨⟨⟨⟨-, start⟩, -⟩, -⟩, valid⟩ := h
  refine ⟨?_, isValidTaskPathId_head valid⟩
  obtain ⟨rest, eq⟩ := List.isPrefixOf_iff_prefix.mp start
  rw [← eq]
  rfl

theorem foldl_outside {mapping : List (Text × Text)} {source : FilePath}
    (outside : ∀ m ∈ mapping, below? (taskDir m.1) source = none) (target : FilePath) :
    mapping.foldl (fun expected m => match below? (taskDir m.1) source with
      | some tail => taskDir m.2 ++ tail
      | none => expected) target = target := by
  induction mapping generalizing target with
  | nil => rfl
  | cons m rest ih =>
      rw [List.foldl_cons, outside m List.mem_cons_self]
      exact ih (fun m' mem => outside m' (List.mem_cons_of_mem _ mem)) target

theorem expectedTarget_outside {mapping : List (Text × Text)} {source : FilePath}
    (outside : ∀ m ∈ mapping, below? (taskDir m.1) source = none) :
    expectedTarget mapping source = source :=
  foldl_outside outside source

theorem expectedTarget_inside {mapping : List (Text × Text)} {source tail : FilePath}
    {m : Text × Text} (distinct : (mapping.map Prod.fst).Nodup) (mem : m ∈ mapping)
    (inside : below? (taskDir m.1) source = some tail) :
    expectedTarget mapping source = taskDir m.2 ++ tail := by
  unfold expectedTarget
  suffices ∀ target, mapping.foldl (fun expected m => match below? (taskDir m.1) source with
      | some tail => taskDir m.2 ++ tail
      | none => expected) target = taskDir m.2 ++ tail from this source
  induction mapping with
  | nil => cases mem
  | cons first rest ih =>
      intro target
      obtain ⟨fresh, others⟩ := List.nodup_cons.mp distinct
      rw [List.foldl_cons]
      obtain rfl | later := List.mem_cons.mp mem
      · rw [inside]
        refine foldl_outside (fun m' mem' => ?_) _
        cases was : below? (taskDir m'.1) source with
        | none => rfl
        | some tail' =>
            rw [below?_eq_some] at was inside
            have same := (taskDir_append_inj (was.2.trans inside.2.symm)).1
            exact absurd (List.mem_map.mpr ⟨m', mem', same⟩) fresh
      · exact ih others later _

/-! ### What a validated plan says of its files -/

section valid

variable {tree : Inventory FilePath GitBlob} {file file' : PlannedFile}

theorem validFile_of_mem (valid : plan.validatePlan tools tree = true) (mem : file ∈ plan.files) :
    validFile tools tree plan file = true := by
  simp only [validatePlan, Bool.and_eq_true] at valid
  exact List.all_eq_true.mp valid.1.1.2 file mem

theorem mapping_valid (valid : plan.validatePlan tools tree = true) (mem : file ∈ plan.files)
    {m : Text × Text} (mapped : m ∈ plan.mapping) : validMapping m = true := by
  have := validFile_of_mem valid mem
  simp only [validFile, Bool.and_eq_true] at this
  exact List.all_eq_true.mp this.1.1.1.2 m mapped

theorem expectedTarget_eq (valid : plan.validatePlan tools tree = true)
    (mem : file ∈ plan.files) : expectedTarget plan.mapping file.source = file.target := by
  have := validFile_of_mem valid mem
  simp only [validFile, Bool.and_eq_true, decide_eq_true_eq] at this
  exact this.1.2

theorem sources_nodup (valid : plan.validatePlan tools tree = true) :
    (plan.files.map PlannedFile.source).Nodup := by
  simp only [validatePlan, Bool.and_eq_true, decide_eq_true_eq] at valid
  exact valid.1.1.1.1.2

theorem targets_nodup (valid : plan.validatePlan tools tree = true) :
    (plan.files.map PlannedFile.target).Nodup := by
  simp only [validatePlan, Bool.and_eq_true, decide_eq_true_eq] at valid
  exact valid.1.2

theorem record_not_target (valid : plan.validatePlan tools tree = true) (mem : file ∈ plan.files) :
    file.target ≠ plan.recordPath := by
  simp only [validatePlan, Bool.and_eq_true, decide_eq_true_eq] at valid
  exact fun eq => valid.2 (eq ▸ List.mem_map_of_mem mem)

theorem stamps_find (valid : plan.validatePlan tools tree = true) (path : FilePath) :
    (RepairLedger.expectedInitial plan).find path = (stamps tools tree).find path := by
  simp only [validatePlan, Bool.and_eq_true] at valid
  exact Inventory.agrees_eq_true.mp valid.1.1.1.2 path

theorem eq_of_target_eq (valid : plan.validatePlan tools tree = true) (mem : file ∈ plan.files)
    (mem' : file' ∈ plan.files) (same : file.target = file'.target) : file = file' :=
  List.inj_on_of_nodup_map (targets_nodup valid) mem mem' same

/-- A planned file stays, or goes from a malformed task to its new one. -/
theorem target_cases (valid : plan.validatePlan tools tree = true) (mem : file ∈ plan.files) :
    (file.target = file.source ∧ ∀ m ∈ plan.mapping, below? (taskDir m.1) file.source = none) ∨
      ∃ m ∈ plan.mapping, ∃ tail, tail ≠ [] ∧ file.source = taskDir m.1 ++ tail ∧
        file.target = taskDir m.2 ++ tail := by
  rw [← expectedTarget_eq valid mem]
  by_cases outside : ∀ m ∈ plan.mapping, below? (taskDir m.1) file.source = none
  · exact .inl ⟨expectedTarget_outside outside, outside⟩
  · push Not at outside
    obtain ⟨m, mapped, inside⟩ := outside
    obtain ⟨tail, inside⟩ := Option.ne_none_iff_exists'.mp inside
    refine .inr ⟨m, mapped, tail, (below?_eq_some.mp inside).1, (below?_eq_some.mp inside).2.symm, ?_⟩
    exact expectedTarget_inside plan.distinct mapped inside

theorem afterOid_eq (valid : plan.validatePlan tools tree = true) (mem : file ∈ plan.files) :
    match file.after with
    | some text => tools.blobOid (utf8 text) = file.afterOid
    | none => file.oid = file.afterOid := by
  have := validFile_of_mem valid mem
  simp only [validFile, Bool.and_eq_true] at this
  have checked := this.1.1.2
  cases after : file.after with
  | some text =>
      rw [after] at checked
      dsimp only at checked ⊢
      split at checked
      · simp only [Bool.and_eq_true, decide_eq_true_eq] at checked
        exact checked.2
      · cases checked
  | none =>
      rw [after] at checked
      exact of_decide_eq_true checked

/-- The last name of a file, and the end of it. -/
theorem currentFile_last {path : FilePath} (h : currentFile path = true) :
    ∃ front name, path = front ++ [name] ∧ ".org".toList <:+ name := by
  unfold currentFile at h
  split at h
  · next dotorg collection id name =>
      simp only [Bool.and_eq_true, decide_eq_true_eq] at h
      refine ⟨[dotorg, collection, id], name, rfl, ?_⟩
      rw [h.1.2]
      exact ⟨"node".toList, rfl⟩
  · next dotorg collection name =>
      simp only [Bool.and_eq_true] at h
      exact ⟨[dotorg, collection], name, rfl, List.isSuffixOf_iff_suffix.mp h.2⟩
  · cases h

theorem rewrite_last (valid : plan.validatePlan tools tree = true) (mem : file ∈ plan.files)
    (rewritten : file.after.isSome = true) :
    ∃ front name, file.target = front ++ [name] ∧ ".org".toList <:+ name := by
  have := validFile_of_mem valid mem
  simp only [validFile, Bool.and_eq_true, Bool.or_eq_true, Option.isNone_iff_eq_none] at this
  obtain none | current := this.2
  · rw [none] at rewritten
    cases rewritten
  · obtain ⟨front, name, eq, ends⟩ := currentFile_last current
    obtain ⟨same, -⟩ | ⟨m, -, tail, nonempty, source, target⟩ := target_cases valid mem
    · exact ⟨front, name, same.trans eq, ends⟩
    · obtain ⟨tail', name', rfl⟩ := (List.eq_nil_or_concat' tail).resolve_left nonempty
      rw [source, ← List.append_assoc] at eq
      obtain ⟨-, last⟩ := List.append_inj' eq rfl
      refine ⟨taskDir m.2 ++ tail', name', by rw [target, List.append_assoc], ?_⟩
      rw [List.singleton_inj.mp last]
      exact ends

/-! ### The record -/

theorem recordPath_valid (valid : plan.validatePlan tools tree = true) :
    validRecordPath plan.recordPath = true := by
  simp only [validatePlan, Bool.and_eq_true] at valid
  exact valid.1.1.1.1.1.1.1

theorem recordPath_eq (valid : plan.validatePlan tools tree = true) :
    ∃ front name, plan.recordPath = ".orgasmic".toList :: "repairs".toList :: (front ++ [name]) ∧
      ".json".toList <:+ name := by
  have := recordPath_valid valid
  simp only [validRecordPath, Bool.and_eq_true] at this
  obtain ⟨⟨-, ends⟩, starts⟩ := this
  split at starts
  · next dotorg repairs first rest eq =>
      simp only [Bool.and_eq_true, decide_eq_true_eq] at starts
      obtain ⟨⟨rfl, rfl⟩, -⟩ := starts
      obtain ⟨front, name, split⟩ := (List.eq_nil_or_concat' (first :: rest)).resolve_left
        (List.cons_ne_nil _ _)
      rw [split] at eq
      refine ⟨front, name, eq, ?_⟩
      rw [eq] at ends
      have last : (".orgasmic".toList :: "repairs".toList :: (front ++ [name])).getLastD [] =
          name := by
        rw [← List.cons_append, ← List.cons_append, List.getLastD_concat]
      rw [last] at ends
      exact List.isSuffixOf_iff_suffix.mp ends
  · cases starts

theorem record_outside (valid : plan.validatePlan tools tree = true) (id : Text) :
    ¬taskDir id <+: plan.recordPath := by
  obtain ⟨front, name, eq, -⟩ := recordPath_eq valid
  rw [eq]
  exact not_taskDir_nested

theorem record_not_source (valid : plan.validatePlan tools tree = true) (mem : file ∈ plan.files) :
    file.source ≠ plan.recordPath := by
  intro eq
  obtain ⟨same, -⟩ | ⟨m, -, tail, -, source, -⟩ := target_cases valid mem
  · exact record_not_target valid mem (same.trans eq)
  · exact record_outside valid m.1 (eq ▸ ⟨tail, source.symm⟩)

/-! ### Staged files -/

/-- The name under which a text is staged. -/
def stagingName (tools : RepairTools) (plan : Plan) (name : Text) : Text :=
  ".orgasmic-repair-".toList ++ (tools.sha256 (utf8 (pathText plan.recordPath))).take 16 ++
    "-".toList ++ name

theorem stagingPath_concat (front : FilePath) (name : Text) :
    plan.stagingPath tools (front ++ [name]) = front ++ [stagingName tools plan name] := by
  unfold stagingPath stagingName
  rw [List.dropLast_concat, List.getLastD_concat]

theorem stagingName_head (name : Text) : (stagingName tools plan name).head? = some '.' := rfl

theorem mem_plannedWrites {write : FilePath × Text} :
    write ∈ plan.plannedWrites ↔
      (∃ file ∈ plan.files, file.after = some write.2 ∧ file.target = write.1) ∨
        write = (plan.recordPath, plan.record) := by
  simp only [plannedWrites, List.mem_append, List.mem_filterMap, Option.map_eq_some_iff,
    List.mem_singleton]
  refine or_congr ⟨?_, ?_⟩ Iff.rfl
  · rintro ⟨file, mem, text, after, rfl⟩
    exact ⟨file, mem, after, rfl⟩
  · rintro ⟨file, mem, after, eq⟩
    exact ⟨file, mem, write.2, after, Prod.ext eq rfl⟩

/-- A write is in a directory. -/
theorem write_concat (valid : plan.validatePlan tools tree = true) {write : FilePath × Text}
    (mem : write ∈ plan.plannedWrites) : ∃ front name, write.1 = front ++ [name] := by
  obtain ⟨file, mem, after, eq⟩ | rfl := mem_plannedWrites.mp mem
  · obtain ⟨front, name, target, -⟩ := rewrite_last valid mem (by rw [after]; rfl)
    exact ⟨front, name, eq ▸ target⟩
  · obtain ⟨front, name, eq, -⟩ := recordPath_eq valid
    exact ⟨".orgasmic".toList :: "repairs".toList :: front, name, eq⟩

/-- Two writes with one staged file are one write. -/
theorem write_eq_of_staging (valid : plan.validatePlan tools tree = true)
    {write write' : FilePath × Text} (mem : write ∈ plan.plannedWrites)
    (mem' : write' ∈ plan.plannedWrites)
    (same : plan.stagingPath tools write.1 = plan.stagingPath tools write'.1) :
    write = write' := by
  have paths : write.1 = write'.1 := by
    obtain ⟨front, name, eq⟩ := write_concat valid mem
    obtain ⟨front', name', eq'⟩ := write_concat valid mem'
    rw [eq, eq', stagingPath_concat, stagingPath_concat] at same
    obtain ⟨fronts, names⟩ := List.append_inj' same rfl
    rw [eq, eq', fronts, List.append_cancel_left (List.singleton_inj.mp names)]
  obtain ⟨file, inFiles, after, target⟩ | rfl := mem_plannedWrites.mp mem
  · obtain ⟨file', inFiles', after', target'⟩ | rfl := mem_plannedWrites.mp mem'
    · obtain rfl := eq_of_target_eq valid inFiles inFiles' ((target.trans paths).trans target'.symm)
      exact Prod.ext paths (Option.some.inj (after.symm.trans after'))
    · exact absurd (target.trans paths) (record_not_target valid inFiles)
  · obtain ⟨file', inFiles', after', target'⟩ | rfl := mem_plannedWrites.mp mem'
    · exact absurd (target'.trans paths.symm) (record_not_target valid inFiles')
    · rfl

theorem stagingName_ne (name : Text) : stagingName tools plan name ≠ name := by
  intro same
  have longer := congrArg List.length same
  unfold stagingName at longer
  rw [List.length_append, List.length_append] at longer
  have dash : "-".toList.length = 1 := rfl
  omega

theorem staging_record_ne (valid : plan.validatePlan tools tree = true) :
    plan.stagingPath tools plan.recordPath ≠ plan.recordPath := by
  intro eq
  obtain ⟨front, name, path, -⟩ := recordPath_eq valid
  have path' : plan.recordPath = (".orgasmic".toList :: "repairs".toList :: front) ++ [name] := path
  rw [path', stagingPath_concat] at eq
  exact stagingName_ne name (List.singleton_inj.mp (List.append_inj' eq rfl).2)

/-- A staged file is not the record. -/
theorem staging_ne_record (valid : plan.validatePlan tools tree = true)
    {write : FilePath × Text} (mem : write ∈ plan.plannedWrites) :
    plan.stagingPath tools write.1 ≠ plan.recordPath := by
  intro eq
  obtain ⟨front, name, path, json⟩ := recordPath_eq valid
  have path' : plan.recordPath = (".orgasmic".toList :: "repairs".toList :: front) ++ [name] := path
  obtain ⟨file, inFiles, after, target⟩ | rfl := mem_plannedWrites.mp mem
  · obtain ⟨front', name', target', org⟩ := rewrite_last valid inFiles (by rw [after]; rfl)
    rw [← target, target', stagingPath_concat, path'] at eq
    have names := List.singleton_inj.mp (List.append_inj' eq rfl).2
    have org' : ".org".toList <:+ name := by
      rw [← names]
      exact org.trans (List.suffix_append _ _)
    have last : name.getLast? = some 'g' := by
      obtain ⟨rest, rfl⟩ := org'
      simp
    have last' : name.getLast? = some 'n' := by
      obtain ⟨rest, rfl⟩ := json
      simp
    rw [last] at last'
    exact absurd (Option.some.inj last') (by decide)
  · exact staging_record_ne valid eq

/-- A staged file in the directory of a task is not that directory. -/
theorem staging_in_task (valid : plan.validatePlan tools tree = true)
    {write : FilePath × Text} (mem : write ∈ plan.plannedWrites) {id : Text}
    (head : ∀ file ∈ plan.files, id.head? = some 'T') (inside : taskDir id <+: plan.stagingPath tools write.1) :
    plan.stagingPath tools write.1 ≠ taskDir id ∧
      ∃ file ∈ plan.files, file.target = write.1 ∧ taskDir id <+: file.target := by
  obtain ⟨file, inFiles, after, target⟩ | rfl := mem_plannedWrites.mp mem
  · obtain ⟨front, name, target', -⟩ := rewrite_last valid inFiles (by rw [after]; rfl)
    rw [← target, target', stagingPath_concat] at inside ⊢
    have other : front ++ [stagingName tools plan name] ≠ taskDir id := by
      intro eq
      have task := head file inFiles
      rw [← taskDir_last eq, stagingName_head] at task
      exact absurd (Option.some.inj task) (by decide)
    refine ⟨other, file, inFiles, target', ?_⟩
    rw [target']
    obtain whole | part := List.prefix_concat_iff.mp inside
    · exact absurd whole.symm other
    · exact part.trans (List.prefix_append _ _)
  · exfalso
    obtain ⟨front, name, path, -⟩ := recordPath_eq valid
    have path' : plan.recordPath = (".orgasmic".toList :: "repairs".toList :: front) ++ [name] :=
      path
    dsimp only at inside
    rw [path', stagingPath_concat] at inside
    exact not_taskDir_nested inside

end valid

end Plan

end Orgasmic
