import Orgasmic.RepairPaths

/-! # A repair underway

* `Begins`: what the first run starts from; a clean ledger at the checkpoint of a valid plan.
* `Underway`: the invariant of the files.  Every planned file is at one of its two places with one of
  its two texts, and every other file is the record, a part of a write, or was there and ignored.
* `Underway.moved`, `Underway.staged`, `Underway.persisted`: the primitive steps keep it. -/

namespace Orgasmic

open Text

namespace Plan

variable {tools : RepairTools} {plan : Plan} {s₀ s : RepairLedger}

/-- A clean ledger at the checkpoint of the plan, which a run accepts. -/
structure Begins (tools : RepairTools) (plan : Plan) (s₀ : RepairLedger) : Prop where
  valid : plan.validatePlan tools s₀.head.tree = true
  verified : s₀.verifyState tools plan false = true
  clean : s₀.statusClean tools = true
  checkpoint : s₀.head.id = plan.checkpoint
  unstaged : ∀ write ∈ plan.plannedWrites, s₀.files.find (plan.stagingPath tools write.1) = none

/-- No planned file has the name of a staged one. -/
def Unreserved (tools : RepairTools) (plan : Plan) : Prop :=
  ∀ write ∈ plan.plannedWrites, ∀ file ∈ plan.files,
    plan.stagingPath tools write.1 ≠ file.source ∧ plan.stagingPath tools write.1 ≠ file.target

instance (tools : RepairTools) (plan : Plan) : Decidable (plan.Unreserved tools) :=
  List.decidableBAll _ _

/-- What a planned file had at first, or its new text. -/
def Kept (s₀ : RepairLedger) (file : PlannedFile) (found : WorkFile) : Prop :=
  ∃ first, s₀.files.find file.source = some first ∧ found.executable = first.executable ∧
    (found.bytes = first.bytes ∨ ∃ text, file.after = some text ∧ found.bytes = utf8 text)

/-- A file that may be in the ledger during a repair. -/
inductive Known (tools : RepairTools) (plan : Plan) (s₀ : RepairLedger) (path : FilePath)
    (found : WorkFile) : Prop
  | planned (file : PlannedFile) (mem : file ∈ plan.files)
      (at_place : path = file.source ∨ path = file.target)
  | record (at_record : path = plan.recordPath) (bytes : found.bytes = utf8 plan.record)
      (plain : found.executable = false ∨ tools.ignored path = true)
  | staged (write : FilePath × Text) (mem : write ∈ plan.plannedWrites)
      (at_staging : path = plan.stagingPath tools write.1) (part : found.bytes <+: utf8 write.2)
  | other (unchanged : s₀.files.find path = some found) (ignored : tools.ignored path = true)
      (outside : ∀ m ∈ plan.mapping, ¬taskDir m.1 <+: path ∧ ¬taskDir m.2 <+: path)

/-- The invariant of the files. -/
structure Underway (tools : RepairTools) (plan : Plan) (s₀ s : RepairLedger) : Prop where
  placed : ∀ file ∈ plan.files, ∃ found, Kept s₀ file found ∧
    ((s.files.find file.source = some found ∧
        (file.source ≠ file.target → s.files.find file.target = none)) ∨
      (s.files.find file.target = some found ∧
        (file.source ≠ file.target → s.files.find file.source = none)))
  known : ∀ path found, s.files.find path = some found → Known tools plan s₀ path found

/-! ### The beginning -/

section begins

variable {file : PlannedFile}

theorem gitMode_eq {executable : Bool} {mode : Text} (h : gitMode executable = mode) :
    executable = decide (mode = "100755".toList) := by
  rw [← h]
  cases executable <;> decide

/-- What the index of the beginning has. -/
theorem Begins.index_find (begins : Begins tools plan s₀) (path : FilePath) :
    (stamps tools s₀.index).find path = (RepairLedger.expectedInitial plan).find path := by
  have clean := begins.clean
  simp only [RepairLedger.statusClean, Bool.and_eq_true] at clean
  rw [Inventory.agrees_eq_true.mp clean.1.1 path, stamps_find begins.valid]

/-- A planned file at the beginning. -/
theorem Begins.source (begins : Begins tools plan s₀) (mem : file ∈ plan.files) :
    ∃ first, s₀.files.find file.source = some first ∧
      first.blob.stamp tools = (file.mode, file.oid) := by
  have clean := begins.clean
  simp only [RepairLedger.statusClean, Bool.and_eq_true] at clean
  have initial : (RepairLedger.expectedInitial plan).find file.source =
      some (file.mode, file.oid) := by
    refine (Inventory.find_ofList ?_).mpr (List.mem_map.mpr ⟨file, mem, rfl⟩)
    rw [List.map_map]
    exact sources_nodup begins.valid
  rw [← begins.index_find] at initial
  obtain ⟨blob, indexed, eq⟩ := Option.map_eq_some_iff.mp initial
  have tracked := Inventory.all_eq_true.mp clean.1.2 _ _ indexed
  obtain ⟨first, found, same⟩ := (Option.any_eq_true _ _).mp tracked
  exact ⟨first, found, (of_decide_eq_true same).trans eq⟩

theorem Begins.fileOk (begins : Begins tools plan s₀) (mem : file ∈ plan.files) :
    s₀.fileOk tools false file = true := by
  have verified := begins.verified
  simp only [RepairLedger.verifyState, Bool.and_eq_true] at verified
  exact List.all_eq_true.mp verified.1.1.1.1.1.1.2 file mem

theorem Begins.target_absent (begins : Begins tools plan s₀) (mem : file ∈ plan.files)
    (apart : file.source ≠ file.target) : s₀.files.find file.target = none := by
  obtain ⟨first, found, -⟩ := begins.source mem
  have ok := begins.fileOk mem
  simp only [RepairLedger.fileOk, Bool.and_eq_true, Bool.or_eq_true, decide_eq_true_eq, apart,
    false_or] at ok
  have present := ok.1.1
  simp only [RepairLedger.present, found, Option.isSome_some, bne_iff_ne, ne_eq] at present
  cases absent : s₀.files.find file.target with
  | none => rfl
  | some g => simp [absent] at present

/-- A file in the directory of a task is known to the repair. -/
theorem Begins.directoryOk (begins : Begins tools plan s₀) {m : Text × Text}
    (mem : m ∈ plan.mapping) : s₀.directoryOk tools plan m.1 = true ∧
      s₀.directoryOk tools plan m.2 = true := by
  have verified := begins.verified
  simp only [RepairLedger.verifyState, Bool.and_eq_true] at verified
  exact Bool.and_eq_true_iff.mp (List.all_eq_true.mp verified.1.2 m mem)

/-- No target is in the directory of a malformed task. -/
theorem Begins.target_outside (begins : Begins tools plan s₀) (mem : file ∈ plan.files)
    {m : Text × Text} (mapped : m ∈ plan.mapping) : ¬taskDir m.1 <+: file.target := by
  intro inside
  obtain ⟨same, outside⟩ | ⟨m', mapped', tail, -, -, target⟩ := target_cases begins.valid mem
  · obtain ⟨first, found, -⟩ := begins.source mem
    have dir := Inventory.all_eq_true.mp (begins.directoryOk mapped).1 _ _ found
    rw [same] at inside
    simp only [List.isPrefixOf_iff_prefix.mpr inside, Bool.not_true, Bool.false_or,
      Bool.and_eq_true, decide_eq_true_eq] at dir
    obtain ⟨tail, eq⟩ := inside
    have strict : tail ≠ [] := by
      rintro rfl
      exact dir.1 (by rw [← eq, List.append_nil])
    have none := outside m mapped
    rw [below?_eq_some.mpr ⟨strict, eq⟩] at none
    cases none
  · rw [target] at inside
    exact validMapping_apart (mapping_valid begins.valid mem mapped)
      (mapping_valid begins.valid mem mapped') (taskDir_nested inside)

theorem Begins.recordOk (begins : Begins tools plan s₀) {found : WorkFile}
    (there : s₀.files.find plan.recordPath = some found) : found.bytes = utf8 plan.record := by
  have verified := begins.verified
  simp only [RepairLedger.verifyState, Bool.and_eq_true] at verified
  have ok := verified.1.1.1.1.1.2
  unfold RepairLedger.recordOk at ok
  rw [there] at ok
  exact of_decide_eq_true ok

/-- What the repair knows of the beginning. -/
theorem Begins.mem_actualPaths (begins : Begins tools plan s₀) {path : FilePath}
    (mem : path ∈ s₀.actualPaths tools plan) :
    (∃ file ∈ plan.files, path = file.source ∨ path = file.target) ∨ path = plan.recordPath := by
  simp only [RepairLedger.actualPaths, List.mem_append, List.mem_map, List.mem_filter,
    List.mem_singleton] at mem
  obtain (⟨file, inFiles, rfl⟩ | ⟨rfl, -⟩) | ⟨⟨write, inWrites, rfl⟩, there⟩ := mem
  · refine .inl ⟨file, inFiles, ?_⟩
    unfold RepairLedger.place
    split
    · exact .inr rfl
    · exact .inl rfl
  · exact .inr rfl
  · rw [RepairLedger.present, begins.unstaged write inWrites] at there
    cases there

theorem Begins.underway (begins : Begins tools plan s₀) : Underway tools plan s₀ s₀ := by
  refine ⟨fun file mem => ?_, fun path found there => ?_⟩
  · obtain ⟨first, at_source, -⟩ := begins.source mem
    exact ⟨first, ⟨first, at_source, rfl, .inl rfl⟩,
      .inl ⟨at_source, begins.target_absent mem⟩⟩
  · have clean := begins.clean
    simp only [RepairLedger.statusClean, Bool.and_eq_true] at clean
    have tracked := Inventory.all_eq_true.mp clean.2 _ _ there
    by_cases planned : ∃ file ∈ plan.files, path = file.source ∨ path = file.target
    · obtain ⟨file, mem, at_place⟩ := planned
      exact .planned file mem at_place
    · have ignored : tools.ignored path = true := by
        refine (Bool.or_eq_true_iff.mp tracked).resolve_left fun indexed => ?_
        obtain ⟨blob, found⟩ := Option.isSome_iff_exists.mp indexed
        have initial := begins.index_find path
        rw [stamps, Inventory.find_map, found] at initial
        have listed := (RepairLedger.expectedInitial plan).listed initial.symm
        obtain ⟨entry, mem, rfl⟩ := List.mem_map.mp listed
        obtain ⟨file, inFiles, rfl⟩ := List.mem_map.mp mem
        exact planned ⟨file, inFiles, .inl rfl⟩
      by_cases at_record : path = plan.recordPath
      · subst at_record
        exact .record rfl (begins.recordOk there) (.inr ignored)
      · refine .other there ignored fun m mapped => ?_
        have unknown : path ∉ s₀.actualPaths tools plan := fun mem =>
          (begins.mem_actualPaths mem).elim planned at_record
        have dirs := begins.directoryOk mapped
        have first := Inventory.all_eq_true.mp dirs.1 _ _ there
        have second := Inventory.all_eq_true.mp dirs.2 _ _ there
        simp only [unknown, decide_false, Bool.and_false, Bool.or_false, Bool.not_eq_true',
          List.isPrefixOf_iff_prefix, ← Bool.not_eq_true] at first second
        exact ⟨first, second⟩

end begins

/-! ### Renaming the directory of a task -/

section rename

variable {old new path tail : FilePath}

theorem find_moved_new :
    (s.moved old new).files.find (new ++ tail) = s.files.find (old ++ tail) := by
  have back : RepairLedger.moveBack old new (new ++ tail) = some (old ++ tail) := by
    unfold RepairLedger.moveBack
    rw [(List.isPrefixOf?_eq_some_iff_append_eq).mpr rfl]
  show (RepairLedger.moveBack old new (new ++ tail)).bind s.files.find = _
  rw [back]
  rfl

theorem find_moved_outside (outside_new : ¬new <+: path) (outside_old : ¬old <+: path) :
    (s.moved old new).files.find path = s.files.find path := by
  have back : RepairLedger.moveBack old new path = some path := by
    unfold RepairLedger.moveBack
    split
    · next tail eq =>
        rw [List.isPrefixOf?_eq_some_iff_append_eq] at eq
        exact absurd ⟨tail, eq⟩ outside_new
    · rw [if_neg]
      rwa [List.isPrefixOf_iff_prefix]
  show (RepairLedger.moveBack old new path).bind s.files.find = _
  rw [back]
  rfl

theorem find_moved_old (outside_new : ¬new <+: path) (inside_old : old <+: path) :
    (s.moved old new).files.find path = none := by
  have back : RepairLedger.moveBack old new path = none := by
    unfold RepairLedger.moveBack
    split
    · next tail eq =>
        rw [List.isPrefixOf?_eq_some_iff_append_eq] at eq
        exact absurd ⟨tail, eq⟩ outside_new
    · rw [if_pos (List.isPrefixOf_iff_prefix.mpr inside_old)]
  show (RepairLedger.moveBack old new path).bind s.files.find = _
  rw [back]
  rfl

theorem not_holds {dir : FilePath} (h : s.holds dir = false) (path : FilePath) (inside : dir <+: path) :
    s.files.find path = none := by
  cases found : s.files.find path with
  | none => rfl
  | some file =>
      have holds : s.holds dir = true :=
        Inventory.any_eq_true.mpr ⟨path, file, found, List.isPrefixOf_iff_prefix.mpr inside⟩
      rw [h] at holds
      cases holds

end rename

/-- What is in the directory of a malformed task is planned to go to its new one. -/
theorem Known.of_inside {path : FilePath} {found : WorkFile} (known : Known tools plan s₀ path found)
    (begins : Begins tools plan s₀) {m : Text × Text} (mapped : m ∈ plan.mapping)
    (inside : taskDir m.1 <+: path) :
    ∃ file ∈ plan.files, ∃ tail, path = file.source ∧ file.source = taskDir m.1 ++ tail ∧
      file.target = taskDir m.2 ++ tail := by
  cases known with
  | planned file mem at_place =>
      obtain rfl | rfl := at_place
      · obtain ⟨same, -⟩ | ⟨m', mapped', tail, -, source, target⟩ := target_cases begins.valid mem
        · rw [← same] at inside
          exact absurd inside (begins.target_outside mem mapped)
        · rw [source] at inside
          obtain rfl := List.inj_on_of_nodup_map plan.distinct mapped mapped' (taskDir_nested inside)
          exact ⟨file, mem, tail, rfl, source, target⟩
      · exact absurd inside (begins.target_outside mem mapped)
  | record at_record => exact absurd (at_record ▸ inside) (record_outside begins.valid m.1)
  | staged write mem at_staging =>
      subst at_staging
      obtain ⟨-, file, inFiles, -, inside'⟩ := staging_in_task begins.valid mem
        (fun file inFiles => (validMapping_head (mapping_valid begins.valid inFiles mapped)).1) inside
      exact absurd inside' (begins.target_outside inFiles mapped)
  | other _ _ outside => exact absurd inside (outside m mapped).1

/-- The directory of a malformed task becomes that of its new one. -/
theorem Underway.moved (underway : Underway tools plan s₀ s) (begins : Begins tools plan s₀)
    {m : Text × Text} (mapped : m ∈ plan.mapping) (free : s.holds (taskDir m.2) = false) :
    Underway tools plan s₀ (s.moved (taskDir m.1) (taskDir m.2)) := by
  have apart : ∀ {path : FilePath} {file : PlannedFile}, file ∈ plan.files →
      taskDir m.1 <+: path → ¬taskDir m.2 <+: path := by
    rintro path file mem ⟨tail, rfl⟩ inside
    have valid := mapping_valid begins.valid mem mapped
    exact validMapping_apart valid valid (taskDir_nested inside).symm
  refine ⟨fun file mem => ?_, fun path found there => ?_⟩
  · obtain ⟨found, kept, at_place⟩ := underway.placed file mem
    refine ⟨found, kept, ?_⟩
    obtain ⟨same, outside⟩ | ⟨m', mapped', tail, -, source, target⟩ := target_cases begins.valid mem
    · have at_source : s.files.find file.source = some found := by
        rw [same] at at_place
        exact at_place.elim And.left And.left
      have outside_new : ¬taskDir m.2 <+: file.source := by
        intro inside
        rw [not_holds free _ inside] at at_source
        cases at_source
      have outside_old : ¬taskDir m.1 <+: file.source :=
        same ▸ begins.target_outside mem mapped
      refine .inl ⟨(find_moved_outside outside_new outside_old).trans at_source, fun other => ?_⟩
      exact absurd same.symm other
    · by_cases this_one : m' = m
      · subst this_one
        obtain ⟨at_source, -⟩ | ⟨at_target, -⟩ := at_place
        · refine .inr ⟨?_, fun _ => ?_⟩
          · rw [target, find_moved_new, ← source]
            exact at_source
          · have inside : taskDir m'.1 <+: file.source := ⟨tail, source.symm⟩
            exact find_moved_old (apart mem inside) inside
        · rw [target, not_holds free _ (List.prefix_append _ _)] at at_target
          cases at_target
      · have valid := mapping_valid begins.valid mem mapped
        have valid' := mapping_valid begins.valid mem mapped'
        have source_outside : ¬taskDir m.1 <+: file.source := by
          rw [source]
          intro inside
          exact this_one (List.inj_on_of_nodup_map plan.distinct mapped' mapped
            (taskDir_nested inside).symm)
        have source_outside_new : ¬taskDir m.2 <+: file.source := by
          rw [source]
          intro inside
          exact validMapping_apart valid' valid (taskDir_nested inside).symm
        have target_outside : ¬taskDir m.1 <+: file.target := begins.target_outside mem mapped
        rw [find_moved_outside source_outside_new source_outside]
        by_cases shared : taskDir m.2 <+: file.target
        · have absent : s.files.find file.target = none := not_holds free _ shared
          obtain ⟨at_source, -⟩ | ⟨at_target, -⟩ := at_place
          · refine .inl ⟨at_source, fun _ => ?_⟩
            obtain ⟨tail', eq⟩ := shared
            rw [← eq, find_moved_new]
            cases there : s.files.find (taskDir m.1 ++ tail') with
            | none => rfl
            | some found' =>
                obtain ⟨file', mem', tail'', path, source', target'⟩ :=
                  (underway.known _ _ there).of_inside begins mapped (List.prefix_append _ _)
                rw [source'] at path
                obtain rfl := List.append_cancel_left path
                obtain rfl := eq_of_target_eq begins.valid mem mem' (by rw [target', eq])
                exact absurd ⟨tail', source'.symm⟩ source_outside
          · rw [absent] at at_target
            cases at_target
        · rw [find_moved_outside shared target_outside]
          exact at_place
  · by_cases inside_new : taskDir m.2 <+: path
    · obtain ⟨tail, rfl⟩ := inside_new
      rw [find_moved_new] at there
      obtain ⟨file, mem, tail', path, source, target⟩ :=
        (underway.known _ _ there).of_inside begins mapped (List.prefix_append _ _)
      rw [source] at path
      obtain rfl := List.append_cancel_left path
      exact .planned file mem (.inr target.symm)
    · by_cases inside_old : taskDir m.1 <+: path
      · rw [find_moved_old inside_new inside_old] at there
        cases there
      · rw [find_moved_outside inside_new inside_old] at there
        exact underway.known path found there

/-! ### Writing a text -/

/-- A part of a text is staged. -/
theorem Underway.staged (underway : Underway tools plan s₀ s) (unreserved : plan.Unreserved tools)
    {write : FilePath × Text} (mem : write ∈ plan.plannedWrites) {part : WorkFile}
    (prefixed : part.bytes <+: utf8 write.2) :
    Underway tools plan s₀ (s.staged tools plan write.1 part) := by
  refine ⟨fun file inFiles => ?_, fun path found there => ?_⟩
  · obtain ⟨source, target⟩ := unreserved write mem file inFiles
    have same : ∀ {path}, plan.stagingPath tools write.1 ≠ path →
        (s.staged tools plan write.1 part).files.find path = s.files.find path :=
      fun other => Inventory.find_put_of_ne other.symm
    rw [same source, same target]
    exact underway.placed file inFiles
  · by_cases at_staging : path = plan.stagingPath tools write.1
    · subst at_staging
      obtain rfl := Option.some.inj (Inventory.find_put_self.symm.trans there)
      exact .staged write mem rfl prefixed
    · exact underway.known path found ((Inventory.find_put_of_ne at_staging).symm.trans there)

/-- Where a text is persisted nothing else changes than its path and its staged file. -/
theorem find_persisted {path : FilePath} {text : Text} {executable : Bool} {other : FilePath}
    (apart : other ≠ path) (unstaged : other ≠ plan.stagingPath tools path) :
    (s.persisted tools plan path text executable).files.find other = s.files.find other := by
  show ((s.files.remove _).put path _).find other = _
  rw [Inventory.find_put_of_ne apart, Inventory.find_remove_of_ne unstaged]

theorem find_persisted_self {path : FilePath} {text : Text} {executable : Bool} :
    (s.persisted tools plan path text executable).files.find path = some ⟨utf8 text, executable⟩ :=
  Inventory.find_put_self

theorem known_of_persisted (underway : Underway tools plan s₀ s) {path : FilePath} {text : Text}
    {executable : Bool} {other : FilePath} {found : WorkFile} (apart : other ≠ path)
    (there : (s.persisted tools plan path text executable).files.find other = some found) :
    Known tools plan s₀ other found := by
  by_cases at_staging : other = plan.stagingPath tools path
  · subst at_staging
    have gone : (s.persisted tools plan path text executable).files.find
        (plan.stagingPath tools path) = none := by
      show ((s.files.remove _).put path _).find _ = none
      rw [Inventory.find_put_of_ne apart, Inventory.find_remove_self]
    rw [gone] at there
    cases there
  · exact underway.known other found ((find_persisted apart at_staging).symm.trans there)

/-- A rewritten file gets its text. -/
theorem Underway.persisted (underway : Underway tools plan s₀ s) (begins : Begins tools plan s₀)
    (unreserved : plan.Unreserved tools) {file : PlannedFile} (mem : file ∈ plan.files) {text : Text}
    (after : file.after = some text) {old : WorkFile}
    (there : s.files.find file.target = some old) :
    Underway tools plan s₀ (s.persisted tools plan file.target text old.executable) := by
  have write : (file.target, text) ∈ plan.plannedWrites :=
    mem_plannedWrites.mpr (.inl ⟨file, mem, after, rfl⟩)
  refine ⟨fun file' mem' => ?_, fun path found at_path => ?_⟩
  · obtain ⟨source, target⟩ := unreserved _ write file' mem'
    obtain ⟨found, kept, at_place⟩ := underway.placed file' mem'
    by_cases same : file' = file
    · subst same
      have at_target : s.files.find file'.target = some found ∧
          (file'.source ≠ file'.target → s.files.find file'.source = none) := by
        obtain ⟨at_source, absent⟩ | at_target := at_place
        · by_cases stays : file'.source = file'.target
          · exact ⟨stays ▸ at_source, fun other => absurd stays other⟩
          · rw [absent stays] at there
            cases there
        · exact at_target
      rw [there] at at_target
      obtain rfl := Option.some.inj at_target.1
      obtain ⟨first, at_first, executable, -⟩ := kept
      refine ⟨⟨utf8 text, old.executable⟩, ⟨first, at_first, executable, .inr ⟨text, after, rfl⟩⟩,
        .inr ⟨find_persisted_self, fun other => ?_⟩⟩
      rw [find_persisted other source.symm]
      exact at_target.2 other
    · have target_apart : file'.target ≠ file.target :=
        fun eq => same (eq_of_target_eq begins.valid mem' mem eq)
      have source_apart : file'.source ≠ file.target := by
        intro eq
        obtain ⟨stays, -⟩ | ⟨m, mapped, tail, -, inside, -⟩ := target_cases begins.valid mem'
        · exact target_apart (stays.trans eq)
        · exact begins.target_outside mem mapped (eq ▸ ⟨tail, inside.symm⟩)
      refine ⟨found, kept, ?_⟩
      rw [find_persisted target_apart target.symm, find_persisted source_apart source.symm]
      exact at_place
  · by_cases at_target : path = file.target
    · exact .planned file mem (.inr at_target)
    · exact known_of_persisted underway at_target at_path

/-- The record gets its text. -/
theorem Underway.persisted_record (underway : Underway tools plan s₀ s)
    (begins : Begins tools plan s₀) (unreserved : plan.Unreserved tools) :
    Underway tools plan s₀ (s.persisted tools plan plan.recordPath plan.record false) := by
  have write : (plan.recordPath, plan.record) ∈ plan.plannedWrites :=
    mem_plannedWrites.mpr (.inr rfl)
  refine ⟨fun file mem => ?_, fun path found at_path => ?_⟩
  · obtain ⟨source, target⟩ := unreserved _ write file mem
    rw [find_persisted (record_not_source begins.valid mem) source.symm,
      find_persisted (record_not_target begins.valid mem) target.symm]
    exact underway.placed file mem
  · by_cases at_record : path = plan.recordPath
    · subst at_record
      obtain rfl := Option.some.inj (find_persisted_self.symm.trans at_path)
      exact .record rfl rfl (.inl rfl)
    · exact known_of_persisted underway at_record at_path

end Plan

end Orgasmic
