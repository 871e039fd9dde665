import Mathlib.Data.Finset.Basic
import Orgasmic.Generations
import Orgasmic.LedgerHandles

/-! # Rotation of the daemon's log

The sink writes lines to the current log file.  When the file is long enough it becomes the first of
at most `keep` rolled files, each of which moves up by one.

* **Files.** The current file is at place `0` and the rolled file `.i` at place `i`.  Every write adds
  a `LogEntry`; a failing one may leave a part of its line.
* **Moments.** `Log` keeps all states of the disk, also those between two renames, with the lines that
  have landed and the number of rolls of the current file.
* **Answers** of the operating system are inputs: which opens, writes and renames succeed, and what
  the clock shows.
* **Invariant** (`Sound`).  The files lie in the order in which they were rolled, so that the last of
  `keep` files is older than `keep` rolls (`spare_discover`).
* **Result.** `lines_kept`: every line is kept until `keep` later rolls, in every run in which no
  file moves to the place of one that could not be moved. -/

namespace Orgasmic

open Generations Text

/-! ### Files -/

/-- What one write leaves in a file; `line` counts the lines that have landed. -/
structure LogEntry where
  line : Option ℕ
  bytes : Bytes
deriving DecidableEq, Repr

structure LogFile where
  /-- The number of rolls when the file was made; files from before have negative ones. -/
  born : ℤ
  entries : List LogEntry
deriving DecidableEq, Repr

def LogFile.size (f : LogFile) : ℕ := (f.entries.map (·.bytes.length)).sum

abbrev LogDisk := ℕ → Option LogFile

/-- A line that has landed, and the number of rolls before it. -/
structure Landing where
  rolls : ℕ
  bytes : Bytes
deriving DecidableEq, Repr

structure Moment where
  disk : LogDisk
  /-- The successful rolls of the current file. -/
  rolls : ℕ
  landed : List Landing

/-! ### The sink -/

structure LogRotation where
  maxBytes : ℕ
  keep : ℕ
deriving DecidableEq, Repr

def MAX_LOG_KEEP : ℕ := 32

/-- Nanoseconds. -/
def REOPEN_BACKOFF_INITIAL : ℕ := 1000000000

def REOPEN_BACKOFF_CAP : ℕ := 60 * 1000000000

structure SinkState where
  /-- Whether there is a handle; it is always that of the file at the path. -/
  durable : Bool
  bytesWritten : ℕ
  rotation : LogRotation
  nextReopenAttempt : ℕ
  reopenBackoff : ℕ
  nextRotateAttempt : ℕ
  rotateBackoff : ℕ
deriving DecidableEq, Repr

/-- The state of the sink, the moment, and the moments before. -/
structure Log where
  sink : SinkState
  now : Moment
  past : List Moment

structure OpenAnswer where
  opened : Bool
  metadata : Bool
  /-- The clock after the file was opened. -/
  clock : ℕ
  /-- The clock when a failure schedules the next attempt. -/
  retry : ℕ
deriving DecidableEq, Repr

structure RotateAnswer where
  clock : ℕ
  /-- Whether the file at a place can be renamed. -/
  rename : ℕ → Bool
  remove : Bool
  retry : ℕ
  reopen : OpenAnswer

structure WriteAnswer where
  /-- The clock at the gate of the reopen. -/
  clock : ℕ
  reopen : OpenAnswer
  /-- How many bytes a failing write leaves. -/
  failed : Option ℕ
  retry : ℕ
  rotate : RotateAnswer

/-- The backoff doubles up to its cap. -/
def doubled (backoff : ℕ) : ℕ := min (backoff * 2) REOPEN_BACKOFF_CAP

namespace Log

def put (w : Log) (m : Moment) : Log := { w with now := m, past := w.past ++ [w.now] }

def moments (w : Log) : List Moment := w.past ++ [w.now]

def dropHandle (w : Log) : Log := { w with sink := { w.sink with durable := false } }

def scheduleReopenRetry (clock : ℕ) (w : Log) : Log :=
  { w with sink := { w.sink with
      nextReopenAttempt := clock + w.sink.reopenBackoff
      reopenBackoff := doubled w.sink.reopenBackoff } }

def scheduleRotateRetry (clock : ℕ) (w : Log) : Log :=
  { w with sink := { w.sink with
      nextRotateAttempt := clock + w.sink.rotateBackoff
      rotateBackoff := doubled w.sink.rotateBackoff } }

/-- `try_open_durable`; it answers `a.opened`. -/
def tryOpenDurable (a : OpenAnswer) (w : Log) : Log :=
  if a.opened then
    let file := (w.now.disk 0).getD ⟨w.now.rolls, []⟩
    { w.put { w.now with disk := Function.update w.now.disk 0 (some file) } with
      sink := { w.sink with
        durable := true
        bytesWritten := if a.metadata then file.size else 0
        reopenBackoff := REOPEN_BACKOFF_INITIAL
        nextReopenAttempt := a.clock } }
  else w

/-- The open, and the next attempt where it fails. -/
def openOrRetry (a : OpenAnswer) (w : Log) : Log :=
  if a.opened then w.tryOpenDurable a else w.scheduleReopenRetry a.retry

def maybeReopenDurable (clock : ℕ) (a : OpenAnswer) (w : Log) : Log :=
  if w.sink.durable then w
  else if clock < w.sink.nextReopenAttempt then w
  else w.openOrRetry a

/-- Add to the file at the path. -/
def append (w : Log) (file : LogFile) (entry : LogEntry) (landed : List Landing) : Log :=
  w.put { w.now with
    disk := Function.update w.now.disk 0 (some { file with entries := file.entries ++ [entry] })
    landed := landed }

/-- `write_all` on the handle, and what follows from its result. -/
def writeDurable (a : WriteAnswer) (buf : Bytes) (w : Log) : Log :=
  match w.now.disk 0 with
  | none => w  -- a live handle has its file
  | some file =>
      match a.failed with
      | none =>
          let written := min (w.sink.bytesWritten + buf.length) (2 ^ 64 - 1)
          { w.append file ⟨some w.now.landed.length, buf⟩
              (w.now.landed ++ [⟨w.now.rolls, buf⟩]) with
            sink := { w.sink with bytesWritten := written } }
      | some n =>
          ((w.append file ⟨none, buf.take n⟩ w.now.landed).dropHandle).scheduleReopenRetry a.retry

/-! ### The roll -/

/-- The loop that looks for the highest generation: the turns that are left, and what was found. -/
def highestFrom (disk : LogDisk) : ℕ → ℕ → ℕ
  | 0, highest => highest
  | turns + 1, highest =>
      if (disk (highest + 1)).isSome then highestFrom disk turns (highest + 1) else highest

/-- The highest generation up to the first gap. -/
def discover (disk : LogDisk) (keep : ℕ) : ℕ := highestFrom disk (keep - 1) 0

/-- The rename of a rolled file; nothing is there when the source is not found. -/
def renameRolled (ok : Bool) (i : ℕ) (w : Log) : Log :=
  if ok = true ∧ (w.now.disk i).isSome = true then
    w.put { w.now with disk := shift w.now.disk i }
  else w

/-- The loop over the generations, from the highest down. -/
def rollGenerations (rename : ℕ → Bool) : ℕ → Log → Log
  | 0, w => w
  | i + 1, w => rollGenerations rename i (w.renameRolled (rename (i + 1)) (i + 1))

/-- What follows a roll: a new file with no bytes, or the backoff of the reopen. -/
def afterRoll (a : OpenAnswer) (w : Log) : Log :=
  let w := ({ w with sink := { w.sink with rotateBackoff := REOPEN_BACKOFF_INITIAL } } : Log)
  if a.opened then
    let w := w.tryOpenDurable a
    { w with sink := { w.sink with bytesWritten := 0 } }
  else w.scheduleReopenRetry a.retry

def maybeRotate (a : RotateAnswer) (w : Log) : Log :=
  if w.sink.durable = false then w
  else if w.sink.rotation.maxBytes = 0 then w
  else if w.sink.bytesWritten ≤ w.sink.rotation.maxBytes then w
  else if a.clock < w.sink.nextRotateAttempt then w
  else
    let keep := min w.sink.rotation.keep MAX_LOG_KEEP
    if keep = 0 then
      let w := w.dropHandle
      if a.remove = false ∧ (w.now.disk 0).isSome = true then
        (w.scheduleRotateRetry a.retry).openOrRetry a.reopen
      else (w.put { w.now with disk := Function.update w.now.disk 0 none }).afterRoll a.reopen
    else
      let w := (rollGenerations a.rename (discover w.now.disk keep) w).dropHandle
      if a.rename 0 = true ∧ (w.now.disk 0).isSome = true then
        (w.put { w.now with disk := shift w.now.disk 0, rolls := w.now.rolls + 1 }).afterRoll a.reopen
      else (w.scheduleRotateRetry a.retry).openOrRetry a.reopen

/-- `write_all_best_effort` on the durable sink, up to the rotation. -/
def written (w : Log) (a : WriteAnswer) (buf : Bytes) : Log :=
  let w := w.maybeReopenDurable a.clock a.reopen
  if w.sink.durable then w.writeDurable a buf else w

def writeAllBestEffort (w : Log) (a : WriteAnswer) (buf : Bytes) : Log :=
  let w := w.written a buf
  if w.sink.durable then w.maybeRotate a.rotate else w

/-- A run of writes. -/
def run (w : Log) (calls : List (WriteAnswer × Bytes)) : Log :=
  calls.foldl (fun w call => w.writeAllBestEffort call.1 call.2) w

end Log

/-! ### What is kept -/

/-- The line is in the file at the place. -/
def HoldsLine (disk : LogDisk) (p n : ℕ) (bytes : Bytes) : Prop :=
  (disk p).any (fun f => decide (⟨some n, bytes⟩ ∈ f.entries)) = true

instance (disk : LogDisk) (p n : ℕ) (bytes : Bytes) : Decidable (HoldsLine disk p n bytes) :=
  inferInstanceAs (Decidable (_ = true))

theorem holds_iff {disk : LogDisk} {p n : ℕ} {bytes : Bytes} :
    HoldsLine disk p n bytes ↔ ∃ f, disk p = some f ∧ ⟨some n, bytes⟩ ∈ f.entries := by
  rw [HoldsLine, Option.any_eq_true]
  simp only [decide_eq_true_eq]

/-- The number of rolled files. -/
def Log.keepOf (w : Log) : ℕ := min w.sink.rotation.keep MAX_LOG_KEEP

/-- **The promise.** -/
structure KeepsLines (keep : ℕ) (m : Moment) : Prop where
  /-- Until `keep` later rolls every line is in exactly one file. -/
  held : ∀ n l, m.landed[n]? = some l → m.rolls < l.rolls + keep →
    ∃! p, p ≤ keep ∧ HoldsLine m.disk p n l.bytes
  /-- An older line is in no newer file. -/
  ordered : ∀ n n' l l' p p', m.landed[n]? = some l → m.landed[n']? = some l' → n < n' →
    p ≤ keep → p' ≤ keep → HoldsLine m.disk p n l.bytes → HoldsLine m.disk p' n' l'.bytes → p' ≤ p

/-! ### The invariant -/

structure LogSound (keep : ℕ) (m : Moment) : Prop where
  ordered : Ordered LogFile.born m.disk
  current : ∀ f, m.disk 0 = some f → f.born = m.rolls
  rolled : ∀ p f, m.disk (p + 1) = some f → f.born < m.rolls
  /-- A line is in a file that was made as late as the line. -/
  lines : ∀ p f n bytes, m.disk p = some f → ⟨some n, bytes⟩ ∈ f.entries →
    ∃ l, m.landed[n]? = some l ∧ l.bytes = bytes ∧ f.born = l.rolls
  held : ∀ n l, m.landed[n]? = some l → m.rolls < l.rolls + keep →
    ∃ p ≤ keep, HoldsLine m.disk p n l.bytes
  before : ∀ (n : ℕ) (l : Landing), m.landed[n]? = some l → l.rolls ≤ m.rolls
  sorted : ∀ (n n' : ℕ) (l l' : Landing), m.landed[n]? = some l → m.landed[n']? = some l' →
    n < n' → l.rolls ≤ l'.rolls

variable {keep : ℕ} {m : Moment}

theorem LogSound.keepsLines (h : LogSound keep m) : KeepsLines keep m := by
  have hborn {p n : ℕ} {l : Landing} (hl : m.landed[n]? = some l)
      (hp : HoldsLine m.disk p n l.bytes) : ∃ f, m.disk p = some f ∧ f.born = l.rolls := by
    obtain ⟨f, hf, hentry⟩ := holds_iff.mp hp
    obtain ⟨l', hl', _, heq⟩ := h.lines p f n _ hf hentry
    cases hl.symm.trans hl'
    exact ⟨f, hf, heq⟩
  refine ⟨fun n l hl hlate => ?_, fun n n' l l' p p' hl hl' hlt _ _ hp hp' => ?_⟩
  · obtain ⟨p, hle, hp⟩ := h.held n l hl hlate
    refine ⟨p, ⟨hle, hp⟩, fun q hq => ?_⟩
    obtain ⟨f, hf, hfb⟩ := hborn hl hp
    obtain ⟨g, hg, hgb⟩ := hborn hl hq.2
    exact h.ordered.place_unique hg hf (hgb.trans hfb.symm)
  · obtain ⟨f, hf, hfb⟩ := hborn hl hp
    obtain ⟨g, hg, hgb⟩ := hborn hl' hp'
    refine Nat.le_of_not_lt fun hpp => ?_
    have hyounger := h.ordered p p' f g hpp hf hg
    have hsorted := h.sorted n n' l l' hl hl' hlt
    omega

/-! ### Steps of the disk -/

/-- Nothing at the place has to be kept. -/
def Spare (keep : ℕ) (m : Moment) (p : ℕ) : Prop :=
  ∀ f, m.disk p = some f → f.born + keep ≤ m.rolls

/-- A file moves to a place that is free, or holds what need not be kept. -/
theorem LogSound.shift (h : LogSound keep m) {i : ℕ} (hi : i + 2 ≤ keep)
    (hspare : Spare keep m (i + 2)) :
    LogSound keep { m with disk := Generations.shift m.disk (i + 1) } := by
  refine ⟨h.ordered.shift (i + 1), fun f hf => ?_, fun p f hf => ?_, fun p f n bytes hf hentry => ?_,
    fun n l hl hlate => ?_, h.before, h.sorted⟩
  · exact h.current f ((shift_other (i := i + 1) (p := 0) (by omega) (by omega)).symm.trans hf)
  · obtain ⟨_, hf⟩ | ⟨_, _, hf⟩ := shift_some hf
    · exact h.rolled i f hf
    · exact h.rolled p f hf
  · obtain ⟨_, hf⟩ | ⟨_, _, hf⟩ := shift_some hf
    · exact h.lines (i + 1) f n bytes hf hentry
    · exact h.lines p f n bytes hf hentry
  · obtain ⟨p, hle, hp⟩ := h.held n l hl hlate
    obtain ⟨f, hf, hentry⟩ := holds_iff.mp hp
    obtain rfl | hpi := eq_or_ne p (i + 1)
    · exact ⟨i + 2, hi, holds_iff.mpr ⟨f, (shift_next _ _).trans hf, hentry⟩⟩
    obtain rfl | hpn := eq_or_ne p (i + 2)
    · obtain ⟨l', hl', _, hborn⟩ := h.lines _ f n _ hf hentry
      cases hl.symm.trans hl'
      have hold := hspare f hf
      exfalso
      have hlate' : m.rolls < l.rolls + keep := hlate
      omega
    · exact ⟨p, hle, holds_iff.mpr ⟨f, (shift_other hpi hpn).trans hf, hentry⟩⟩

/-- The current file becomes the first rolled one. -/
theorem LogSound.roll (h : LogSound keep m) (hkeep : 1 ≤ keep) (hspare : Spare keep m 1) :
    LogSound keep { m with disk := Generations.shift m.disk 0, rolls := m.rolls + 1 } := by
  refine ⟨h.ordered.shift 0, fun f hf => ?_, fun p f hf => ?_, fun p f n bytes hf hentry => ?_,
    fun n l hl hlate => ?_, fun n l hl => Nat.le_succ_of_le (h.before n l hl), h.sorted⟩
  · cases (shift_same m.disk 0).symm.trans hf
  · show f.born < ((m.rolls + 1 : ℕ) : ℤ)
    obtain ⟨_, hf⟩ | ⟨_, _, hf⟩ := shift_some hf
    · have := h.current f hf
      omega
    · have := h.rolled p f hf
      omega
  · obtain ⟨_, hf⟩ | ⟨_, _, hf⟩ := shift_some hf
    · exact h.lines 0 f n bytes hf hentry
    · exact h.lines p f n bytes hf hentry
  · have hlate' : m.rolls + 1 < l.rolls + keep := hlate
    obtain ⟨p, hle, hp⟩ := h.held n l hl (by omega)
    obtain ⟨f, hf, hentry⟩ := holds_iff.mp hp
    obtain rfl | hp0 := eq_or_ne p 0
    · exact ⟨1, hkeep, holds_iff.mpr ⟨f, (shift_next _ _).trans hf, hentry⟩⟩
    obtain rfl | hp1 := eq_or_ne p 1
    · obtain ⟨l', hl', _, hborn⟩ := h.lines _ f n _ hf hentry
      cases hl.symm.trans hl'
      have hold := hspare f hf
      omega
    · exact ⟨p, hle, holds_iff.mpr ⟨f, (shift_other hp0 hp1).trans hf, hentry⟩⟩

/-- The current file is there, or gets more entries; the lines among them land. -/
theorem LogSound.write (h : LogSound keep m) {file : LogFile} {landed : List Landing}
    (hborn : file.born = m.rolls)
    (hold : ∀ f, m.disk 0 = some f → ∀ e ∈ f.entries, e ∈ file.entries)
    (hlines : ∀ n bytes, ⟨some n, bytes⟩ ∈ file.entries →
      ∃ l, landed[n]? = some l ∧ l.bytes = bytes ∧ l.rolls = m.rolls)
    (hkept : ∀ (n : ℕ) (l : Landing), m.landed[n]? = some l → landed[n]? = some l)
    (hnew : ∀ (n : ℕ) (l : Landing), landed[n]? = some l → m.landed[n]? = some l ∨
      m.landed.length ≤ n ∧ l.rolls = m.rolls ∧ ⟨some n, l.bytes⟩ ∈ file.entries) :
    LogSound keep { m with disk := Function.update m.disk 0 (some file), landed := landed } := by
  refine ⟨h.ordered.update fun p f hf => ?_, fun f hf => ?_, fun p f hf => ?_,
    fun p f n bytes hf hentry => ?_, fun n l hl hlate => ?_, fun n l hl => ?_,
    fun n n' l l' hl hl' hlt => ?_⟩
  · rw [hborn]
    exact h.rolled p f hf
  · simp only [Function.update_self, Option.some.injEq] at hf
    rw [← hf]
    exact hborn
  · simp only [ne_eq, Nat.add_one_ne_zero, not_false_eq_true, Function.update_of_ne] at hf
    exact h.rolled p f hf
  · obtain rfl | hp := eq_or_ne p 0
    · simp only [Function.update_self, Option.some.injEq] at hf
      subst hf
      obtain ⟨l, hl, hbytes, hrolls⟩ := hlines n bytes hentry
      exact ⟨l, hl, hbytes, by rw [hborn, hrolls]⟩
    · simp only [ne_eq, hp, not_false_eq_true, Function.update_of_ne] at hf
      obtain ⟨l, hl, hrest⟩ := h.lines p f n bytes hf hentry
      exact ⟨l, hkept n l hl, hrest⟩
  · obtain hl | ⟨_, _, hentry⟩ := hnew n l hl
    · obtain ⟨p, hle, hp⟩ := h.held n l hl hlate
      refine ⟨p, hle, holds_iff.mpr ?_⟩
      obtain ⟨f, hf, hentry⟩ := holds_iff.mp hp
      obtain rfl | hp0 := eq_or_ne p 0
      · exact ⟨file, update_same m.disk 0 _, hold f hf _ hentry⟩
      · exact ⟨f, (Function.update_of_ne hp0 _ _).trans hf, hentry⟩
    · exact ⟨0, Nat.zero_le _, holds_iff.mpr ⟨file, update_same m.disk 0 _, hentry⟩⟩
  · obtain hl | ⟨_, hrolls, _⟩ := hnew n l hl
    · exact h.before n l hl
    · exact hrolls.le
  · obtain hl' | ⟨_, hrolls', _⟩ := hnew n' l' hl'
    · obtain hl | ⟨hlate, _, _⟩ := hnew n l hl
      · exact h.sorted n n' l l' hl hl' hlt
      · have := (List.getElem?_eq_some_iff.mp hl').1
        omega
    · rw [hrolls']
      obtain hl | ⟨_, hrolls, _⟩ := hnew n l hl
      · exact h.before n l hl
      · exact hrolls.le

/-! ### Steps of the sink -/

/-- All moments are sound, and a live handle has its file. -/
structure Log.Sound (keep : ℕ) (w : Log) : Prop where
  setting : w.keepOf = keep
  now : LogSound keep w.now
  past : ∀ m ∈ w.past, LogSound keep m
  live : w.sink.durable = true → (w.now.disk 0).isSome = true

namespace Log

variable {w : Log}

theorem Sound.put (h : w.Sound keep) {m : Moment} (hm : LogSound keep m)
    (hlive : w.sink.durable = true → (m.disk 0).isSome = true) : (w.put m).Sound keep := by
  refine ⟨h.setting, hm, fun m' hm' => ?_, hlive⟩
  obtain hm' | hm' := List.mem_append.mp hm'
  · exact h.past m' hm'
  · rw [List.mem_singleton.mp hm']
    exact h.now

/-- Only the moment counts, and whether there is a handle. -/
theorem Sound.sink (h : w.Sound keep) {sink : SinkState} (hsame : sink.rotation = w.sink.rotation)
    (hlive : sink.durable = true → (w.now.disk 0).isSome = true) :
    ({ w with sink := sink } : Log).Sound keep :=
  ⟨by rw [← h.setting, keepOf, keepOf, hsame], h.now, h.past, hlive⟩

theorem sound_tryOpenDurable (h : w.Sound keep) (a : OpenAnswer) :
    (w.tryOpenDurable a).Sound keep := by
  unfold tryOpenDurable
  split
  · have hfile : LogSound keep { w.now with
        disk := Function.update w.now.disk 0 (some ((w.now.disk 0).getD ⟨w.now.rolls, []⟩)) } := by
      refine h.now.write ?_ (fun f hf => ?_) (fun n bytes hentry => ?_) (fun _ _ hl => hl)
        (fun _ _ hl => .inl hl)
      · cases hdisk : w.now.disk 0 with
        | none => rfl
        | some f => exact h.now.current f hdisk
      · rw [hf]
        exact fun _ he => he
      · cases hdisk : w.now.disk 0 with
        | none =>
            rw [hdisk] at hentry
            cases hentry
        | some f =>
            rw [hdisk] at hentry
            obtain ⟨l, hl, hbytes, hborn⟩ := h.now.lines 0 f n bytes hdisk hentry
            refine ⟨l, hl, hbytes, ?_⟩
            have := h.now.current f hdisk
            omega
    have hsome : (Function.update w.now.disk 0
        (some ((w.now.disk 0).getD ⟨w.now.rolls, []⟩)) 0).isSome = true := by
      rw [Function.update_self]
      rfl
    exact (h.put hfile fun _ => hsome).sink rfl fun _ => hsome
  · exact h

theorem sound_openOrRetry (h : w.Sound keep) (a : OpenAnswer) : (w.openOrRetry a).Sound keep := by
  unfold openOrRetry
  split
  · exact sound_tryOpenDurable h a
  · exact h.sink rfl h.live

theorem sound_maybeReopenDurable (h : w.Sound keep) (clock : ℕ) (a : OpenAnswer) :
    (w.maybeReopenDurable clock a).Sound keep := by
  unfold maybeReopenDurable
  split
  · exact h
  · split
    · exact h
    · exact sound_openOrRetry h a

/-- Lines of the current file landed since the last roll. -/
theorem lines_current (h : w.Sound keep) {file : LogFile} (hfile : w.now.disk 0 = some file) {n : ℕ}
    {bytes : Bytes} (hentry : ⟨some n, bytes⟩ ∈ file.entries) :
    ∃ l, w.now.landed[n]? = some l ∧ l.bytes = bytes ∧ l.rolls = w.now.rolls := by
  obtain ⟨l, hl, hbytes, hborn⟩ := h.now.lines 0 file n bytes hfile hentry
  have := h.now.current file hfile
  exact ⟨l, hl, hbytes, by omega⟩

theorem sound_writeDurable (h : w.Sound keep) (a : WriteAnswer) (buf : Bytes) :
    (w.writeDurable a buf).Sound keep := by
  unfold writeDurable
  split
  · exact h
  next file hfile =>
  have hborn := h.now.current file hfile
  have hsame : ∀ f, w.now.disk 0 = some f → f = file := fun f hf =>
    Option.some.inj (hf.symm.trans hfile)
  split
  · -- the line lands
    have hm : LogSound keep { w.now with
        disk := Function.update w.now.disk 0
          (some { file with entries := file.entries ++ [⟨some w.now.landed.length, buf⟩] })
        landed := w.now.landed ++ [⟨w.now.rolls, buf⟩] } := by
      refine h.now.write hborn (fun f hf e he => ?_) (fun n bytes hentry => ?_) (fun n l hl => ?_)
        (fun n l hl => ?_)
      · rw [hsame f hf] at he
        exact List.mem_append_left _ he
      · obtain hentry | hentry := List.mem_append.mp hentry
        · obtain ⟨l, hl, hrest⟩ := lines_current h hfile hentry
          exact ⟨l, by rw [List.getElem?_append_left (List.getElem?_eq_some_iff.mp hl).1, hl], hrest⟩
        · cases List.mem_singleton.mp hentry
          exact ⟨_, List.getElem?_concat_length, rfl, rfl⟩
      · rw [List.getElem?_append_left (List.getElem?_eq_some_iff.mp hl).1, hl]
      · obtain hlt | hge := Nat.lt_or_ge n w.now.landed.length
        · rw [List.getElem?_append_left hlt] at hl
          exact .inl hl
        · rw [List.getElem?_append_right hge] at hl
          obtain ⟨hn, hl⟩ := List.getElem?_eq_some_iff.mp hl
          rw [List.length_singleton] at hn
          obtain rfl : n = w.now.landed.length := by omega
          rw [List.getElem_singleton] at hl
          subst hl
          exact .inr ⟨le_rfl, rfl, List.mem_append_right _ (List.mem_singleton.mpr rfl)⟩
    have hsome : (Function.update w.now.disk 0 (some { file with
        entries := file.entries ++ [(⟨some w.now.landed.length, buf⟩ : LogEntry)] }) 0).isSome =
          true := by
      rw [Function.update_self]
      rfl
    exact (h.put hm fun _ => hsome).sink rfl fun _ => hsome
  · next k _ =>
    -- a part of the line is left
    have hm : LogSound keep { w.now with
        disk := Function.update w.now.disk 0
          (some { file with entries := file.entries ++ [⟨none, buf.take k⟩] })
        landed := w.now.landed } := by
      refine h.now.write hborn (fun f hf e he => ?_) (fun n bytes hentry => ?_) (fun _ _ hl => hl)
        (fun _ _ hl => .inl hl)
      · rw [hsame f hf] at he
        exact List.mem_append_left _ he
      · obtain hentry | hentry := List.mem_append.mp hentry
        · exact lines_current h hfile hentry
        · cases List.mem_singleton.mp hentry
    have hsome : (Function.update w.now.disk 0 (some { file with
        entries := file.entries ++ [(⟨none, buf.take k⟩ : LogEntry)] }) 0).isSome = true := by
      rw [Function.update_self]
      rfl
    exact (h.put hm fun _ => hsome).sink rfl fun _ => hsome

/-! ### The roll -/

theorem highestFrom_spec (disk : LogDisk) (turns highest : ℕ) :
    highestFrom disk turns highest ≤ highest + turns ∧
      (∀ p, highest ≤ p → p < highestFrom disk turns highest → (disk (p + 1)).isSome = true) ∧
      (highestFrom disk turns highest < highest + turns →
        disk (highestFrom disk turns highest + 1) = none) := by
  induction turns generalizing highest with
  | zero =>
      exact ⟨le_rfl, fun p hle hlt => absurd hle (Nat.not_le.mpr hlt),
        fun hlt => absurd hlt (lt_irrefl _)⟩
  | succ turns ih =>
      rw [highestFrom]
      split
      · next hsome =>
          obtain ⟨hle, hfull, hgap⟩ := ih (highest + 1)
          refine ⟨by omega, fun p hp hlt => ?_, fun hlt => hgap (by omega)⟩
          obtain rfl | hne := eq_or_ne p highest
          · exact hsome
          · exact hfull p (by omega) hlt
      · next hnone =>
          exact ⟨by omega, fun p hle hlt => absurd hle (Nat.not_le.mpr hlt),
            fun _ => Option.not_isSome_iff_eq_none.mp hnone⟩

/-- **Above the generations that are found** nothing has to be kept. -/
theorem spare_discover {keep : ℕ} {m : Moment} (h : LogSound keep m) (hkeep : 1 ≤ keep) :
    Spare keep m (discover m.disk keep + 1) := by
  obtain ⟨hle, hfull, hgap⟩ := highestFrom_spec m.disk (keep - 1) 0
  intro f hf
  obtain hlt | hge := Nat.lt_or_ge (discover m.disk keep) (keep - 1)
  · rw [discover, hgap (by rw [Nat.zero_add]; exact hlt)] at hf
    cases hf
  · -- all places up to the last one are taken
    have hle' : discover m.disk keep ≤ 0 + (keep - 1) := hle
    have hlast : discover m.disk keep = keep - 1 := by omega
    rw [hlast] at hf
    have hfull' : ∀ p, 1 ≤ p → p ≤ 1 + (keep - 1) → (m.disk p).isSome = true := by
      intro p hp hp'
      obtain rfl | hne := eq_or_ne p keep
      · rw [show p = p - 1 + 1 by omega, hf]
        rfl
      · obtain ⟨q, rfl⟩ := Nat.exists_eq_add_of_le' hp
        exact hfull q (Nat.zero_le _) (by rw [← discover, hlast]; omega)
    obtain ⟨g, hg⟩ := Option.isSome_iff_exists.mp (hfull' 1 le_rfl (by omega))
    have hages := h.ordered.full hfull' hg (by rw [Nat.add_comm]; exact hf)
    have hfirst := h.rolled 0 g hg
    omega

/-- The state that the roll starts from makes one due. -/
def Due (clock : ℕ) (w : Log) : Prop :=
  w.sink.durable = true ∧ w.sink.rotation.maxBytes ≠ 0 ∧
    w.sink.rotation.maxBytes < w.sink.bytesWritten ∧ w.sink.nextRotateAttempt ≤ clock

/-- **The condition**: when a file cannot be renamed in the roll, the next younger one cannot be
either. -/
def Orderly (a : RotateAnswer) (w : Log) : Prop :=
  w.Due a.clock → ∀ i, i + 1 ≤ discover w.now.disk w.keepOf → a.rename (i + 1) = false →
    a.rename i = false

theorem sound_dropHandle (h : w.Sound keep) : w.dropHandle.Sound keep :=
  h.sink rfl fun hlive => absurd hlive Bool.false_ne_true

theorem sound_renameRolled (h : w.Sound keep) {i : ℕ} (hi : i + 2 ≤ keep) {ok : Bool}
    (hspare : ok = true → Spare keep w.now (i + 2)) :
    (w.renameRolled ok (i + 1)).Sound keep ∧
      (ok = true → Spare keep (w.renameRolled ok (i + 1)).now (i + 1)) := by
  unfold renameRolled
  split
  · next hok =>
      refine ⟨h.put (h.now.shift hi (hspare hok.1)) fun hlive => ?_, fun _ f hf => ?_⟩
      · have hlive' := h.live hlive
        rwa [← shift_other (d := w.now.disk) (i := i + 1) (p := 0) (by omega) (by omega)] at hlive'
      · cases (shift_same w.now.disk (i + 1)).symm.trans hf
  · next hok =>
      refine ⟨h, fun htrue f hf => absurd ⟨htrue, ?_⟩ hok⟩
      rw [hf]
      rfl

/-- **The chain of renames** frees the first place, or stops for good. -/
theorem sound_rollGenerations (rename : ℕ → Bool) (i : ℕ) (h : w.Sound keep)
    (hi : i + 1 ≤ keep) (hstops : ∀ j, j + 1 ≤ i → rename (j + 1) = false → rename j = false)
    (hspare : rename i = true → Spare keep w.now (i + 1)) :
    (rollGenerations rename i w).Sound keep ∧
      (rename 0 = true → Spare keep (rollGenerations rename i w).now 1) := by
  induction i generalizing w with
  | zero => exact ⟨h, hspare⟩
  | succ i ih =>
      obtain ⟨hsound, hfree⟩ := sound_renameRolled h hi hspare
      refine ih hsound (by omega) (fun j hj => hstops j (by omega)) fun htrue => hfree ?_
      cases hnext : rename (i + 1) with
      | true => rfl
      | false =>
          rw [hstops i le_rfl hnext] at htrue
          cases htrue

theorem sound_afterRoll (h : w.Sound keep) (a : OpenAnswer) : (w.afterRoll a).Sound keep := by
  have hreset : ({ w with sink := { w.sink with
      rotateBackoff := REOPEN_BACKOFF_INITIAL } } : Log).Sound keep := h.sink rfl h.live
  unfold afterRoll
  dsimp only
  split
  · exact (sound_tryOpenDurable hreset a).sink rfl (sound_tryOpenDurable hreset a).live
  · exact hreset.sink rfl hreset.live

theorem sound_maybeRotate (h : w.Sound keep) (hkeep : 1 ≤ keep) {a : RotateAnswer}
    (horderly : w.Orderly a) : (w.maybeRotate a).Sound keep := by
  unfold maybeRotate
  split
  · exact h
  next hdurable =>
  split
  · exact h
  next hmax =>
  split
  · exact h
  next hbytes =>
  split
  · exact h
  next hclock =>
  have hdue : w.Due a.clock :=
    ⟨by simpa using hdurable, hmax, Nat.lt_of_not_le hbytes, Nat.le_of_not_lt hclock⟩
  have hsetting : min w.sink.rotation.keep MAX_LOG_KEEP = keep := h.setting
  dsimp only
  rw [hsetting, if_neg (by omega)]
  have hle := (highestFrom_spec w.now.disk (keep - 1) 0).1
  obtain ⟨hrolled, hfree⟩ := sound_rollGenerations a.rename (discover w.now.disk keep) h
    (by rw [discover]; omega) (fun j hj => horderly hdue j (by rw [h.setting]; exact hj))
    fun _ => spare_discover h.now hkeep
  have hdropped := sound_dropHandle hrolled
  split
  · next hok =>
      have hroll := hdropped.now.roll hkeep (hfree hok.1)
      exact sound_afterRoll (hdropped.put hroll fun hlive => absurd hlive Bool.false_ne_true) _
  · have hretry : (((rollGenerations a.rename (discover w.now.disk keep)
        w).dropHandle).scheduleRotateRetry a.retry).Sound keep := hdropped.sink rfl hdropped.live
    exact sound_openOrRetry hretry _

/-! ### Runs -/

theorem sound_written (h : w.Sound keep) (a : WriteAnswer) (buf : Bytes) :
    (w.written a buf).Sound keep := by
  unfold written
  dsimp only
  split
  · exact sound_writeDurable (sound_maybeReopenDurable h _ _) a buf
  · exact sound_maybeReopenDurable h _ _

theorem sound_writeAllBestEffort (h : w.Sound keep) (hkeep : 1 ≤ keep) {a : WriteAnswer}
    {buf : Bytes} (horderly : (w.written a buf).Orderly a.rotate) :
    (w.writeAllBestEffort a buf).Sound keep := by
  unfold writeAllBestEffort
  dsimp only
  split
  · exact sound_maybeRotate (sound_written h a buf) hkeep horderly
  · exact sound_written h a buf

/-- Every roll of the run meets the condition. -/
def OrderlyRun : Log → List (WriteAnswer × Bytes) → Prop
  | _, [] => True
  | w, (a, buf) :: calls =>
      (w.written a buf).Orderly a.rotate ∧ OrderlyRun (w.writeAllBestEffort a buf) calls

theorem sound_run (hkeep : 1 ≤ keep) {calls : List (WriteAnswer × Bytes)} (h : w.Sound keep)
    (horderly : w.OrderlyRun calls) : (w.run calls).Sound keep := by
  induction calls generalizing w with
  | nil => exact h
  | cons call calls ih =>
      obtain ⟨a, buf⟩ := call
      exact ih (sound_writeAllBestEffort h hkeep horderly.1) horderly.2

/-- The sink at the start: no line has landed, and the disk holds what was there before. -/
structure Fresh (w : Log) : Prop where
  past : w.past = []
  rolls : w.now.rolls = 0
  landed : w.now.landed = []
  files : ∀ p f, w.now.disk p = some f → f.born = -p ∧ ∀ e ∈ f.entries, e.line = none
  live : w.sink.durable = true → (w.now.disk 0).isSome = true

theorem sound_fresh (h : w.Fresh) : w.Sound w.keepOf := by
  refine ⟨rfl, ⟨fun p q x y hlt hx hy => ?_, fun f hf => ?_, fun p f hf => ?_,
    fun p f n bytes hf hentry => ?_, fun n l hl => ?_, fun n l hl => ?_, fun n n' l l' hl => ?_⟩,
    fun m hm => ?_, h.live⟩
  · rw [(h.files p x hx).1, (h.files q y hy).1]
    omega
  · rw [(h.files 0 f hf).1, h.rolls]
    rfl
  · rw [(h.files _ f hf).1, h.rolls]
    omega
  · cases (h.files p f hf).2 _ hentry
  · rw [h.landed] at hl
    cases hl
  · rw [h.landed] at hl
    cases hl
  · rw [h.landed] at hl
    cases hl
  · rw [h.past] at hm
    cases hm

end Log

open Log

/-- **Every line is kept** until `keep` later rolls of the current file, at every moment of a run in
which no file moves to the place of one that could not be moved. -/
theorem lines_kept {w : Log} (hfresh : w.Fresh) (hkeep : 1 ≤ w.sink.rotation.keep)
    {calls : List (WriteAnswer × Bytes)} (horderly : w.OrderlyRun calls) :
    ∀ m ∈ (w.run calls).moments, KeepsLines w.keepOf m := by
  have hsound := sound_run (le_min hkeep (by decide)) (sound_fresh hfresh) horderly
  intro m hm
  obtain hm | hm := List.mem_append.mp hm
  · exact (hsound.past m hm).keepsLines
  · rw [List.mem_singleton.mp hm]
    exact hsound.now.keepsLines

/-! ### A chain that goes on -/

/-- An empty log, rolled after every line, with three generations. -/
def emptyLog : Log :=
  { sink := ⟨true, 0, ⟨1, 3⟩, 0, REOPEN_BACKOFF_INITIAL, 0, REOPEN_BACKOFF_INITIAL⟩
    now := ⟨fun p => if p = 0 then some ⟨0, []⟩ else none, 0, []⟩
    past := [] }

theorem fresh_emptyLog : emptyLog.Fresh := by
  refine ⟨rfl, rfl, rfl, fun p f hf => ?_, fun _ => rfl⟩
  obtain rfl | hp := eq_or_ne p 0
  · cases hf
    exact ⟨rfl, fun e he => absurd he List.not_mem_nil⟩
  · have hnone : emptyLog.now.disk p = none := if_neg hp
    cases hnone.symm.trans hf

/-- Everything succeeds but the renames of the listed places. -/
def failing (places : List ℕ) : WriteAnswer :=
  ⟨0, ⟨true, true, 0, 0⟩, none, 0, ⟨0, fun i => decide (i ∉ places), true, 0, ⟨true, true, 0, 0⟩⟩⟩

/-- Two lines, with a roll that fails between them. -/
theorem lines_kept_sample : emptyLog.Fresh ∧ ∀ m ∈ (emptyLog.run [(failing [], [97, 10]),
    (failing [0, 1], [98, 10]), (failing [], [99, 10])]).moments, KeepsLines emptyLog.keepOf m := by
  refine ⟨fresh_emptyLog, lines_kept fresh_emptyLog (by decide) ⟨?_, ?_, ?_, trivial⟩⟩
  · exact fun _ i _ hfails => absurd hfails (by simp [failing])
  · refine fun _ i hi _ => ?_
    have hone : discover ((emptyLog.writeAllBestEffort (failing []) [97, 10]).written
        (failing [0, 1]) [98, 10]).now.disk 3 = 1 := by
      decide
    have hi' : i + 1 ≤ 1 := hone ▸ hi
    obtain rfl : i = 0 := by omega
    rfl
  · exact fun _ i _ hfails => absurd hfails (by simp [failing])

/-- Three lines; in the third roll the second generation cannot be moved. -/
def stuckRun : Log :=
  emptyLog.run [(failing [], [97, 10]), (failing [], [98, 10]), (failing [2], [99, 10])]

/-- After two rolls there is a moment without the first line. -/
theorem stuckRun_loses : ∃ m ∈ stuckRun.moments, m.rolls = 2 ∧ m.landed[0]? = some ⟨0, [97, 10]⟩ ∧
    ∀ p ≤ 3, ¬ HoldsLine m.disk p 0 [97, 10] := by
  have hany : (stuckRun.moments.any fun m => decide (m.rolls = 2) &&
      (decide (m.landed[0]? = some ⟨0, [97, 10]⟩) &&
        (List.range 4).all fun p => decide (¬ HoldsLine m.disk p 0 [97, 10]))) = true := by
    decide
  obtain ⟨m, hm, hloses⟩ := List.any_eq_true.mp hany
  simp only [Bool.and_eq_true, decide_eq_true_eq, List.all_eq_true, List.mem_range] at hloses
  exact ⟨m, hm, hloses.1, hloses.2.1, fun p hp => hloses.2.2 p (by omega)⟩

/-- The first generation replaces the second one, and a line of it is kept for two rolls only. -/
theorem lines_kept_fails : ¬ ∀ (w : Log) (calls : List (WriteAnswer × Bytes)), w.Fresh →
    1 ≤ w.sink.rotation.keep → ∀ m ∈ (w.run calls).moments, KeepsLines w.keepOf m := by
  intro h
  obtain ⟨m, hm, hrolls, hlanded, hlost⟩ := stuckRun_loses
  have hkeeps := h emptyLog _ fresh_emptyLog (by decide) m hm
  obtain ⟨p, ⟨hp, hholds⟩, _⟩ := hkeeps.held 0 _ hlanded (by rw [hrolls]; decide)
  exact hlost p hp hholds

end Orgasmic
