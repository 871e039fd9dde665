import Orgasmic.Text
import Mathlib.Data.Finset.Basic
import Mathlib.Logic.Function.Basic

/-! # Session appends and leases

The part of `writer_loop` that serves `Session`, `LeaseSessions` and `ReleaseSessions`.

* **Handles.** One open append handle for each run; an append goes to the file of its run's handle,
  and to its own path only if it opens the handle.
* **Leases.** A leased path has no handle, and its appends wait in `deferred` until a release.
* **Runs.** `Observed` keeps what a run of the loop accepted, ran and granted.  Exclusion holds in
  every run; an append runs on its own path while all commands of its run name one path. -/

namespace Orgasmic

open Text

/-! ### Appends and handles -/

inductive SessionEventKind where
  | driverEvent
  | lifecycle
  | note
deriving DecidableEq, Repr

/-- An append that a caller asks for; `phase` is the string under that key of the event. -/
structure SessionAppend (Path : Type) where
  runId : Text
  sessionPath : Path
  kind : SessionEventKind
  phase : Option Text
deriving DecidableEq, Repr

/-- The open append handle of a run. -/
structure SessionWriter (Path : Type) where
  path : Path
  seq : ℕ
deriving DecidableEq, Repr

/-- What the file system answers when an append runs: to opening the path, and to the write. -/
structure Fate where
  opens : Bool
  persists : Bool
deriving DecidableEq, Repr

/-- An append under way. -/
structure Submitted (Path : Type) where
  req : SessionAppend Path
  fate : Fate
deriving DecidableEq, Repr

/-- The append handles by run. -/
abbrev SessionHandles (Path : Type) := Text → Option (SessionWriter Path)

/-- One append that ran: the file it went to, the paths that were leased then and the answer. -/
structure Ran (Path : Type) where
  req : SessionAppend Path
  file : Path
  held : Finset Path
  seq : Option ℕ

variable {Path : Type}

/-- `append_session_inner`: the handles after it, the path of the handle, and the sequence number
of a write that succeeds. -/
def appendSessionInner (handles : SessionHandles Path) (a : Submitted Path) :
    SessionHandles Path × Path × Option ℕ :=
  match handles a.req.runId, a.fate.opens with
  | none, false => (handles, a.req.sessionPath, none)
  | none, true => write ⟨a.req.sessionPath, 0⟩
  | some writer, _ => write writer
where
  write (writer : SessionWriter Path) : SessionHandles Path × Path × Option ℕ :=
    if a.fate.persists then
      (Function.update handles a.req.runId (some { writer with seq := writer.seq + 1 }),
        writer.path, some writer.seq)
    else (Function.update handles a.req.runId (some writer), writer.path, none)

/-- The phase of a lifecycle envelope. -/
def SessionAppend.lifecyclePhase (req : SessionAppend Path) : Option Text :=
  if req.kind = .lifecycle then req.phase else none

/-- `run_session_append`: the terminal line of a run takes the handle with it. -/
def runSessionAppend (leased : Finset Path) (handles : SessionHandles Path) (a : Submitted Path) :
    SessionHandles Path × Ran Path :=
  let (handles', file, seq) := appendSessionInner handles a
  let handles' :=
    if seq.isSome ∧ a.req.lifecyclePhase = some "release".toList then
      Function.update handles' a.req.runId none
    else handles'
  (handles', ⟨a.req, file, leased, seq⟩)

/-- The appends of a release, one after the other. -/
def runSessionAppends (leased : Finset Path) (handles : SessionHandles Path) :
    List (Submitted Path) → SessionHandles Path × List (Ran Path)
  | [] => (handles, [])
  | a :: rest =>
      let (handles, ran) := runSessionAppend leased handles a
      let (handles, rans) := runSessionAppends leased handles rest
      (handles, ran :: rans)

/-! ### Handles stay where they may be -/

/-- Every open handle is on a path that its run may be on. -/
def SessionHandles.Within (handles : SessionHandles Path) (may : Text → Path → Prop) : Prop :=
  ∀ runId writer, handles runId = some writer → may runId writer.path

namespace SessionHandles.Within

variable {handles : SessionHandles Path} {may : Text → Path → Prop}

theorem update (h : handles.Within may) {runId : Text} {writer : SessionWriter Path}
    (hw : may runId writer.path) :
    Within (Function.update handles runId (some writer)) may := by
  intro other writer' hother
  by_cases heq : other = runId
  · subst heq
    rw [Function.update_self] at hother
    cases hother
    exact hw
  · rw [Function.update_of_ne heq] at hother
    exact h other writer' hother

theorem remove (h : handles.Within may) (runId : Text) :
    Within (Function.update handles runId none) may := by
  intro other writer hother
  by_cases heq : other = runId
  · subst heq
    rw [Function.update_self] at hother
    cases hother
  · rw [Function.update_of_ne heq] at hother
    exact h other writer hother

theorem appendSessionInner (h : handles.Within may) {a : Submitted Path}
    (ha : may a.req.runId a.req.sessionPath) :
    Within (Orgasmic.appendSessionInner handles a).1 may ∧
      may a.req.runId (Orgasmic.appendSessionInner handles a).2.1 := by
  have hwrite : ∀ writer : SessionWriter Path, may a.req.runId writer.path →
      Within (appendSessionInner.write handles a writer).1 may ∧
        may a.req.runId (appendSessionInner.write handles a writer).2.1 := by
    intro writer hw
    unfold appendSessionInner.write
    split
    · exact ⟨h.update hw, hw⟩
    · exact ⟨h.update hw, hw⟩
  unfold Orgasmic.appendSessionInner
  cases hhandle : handles a.req.runId with
  | some writer => exact hwrite writer (h a.req.runId writer hhandle)
  | none =>
      cases a.fate.opens with
      | false => exact ⟨h, ha⟩
      | true => exact hwrite _ ha

theorem runSessionAppend (h : handles.Within may) {a : Submitted Path} (leased : Finset Path)
    (ha : may a.req.runId a.req.sessionPath) :
    Within (Orgasmic.runSessionAppend leased handles a).1 may ∧
      may a.req.runId (Orgasmic.runSessionAppend leased handles a).2.file := by
  obtain ⟨hwithin, hfile⟩ := h.appendSessionInner ha
  unfold Orgasmic.runSessionAppend
  refine ⟨?_, hfile⟩
  dsimp only
  split
  · exact hwithin.remove _
  · exact hwithin

/-- Every append of a release runs on a path its run may be on. -/
theorem runSessionAppends (h : handles.Within may) (leased : Finset Path)
    {appends : List (Submitted Path)}
    (ha : ∀ a ∈ appends, may a.req.runId a.req.sessionPath) :
    Within (Orgasmic.runSessionAppends leased handles appends).1 may ∧
      ∀ r ∈ (Orgasmic.runSessionAppends leased handles appends).2, may r.req.runId r.file := by
  induction appends generalizing handles with
  | nil =>
      refine ⟨h, ?_⟩
      intro r hr
      cases hr
  | cons a rest ih =>
      obtain ⟨hhead, hfile⟩ := h.runSessionAppend leased (ha a List.mem_cons_self)
      obtain ⟨htail, hrest⟩ := ih hhead fun b hb => ha b (List.mem_cons_of_mem a hb)
      refine ⟨htail, ?_⟩
      intro r hr
      rcases List.mem_cons.mp hr with rfl | hr
      · exact hfile
      · exact hrest r hr

end SessionHandles.Within

theorem runSessionAppends_req (leased : Finset Path) (handles : SessionHandles Path)
    (appends : List (Submitted Path)) :
    (runSessionAppends leased handles appends).2.map Ran.req = appends.map Submitted.req := by
  induction appends generalizing handles with
  | nil => rfl
  | cons a rest ih =>
      simp only [runSessionAppends, List.map_cons, ih]
      rfl

theorem runSessionAppends_held (leased : Finset Path) (handles : SessionHandles Path)
    (appends : List (Submitted Path)) :
    ∀ r ∈ (runSessionAppends leased handles appends).2, r.held = leased := by
  induction appends generalizing handles with
  | nil =>
      intro r hr
      cases hr
  | cons a rest ih =>
      intro r hr
      rcases List.mem_cons.mp hr with rfl | hr
      · rfl
      · exact ih _ r hr

/-! ### The loop -/

variable [DecidableEq Path]

inductive SessionCommand (Path : Type) where
  | session (a : Submitted Path)
  | leaseSessions (paths : List Path)
  | releaseSessions (paths : List Path)
deriving DecidableEq, Repr

/-- What `writer_loop` holds between two commands. -/
structure SessionLoop (Path : Type) where
  sessionHandles : SessionHandles Path
  leased : Finset Path
  deferred : List (Submitted Path)

/-- Dropping the handles of a path. -/
def SessionHandles.retain (handles : SessionHandles Path) (path : Path) : SessionHandles Path :=
  fun runId => (handles runId).filter fun writer => writer.path ≠ path

namespace SessionLoop

def start : SessionLoop Path := ⟨fun _ => none, ∅, []⟩

/-- The path that a lease is refused for. -/
def heldBy (l : SessionLoop Path) (paths : List Path) : Option Path := paths.find? (· ∈ l.leased)

/-- The loop of a granted lease over its paths. -/
def grant (l : SessionLoop Path) (paths : List Path) : SessionLoop Path :=
  paths.foldl
    (fun l path =>
      { l with
        sessionHandles := l.sessionHandles.retain path
        leased := insert path l.leased })
    l

/-- The paths leased after a release. -/
def leasedAfter (l : SessionLoop Path) (paths : List Path) : Finset Path :=
  l.leased.filter (· ∉ paths)

/-- The appends that a release runs, in arrival order. -/
def ready (l : SessionLoop Path) (paths : List Path) : List (Submitted Path) :=
  l.deferred.filter fun a => a.req.sessionPath ∉ l.leasedAfter paths

/-- The appends that wait on after a release. -/
def stillHeld (l : SessionLoop Path) (paths : List Path) : List (Submitted Path) :=
  l.deferred.filter fun a => a.req.sessionPath ∈ l.leasedAfter paths

/-- One command of the loop, and the appends it ran. -/
def step (l : SessionLoop Path) : SessionCommand Path → SessionLoop Path × List (Ran Path)
  | .session a =>
      if a.req.sessionPath ∈ l.leased then ({ l with deferred := l.deferred ++ [a] }, [])
      else
        let (handles, ran) := runSessionAppend l.leased l.sessionHandles a
        ({ l with sessionHandles := handles }, [ran])
  | .leaseSessions paths =>
      match l.heldBy paths with
      | some _ => (l, [])
      | none => (l.grant paths, [])
  | .releaseSessions paths =>
      let (handles, rans) := runSessionAppends (l.leasedAfter paths) l.sessionHandles (l.ready paths)
      (⟨handles, l.leasedAfter paths, l.stillHeld paths⟩, rans)

end SessionLoop

/-! ### What a run shows -/

/-- The loop with what it accepted, ran and granted so far. -/
structure Observed (Path : Type) where
  loop : SessionLoop Path
  ran : List (Ran Path)
  accepted : List (SessionAppend Path)
  /-- The paths that each granted lease still holds. -/
  granted : List (List Path)

namespace Observed

def start : Observed Path := ⟨.start, [], [], []⟩

def next (o : Observed Path) (command : SessionCommand Path) : Observed Path where
  loop := (o.loop.step command).1
  ran := o.ran ++ (o.loop.step command).2
  accepted :=
    match command with
    | .session a => o.accepted ++ [a.req]
    | _ => o.accepted
  granted :=
    match command with
    | .session _ => o.granted
    | .leaseSessions paths =>
        if o.loop.heldBy paths = none then o.granted ++ [paths] else o.granted
    | .releaseSessions paths => o.granted.map fun lease => lease.filter (· ∉ paths)

def run (o : Observed Path) (commands : List (SessionCommand Path)) : Observed Path :=
  commands.foldl next o

/-- The appends that ran on the file at a path, in order. -/
def ranOn (o : Observed Path) (path : Path) : List (SessionAppend Path) :=
  (o.ran.filter fun r => r.file = path).map Ran.req

/-- The appends for a path that still wait, in order. -/
def deferredOn (o : Observed Path) (path : Path) : List (SessionAppend Path) :=
  (o.loop.deferred.map Submitted.req).filter fun req => req.sessionPath = path

/-- The appends accepted for a path, in arrival order. -/
def acceptedOn (o : Observed Path) (path : Path) : List (SessionAppend Path) :=
  o.accepted.filter fun req => req.sessionPath = path

end Observed


/-! ### Exclusion in every run -/

namespace SessionLoop

theorem heldBy_eq_none {l : SessionLoop Path} {paths : List Path} :
    l.heldBy paths = none ↔ ∀ path ∈ paths, path ∉ l.leased := by
  simp [heldBy]

theorem grant_deferred (l : SessionLoop Path) (paths : List Path) :
    (l.grant paths).deferred = l.deferred := by
  unfold grant
  induction paths generalizing l with
  | nil => rfl
  | cons path rest ih => exact ih _

theorem mem_grant_leased (l : SessionLoop Path) (paths : List Path) (path : Path) :
    path ∈ (l.grant paths).leased ↔ path ∈ l.leased ∨ path ∈ paths := by
  unfold grant
  induction paths generalizing l with
  | nil => simp
  | cons first rest ih =>
      rw [List.foldl_cons, ih]
      simp only [Finset.mem_insert, List.mem_cons]
      tauto

/-- A granted lease leaves no handle on its paths, and no new one anywhere. -/
theorem grant_handles (l : SessionLoop Path) (paths : List Path) :
    (l.grant paths).sessionHandles.Within fun runId path =>
      path ∉ paths ∧ ∃ writer, l.sessionHandles runId = some writer ∧ writer.path = path := by
  unfold grant
  induction paths generalizing l with
  | nil =>
      intro runId writer hw
      exact ⟨List.not_mem_nil, writer, hw, rfl⟩
  | cons first rest ih =>
      intro runId writer hw
      obtain ⟨hrest, old, hold, hpath⟩ := ih _ runId writer hw
      obtain ⟨hold, hfirst⟩ := Option.filter_eq_some_iff.mp hold
      refine ⟨?_, old, hold, hpath⟩
      rw [List.mem_cons, not_or]
      exact ⟨by simpa [hpath] using hfirst, hrest⟩

theorem mem_leasedAfter {l : SessionLoop Path} {paths : List Path} {path : Path} :
    path ∈ l.leasedAfter paths ↔ path ∈ l.leased ∧ path ∉ paths := by
  simp [leasedAfter]

end SessionLoop

namespace Observed

/-- What holds between any two commands. -/
structure Excludes (o : Observed Path) : Prop where
  handles_free : o.loop.sessionHandles.Within fun _ path => path ∉ o.loop.leased
  deferred_held : ∀ a ∈ o.loop.deferred, a.req.sessionPath ∈ o.loop.leased
  leased_iff : ∀ path, path ∈ o.loop.leased ↔ ∃ lease ∈ o.granted, path ∈ lease
  granted_disjoint : o.granted.Pairwise List.Disjoint
  ran_free : ∀ r ∈ o.ran, r.file ∉ r.held

omit [DecidableEq Path] in
theorem start_excludes : (start : Observed Path).Excludes where
  handles_free := by
    intro runId writer h
    cases h
  deferred_held := by
    intro a ha
    cases ha
  leased_iff := by
    intro path
    simp [start, SessionLoop.start]
  granted_disjoint := List.Pairwise.nil
  ran_free := by
    intro r hr
    cases hr

variable {o : Observed Path}

theorem Excludes.session (h : o.Excludes) (a : Submitted Path) : (o.next (.session a)).Excludes := by
  by_cases hheld : a.req.sessionPath ∈ o.loop.leased
  · have hstep : o.loop.step (.session a) =
        ({ o.loop with deferred := o.loop.deferred ++ [a] }, []) := by
      simp only [SessionLoop.step, if_pos hheld]
    simp only [next, hstep, List.append_nil]
    refine ⟨h.handles_free, ?_, h.leased_iff, h.granted_disjoint, h.ran_free⟩
    intro b hb
    rcases List.mem_append.mp hb with hb | hb
    · exact h.deferred_held b hb
    · rw [List.mem_singleton.mp hb]
      exact hheld
  · have hstep : o.loop.step (.session a) =
        ({ o.loop with
            sessionHandles := (runSessionAppend o.loop.leased o.loop.sessionHandles a).1 },
          [(runSessionAppend o.loop.leased o.loop.sessionHandles a).2]) := by
      simp only [SessionLoop.step, if_neg hheld]
    obtain ⟨hwithin, hfile⟩ := h.handles_free.runSessionAppend o.loop.leased hheld
    simp only [next, hstep]
    refine ⟨hwithin, h.deferred_held, h.leased_iff, h.granted_disjoint, ?_⟩
    intro r hr
    rcases List.mem_append.mp hr with hr | hr
    · exact h.ran_free r hr
    · rw [List.mem_singleton.mp hr]
      exact hfile

theorem Excludes.leaseSessions (h : o.Excludes) (paths : List Path) :
    (o.next (.leaseSessions paths)).Excludes := by
  cases hheld : o.loop.heldBy paths with
  | some path =>
      have hstep : o.loop.step (.leaseSessions paths) = (o.loop, []) := by
        simp only [SessionLoop.step, hheld]
      simp only [next, hstep, hheld, List.append_nil]
      exact h
  | none =>
      have hstep : o.loop.step (.leaseSessions paths) = (o.loop.grant paths, []) := by
        simp only [SessionLoop.step, hheld]
      have hfree := SessionLoop.heldBy_eq_none.mp hheld
      simp only [next, hstep, hheld, List.append_nil, if_true]
      refine ⟨?_, ?_, ?_, ?_, h.ran_free⟩
      · intro runId writer hw
        obtain ⟨hnew, old, hold, hpath⟩ := o.loop.grant_handles paths runId writer hw
        rw [SessionLoop.mem_grant_leased, not_or]
        refine ⟨?_, hnew⟩
        rw [← hpath]
        exact h.handles_free runId old hold
      · intro a ha
        rw [SessionLoop.grant_deferred] at ha
        exact (SessionLoop.mem_grant_leased _ _ _).mpr (Or.inl (h.deferred_held a ha))
      · intro path
        rw [SessionLoop.mem_grant_leased, h.leased_iff]
        simp only [List.mem_append, List.mem_singleton, or_and_right, exists_or, exists_eq_left]
      · rw [List.pairwise_append]
        refine ⟨h.granted_disjoint, List.pairwise_singleton _ _, ?_⟩
        intro lease hlease new hnew path hpath hpath'
        rw [List.mem_singleton.mp hnew] at hpath'
        exact hfree path hpath' ((h.leased_iff path).mpr ⟨lease, hlease, hpath⟩)

theorem Excludes.releaseSessions (h : o.Excludes) (paths : List Path) :
    (o.next (.releaseSessions paths)).Excludes := by
  have hwithin : o.loop.sessionHandles.Within fun _ path => path ∉ o.loop.leasedAfter paths := by
    intro runId writer hw hleased
    exact h.handles_free runId writer hw (SessionLoop.mem_leasedAfter.mp hleased).1
  have hready : ∀ a ∈ o.loop.ready paths, a.req.sessionPath ∉ o.loop.leasedAfter paths := by
    intro a ha
    simpa using (List.mem_filter.mp ha).2
  obtain ⟨hhandles, hfiles⟩ := hwithin.runSessionAppends (o.loop.leasedAfter paths) hready
  simp only [next, SessionLoop.step]
  refine ⟨hhandles, ?_, ?_, ?_, ?_⟩
  · intro a ha
    simpa using (List.mem_filter.mp ha).2
  · intro path
    rw [SessionLoop.mem_leasedAfter, h.leased_iff]
    simp only [List.mem_map, exists_exists_and_eq_and, List.mem_filter, decide_eq_true_eq]
    constructor
    · rintro ⟨⟨lease, hlease, hpath⟩, hnot⟩
      exact ⟨lease, hlease, hpath, hnot⟩
    · rintro ⟨lease, hlease, hpath, hnot⟩
      exact ⟨⟨lease, hlease, hpath⟩, hnot⟩
  · rw [List.pairwise_map]
    refine h.granted_disjoint.imp ?_
    intro lease other hdisjoint path hpath hpath'
    exact hdisjoint (List.mem_filter.mp hpath).1 (List.mem_filter.mp hpath').1
  · intro r hr
    rcases List.mem_append.mp hr with hr | hr
    · exact h.ran_free r hr
    · rw [runSessionAppends_held _ _ _ r hr]
      exact hfiles r hr

theorem Excludes.next (h : o.Excludes) (command : SessionCommand Path) :
    (o.next command).Excludes := by
  cases command with
  | session a => exact h.session a
  | leaseSessions paths => exact h.leaseSessions paths
  | releaseSessions paths => exact h.releaseSessions paths

end Observed

/-! ### Order, while a run stays on one path -/

/-- The appends meet no handle of their run on another path, and none of them opens one. -/
def OnePath (handles : SessionHandles Path) (appends : List (SessionAppend Path)) : Prop :=
  (∀ req ∈ appends, ∀ writer ∈ handles req.runId, writer.path = req.sessionPath) ∧
    ∀ req ∈ appends, ∀ other ∈ appends, req.runId = other.runId →
      req.sessionPath = other.sessionPath

instance (handles : SessionHandles Path) (appends : List (SessionAppend Path)) :
    Decidable (OnePath handles appends) := by
  unfold OnePath
  infer_instance

omit [DecidableEq Path] in
theorem OnePath.runSessionAppends_file {handles : SessionHandles Path}
    {appends : List (Submitted Path)} (h : OnePath handles (appends.map Submitted.req))
    (leased : Finset Path) :
    ∀ r ∈ (runSessionAppends leased handles appends).2, r.file = r.req.sessionPath := by
  obtain ⟨hopen, hsame⟩ := h
  let may : Text → Path → Prop := fun runId path =>
    ∀ req ∈ appends.map Submitted.req, req.runId = runId → req.sessionPath = path
  have hwithin : handles.Within may := by
    intro runId writer hw req hreq hrun
    subst hrun
    exact (hopen req hreq writer hw).symm
  have hmay : ∀ a ∈ appends, may a.req.runId a.req.sessionPath := by
    intro a ha req hreq hrun
    exact hsame req hreq a.req (List.mem_map_of_mem ha) hrun
  intro r hr
  have hmem : r.req ∈ appends.map Submitted.req := by
    rw [← runSessionAppends_req leased handles appends]
    exact List.mem_map_of_mem hr
  exact ((hwithin.runSessionAppends leased hmay).2 r hr r.req hmem rfl).symm

namespace SessionLoop

/-- The appends that a command runs. -/
def runs (l : SessionLoop Path) : SessionCommand Path → List (Submitted Path)
  | .session a => if a.req.sessionPath ∈ l.leased then [] else [a]
  | .leaseSessions _ => []
  | .releaseSessions paths => l.ready paths

/-- A release splits the appends for a path without reordering them. -/
theorem ready_append_stillHeld (l : SessionLoop Path) (paths : List Path) (path : Path) :
    (l.ready paths).filter (fun a => a.req.sessionPath = path) ++
        (l.stillHeld paths).filter (fun a => a.req.sessionPath = path) =
      l.deferred.filter fun a => a.req.sessionPath = path := by
  have hnone : ∀ p : Submitted Path → Bool, (∀ a, a.req.sessionPath = path → p a = false) →
      (l.deferred.filter p).filter (fun a => a.req.sessionPath = path) = [] := by
    intro p hp
    rw [List.filter_eq_nil_iff]
    intro a ha hpath
    have htrue := (List.mem_filter.mp ha).2
    rw [hp a (of_decide_eq_true hpath)] at htrue
    cases htrue
  have hall : ∀ p : Submitted Path → Bool, (∀ a, a.req.sessionPath = path → p a = true) →
      (l.deferred.filter p).filter (fun a => a.req.sessionPath = path) =
        l.deferred.filter fun a => a.req.sessionPath = path := by
    intro p hp
    rw [List.filter_filter]
    refine List.filter_congr fun a _ => ?_
    by_cases hpath : a.req.sessionPath = path
    · simp [hpath, hp a hpath]
    · simp [hpath]
  unfold ready stillHeld
  by_cases hpath : path ∈ l.leasedAfter paths
  · rw [hnone, hall, List.nil_append]
    · rintro a rfl
      exact decide_eq_true hpath
    · rintro a rfl
      exact decide_eq_false (not_not.mpr hpath)
  · rw [hall, hnone, List.append_nil]
    · rintro a rfl
      exact decide_eq_false hpath
    · rintro a rfl
      exact decide_eq_true hpath

/-- The appends of the command go to their own paths. -/
def Fits (l : SessionLoop Path) (command : SessionCommand Path) : Prop :=
  OnePath l.sessionHandles ((l.runs command).map Submitted.req)

instance (l : SessionLoop Path) (command : SessionCommand Path) : Decidable (l.Fits command) := by
  unfold Fits
  infer_instance

/-- Every command of the run fits when its turn comes. -/
def AllFit (l : SessionLoop Path) : List (SessionCommand Path) → Prop
  | [] => True
  | command :: rest => l.Fits command ∧ (l.step command).1.AllFit rest

theorem step_ran (l : SessionLoop Path) (command : SessionCommand Path) :
    (l.step command).2.map Ran.req = (l.runs command).map Submitted.req := by
  cases command with
  | session a =>
      simp only [step, runs]
      split
      · rfl
      · rfl
  | leaseSessions paths =>
      simp only [step, runs]
      split
      · rfl
      · rfl
  | releaseSessions paths => exact runSessionAppends_req _ _ _

theorem Fits.file {l : SessionLoop Path} {command : SessionCommand Path} (h : l.Fits command) :
    ∀ r ∈ (l.step command).2, r.file = r.req.sessionPath := by
  cases command with
  | session a =>
      simp only [Fits, runs] at h
      simp only [step]
      by_cases hheld : a.req.sessionPath ∈ l.leased
      · simp only [if_pos hheld]
        intro r hr
        cases hr
      · simp only [if_neg hheld] at h ⊢
        exact h.runSessionAppends_file l.leased
  | leaseSessions paths =>
      simp only [step]
      split
      · intro r hr
        cases hr
      · intro r hr
        cases hr
  | releaseSessions paths => exact OnePath.runSessionAppends_file h _

end SessionLoop

namespace Observed

variable {o : Observed Path}

/-- The appends that ran on a path and those that wait for it are the accepted ones, in order. -/
def InOrder (o : Observed Path) : Prop :=
  ∀ path, o.ranOn path ++ o.deferredOn path = o.acceptedOn path

/-- What a command that fits runs on a path. -/
theorem ranOn_next {command : SessionCommand Path} (h : o.loop.Fits command) (path : Path) :
    (o.next command).ranOn path = o.ranOn path ++
      ((o.loop.runs command).map Submitted.req).filter fun req => req.sessionPath = path := by
  have hfilter : (o.loop.step command).2.filter (fun r => r.file = path) =
      (o.loop.step command).2.filter fun r => r.req.sessionPath = path :=
    List.filter_congr fun r hr => by rw [h.file r hr]
  simp only [ranOn, next, List.filter_append, List.map_append]
  rw [hfilter, ← SessionLoop.step_ran, List.filter_map]
  rfl

theorem Excludes.deferredOn_eq_nil (h : o.Excludes) {path : Path} (hpath : path ∉ o.loop.leased) :
    o.deferredOn path = [] := by
  unfold deferredOn
  rw [List.filter_eq_nil_iff]
  intro req hreq
  obtain ⟨a, ha, rfl⟩ := List.mem_map.mp hreq
  have hheld := h.deferred_held a ha
  simp only [decide_eq_true_eq]
  rintro rfl
  exact hpath hheld

theorem InOrder.session (hex : o.Excludes) (h : o.InOrder) {a : Submitted Path}
    (hfits : o.loop.Fits (.session a)) : (o.next (.session a)).InOrder := by
  intro path
  rw [ranOn_next hfits]
  have haccepted : (o.next (.session a)).acceptedOn path =
      o.acceptedOn path ++ [a.req].filter fun req => req.sessionPath = path := by
    simp only [acceptedOn, next, List.filter_append]
  rw [haccepted, ← h path]
  by_cases hheld : a.req.sessionPath ∈ o.loop.leased
  · simp only [SessionLoop.runs, if_pos hheld, List.map_nil, List.filter_nil, List.append_nil]
    simp only [deferredOn, next, SessionLoop.step, if_pos hheld, List.map_append,
      List.filter_append, List.append_assoc]
    rfl
  · have hdeferred : (o.next (.session a)).deferredOn path = o.deferredOn path := by
      simp only [deferredOn, next, SessionLoop.step, if_neg hheld]
    rw [hdeferred]
    simp only [SessionLoop.runs, if_neg hheld, List.map_cons, List.map_nil]
    by_cases hpath : a.req.sessionPath = path
    · have hnone : o.deferredOn path = [] := hex.deferredOn_eq_nil (hpath ▸ hheld)
      rw [hnone, List.append_nil, List.append_nil]
    · have hother : [a.req].filter (fun req => req.sessionPath = path) = [] := by
        simpa using hpath
      rw [hother, List.append_nil, List.append_nil]

theorem InOrder.leaseSessions (h : o.InOrder) {paths : List Path}
    (hfits : o.loop.Fits (.leaseSessions paths)) : (o.next (.leaseSessions paths)).InOrder := by
  intro path
  rw [ranOn_next hfits]
  simp only [SessionLoop.runs, List.map_nil, List.filter_nil, List.append_nil]
  have hdeferred : (o.loop.step (.leaseSessions paths)).1.deferred = o.loop.deferred := by
    simp only [SessionLoop.step]
    split
    · rfl
    · exact SessionLoop.grant_deferred _ _
  have hdeferredOn : (o.next (.leaseSessions paths)).deferredOn path = o.deferredOn path := by
    simp only [deferredOn, next, hdeferred]
  rw [hdeferredOn]
  exact h path

theorem InOrder.releaseSessions (h : o.InOrder) {paths : List Path}
    (hfits : o.loop.Fits (.releaseSessions paths)) :
    (o.next (.releaseSessions paths)).InOrder := by
  intro path
  rw [ranOn_next hfits]
  have hsplit := o.loop.ready_append_stillHeld paths path
  have haccepted := h path
  simp only [deferredOn, List.filter_map] at haccepted
  simp only [SessionLoop.runs, deferredOn, next, SessionLoop.step, List.filter_map,
    List.append_assoc, ← List.map_append]
  rw [Function.comp_def, hsplit]
  exact haccepted

theorem InOrder.next (hex : o.Excludes) (h : o.InOrder) {command : SessionCommand Path}
    (hfits : o.loop.Fits command) : (o.next command).InOrder := by
  cases command with
  | session a => exact InOrder.session hex h hfits
  | leaseSessions paths => exact h.leaseSessions hfits
  | releaseSessions paths => exact h.releaseSessions hfits

theorem Excludes.run (h : o.Excludes) (commands : List (SessionCommand Path)) :
    (o.run commands).Excludes := by
  induction commands generalizing o with
  | nil => exact h
  | cons command rest ih => exact ih (h.next command)

theorem InOrder.run (hex : o.Excludes) (h : o.InOrder) {commands : List (SessionCommand Path)}
    (hfits : o.loop.AllFit commands) : (o.run commands).InOrder := by
  induction commands generalizing o with
  | nil => exact h
  | cons command rest ih => exact ih (hex.next command) (h.next hex hfits.1) hfits.2

/-- Leases exclude, and on every path exactly the accepted appends run, in order and behind no
later command. -/
def Upheld (o : Observed Path) : Prop :=
  (∀ r ∈ o.ran, r.file ∉ r.held) ∧
    (∀ runId writer, o.loop.sessionHandles runId = some writer → writer.path ∉ o.loop.leased) ∧
    o.granted.Pairwise List.Disjoint ∧
    (∀ path, path ∈ o.loop.leased ↔ ∃ lease ∈ o.granted, path ∈ lease) ∧
    ∀ path, o.ranOn path ++ o.deferredOn path = o.acceptedOn path ∧
      (path ∉ o.loop.leased → o.deferredOn path = [])

/-- Every state of a run whose commands all fit upholds the leases and the order. -/
theorem run_upheld (commands : List (SessionCommand Path))
    (hfits : (SessionLoop.start : SessionLoop Path).AllFit commands) :
    (start.run commands : Observed Path).Upheld := by
  have hstart : (start : Observed Path).InOrder := fun _ => rfl
  have hex : (start.run commands : Observed Path).Excludes := start_excludes.run commands
  have horder : (start.run commands : Observed Path).InOrder :=
    hstart.run start_excludes hfits
  refine ⟨hex.ran_free, hex.handles_free, hex.granted_disjoint, hex.leased_iff, ?_⟩
  intro path
  exact ⟨horder path, hex.deferredOn_eq_nil⟩

end Observed

/-- A note of a run that opens and persists. -/
def sampleAppend (runId : Text) (path : ℕ) : Submitted ℕ :=
  ⟨⟨runId, path, .note, none⟩, ⟨true, true⟩⟩

/-- A lease that an append waits behind. -/
theorem Observed.run_upheld_sample :
    (start.run [.session (sampleAppend "a".toList 1), .leaseSessions [1, 2],
      .session (sampleAppend "a".toList 1), .session (sampleAppend "b".toList 3),
      .releaseSessions [1, 2]] : Observed ℕ).Upheld :=
  run_upheld _ (by simp only [SessionLoop.AllFit]; decide)

/-- Two paths under one run: the second append goes to the file of the first. -/
theorem Observed.run_upheld_fails :
    ¬ (start.run [.session (sampleAppend "a".toList 1), .session (sampleAppend "a".toList 2)] :
      Observed ℕ).Upheld := by
  rintro ⟨-, -, -, -, horder⟩
  exact absurd (horder 2).1 (by decide)

end Orgasmic
