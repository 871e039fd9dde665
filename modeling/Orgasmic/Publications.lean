import Orgasmic.Interleaving
import Orgasmic.LedgerHandles

/-! # Writes and the projection

A write that is on disk applies its paths to the projection of the index.  When an apply fails, the
failure is kept for the owner of the write and the paths are queued for `repair_projection`.

* **Calls.** `publish_paths` of a write and `repair_projection` both go through a list of paths, one
  apply after the other, and stop at the first that fails.
* **Locks.** The failures and the queue are two collections; each line of the state machine below
  that touches one of them is one turn of its lock.
* **Time.** Every commit has a serial number; `covered` is the last commit of a path that a
  successful apply has started after. -/

namespace Orgasmic

open Text Interleaving

inductive CallKind
  /-- `publish_paths` of a write, from its commit on. -/
  | publish (owner : Option Text) (paths : List FilePath) (serial : ℕ)
  | repair
deriving DecidableEq, Repr

inductive CallPhase
  /-- The paths still to apply. -/
  | pending (rest : List FilePath)
  /-- `apply_written_path` has started after the commits so far. -/
  | applying (path : FilePath) (rest : List FilePath) (since : ℕ)
  | failed (error : Text) (paths : List FilePath)
  /-- The failure is recorded, the paths are not queued yet. -/
  | recorded (paths : List FilePath)
  | returned
  /-- The answer of the owner's first `take_apply_failure`. -/
  | taken (failure : Option Text)
deriving DecidableEq, Repr

structure PublishCall where
  kind : CallKind
  phase : CallPhase
deriving DecidableEq, Repr

structure PublishState where
  /-- The number of commits. -/
  clock : ℕ
  covered : FilePath → ℕ
  failures : Text → Option Text
  unapplied : List FilePath
  calls : List PublishCall

inductive PublishAction
  | commit (owner : Option Text) (paths : List FilePath)
  /-- A repair takes the queue. -/
  | repair
  | beginApply (i : ℕ)
  | endApply (i : ℕ) (error : Option Text)
  | record (i : ℕ)
  | queue (i : ℕ)
  | finish (i : ℕ)
  | take (i : ℕ)

namespace PublishCall

/-- The owner of a write. -/
def owner (call : PublishCall) : Option Text :=
  match call.kind with
  | .publish owner _ _ => owner
  | .repair => none

/-- The paths of a write, and its commit. -/
def write? (call : PublishCall) : Option (List FilePath × ℕ) :=
  match call.kind with
  | .publish _ paths serial => some (paths, serial)
  | .repair => none

end PublishCall

namespace PublishState

def setPhase (s : PublishState) (i : ℕ) (call : PublishCall) (phase : CallPhase) : PublishState :=
  { s with calls := s.calls.set i { call with phase := phase } }

/-- The owner of a write has no other write. -/
def freshOwner (s : PublishState) (owner : Option Text) : Bool :=
  owner.isNone || s.calls.all fun call => call.owner ≠ owner

def step (s : PublishState) : PublishAction → Option PublishState
  | .commit owner paths =>
      if s.freshOwner owner then
        some { s with
          clock := s.clock + 1
          calls := s.calls ++ [⟨.publish owner paths (s.clock + 1), .pending paths⟩] }
      else none
  | .repair =>
      some { s with
        unapplied := []
        calls := s.calls ++ [⟨.repair, .pending s.unapplied⟩] }
  | .beginApply i =>
      match s.calls[i]? with
      | some ⟨kind, .pending (path :: rest)⟩ =>
          some (s.setPhase i ⟨kind, .pending (path :: rest)⟩ (.applying path rest s.clock))
      | _ => none
  | .endApply i error =>
      match s.calls[i]? with
      | some ⟨kind, .applying path rest since⟩ =>
          match error with
          | some error =>
              some (s.setPhase i ⟨kind, .applying path rest since⟩ (.failed error (path :: rest)))
          | none =>
              some { s.setPhase i ⟨kind, .applying path rest since⟩ (.pending rest) with
                covered := Function.update s.covered path (max (s.covered path) since) }
      | _ => none
  | .record i =>
      match s.calls[i]? with
      | some ⟨.publish owner paths serial, .failed error rest⟩ =>
          let s' := s.setPhase i ⟨.publish owner paths serial, .failed error rest⟩ (.recorded rest)
          match owner with
          | some owner =>
              some { s' with failures := Function.update s.failures owner (some error) }
          | none => some s'
      | _ => none
  | .queue i =>
      match s.calls[i]? with
      | some ⟨.publish owner paths serial, .recorded rest⟩ =>
          some { s.setPhase i ⟨.publish owner paths serial, .recorded rest⟩ .returned with
            unapplied := s.unapplied ++ rest }
      | some ⟨.repair, .failed error rest⟩ =>
          some { s.setPhase i ⟨.repair, .failed error rest⟩ .returned with
            unapplied := rest ++ s.unapplied }
      | _ => none
  | .finish i =>
      match s.calls[i]? with
      | some ⟨.publish owner paths serial, .pending []⟩ =>
          some (s.setPhase i ⟨.publish owner paths serial, .pending []⟩ .returned)
      | some ⟨.repair, .pending []⟩ =>
          some { s.setPhase i ⟨.repair, .pending []⟩ .returned with failures := fun _ => none }
      | _ => none
  | .take i =>
      match s.calls[i]? with
      | some ⟨.publish (some owner) paths serial, .returned⟩ =>
          some { s.setPhase i ⟨.publish (some owner) paths serial, .returned⟩
              (.taken (s.failures owner)) with
            failures := Function.update s.failures owner none }
      | some ⟨.publish (some owner) _ _, .taken _⟩ =>
          some { s with failures := Function.update s.failures owner none }
      | _ => none

/-- No write so far. -/
def start : PublishState := ⟨0, fun _ => 0, fun _ => none, [], []⟩

end PublishState

end Orgasmic
