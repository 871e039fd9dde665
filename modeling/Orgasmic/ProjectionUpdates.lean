import Orgasmic.Interleaving
import Orgasmic.LedgerHandles

/-! # Updates of the projection

`apply_written_path` reads the files of one unit of the ledger and takes the lock of the index
afterwards; a refresh scans the whole ledger and takes the lock afterwards.

* **Units.** A tx file is its own unit (`reload_tx_file`), the files of a node's directory are one
  (`reload_node_dir`).
* **Contents.** `projected` is `file_contents` of the snapshot.  A scan keeps the contents of
  `links.org` only if it accepts them, which is a parameter.
* **Scans.** Every file is read at some moment between the start of the scan and its end: a scan
  starts with what there is, and reads any file again at any moment.
* **Time.** Every step has a number, its moment.  For each file, `writtenAt` is the moment of its
  last write and `projectedAt` that of the latest read that the projection has taken over.  The
  ledger of the start was written at the moment 1; moment 0 stands for never. -/

namespace Orgasmic

open Text Interleaving

inductive NodeFile
  | node
  | journal
  | links
deriving DecidableEq, Repr

/-- A file of the ledger of one project. -/
inductive ProjectFile
  | tx (path : FilePath)
  | node (collection nodeId : Text) (file : NodeFile)
deriving DecidableEq, Repr

namespace ProjectFile

/-- The files that an apply of this one reads, in their order. -/
def applyUnit : ProjectFile → List ProjectFile
  | tx path => [tx path]
  | node collection nodeId _ =>
      [node collection nodeId .node, node collection nodeId .journal, node collection nodeId .links]

def isTx : ProjectFile → Bool
  | tx _ => true
  | node _ _ _ => false

def isLinks : ProjectFile → Bool
  | node _ _ .links => true
  | _ => false

end ProjectFile

/-- What was read of a file, and when. -/
structure FileRead where
  contents : Option Text
  since : ℕ
deriving DecidableEq, Repr

inductive UpdatePhase
  /-- `apply_written_path` reads its files. -/
  | reading (rest : List ProjectFile) (got : List (ProjectFile × FileRead))
  /-- The project is not loaded, and the apply waits for a refresh that it has requested. -/
  | awaiting (since : ℕ)
  /-- A refresh scans the ledger. -/
  | scanning (begun : ℕ) (scan : ProjectFile → FileRead)
  | finished
  | failed

structure Update where
  /-- The written file, of an apply. -/
  file : Option ProjectFile
  phase : UpdatePhase

structure ProjectionState where
  disk : ProjectFile → Option Text
  projected : ProjectFile → Option Text
  /-- The project is loaded. -/
  loaded : Bool
  updates : List Update
  clock : ℕ
  writtenAt : ProjectFile → ℕ
  projectedAt : ProjectFile → ℕ
  /-- The latest start of a published scan. -/
  publishedSince : ℕ

inductive ProjectionAction
  /-- A write of a file, whose apply starts after it; no contents: the file is removed. -/
  | write (file : ProjectFile) (contents : Option Text)
  /-- An apply for an event of the watcher. -/
  | apply (file : ProjectFile)
  /-- A refresh of the whole project. -/
  | refresh
  | read (i : ℕ)
  | rescan (i : ℕ) (file : ProjectFile)
  | install (i : ℕ)
  /-- The apply is told of the publication that it waits for. -/
  | acknowledge (i : ℕ)
  | publish (i : ℕ)
  /-- A read, a scan or a publication fails. -/
  | fail (i : ℕ)

namespace ProjectionState

variable (accepted : Text → Text → Bool) (s : ProjectionState)

/-- The contents of a file that a scan keeps. -/
def scanned : ProjectFile → Option Text → Option Text
  | .node _ nodeId .links, contents => contents.filter (accepted nodeId)
  | _, contents => contents

/-- The project with its ledger on disk, loaded or not. -/
def start (disk : ProjectFile → Option Text) (loaded : Bool) : ProjectionState where
  disk := disk
  projected file := if loaded then scanned accepted file (disk file) else none
  loaded := loaded
  updates := []
  clock := 2
  writtenAt _ := 1
  projectedAt _ := if loaded then 1 else 0
  publishedSince := 0

def setPhase (i : ℕ) (update : Update) (phase : UpdatePhase) : ProjectionState :=
  { s with updates := s.updates.set i { update with phase := phase } }

/-- The projection takes over what was read, where it is read. -/
def takeOver (reads : ProjectFile → Option FileRead) : ProjectionState :=
  { s with
    projected := fun file => ((reads file).map FileRead.contents).getD (s.projected file)
    projectedAt := fun file =>
      max (((reads file).map FileRead.since).getD 0) (s.projectedAt file) }

/-- No file that was read has other contents than its projection. -/
def unchanged (got : List (ProjectFile × FileRead)) : Bool :=
  got.all fun entry => entry.2.contents = s.projected entry.1

def turn : ProjectionAction → Option ProjectionState
  | .write file contents =>
      some { s with
        disk := Function.update s.disk file contents
        writtenAt := Function.update s.writtenAt file s.clock
        updates := s.updates ++ [⟨some file, .reading file.applyUnit []⟩] }
  | .apply file =>
      some { s with updates := s.updates ++ [⟨some file, .reading file.applyUnit []⟩] }
  | .refresh =>
      some { s with
        updates := s.updates ++ [⟨none, .scanning s.clock fun file =>
          ⟨scanned accepted file (s.disk file), s.clock⟩⟩] }
  | .read i =>
      match s.updates[i]? with
      | some ⟨file, .reading (next :: rest) got⟩ =>
          some (s.setPhase i ⟨file, .reading (next :: rest) got⟩
            (.reading rest (got ++ [(next, ⟨s.disk next, s.clock⟩)])))
      | _ => none
  | .rescan i file =>
      match s.updates[i]? with
      | some ⟨target, .scanning begun scan⟩ =>
          some (s.setPhase i ⟨target, .scanning begun scan⟩ (.scanning begun
            (Function.update scan file ⟨scanned accepted file (s.disk file), s.clock⟩)))
      | _ => none
  | .install i =>
      match s.updates[i]? with
      | some ⟨some file, .reading [] got⟩ =>
          if s.unchanged got || file.isTx || s.loaded then
            some ((s.takeOver fun file => got.lookup file).setPhase i ⟨some file, .reading [] got⟩ .finished)
          else some (s.setPhase i ⟨some file, .reading [] got⟩ (.awaiting s.clock))
      | _ => none
  | .acknowledge i =>
      match s.updates[i]? with
      | some ⟨file, .awaiting since⟩ =>
          if since ≤ s.publishedSince then
            some (s.setPhase i ⟨file, .awaiting since⟩ .finished)
          else none
      | _ => none
  | .publish i =>
      match s.updates[i]? with
      | some ⟨target, .scanning begun scan⟩ =>
          some { (s.takeOver fun file => some (scan file)).setPhase i
              ⟨target, .scanning begun scan⟩ .finished with
            loaded := true
            publishedSince := max s.publishedSince begun }
      | _ => none
  | .fail i =>
      match s.updates[i]? with
      | some update => some (s.setPhase i update .failed)
      | none => none

def step (a : ProjectionAction) : Option ProjectionState :=
  (s.turn accepted a).map fun s' => { s' with clock := s.clock + 1 }

end ProjectionState

end Orgasmic
