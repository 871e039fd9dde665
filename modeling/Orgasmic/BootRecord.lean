import Mathlib.Data.List.Infix
import Mathlib.Logic.Denumerable
import Mathlib.Logic.Equiv.List
import Mathlib.Logic.Function.Basic
import Orgasmic.Interleaving
import Orgasmic.LedgerHandles

/-! # The boot record

While a daemon boots it publishes its phase in a file, so that others can tell a slow boot from a
dead one, and it takes the file away when it is ready.

* **Publishers.**  The refresh task sleeps, tests the stop flag and publishes; `set_phase` publishes
  at once.  A publication takes the publication lock, allocates its sequence number, writes its own
  staging file and renames it over the record.
* **The owner** works through the operations of its calls one by one (`BootCall.ops`): it stores the
  flag, aborts or spawns the task, and clears the record under the lock.  Dropping the value does
  this too, so `retire` does it twice.  The value is borrowed: no call begins before the others are
  over, but several `set_phase` may run at once.
* **Aborting** a task has an effect only where it sleeps. -/

namespace Orgasmic

open Text

structure DaemonBootState where
  pid : ℕ
  phase : Text
  startedAt : ℤ
  seq : ℕ
  refreshedAt : ℤ
deriving DecidableEq, Repr

structure PhaseTiming where
  phase : Text
  millis : ℕ
deriving DecidableEq, Repr

/-- Where a publisher stands. -/
inductive PublisherPc
  | asleep
  /-- before the test of the flag -/
  | awake
  /-- before the publication lock -/
  | atLock
  | holding
  /-- the sequence number is allocated, and so much of the staging file is written -/
  | staging (state : DaemonBootState) (written : ℕ)
  /-- before the lock is given back -/
  | closing
  | ended
deriving DecidableEq

structure Publisher where
  /-- The phase that a `set_phase` names; the refresh task names none. -/
  phase : Option Text
  pc : PublisherPc
  aborted : Bool := false
deriving DecidableEq

inductive OwnerOp
  | store (stop : Bool)
  | abort
  | spawn
  | lock
  | clear
  | finish
deriving DecidableEq

inductive BootCall
  | startRefreshLoop
  | stopRefreshLoop
  | retire
  | drop
deriving DecidableEq

namespace BootCall

def stopOps : List OwnerOp := [.store true, .abort]

/-- `SharedBootProgress::retire`. -/
def retireOps : List OwnerOp := [.lock, .clear]

def dropOps : List OwnerOp := stopOps ++ retireOps ++ [.finish]

/-- The operations of a call, in order; a retired value is dropped. -/
def ops : BootCall → List OwnerOp
  | startRefreshLoop => stopOps ++ [.store false, .spawn]
  | stopRefreshLoop => stopOps
  | retire => stopOps ++ retireOps ++ dropOps
  | drop => dropOps

end BootCall

inductive LockHolder
  | publisher (i : ℕ)
  | owner
deriving DecidableEq

structure BootWorld where
  pid : ℕ
  startedAt : ℤ
  /-- The file at the path of the record. -/
  record : Option Bytes
  /-- The staging files, by sequence number. -/
  staged : ℕ → Option Bytes := fun _ => none
  seq : ℕ
  phase : Text
  timings : List PhaseTiming := []
  stop : Bool := false
  lock : Option LockHolder := none
  publishers : List Publisher := []
  handle : Option ℕ := none
  /-- What is left of the owner's call. -/
  todo : List OwnerOp := []
  returned : Bool := false

inductive PublisherEvent
  | wake
  | cancel
  | test
  | lock (millis : ℕ)
  | allocate (now : ℤ)
  | write (count : ℕ)
  | rename
  /-- The staging file cannot be created, written, synced or renamed. -/
  | fail
  | unlock

inductive BootAction
  | publisher (i : ℕ) (event : PublisherEvent)
  | setPhase (phase : Text)
  | call (c : BootCall)
  /-- One operation of the owner; `fileOk` says whether a record can be read and removed. -/
  | owner (fileOk : Bool)

namespace BootWorld

def setPc (w : BootWorld) (i : ℕ) (p : Publisher) (pc : PublisherPc) : BootWorld :=
  { w with publishers := w.publishers.set i { p with pc } }

/-- `set_phase` closes the open phase and names its successor; a refresh leaves it. -/
def enterPhase (w : BootWorld) (phase : Option Text) (millis : ℕ) : BootWorld :=
  match phase with
  | none => w
  | some phase => { w with timings := w.timings ++ [⟨w.phase, millis⟩], phase }

/-- `handle.abort()`. -/
def abortHandle (w : BootWorld) : BootWorld :=
  match w.handle with
  | none => w
  | some i =>
      { w with
        publishers := w.publishers.modify i fun p => { p with aborted := true }
        handle := none }

section

-- `serde_json::to_vec_pretty`, and reading a file's text back
variable (payload : DaemonBootState → Bytes) (parse : Bytes → Option DaemonBootState)

/-- `read_boot_state_at`. -/
def readBootState (w : BootWorld) : Option DaemonBootState := w.record.bind parse

/-- The record names this process. -/
def NamesOwner (w : BootWorld) : Prop := ∃ state, w.readBootState parse = some state ∧ state.pid = w.pid

instance (w : BootWorld) : Decidable (w.NamesOwner parse) :=
  decidable_of_iff ((w.readBootState parse).any (·.pid = w.pid) = true) (by
    rw [NamesOwner]
    cases w.readBootState parse <;> simp)

/-- `clear_boot_state_if_owner_at`. -/
def clearIfOwner (w : BootWorld) (fileOk : Bool) : BootWorld :=
  if fileOk ∧ w.NamesOwner parse then { w with record := none } else w

def publisherStep (w : BootWorld) (i : ℕ) (p : Publisher) : PublisherEvent → Option BootWorld
  | .wake => if p.pc = .asleep ∧ p.aborted = false then some (w.setPc i p .awake) else none
  | .cancel => if p.pc = .asleep ∧ p.aborted then some (w.setPc i p .ended) else none
  | .test =>
      if p.pc = .awake then some (w.setPc i p (if w.stop then .ended else .atLock)) else none
  | .lock millis =>
      if p.pc = .atLock ∧ w.lock = none then
        some { (w.enterPhase p.phase millis).setPc i p .holding with lock := some (.publisher i) }
      else none
  | .allocate now =>
      if p.pc = .holding then
        let state : DaemonBootState := ⟨w.pid, w.phase, w.startedAt, w.seq + 1, now⟩
        some { w.setPc i p (.staging state 0) with
          seq := w.seq + 1
          staged := Function.update w.staged state.seq (some []) }
      else none
  | .write count =>
      match p.pc with
      | .staging state written =>
          some { w.setPc i p (.staging state (written + count)) with
            staged := Function.update w.staged state.seq
              (some ((payload state).take (written + count))) }
      | _ => none
  | .rename =>
      match p.pc with
      | .staging state written =>
          if (payload state).length ≤ written then
            some { w.setPc i p .closing with
              record := w.staged state.seq
              staged := Function.update w.staged state.seq none }
          else none
      | _ => none
  | .fail =>
      match p.pc with
      | .staging _ _ => some (w.setPc i p .closing)
      | _ => none
  | .unlock =>
      if p.pc = .closing then
        some { w.setPc i p (if p.phase.isSome then .ended else .asleep) with lock := none }
      else none

def ownerStep (w : BootWorld) (fileOk : Bool) : Option BootWorld :=
  match w.todo with
  | [] => none
  | .store stop :: todo => some { w with stop, todo }
  | .abort :: todo => some { w.abortHandle with todo }
  | .spawn :: todo =>
      some { w with
        publishers := w.publishers ++ [⟨none, .asleep, false⟩]
        handle := some w.publishers.length
        todo }
  | .lock :: todo => if w.lock = none then some { w with lock := some .owner, todo } else none
  | .clear :: todo => some { w.clearIfOwner parse fileOk with lock := none, todo }
  | .finish :: todo => some { w with returned := true, todo }

/-- Nobody is in `set_phase`. -/
def Unborrowed (w : BootWorld) : Prop := ∀ p ∈ w.publishers, p.phase.isSome → p.pc = .ended

instance (w : BootWorld) : Decidable w.Unborrowed := inferInstanceAs (Decidable (∀ _ ∈ _, _ → _))

def step (w : BootWorld) : BootAction → Option BootWorld
  | .publisher i event => w.publishers[i]?.bind fun p => w.publisherStep payload i p event
  | .setPhase phase =>
      if w.todo = [] ∧ w.returned = false then
        some { w with publishers := w.publishers ++ [⟨some phase, .atLock, false⟩] }
      else none
  | .call c =>
      if w.todo = [] ∧ w.returned = false ∧ w.Unborrowed then some { w with todo := c.ops } else none
  | .owner fileOk => w.ownerStep parse fileOk

/-- After `start`: the first publication is there. -/
def started (pid : ℕ) (phase : Text) (startedAt now : ℤ) : BootWorld :=
  { pid, startedAt, phase, seq := 1
    record := some (payload ⟨pid, phase, startedAt, 1, now⟩) }

end

end BootWorld

/-! ### One step of a publisher -/

/-- The publisher has the lock. -/
def PublisherPc.Inside : PublisherPc → Prop
  | holding | staging _ _ | closing => True
  | asleep | awake | atLock | ended => False

/-- What every step of a publisher leaves alone, and what it does to the lock. -/
structure PublisherMoved (w w' : BootWorld) (i : ℕ) (p : Publisher) (pc : PublisherPc) : Prop where
  publishers : w'.publishers = w.publishers.set i { p with pc }
  todo : w'.todo = w.todo
  stop : w'.stop = w.stop
  returned : w'.returned = w.returned
  pid : w'.pid = w.pid
  running : p.pc ≠ .ended
  lock : (w'.lock = w.lock ∧ (pc.Inside ↔ p.pc.Inside)) ∨
    (w.lock = none ∧ w'.lock = some (.publisher i) ∧ pc = .holding) ∨
      (p.pc = .closing ∧ w'.lock = none ∧ ¬ pc.Inside)

namespace BootWorld

section

variable {payload : DaemonBootState → Bytes} {parse : Bytes → Option DaemonBootState}
  {w w' : BootWorld} {i : ℕ} {p : Publisher} {e : PublisherEvent}

theorem enterPhase_frame (w : BootWorld) (phase : Option Text) (millis : ℕ) :
    (w.enterPhase phase millis).publishers = w.publishers ∧
      (w.enterPhase phase millis).todo = w.todo ∧ (w.enterPhase phase millis).stop = w.stop ∧
        (w.enterPhase phase millis).returned = w.returned ∧
          (w.enterPhase phase millis).pid = w.pid ∧ (w.enterPhase phase millis).seq = w.seq ∧
            (w.enterPhase phase millis).record = w.record ∧
              (w.enterPhase phase millis).staged = w.staged := by
  cases phase <;> exact ⟨rfl, rfl, rfl, rfl, rfl, rfl, rfl, rfl⟩

/-- What a publisher's step does to the files and the counter. -/
inductive PublisherWrote (payload : DaemonBootState → Bytes) (w w' : BootWorld) :
    PublisherPc → PublisherPc → Prop
  /-- nothing, and nothing is being written afterwards -/
  | kept {pc pc' : PublisherPc} (record : w'.record = w.record) (staged : w'.staged = w.staged)
      (seq : w'.seq = w.seq) (idle : ∀ state n, pc' ≠ .staging state n) : PublisherWrote payload w w' pc pc'
  | allocated (now : ℤ) (record : w'.record = w.record) (seq : w'.seq = w.seq + 1)
      (staged : w'.staged = Function.update w.staged (w.seq + 1) (some [])) :
      PublisherWrote payload w w' .holding
        (.staging ⟨w.pid, w.phase, w.startedAt, w.seq + 1, now⟩ 0)
  | wrote {state : DaemonBootState} {n : ℕ} (count : ℕ) (record : w'.record = w.record)
      (seq : w'.seq = w.seq) (staged : w'.staged = Function.update w.staged state.seq
        (some ((payload state).take (n + count)))) :
      PublisherWrote payload w w' (.staging state n) (.staging state (n + count))
  | renamed {state : DaemonBootState} {n : ℕ} (whole : (payload state).length ≤ n)
      (record : w'.record = w.staged state.seq) (seq : w'.seq = w.seq) :
      PublisherWrote payload w w' (.staging state n) .closing

/-- Everything that a publisher can do. -/
theorem publisherStep_cases (h : w.publisherStep payload i p e = some w') :
    ∃ pc, PublisherMoved w w' i p pc ∧ PublisherWrote payload w w' p.pc pc ∧
      (p.pc = .awake → pc = if w.stop then .ended else .atLock) ∧
      (p.pc = .asleep → pc = .awake ∨ pc = .ended) := by
  obtain ⟨phase, pc, aborted⟩ := p
  cases e with
  | wake =>
      obtain ⟨⟨rfl, -⟩, next⟩ := Option.ite_none_right_eq_some.mp h
      obtain rfl := Option.some.inj next
      exact ⟨.awake, ⟨rfl, rfl, rfl, rfl, rfl, nofun, .inl ⟨rfl, Iff.rfl⟩⟩,
        .kept rfl rfl rfl nofun, nofun, fun _ => .inl rfl⟩
  | cancel =>
      obtain ⟨⟨rfl, -⟩, next⟩ := Option.ite_none_right_eq_some.mp h
      obtain rfl := Option.some.inj next
      exact ⟨.ended, ⟨rfl, rfl, rfl, rfl, rfl, nofun, .inl ⟨rfl, Iff.rfl⟩⟩,
        .kept rfl rfl rfl nofun, nofun, fun _ => .inr rfl⟩
  | test =>
      obtain ⟨rfl, next⟩ := Option.ite_none_right_eq_some.mp h
      obtain rfl := Option.some.inj next
      refine ⟨if w.stop then .ended else .atLock,
        ⟨rfl, rfl, rfl, rfl, rfl, nofun, .inl ⟨rfl, ?_⟩⟩, .kept rfl rfl rfl ?_, fun _ => rfl, nofun⟩
      · cases w.stop <;> exact Iff.rfl
      · cases w.stop <;> exact nofun
  | lock millis =>
      obtain ⟨⟨rfl, free⟩, next⟩ := Option.ite_none_right_eq_some.mp h
      obtain rfl := Option.some.inj next
      obtain ⟨publishers, todo, stop, returned, pid, seq, record, staged⟩ :=
        enterPhase_frame w phase millis
      refine ⟨.holding, ⟨?_, todo, stop, returned, pid, nofun, .inr (.inl ⟨free, rfl, rfl⟩)⟩,
        .kept record staged seq nofun, nofun, nofun⟩
      simp only [setPc, publishers]
  | allocate now =>
      obtain ⟨rfl, next⟩ := Option.ite_none_right_eq_some.mp h
      obtain rfl := Option.some.inj next
      exact ⟨_, ⟨rfl, rfl, rfl, rfl, rfl, nofun, .inl ⟨rfl, Iff.rfl⟩⟩,
        .allocated now rfl rfl rfl, nofun, nofun⟩
  | write count =>
      cases pc with
      | staging state n =>
          obtain rfl := Option.some.inj h
          exact ⟨_, ⟨rfl, rfl, rfl, rfl, rfl, nofun, .inl ⟨rfl, Iff.rfl⟩⟩,
            .wrote count rfl rfl rfl, nofun, nofun⟩
      | _ => cases h
  | rename =>
      cases pc with
      | staging state n =>
          obtain ⟨whole, next⟩ := Option.ite_none_right_eq_some.mp h
          obtain rfl := Option.some.inj next
          exact ⟨_, ⟨rfl, rfl, rfl, rfl, rfl, nofun, .inl ⟨rfl, Iff.rfl⟩⟩,
            .renamed whole rfl rfl, nofun, nofun⟩
      | _ => cases h
  | fail =>
      cases pc with
      | staging state n =>
          obtain rfl := Option.some.inj h
          exact ⟨.closing, ⟨rfl, rfl, rfl, rfl, rfl, nofun, .inl ⟨rfl, Iff.rfl⟩⟩,
            .kept rfl rfl rfl nofun, nofun, nofun⟩
      | _ => cases h
  | unlock =>
      obtain ⟨rfl, next⟩ := Option.ite_none_right_eq_some.mp h
      obtain rfl := Option.some.inj next
      refine ⟨if phase.isSome then .ended else .asleep,
        ⟨rfl, rfl, rfl, rfl, rfl, nofun, .inr (.inr ⟨rfl, rfl, ?_⟩)⟩, .kept rfl rfl rfl ?_, nofun,
        nofun⟩
      · cases phase.isSome <;> exact id
      · cases phase.isSome <;> exact nofun

end

end BootWorld

/-! ### One step of the owner -/

/-- What an operation of the owner does. -/
structure OwnerMoved (parse : Bytes → Option DaemonBootState) (w w' : BootWorld) (fileOk : Bool)
    (op : OwnerOp) (todo : List OwnerOp) : Prop where
  before : w.todo = op :: todo
  after : w'.todo = todo
  /-- A publisher stays where it is; the only new one sleeps. -/
  publishers : ∀ (j : ℕ) q, w'.publishers[j]? = some q →
    (∃ p, w.publishers[j]? = some p ∧ q.pc = p.pc ∧ q.phase = p.phase) ∨
      (q.pc = .asleep ∧ q.phase = none)
  stop : (∃ b, op = .store b ∧ w'.stop = b) ∨ ((∀ b, op ≠ .store b) ∧ w'.stop = w.stop)
  lock : (op = .lock ∧ w.lock = none ∧ w'.lock = some .owner) ∨ (op = .clear ∧ w'.lock = none) ∨
    (op ≠ .lock ∧ op ≠ .clear ∧ w'.lock = w.lock)
  returned : w'.returned = true → w.returned = true ∨ op = .finish
  record : w'.record = if op = .clear then (w.clearIfOwner parse fileOk).record else w.record
  staged : w'.staged = w.staged
  seq : w'.seq = w.seq
  pid : w'.pid = w.pid

theorem abortHandle_at (w : BootWorld) {j : ℕ} {q : Publisher}
    (at_j : w.abortHandle.publishers[j]? = some q) :
    ∃ p, w.publishers[j]? = some p ∧ q.pc = p.pc ∧ q.phase = p.phase := by
  unfold BootWorld.abortHandle at at_j
  split at at_j
  · exact ⟨q, at_j, rfl, rfl⟩
  · rw [List.getElem?_modify] at at_j
    obtain ⟨p, there, rfl⟩ := Option.map_eq_some_iff.mp at_j
    refine ⟨p, there, ?_, ?_⟩ <;> split <;> rfl

theorem abortHandle_frame (w : BootWorld) :
    w.abortHandle.stop = w.stop ∧ w.abortHandle.lock = w.lock ∧
      w.abortHandle.returned = w.returned ∧ w.abortHandle.record = w.record ∧
        w.abortHandle.staged = w.staged ∧ w.abortHandle.seq = w.seq ∧
          w.abortHandle.pid = w.pid := by
  unfold BootWorld.abortHandle
  split <;> exact ⟨rfl, rfl, rfl, rfl, rfl, rfl, rfl⟩

theorem clearIfOwner_frame (parse : Bytes → Option DaemonBootState) (w : BootWorld) (fileOk : Bool) :
    (w.clearIfOwner parse fileOk).publishers = w.publishers ∧
      (w.clearIfOwner parse fileOk).stop = w.stop ∧
        (w.clearIfOwner parse fileOk).returned = w.returned ∧
          (w.clearIfOwner parse fileOk).staged = w.staged ∧
            (w.clearIfOwner parse fileOk).seq = w.seq ∧
              (w.clearIfOwner parse fileOk).pid = w.pid := by
  unfold BootWorld.clearIfOwner
  split <;> exact ⟨rfl, rfl, rfl, rfl, rfl, rfl⟩

theorem ownerStep_cases {parse : Bytes → Option DaemonBootState} {w w' : BootWorld} {fileOk : Bool}
    (h : w.ownerStep parse fileOk = some w') : ∃ op todo, OwnerMoved parse w w' fileOk op todo := by
  unfold BootWorld.ownerStep at h
  have kept : ∀ (j : ℕ) q, w.publishers[j]? = some q →
      (∃ p, w.publishers[j]? = some p ∧ q.pc = p.pc ∧ q.phase = p.phase) ∨
        (q.pc = .asleep ∧ q.phase = none) := fun j q at_j => .inl ⟨q, at_j, rfl, rfl⟩
  cases todo : w.todo with
  | nil =>
      rw [todo] at h
      cases h
  | cons op rest =>
      refine ⟨op, rest, ?_⟩
      cases op with
      | store b =>
          rw [todo] at h
          obtain rfl := Option.some.inj h
          exact ⟨todo, rfl, kept, .inl ⟨b, rfl, rfl⟩, .inr (.inr ⟨nofun, nofun, rfl⟩), .inl, rfl, rfl,
            rfl, rfl⟩
      | abort =>
          rw [todo] at h
          obtain rfl := Option.some.inj h
          obtain ⟨stop, lock, returned, record, staged, seq, pid⟩ := abortHandle_frame w
          exact ⟨todo, rfl, fun j q at_j => .inl (abortHandle_at w at_j), .inr ⟨nofun, stop⟩,
            .inr (.inr ⟨nofun, nofun, lock⟩), fun h => .inl (returned ▸ h), record, staged, seq, pid⟩
      | spawn =>
          rw [todo] at h
          obtain rfl := Option.some.inj h
          refine ⟨todo, rfl, fun j q at_j => ?_, .inr ⟨nofun, rfl⟩, .inr (.inr ⟨nofun, nofun, rfl⟩),
            .inl, rfl, rfl, rfl, rfl⟩
          obtain before | ⟨-, rfl⟩ := Interleaving.at_append_iff.mp at_j
          · exact kept j q before
          · exact .inr ⟨rfl, rfl⟩
      | lock =>
          rw [todo] at h
          obtain ⟨free, next⟩ := Option.ite_none_right_eq_some.mp h
          obtain rfl := Option.some.inj next
          exact ⟨todo, rfl, kept, .inr ⟨nofun, rfl⟩, .inl ⟨rfl, free, rfl⟩, .inl, rfl, rfl, rfl, rfl⟩
      | clear =>
          rw [todo] at h
          obtain rfl := Option.some.inj h
          obtain ⟨publishers, stop, returned, staged, seq, pid⟩ := clearIfOwner_frame parse w fileOk
          exact ⟨todo, rfl, fun j q at_j => kept j q (publishers ▸ at_j), .inr ⟨nofun, stop⟩,
            .inr (.inl ⟨rfl, rfl⟩), fun h => .inl (returned ▸ h), rfl, staged, seq, pid⟩
      | finish =>
          rw [todo] at h
          obtain rfl := Option.some.inj h
          exact ⟨todo, rfl, kept, .inr ⟨nofun, rfl⟩, .inr (.inr ⟨nofun, nofun, rfl⟩),
            fun _ => .inr rfl, rfl, rfl, rfl, rfl⟩

/-- The record is taken away or stays. -/
theorem clearIfOwner_record (parse : Bytes → Option DaemonBootState) (w : BootWorld) (fileOk : Bool) :
    (w.clearIfOwner parse fileOk).record = none ∨
      (w.clearIfOwner parse fileOk).record = w.record := by
  unfold BootWorld.clearIfOwner
  split
  · exact .inl rfl
  · exact .inr rfl

/-- The owner shows nothing. -/
theorem OwnerMoved.shown {parse : Bytes → Option DaemonBootState} {w w' : BootWorld} {fileOk : Bool}
    {op : OwnerOp} {todo : List OwnerOp} (moved : OwnerMoved parse w w' fileOk op todo)
    {bytes : Bytes} (shown : w'.record = some bytes) : w.record = some bytes := by
  rw [moved.record] at shown
  split at shown
  · obtain gone | same := clearIfOwner_record parse w fileOk
    · rw [gone] at shown
      cases shown
    · rwa [same] at shown
  · exact shown

/-! ### The lock and the flag -/

/-- What can be left of a call. -/
def programs : List (List OwnerOp) :=
  [BootCall.startRefreshLoop, .stopRefreshLoop, .retire, .drop].flatMap fun c => c.ops.tails

theorem ops_mem_programs (c : BootCall) : c.ops ∈ programs := by
  cases c <;> decide

/-- What a rest of a call says of its first operation. -/
structure Follows (op : OwnerOp) (todo : List OwnerOp) : Prop where
  rest : todo ∈ programs
  locks : op = .lock ↔ todo.head? = some .clear
  /-- Before the end the flag is not reset. -/
  halts : OwnerOp.finish ∈ todo → OwnerOp.store true ∉ todo → op ≠ .store false
  last : op = .finish → todo = []
  clears : todo = [.finish] → op = .clear

instance (op : OwnerOp) (todo : List OwnerOp) : Decidable (Follows op todo) :=
  decidable_of_iff (todo ∈ programs ∧ (op = .lock ↔ todo.head? = some .clear) ∧
    (OwnerOp.finish ∈ todo → OwnerOp.store true ∉ todo → op ≠ .store false) ∧
      (op = .finish → todo = []) ∧ (todo = [.finish] → op = .clear))
    ⟨fun ⟨a, b, c, d, e⟩ => ⟨a, b, c, d, e⟩, fun ⟨a, b, c, d, e⟩ => ⟨a, b, c, d, e⟩⟩

theorem follows_of_mem {op : OwnerOp} {todo : List OwnerOp} (h : op :: todo ∈ programs) :
    Follows op todo := by
  have all : programs.all (fun
      | [] => true
      | op :: todo => decide (Follows op todo)) = true := by decide
  exact of_decide_eq_true (List.all_eq_true.mp all _ h)

/-- Who holds the lock, and when the flag is set. -/
structure LockKept (w : BootWorld) : Prop where
  program : w.todo ∈ programs
  inside : ∀ (i : ℕ) p, w.publishers[i]? = some p → p.pc.Inside → w.lock = some (.publisher i)
  clearing : w.todo.head? = some .clear → w.lock = some .owner
  /-- Once the last call has set the flag, nothing resets it. -/
  halted : OwnerOp.finish ∈ w.todo → OwnerOp.store true ∉ w.todo → w.stop = true
  unborrowed : w.todo ≠ [] ∨ w.returned = true → w.Unborrowed
  ended : w.returned = true → w.todo = []

section

variable {w w' : BootWorld} {i j : ℕ} {p q : Publisher} {pc : PublisherPc}

/-- A publisher after one of them has moved. -/
theorem PublisherMoved.at (moved : PublisherMoved w w' i p pc) (there : w.publishers[i]? = some p)
    (at_j : w'.publishers[j]? = some q) :
    (j = i ∧ q = { p with pc }) ∨ (j ≠ i ∧ w.publishers[j]? = some q) := by
  rw [moved.publishers] at at_j
  by_cases same : j = i
  · subst same
    rw [List.getElem?_set_self (List.getElem?_eq_some_iff.mp there).1] at at_j
    exact .inl ⟨rfl, (Option.some.inj at_j).symm⟩
  · rw [List.getElem?_set_ne (Ne.symm same)] at at_j
    exact .inr ⟨same, at_j⟩

theorem PublisherMoved.mem (moved : PublisherMoved w w' i p pc) (there : w.publishers[i]? = some p)
    (mem : q ∈ w'.publishers) : q = { p with pc } ∨ q ∈ w.publishers := by
  obtain ⟨j, at_j⟩ := List.mem_iff_getElem?.mp mem
  obtain ⟨-, eq⟩ | ⟨-, before⟩ := moved.at there at_j
  · exact .inl eq
  · exact .inr (List.mem_of_getElem? before)

end

namespace LockKept

variable {payload : DaemonBootState → Bytes} {parse : Bytes → Option DaemonBootState}
  {w w' : BootWorld} {i : ℕ} {p : Publisher} {pc : PublisherPc}

/-- While the owner is about to clear the record, no publisher has the lock. -/
theorem outside (h : LockKept w) (clearing : w.todo.head? = some .clear)
    {p : Publisher} (mem : p ∈ w.publishers) : ¬ p.pc.Inside := by
  intro inside
  obtain ⟨i, at_i⟩ := List.mem_iff_getElem?.mp mem
  have held := h.inside i p at_i inside
  rw [h.clearing clearing] at held
  cases held

theorem moved (h : LockKept w) (there : w.publishers[i]? = some p)
    (moved : PublisherMoved w w' i p pc) : LockKept w' where
  program := moved.todo ▸ h.program
  inside := by
    intro j q at_j inside
    obtain ⟨rfl, rfl⟩ | ⟨other, before⟩ := moved.at there at_j
    · obtain ⟨same, iff⟩ | ⟨-, taken, -⟩ | ⟨-, -, outside⟩ := moved.lock
      · rw [same]
        exact h.inside j p there (iff.mp inside)
      · exact taken
      · exact absurd inside outside
    · have held := h.inside j q before inside
      obtain ⟨same, -⟩ | ⟨free, -, -⟩ | ⟨closing, -, -⟩ := moved.lock
      · rw [same, held]
      · rw [free] at held
        cases held
      · -- who gives the lock back had it
        have own := h.inside i p there (by rw [closing]; trivial)
        rw [held] at own
        exact absurd (LockHolder.publisher.inj (Option.some.inj own)) other
  clearing := by
    intro clearing
    rw [moved.todo] at clearing
    have held := h.clearing clearing
    obtain ⟨same, -⟩ | ⟨free, -, -⟩ | ⟨closing, -, -⟩ := moved.lock
    · rw [same, held]
    · rw [free] at held
      cases held
    · have own := h.inside i p there (by rw [closing]; trivial)
      rw [held] at own
      cases own
  halted := by
    rw [moved.todo, moved.stop]
    exact h.halted
  unborrowed := by
    rw [moved.todo, moved.returned]
    intro busy q mem setter
    obtain rfl | before := moved.mem there mem
    · exact absurd (h.unborrowed busy p (List.mem_of_getElem? there) setter) moved.running
    · exact h.unborrowed busy q before setter
  ended := by
    rw [moved.todo, moved.returned]
    exact h.ended

/-- A call that begins. -/
theorem call (h : LockKept w) (open' : w.returned = false) (free : w.Unborrowed) (c : BootCall) :
    LockKept { w with todo := c.ops } where
  program := ops_mem_programs c
  inside := h.inside
  clearing := by cases c <;> exact nofun
  halted := fun _ unset => absurd (by cases c <;> decide : OwnerOp.store true ∈ c.ops) unset
  unborrowed := fun _ => free
  ended returned := by
    rw [open'] at returned
    cases returned

theorem setPhase (h : LockKept w) (idle : w.todo = []) (open' : w.returned = false) (phase : Text) :
    LockKept { w with publishers := w.publishers ++ [⟨some phase, .atLock, false⟩] } where
  program := h.program
  inside := by
    intro j q at_j inside
    obtain before | ⟨-, rfl⟩ := Interleaving.at_append_iff.mp at_j
    · exact h.inside j q before inside
    · exact absurd inside id
  clearing := h.clearing
  halted := h.halted
  unborrowed := by
    rintro (busy | returned)
    · exact absurd idle busy
    · rw [open'] at returned
      cases returned
  ended := h.ended

theorem owner {fileOk : Bool} {op : OwnerOp} {todo : List OwnerOp} (h : LockKept w)
    (moved : OwnerMoved parse w w' fileOk op todo) : LockKept w' := by
  have follows := follows_of_mem (moved.before ▸ h.program)
  have head : w.todo.head? = some op := by rw [moved.before, List.head?_cons]
  refine ⟨?_, ?_, ?_, ?_, ?_, fun returned => ?_⟩
  · rw [moved.after]
    exact follows.rest
  · intro j q at_j inside
    obtain ⟨p, there, pc, -⟩ | ⟨asleep, -⟩ := moved.publishers j q at_j
    · rw [pc] at inside
      have held := h.inside j p there inside
      obtain ⟨-, free, -⟩ | ⟨rfl, -⟩ | ⟨-, -, same⟩ := moved.lock
      · rw [free] at held
        cases held
      · exact absurd inside (h.outside head (List.mem_of_getElem? there))
      · rw [same, held]
    · rw [asleep] at inside
      exact absurd inside id
  · intro clearing
    rw [moved.after] at clearing
    obtain ⟨-, -, taken⟩ | ⟨rfl, -⟩ | ⟨other, -, -⟩ := moved.lock
    · exact taken
    · exact absurd (follows.locks.mpr clearing) nofun
    · exact absurd (follows.locks.mpr clearing) other
  · rw [moved.after]
    intro ends unset
    obtain ⟨b, rfl, stop⟩ | ⟨other, stop⟩ := moved.stop
    · rw [stop]
      cases b with
      | true => rfl
      | false => exact absurd rfl (follows.halts ends unset)
    · rw [stop]
      refine h.halted ?_ ?_ <;> rw [moved.before]
      · exact List.mem_cons_of_mem _ ends
      · rw [List.mem_cons, not_or]
        exact ⟨(other true).symm, unset⟩
  · intro _ q mem setter
    obtain ⟨j, at_j⟩ := List.mem_iff_getElem?.mp mem
    have busy : w.todo ≠ [] := by
      rw [moved.before]
      exact List.cons_ne_nil _ _
    obtain ⟨p, there, pc, phase⟩ | ⟨-, none⟩ := moved.publishers j q at_j
    · rw [pc]
      exact h.unborrowed (.inl busy) p (List.mem_of_getElem? there) (phase ▸ setter)
    · rw [none] at setter
      cases setter
  · rw [moved.after]
    obtain before | rfl := moved.returned returned
    · have idle := h.ended before
      rw [moved.before] at idle
      cases idle
    · exact follows.last rfl

theorem step (h : LockKept w) {a : BootAction} (next : w.step payload parse a = some w') :
    LockKept w' := by
  cases a with
  | publisher i e =>
      obtain ⟨p, there, moves⟩ := Option.bind_eq_some_iff.mp next
      obtain ⟨pc, moved, -⟩ := BootWorld.publisherStep_cases moves
      exact h.moved there moved
  | setPhase phase =>
      obtain ⟨⟨idle, open'⟩, next⟩ := Option.ite_none_right_eq_some.mp next
      obtain rfl := Option.some.inj next
      exact h.setPhase idle open' phase
  | call c =>
      obtain ⟨⟨-, open', free⟩, next⟩ := Option.ite_none_right_eq_some.mp next
      obtain rfl := Option.some.inj next
      exact h.call open' free c
  | owner fileOk =>
      obtain ⟨op, todo, moved⟩ := ownerStep_cases next
      exact h.owner moved

end LockKept

/-! ### The files -/

/-- Every file is what its publication was to write, and a publication has a larger number than
the record. -/
structure FilesKept (payload : DaemonBootState → Bytes) (w : BootWorld) : Prop where
  record : ∀ bytes, w.record = some bytes → ∃ state, bytes = payload state ∧ state.seq ≤ w.seq
  staging : ∀ p ∈ w.publishers, ∀ state n, p.pc = .staging state n →
    w.staged state.seq = some ((payload state).take n) ∧ state.seq ≤ w.seq ∧
      ∀ shown, w.record = some (payload shown) → shown.seq < state.seq

namespace FilesKept

variable {payload : DaemonBootState → Bytes} {parse : Bytes → Option DaemonBootState}
  {w w' : BootWorld} {i : ℕ} {p : Publisher} {pc : PublisherPc}

/-- While one publisher has the lock, no other one writes. -/
theorem writes_alone (locked : LockKept w) (there : w.publishers[i]? = some p)
    (moved : PublisherMoved w w' i p pc) (inside : p.pc.Inside) {q : Publisher}
    (mem : q ∈ w'.publishers) {state : DaemonBootState} {n : ℕ} (writes : q.pc = .staging state n) :
    pc = .staging state n := by
  obtain ⟨j, at_j⟩ := List.mem_iff_getElem?.mp mem
  obtain ⟨-, rfl⟩ | ⟨other, before⟩ := moved.at there at_j
  · exact writes
  · have own := locked.inside i p there inside
    rw [locked.inside j q before (by rw [writes]; trivial)] at own
    exact absurd (LockHolder.publisher.inj (Option.some.inj own)) other

theorem moved (h : FilesKept payload w) (injective : Function.Injective payload)
    (locked : LockKept w) (there : w.publishers[i]? = some p)
    (moved : PublisherMoved w w' i p pc) (wrote : BootWorld.PublisherWrote payload w w' p.pc pc) :
    FilesKept payload w' := by
  have mem := List.mem_of_getElem? there
  generalize hpc : p.pc = before at wrote
  cases wrote with
  | kept record staged seq idle =>
      refine ⟨by rw [record, seq]; exact h.record, ?_⟩
      rw [record, staged, seq]
      intro q hq state n writes
      obtain rfl | old := moved.mem there hq
      · exact absurd writes (idle state n)
      · exact h.staging q old state n writes
  | allocated now record seq staged =>
      refine ⟨fun bytes shown => ?_, fun q hq state n writes => ?_⟩
      · obtain ⟨state, eq, below⟩ := h.record bytes (record ▸ shown)
        exact ⟨state, eq, by rw [seq]; omega⟩
      · obtain ⟨rfl, rfl⟩ := PublisherPc.staging.inj
          (writes_alone locked there moved (by rw [hpc]; trivial) hq writes)
        refine ⟨?_, seq.ge, fun shown visible => ?_⟩
        · rw [staged, Function.update_self, List.take_zero]
        · obtain ⟨state, eq, below⟩ := h.record _ (record ▸ visible)
          rw [injective eq]
          exact Nat.lt_succ_of_le below
  | wrote count record seq staged =>
      obtain ⟨-, below, above⟩ := h.staging p mem _ _ hpc
      refine ⟨by rw [record, seq]; exact h.record, fun q hq state n writes => ?_⟩
      obtain ⟨rfl, rfl⟩ := PublisherPc.staging.inj
        (writes_alone locked there moved (by rw [hpc]; trivial) hq writes)
      rw [staged, record, seq, Function.update_self]
      exact ⟨rfl, below, above⟩
  | @renamed state n whole record seq =>
      obtain ⟨written, below, -⟩ := h.staging p mem _ _ hpc
      rw [List.take_of_length_le whole] at written
      refine ⟨fun bytes shown => ?_, fun q hq other m writes => ?_⟩
      · rw [record, written] at shown
        exact ⟨state, (Option.some.inj shown).symm, seq ▸ below⟩
      · exact absurd (writes_alone locked there moved (by rw [hpc]; trivial) hq writes) nofun

theorem owner {fileOk : Bool} {op : OwnerOp} {todo : List OwnerOp} (h : FilesKept payload w)
    (moved : OwnerMoved parse w w' fileOk op todo) : FilesKept payload w' := by
  refine ⟨fun bytes shown => ?_, fun q mem state n writes => ?_⟩
  · rw [moved.seq]
    exact h.record bytes (moved.shown shown)
  · obtain ⟨j, at_j⟩ := List.mem_iff_getElem?.mp mem
    obtain ⟨p, there, pc, -⟩ | ⟨asleep, -⟩ := moved.publishers j q at_j
    · obtain ⟨written, below, above⟩ :=
        h.staging p (List.mem_of_getElem? there) state n (pc ▸ writes)
      rw [moved.staged, moved.seq]
      exact ⟨written, below, fun shown visible => above shown (moved.shown visible)⟩
    · rw [asleep] at writes
      cases writes

theorem step (h : FilesKept payload w) (injective : Function.Injective payload) (locked : LockKept w)
    {a : BootAction} (next : w.step payload parse a = some w') : FilesKept payload w' := by
  cases a with
  | publisher i e =>
      obtain ⟨p, there, moves⟩ := Option.bind_eq_some_iff.mp next
      obtain ⟨pc, moved, wrote, -⟩ := BootWorld.publisherStep_cases moves
      exact h.moved injective locked there moved wrote
  | setPhase phase =>
      obtain ⟨-, next⟩ := Option.ite_none_right_eq_some.mp next
      obtain rfl := Option.some.inj next
      refine ⟨h.record, fun q mem state n writes => ?_⟩
      obtain before | new := List.mem_append.mp mem
      · exact h.staging q before state n writes
      · obtain rfl := List.mem_singleton.mp new
        cases writes
  | call c =>
      obtain ⟨-, next⟩ := Option.ite_none_right_eq_some.mp next
      obtain rfl := Option.some.inj next
      exact ⟨h.record, h.staging⟩
  | owner fileOk =>
      obtain ⟨op, todo, moved⟩ := ownerStep_cases next
      exact h.owner moved

end FilesKept

/-! ### The numbers -/

/-- Nothing with a smaller number is shown or will be. -/
structure NotBefore (payload : DaemonBootState → Bytes) (k : ℕ) (w : BootWorld) : Prop where
  shown : ∀ state, w.record = some (payload state) → k ≤ state.seq
  counter : k ≤ w.seq
  staging : ∀ p ∈ w.publishers, ∀ state n, p.pc = .staging state n → k ≤ state.seq

namespace NotBefore

variable {payload : DaemonBootState → Bytes} {parse : Bytes → Option DaemonBootState}
  {w w' : BootWorld} {k : ℕ}

theorem step (h : NotBefore payload k w) (injective : Function.Injective payload)
    (files : FilesKept payload w) {a : BootAction}
    (next : w.step payload parse a = some w') : NotBefore payload k w' := by
  cases a with
  | publisher i e =>
      obtain ⟨p, there, moves⟩ := Option.bind_eq_some_iff.mp next
      obtain ⟨pc, moved, wrote, -⟩ := BootWorld.publisherStep_cases moves
      have mem := List.mem_of_getElem? there
      generalize hpc : p.pc = before at wrote
      have others : ∀ q ∈ w'.publishers, ∀ state n, q.pc = .staging state n →
          pc = .staging state n ∨ k ≤ state.seq := by
        intro q hq state n writes
        obtain rfl | old := moved.mem there hq
        · exact .inl writes
        · exact .inr (h.staging q old state n writes)
      cases wrote with
      | kept record staged seq idle =>
          refine ⟨record ▸ h.shown, seq ▸ h.counter, fun q hq state n writes => ?_⟩
          exact (others q hq state n writes).resolve_left (idle state n)
      | allocated now record seq staged =>
          refine ⟨record ▸ h.shown, ?_, fun q hq state n writes => ?_⟩
          · rw [seq]
            exact h.counter.trans (Nat.le_succ _)
          · obtain eq | old := others q hq state n writes
            · obtain ⟨rfl, -⟩ := PublisherPc.staging.inj eq
              exact h.counter.trans (Nat.le_succ _)
            · exact old
      | wrote count record seq staged =>
          refine ⟨record ▸ h.shown, seq ▸ h.counter, fun q hq state n writes => ?_⟩
          obtain eq | old := others q hq state n writes
          · obtain ⟨rfl, -⟩ := PublisherPc.staging.inj eq
            exact h.staging p mem _ _ hpc
          · exact old
      | @renamed state n whole record seq =>
          refine ⟨fun visible shown => ?_, seq ▸ h.counter, fun q hq other m writes => ?_⟩
          · obtain ⟨written, -⟩ := files.staging p mem _ _ hpc
            rw [record, written, List.take_of_length_le whole] at shown
            rw [← injective (Option.some.inj shown)]
            exact h.staging p mem _ _ hpc
          · exact (others q hq other m writes).resolve_left nofun
  | setPhase phase =>
      obtain ⟨-, next⟩ := Option.ite_none_right_eq_some.mp next
      obtain rfl := Option.some.inj next
      refine ⟨h.shown, h.counter, fun q mem state n writes => ?_⟩
      obtain before | new := List.mem_append.mp mem
      · exact h.staging q before state n writes
      · obtain rfl := List.mem_singleton.mp new
        cases writes
  | call c =>
      obtain ⟨-, next⟩ := Option.ite_none_right_eq_some.mp next
      obtain rfl := Option.some.inj next
      exact ⟨h.shown, h.counter, h.staging⟩
  | owner fileOk =>
      obtain ⟨op, todo, moved⟩ := ownerStep_cases next
      refine ⟨fun state shown => h.shown state ?_, moved.seq ▸ h.counter, fun q mem state n writes => ?_⟩
      · exact moved.shown shown
      · obtain ⟨j, at_j⟩ := List.mem_iff_getElem?.mp mem
        obtain ⟨p, there, pc, -⟩ | ⟨asleep, -⟩ := moved.publishers j q at_j
        · exact h.staging p (List.mem_of_getElem? there) state n (pc ▸ writes)
        · rw [asleep] at writes
          cases writes

end NotBefore

/-! ### The end -/

/-- No record names the process, and nobody is on the way to write one. -/
structure Retired (parse : Bytes → Option DaemonBootState) (w : BootWorld) : Prop where
  gone : ¬ w.NamesOwner parse
  stop : w.stop = true
  away : ∀ p ∈ w.publishers, p.pc = .asleep ∨ p.pc = .awake ∨ p.pc = .ended

/-- The last clearing finds a record that can be read and removed, and no refresh task between its
test of the flag and the publication lock. -/
def Undisturbed (w : BootWorld) : BootAction → Prop
  | .owner fileOk =>
      w.todo = [.clear, .finish] → fileOk = true ∧ ∀ p ∈ w.publishers, p.pc ≠ .atLock
  | _ => True

namespace Retired

variable {payload : DaemonBootState → Bytes} {parse : Bytes → Option DaemonBootState}
  {w w' : BootWorld} {i : ℕ} {p : Publisher} {e : PublisherEvent}

theorem clearIfOwner_gone (w : BootWorld) : ¬ (w.clearIfOwner parse true).NamesOwner parse := by
  unfold BootWorld.clearIfOwner
  split
  · rintro ⟨state, shown, -⟩
    cases shown
  · next kept => exact fun named => kept ⟨rfl, named⟩

/-- Whoever sleeps or is about to test the flag does not get to the lock. -/
theorem publisher (h : Retired parse w) (there : w.publishers[i]? = some p)
    (next : w.publisherStep payload i p e = some w') : Retired parse w' := by
  obtain ⟨pc, moved, wrote, tests, wakes⟩ := BootWorld.publisherStep_cases next
  have mem := List.mem_of_getElem? there
  have away : pc = .awake ∨ pc = .ended := by
    obtain asleep | awake | ended := h.away p mem
    · exact wakes asleep
    · rw [tests awake, h.stop]
      exact .inr rfl
    · exact absurd ended moved.running
  have record : w'.record = w.record := by
    generalize p.pc = before at wrote
    cases wrote with
    | kept record => exact record
    | allocated => obtain eq | eq := away <;> cases eq
    | wrote => obtain eq | eq := away <;> cases eq
    | renamed => obtain eq | eq := away <;> cases eq
  refine ⟨?_, moved.stop ▸ h.stop, fun q hq => ?_⟩
  · rw [BootWorld.NamesOwner, BootWorld.readBootState, record, moved.pid]
    exact h.gone
  · obtain rfl | old := moved.mem there hq
    · exact .inr away
    · exact h.away q old

end Retired

/-- Once the last clearing is over, all is quiet. -/
def RetiredAtEnd (parse : Bytes → Option DaemonBootState) (w : BootWorld) : Prop :=
  w.todo = [.finish] ∨ w.returned = true → Retired parse w

namespace RetiredAtEnd

variable {payload : DaemonBootState → Bytes} {parse : Bytes → Option DaemonBootState}
  {w w' : BootWorld}

theorem owner {fileOk : Bool} {op : OwnerOp} {todo : List OwnerOp} (h : RetiredAtEnd parse w)
    (locked : LockKept w) (undisturbed : Undisturbed w (.owner fileOk))
    (moved : OwnerMoved parse w w' fileOk op todo) : RetiredAtEnd parse w' := by
  have follows := follows_of_mem (moved.before ▸ locked.program)
  -- nobody moves but the owner
  have keep : Retired parse w → op = .finish → Retired parse w' := by
    rintro quiet rfl
    refine ⟨?_, ?_, fun q mem => ?_⟩
    · rw [BootWorld.NamesOwner, BootWorld.readBootState, moved.record, moved.pid, if_neg nofun]
      exact quiet.gone
    · obtain ⟨b, eq, -⟩ | ⟨-, stop⟩ := moved.stop
      · cases eq
      · rw [stop, quiet.stop]
    · obtain ⟨j, at_j⟩ := List.mem_iff_getElem?.mp mem
      obtain ⟨p, there, pc, -⟩ | ⟨asleep, -⟩ := moved.publishers j q at_j
      · rw [pc]
        exact quiet.away p (List.mem_of_getElem? there)
      · exact .inl asleep
  rintro (last | returned)
  · -- the last clearing
    rw [moved.after] at last
    subst last
    obtain rfl := follows.clears rfl
    obtain ⟨rfl, none_waits⟩ := undisturbed moved.before
    refine ⟨?_, ?_, fun q mem => ?_⟩
    · rw [BootWorld.NamesOwner, BootWorld.readBootState, moved.record, moved.pid, if_pos rfl,
        ← (clearIfOwner_frame parse w true).2.2.2.2.2]
      exact Retired.clearIfOwner_gone w
    · obtain ⟨b, eq, -⟩ | ⟨-, stop⟩ := moved.stop
      · cases eq
      · rw [stop]
        exact locked.halted (by rw [moved.before]; decide) (by rw [moved.before]; decide)
    · obtain ⟨j, at_j⟩ := List.mem_iff_getElem?.mp mem
      obtain ⟨p, there, pc, -⟩ | ⟨asleep, -⟩ := moved.publishers j q at_j
      · have outside := locked.outside (by rw [moved.before]; rfl) (List.mem_of_getElem? there)
        have away := none_waits p (List.mem_of_getElem? there)
        rw [pc]
        cases hpc : p.pc with
        | asleep => exact .inl rfl
        | awake => exact .inr (.inl rfl)
        | ended => exact .inr (.inr rfl)
        | atLock => exact absurd hpc away
        | _ =>
            rw [hpc] at outside
            exact absurd trivial outside
      · exact .inl asleep
  · obtain before | rfl := moved.returned returned
    · -- who has returned does nothing more
      have idle := locked.ended before
      rw [moved.before] at idle
      cases idle
    · have last := follows.last rfl
      subst last
      exact keep (h (.inl moved.before)) rfl

theorem step (h : RetiredAtEnd parse w) (locked : LockKept w) {a : BootAction}
    (undisturbed : Undisturbed w a) (next : w.step payload parse a = some w') :
    RetiredAtEnd parse w' := by
  cases a with
  | publisher i e =>
      obtain ⟨p, there, moves⟩ := Option.bind_eq_some_iff.mp next
      obtain ⟨pc, moved, -⟩ := BootWorld.publisherStep_cases moves
      intro late
      rw [moved.todo, moved.returned] at late
      exact (h late).publisher there moves
  | setPhase phase =>
      obtain ⟨⟨idle, open'⟩, next⟩ := Option.ite_none_right_eq_some.mp next
      obtain rfl := Option.some.inj next
      rintro (last | returned)
      · rw [idle] at last
        cases last
      · rw [open'] at returned
        cases returned
  | call c =>
      obtain ⟨⟨-, open', -⟩, next⟩ := Option.ite_none_right_eq_some.mp next
      obtain rfl := Option.some.inj next
      rintro (last | returned)
      · cases c <;> cases last
      · rw [open'] at returned
        cases returned
  | owner fileOk =>
      obtain ⟨op, todo, moved⟩ := ownerStep_cases next
      exact h.owner locked undisturbed moved

end RetiredAtEnd

/-! ### Every run -/

section

variable {payload : DaemonBootState → Bytes} {parse : Bytes → Option DaemonBootState}
  {pid : ℕ} {phase : Text} {startedAt now : ℤ} {w w' : BootWorld}

end

/-! ### A late publication -/

section

variable {payload : DaemonBootState → Bytes} {parse : Bytes → Option DaemonBootState}

end

section

end

end Orgasmic
