import Orgasmic.Interleaving
import Orgasmic.LedgerHandles
import Orgasmic.SessionScan

/-! # Following a transcript

A socket that shows a transcript polls the session file and sends the envelopes of the lines that
were completed since the last poll.  The file grows by pieces that may end anywhere, and may be
replaced under its path by another one.

* **Polls** (`Tail.poll`).  The offset counts raw bytes; an unfinished line is carried to the next
  poll.
* **Histories** (`TranscriptWorld`).  What a poll returns is kept until one reports a reset; it is
  always the list of the file's complete lines (`transcript_tail_exact`). -/

namespace Orgasmic

open Text

/-! ### Polls -/

/-- A file with its device and inode. -/
structure TranscriptFile where
  identity : ℕ × ℕ
  bytes : Bytes

structure Tail where
  offset : ℕ := 0
  unfinished : Bytes := []
  identity : Option (ℕ × ℕ) := none
deriving DecidableEq, Repr

/-- The lines of the bytes up to the last line feed that are not blank. -/
def completeLines (bytes : Bytes) : List Bytes :=
  (Delimited.pieces newline (Delimited.closedPart newline bytes)).filter (!blankLine ·)

/-- The bytes behind the last line feed. -/
def unfinishedLine (bytes : Bytes) : Bytes := bytes.drop (Delimited.closedPart newline bytes).length

variable {Value : Type} (fromSlice : Bytes → Option (SessionEnvelope Value))

/-- The envelopes of lines, if all of them have one. -/
def readLines (lines : List Bytes) : Option (List (SessionEnvelope Value)) := lines.mapM fromSlice

/-- The state that a poll reads with, and whether it was reset. -/
def Tail.opened (tail : Tail) (file : TranscriptFile) : Bool × Tail :=
  let reset := file.bytes.length < tail.offset || tail.identity.any (· ≠ file.identity)
  (reset, if reset then { identity := some file.identity }
    else { tail with identity := some file.identity })

/-- `Tail::poll`; without an answer a line has no envelope. -/
def Tail.poll (tail : Tail) (file : TranscriptFile) :
    Option (Bool × List (SessionEnvelope Value)) × Tail :=
  let (reset, tail) := tail.opened file
  let read := file.bytes.drop tail.offset
  let bytes := tail.unfinished ++ read
  match readLines fromSlice (completeLines bytes) with
  | none => (none, tail)
  | some envelopes =>
      (some (reset, envelopes),
        { tail with offset := tail.offset + read.length, unfinished := unfinishedLine bytes })

/-! ### Histories -/

/-- The file under the path, the identities of all files so far, and one reader of it.  What its
polls returned is kept from the last one that reported a reset. -/
structure TranscriptWorld (Value : Type) where
  file : TranscriptFile
  seen : List (ℕ × ℕ)
  tail : Tail := {}
  returned : List (SessionEnvelope Value) := []
  /-- There was a poll. -/
  polled : Bool := false
  /-- The file was replaced since the previous poll. -/
  replaced : Bool := false

inductive TranscriptEvent where
  | append (piece : Bytes)
  | replace (file : TranscriptFile)
  | poll

/-- Every complete line is blank or an envelope. -/
def LinesDecode (bytes : Bytes) : Prop := ∀ line ∈ completeLines bytes, (fromSlice line).isSome

instance (bytes : Bytes) : Decidable (LinesDecode fromSlice bytes) :=
  List.decidableBAll (fun line => (fromSlice line).isSome) (completeLines bytes)

/-- What has been returned after a poll. -/
def TranscriptWorld.after (w : TranscriptWorld Value) (reset : Bool)
    (envelopes : List (SessionEnvelope Value)) : List (SessionEnvelope Value) :=
  if reset then envelopes else w.returned ++ envelopes

def TranscriptWorld.step (w : TranscriptWorld Value) : TranscriptEvent → Option (TranscriptWorld Value)
  | .append piece =>
      if LinesDecode fromSlice (w.file.bytes ++ piece) then
        some { w with file := { w.file with bytes := w.file.bytes ++ piece } }
      else none
  | .replace file =>
      if file.identity ∉ w.seen ∧ LinesDecode fromSlice file.bytes then
        some { w with file, seen := file.identity :: w.seen, replaced := true }
      else none
  | .poll =>
      match w.tail.poll fromSlice w.file with
      | (none, tail) => some { w with tail, polled := true, replaced := false }
      | (some (reset, envelopes), tail) =>
          some { w with
            tail
            returned := w.after reset envelopes
            polled := true
            replaced := false }

/-! ### Complete lines -/

theorem closedPart_append {as : Bytes} (closed : Delimited.Closed newline as) (bs : Bytes) :
    Delimited.closedPart newline (as ++ bs) = as ++ Delimited.closedPart newline bs := by
  unfold Delimited.closedPart
  induction bs using List.reverseRecOn with
  | nil =>
      rw [List.append_nil, List.rdropWhile_nil, List.append_nil]
      obtain rfl | last := closed
      · rfl
      · rw [List.rdropWhile_eq_self_iff]
        intro ne
        rw [List.getLast?_eq_some_getLast ne, Option.some.injEq] at last
        simp [last]
  | append_singleton bs b ih =>
      rw [← List.append_assoc, List.rdropWhile_concat, List.rdropWhile_concat]
      split
      · exact ih
      · rw [List.append_assoc]

theorem eq_closedPart_append (bytes : Bytes) :
    Delimited.closedPart newline bytes ++ unfinishedLine bytes = bytes :=
  List.prefix_iff_eq_append.mp (List.rdropWhile_prefix _ _)

theorem unfinishedLine_append {as : Bytes} (closed : Delimited.Closed newline as) (bs : Bytes) :
    unfinishedLine (as ++ bs) = unfinishedLine bs := by
  rw [unfinishedLine, closedPart_append closed, List.length_append, List.drop_append,
    List.drop_eq_nil_of_le (Nat.le_add_right _ _), List.nil_append, Nat.add_sub_cancel_left,
    unfinishedLine]

/-- A closed part in front contributes its own lines. -/
theorem completeLines_append {as : Bytes} (closed : Delimited.Closed newline as) (bs : Bytes) :
    completeLines (as ++ bs) = completeLines as ++ completeLines bs := by
  have lines : ∀ cs, completeLines cs = ((Delimited.records newline
      (Delimited.closedPart newline cs)).map (Delimited.content newline)).filter (!blankLine ·) := by
    intro cs
    rw [completeLines, Delimited.pieces_eq, if_pos (Delimited.closed_closedPart newline cs),
      List.filter_append]
    exact List.append_nil _
  have self : Delimited.closedPart newline as = as := by
    have := closedPart_append closed []
    rwa [List.append_nil, show Delimited.closedPart newline [] = [] from rfl,
      List.append_nil] at this
  rw [lines, lines, lines, closedPart_append closed, Delimited.records_append newline closed, self,
    List.map_append, List.filter_append]

/-- **Two polls read what one would have.** -/
theorem completeLines_resumed (as bs : Bytes) :
    completeLines (as ++ bs) = completeLines as ++ completeLines (unfinishedLine as ++ bs) := by
  have front : completeLines (Delimited.closedPart newline as) = completeLines as := by
    conv_rhs => rw [← eq_closedPart_append as]
    rw [completeLines_append (Delimited.closed_closedPart newline as)]
    have none : completeLines (unfinishedLine as) = [] := by
      have twice := closedPart_append (Delimited.closed_closedPart newline as) (unfinishedLine as)
      rw [eq_closedPart_append] at twice
      rw [completeLines, List.append_right_eq_self.mp twice.symm]
      rfl
    rw [none, List.append_nil]
  conv_lhs => rw [← eq_closedPart_append as, List.append_assoc]
  rw [completeLines_append (Delimited.closed_closedPart newline as), front]

theorem unfinishedLine_resumed (as bs : Bytes) :
    unfinishedLine (as ++ bs) = unfinishedLine (unfinishedLine as ++ bs) := by
  conv_lhs => rw [← eq_closedPart_append as, List.append_assoc]
  exact unfinishedLine_append (Delimited.closed_closedPart newline as) _

/-! ### What polls return -/

variable {fromSlice}

theorem readLines_eq_some {lines : List Bytes} {envelopes : List (SessionEnvelope Value)} :
    readLines fromSlice lines = some envelopes ↔ lines.map fromSlice = envelopes.map some := by
  unfold readLines
  induction lines generalizing envelopes with
  | nil =>
      rw [List.mapM_nil, List.map_nil]
      exact ⟨fun h => by rw [← Option.some.inj h]; rfl,
        fun h => by rw [List.map_eq_nil_iff.mp h.symm]; rfl⟩
  | cons line lines ih =>
      rw [List.mapM_cons, List.map_cons]
      cases hline : fromSlice line with
      | none =>
          refine ⟨nofun, fun h => ?_⟩
          cases envelopes <;> cases h
      | some envelope =>
          cases envelopes with
          | nil =>
              refine ⟨fun h => ?_, nofun⟩
              cases hlines : lines.mapM fromSlice with
              | none =>
                  rw [hlines] at h
                  cases h
              | some found =>
                  rw [hlines] at h
                  cases h
          | cons e envelopes =>
              rw [List.map_cons, List.cons.injEq, ← ih]
              cases lines.mapM fromSlice <;> simp

theorem exists_read {lines : List Bytes} (readable : ∀ line ∈ lines, (fromSlice line).isSome) :
    ∃ envelopes, readLines fromSlice lines = some envelopes := by
  induction lines with
  | nil => exact ⟨[], rfl⟩
  | cons line lines ih =>
      obtain ⟨first, rest⟩ := List.forall_mem_cons.mp readable
      obtain ⟨envelope, he⟩ := Option.isSome_iff_exists.mp first
      obtain ⟨envelopes, hes⟩ := ih rest
      refine ⟨envelope :: envelopes, readLines_eq_some.mpr ?_⟩
      rw [List.map_cons, List.map_cons, he, readLines_eq_some.mp hes]

/-- A poll that has read the front of the file: it returns the rest of its complete lines. -/
theorem poll_opened {tail opened : Tail} {file : TranscriptFile} {reset : Bool} (front rest : Bytes)
    (open' : tail.opened file = (reset, opened)) (bytes : file.bytes = front ++ rest)
    (offset : opened.offset = front.length) (unfinished : opened.unfinished = unfinishedLine front)
    (readable : LinesDecode fromSlice file.bytes) :
    ∃ envelopes, tail.poll fromSlice file =
        (some (reset, envelopes),
          { opened with offset := file.bytes.length, unfinished := unfinishedLine file.bytes }) ∧
      (completeLines file.bytes).map fromSlice =
        (completeLines front).map fromSlice ++ envelopes.map some := by
  have lines := completeLines_resumed front rest
  have read : file.bytes.drop opened.offset = rest := by
    rw [bytes, offset, List.drop_left]
  have rest_readable : ∀ line ∈ completeLines (unfinishedLine front ++ rest),
      (fromSlice line).isSome := by
    intro line mem
    refine readable line ?_
    rw [bytes, lines]
    exact List.mem_append_right _ mem
  obtain ⟨envelopes, hread⟩ := exists_read rest_readable
  refine ⟨envelopes, ?_, ?_⟩
  · unfold Tail.poll
    rw [open']
    dsimp only
    rw [read, unfinished, hread]
    dsimp only
    rw [offset, bytes, List.length_append, unfinishedLine_resumed front]
  · rw [bytes, lines, List.map_append, readLines_eq_some.mp hread]

/-! ### Every history -/

/-- What holds of the reader and the file. -/
structure TailInv (fromSlice : Bytes → Option (SessionEnvelope Value)) (w : TranscriptWorld Value) :
    Prop where
  readable : LinesDecode fromSlice w.file.bytes
  current : w.file.identity ∈ w.seen
  unread : w.polled = false → w.tail = {} ∧ w.returned = []
  read : w.polled = true → ∃ bytes identity,
    w.tail = ⟨bytes.length, unfinishedLine bytes, some identity⟩ ∧
      (completeLines bytes).map fromSlice = w.returned.map some ∧ identity ∈ w.seen ∧
        if w.replaced then identity ≠ w.file.identity
        else identity = w.file.identity ∧ bytes <+: w.file.bytes

/-- One poll, from what it finds. -/
theorem TailInv.poll {w : TranscriptWorld Value} (inv : TailInv fromSlice w) :
    ∃ envelopes, w.tail.poll fromSlice w.file =
        (some (w.polled && w.replaced, envelopes),
          ⟨w.file.bytes.length, unfinishedLine w.file.bytes, some w.file.identity⟩) ∧
      (completeLines w.file.bytes).map fromSlice =
        (w.after (w.polled && w.replaced) envelopes).map some := by
  cases polled : w.polled with
  | false =>
      obtain ⟨tail, returned⟩ := inv.unread polled
      have opened : w.tail.opened w.file = (false, { identity := some w.file.identity }) := by
        rw [tail]
        simp [Tail.opened]
      obtain ⟨envelopes, poll, lines⟩ := poll_opened [] _ opened rfl rfl rfl inv.readable
      refine ⟨envelopes, poll, lines.trans ?_⟩
      rw [Bool.false_and, TranscriptWorld.after, if_neg Bool.false_ne_true, returned]
      rfl
  | true =>
      obtain ⟨bytes, identity, tail, returned, -, place⟩ := inv.read polled
      cases replaced : w.replaced with
      | true =>
          rw [replaced, if_pos rfl] at place
          have opened : w.tail.opened w.file = (true, { identity := some w.file.identity }) := by
            rw [tail]
            simp [Tail.opened, place]
          obtain ⟨envelopes, poll, lines⟩ := poll_opened [] _ opened rfl rfl rfl inv.readable
          exact ⟨envelopes, poll, lines.trans rfl⟩
      | false =>
          rw [replaced, if_neg Bool.false_ne_true] at place
          obtain ⟨same, rest, grown⟩ := place
          have opened : w.tail.opened w.file =
              (false, ⟨bytes.length, unfinishedLine bytes, some w.file.identity⟩) := by
            have long : ¬ w.file.bytes.length < bytes.length := by
              rw [← grown, List.length_append]
              omega
            rw [tail]
            simp [Tail.opened, same, long]
          obtain ⟨envelopes, poll, lines⟩ :=
            poll_opened bytes rest opened grown.symm rfl rfl inv.readable
          refine ⟨envelopes, poll, lines.trans ?_⟩
          rw [Bool.and_false, TranscriptWorld.after, if_neg Bool.false_ne_true, List.map_append,
            returned]

theorem TailInv.step {w w' : TranscriptWorld Value} {e : TranscriptEvent}
    (inv : TailInv fromSlice w) (h : w.step fromSlice e = some w') : TailInv fromSlice w' := by
  cases e with
  | append piece =>
      obtain ⟨readable, next⟩ := Option.ite_none_right_eq_some.mp h
      obtain rfl := Option.some.inj next
      refine ⟨readable, inv.current, inv.unread, fun polled => ?_⟩
      obtain ⟨bytes, identity, tail, returned, seen, place⟩ := inv.read polled
      refine ⟨bytes, identity, tail, returned, seen, ?_⟩
      dsimp only
      split at place
      · next replaced => rwa [if_pos replaced]
      · next kept =>
          rw [if_neg kept]
          exact ⟨place.1, place.2.trans (List.prefix_append _ _)⟩
  | replace file =>
      obtain ⟨⟨fresh, readable⟩, next⟩ := Option.ite_none_right_eq_some.mp h
      obtain rfl := Option.some.inj next
      refine ⟨readable, List.mem_cons_self, inv.unread, fun polled => ?_⟩
      obtain ⟨bytes, identity, tail, returned, seen, -⟩ := inv.read polled
      refine ⟨bytes, identity, tail, returned, List.mem_cons_of_mem _ seen, ?_⟩
      rw [if_pos rfl]
      exact fun same => fresh (same ▸ seen)
  | poll =>
      obtain ⟨envelopes, poll, lines⟩ := inv.poll
      simp only [TranscriptWorld.step, poll] at h
      obtain rfl := Option.some.inj h
      refine ⟨inv.readable, inv.current, nofun, fun _ => ?_⟩
      exact ⟨w.file.bytes, w.file.identity, rfl, lines, inv.current, rfl, List.prefix_refl _⟩

/-- **A transcript is followed exactly.**  After any history of pieces, replacements and polls, a
poll reports a reset if and only if the file was replaced since the previous poll; and the envelopes
returned since the last reset are those of the file's complete lines that are not blank, in order. -/
theorem transcript_tail_exact {file : TranscriptFile} {w : TranscriptWorld Value}
    (readable : LinesDecode fromSlice file.bytes)
    (history : Interleaving.Reaches (TranscriptWorld.step fromSlice) (fun _ _ => True)
      { file, seen := [file.identity] } w) :
    ∃ envelopes w', w.tail.poll fromSlice w.file = (some (w.polled && w.replaced, envelopes), w'.tail) ∧
      w.step fromSlice .poll = some w' ∧ w'.tail.offset = w.file.bytes.length ∧
        w'.returned = (if w.polled && w.replaced then envelopes else w.returned ++ envelopes) ∧
          (completeLines w.file.bytes).map fromSlice = w'.returned.map some := by
  have inv : TailInv fromSlice w := history.invariant (fun _ next inv => inv.step next)
    ⟨readable, List.mem_singleton_self _, fun _ => ⟨rfl, rfl⟩, nofun⟩
  obtain ⟨envelopes, poll, lines⟩ := inv.poll
  refine ⟨envelopes, { w with
    tail := ⟨w.file.bytes.length, unfinishedLine w.file.bytes, some w.file.identity⟩
    returned := w.after (w.polled && w.replaced) envelopes
    polled := true
    replaced := false }, poll, ?_, rfl, rfl, lines⟩
  simp only [TranscriptWorld.step, poll]

/-- `transcript_tail_exact` for a line in two pieces, the second of them after the first poll. -/
theorem transcript_tail_exact_sample :
    let line := utf8 ("\x7b\"seq\":0,\"time\":\"1970-01-01T00:00:00Z\",\"run_id\":\"r\",".toList ++
      "\"runtime_id\":\"x\",\"boot_id\":\"b\",\"kind\":\"note\",\"event\":null\x7d".toList)
    let envelope : SessionEnvelope Unit := ⟨0, 0, ['r'], ['x'], ['b'], .note, ()⟩
    let fromSlice : Bytes → Option (SessionEnvelope Unit) := fun l =>
      if l = line then some envelope else none
    let w : TranscriptWorld Unit :=
      { file := ⟨(1, 1), line ++ [newline]⟩, seen := [(1, 1)]
        tail := ⟨3, line.take 3, some (1, 1)⟩, polled := true }
    ∃ w', w.step fromSlice .poll = some w' ∧ w'.returned.map some = [fromSlice line] := by
  intro line envelope fromSlice w
  have front : completeLines (line.take 3) = [] := by decide
  have whole : completeLines (line ++ [newline]) = [line] := by decide
  have readable : LinesDecode fromSlice (line.take 3 ++ (line.drop 3 ++ [newline])) := by
    have joined : line.take 3 ++ (line.drop 3 ++ [newline]) = line ++ [newline] := by
      rw [← List.append_assoc, List.take_append_drop]
    rw [LinesDecode, joined, whole, List.forall_mem_singleton]
    exact congrArg Option.isSome (if_pos rfl)
  let half : TranscriptWorld Unit := { w with file := ⟨(1, 1), line.take 3⟩ }
  have grown : half.step fromSlice (.append (line.drop 3 ++ [newline])) = some w := by
    rw [TranscriptWorld.step, if_pos readable]
    rfl
  have first : Interleaving.Reaches (TranscriptWorld.step fromSlice) (fun _ _ => True)
      { file := ⟨(1, 1), line.take 3⟩, seen := [(1, 1)] } w :=
    .head (b := half) ⟨.poll, trivial, rfl⟩ (.single ⟨_, trivial, grown⟩)
  have start : LinesDecode fromSlice (⟨(1, 1), line.take 3⟩ : TranscriptFile).bytes := by
    rw [LinesDecode, front]
    exact nofun
  obtain ⟨envelopes, w', -, step, -, -, lines⟩ := transcript_tail_exact start first
  refine ⟨w', step, ?_⟩
  rw [← lines, whole]
  rfl

end Orgasmic
