import Orgasmic.StdioLoop

/-! # What the loop hands over

The harness writes lines, each with one message (`stream`).  While no branch of the `select` completes
in the middle of a line, everything that was read has been handed over in order, and the rest is
still to be read (`Lossless`).  A branch that completes there loses the bytes that the reader took. -/

namespace Orgasmic

open Text JsonText Interleaving

variable {fromStr : Text → Option Json}

/-- The text of a line is one JSON message. -/
structure IsMessage (fromStr : Text → Option Json) (text : Text) (value : Json) : Prop where
  one : '\n' ∉ text
  inked : trim text ≠ []
  parses : fromStr (trim text) = some value

/-- The bytes of lines. -/
def stream (messages : List (Text × Json)) : Bytes :=
  messages.flatMap fun message => utf8 message.1 ++ [newline]

theorem stream_append (as bs : List (Text × Json)) : stream (as ++ bs) = stream as ++ stream bs :=
  List.flatMap_append

/-- A line of a message is read as the message. -/
theorem IsMessage.readWireLine {text : Text} {value : Json} (h : IsMessage fromStr text value) :
    readWireLine fromStr (utf8 text ++ [newline]) = .message value := by
  have bytes : utf8 text ++ [newline] = utf8 (text ++ ['\n']) := by
    unfold utf8
    rw [List.flatMap_append]
    rfl
  have trimmed : trim (text ++ ['\n']) = trim text := trim_append_blank (by decide) text
  unfold Orgasmic.readWireLine
  simp only [bytes, readToString_utf8, trimmed, h.inked, h.parses, if_false]

namespace StdioState

/-- The harness has written these messages, or the first of them, and closes only after all. -/
structure Sends (messages : List (Text × Json)) (s : StdioState) : Prop where
  prefix_ : s.written <+: stream messages
  whole : s.closed = true → s.written = stream messages

/-- Everything that was taken from the stream has been handed over, each message once, in order,
and no line was refused. -/
structure Lossless (messages : List (Text × Json)) (s : StdioState) : Prop where
  framing : s.framingErrors = 0
  partial_ : newline ∉ s.line
  handed : ∃ n, s.handed.map Prod.fst = (messages.take n).map Prod.snd ∧
    s.written = stream (messages.take n) ++ s.line ++ s.buffer ++ s.pipe

/-- No other branch of the `select` completes while the reader has a part of a line. -/
def KeepsLine (s : StdioState) : StdioAction → Prop
  | .command _ _ | .stderrLine | .heartbeat _ => s.line = []
  | _ => True

section
variable {messages : List (Text × Json)} {s t : StdioState} {a : StdioAction}

/-! ### Reading a line -/

theorem handOver_fields (s : StdioState) (value : Json) (handled : Handled) :
    (s.handOver value handled).handed.map Prod.fst = s.handed.map Prod.fst ++ [value] ∧
      (s.handOver value handled).written = s.written ∧ (s.handOver value handled).line = [] ∧
      (s.handOver value handled).buffer = s.buffer ∧ (s.handOver value handled).pipe = s.pipe ∧
      (s.handOver value handled).closed = s.closed ∧
      (s.handOver value handled).framingErrors = s.framingErrors := by
  unfold handOver
  split
  · split_ifs <;> simp
  · simp

/-- What is still to be read starts with the next message. -/
theorem next_message {n : ℕ} {piece rest : Bytes}
    (unread : stream (messages.take n) ++ (piece ++ newline :: rest) <+: stream messages)
    (inside : newline ∉ piece) (valid : ∀ m ∈ messages, IsMessage fromStr m.1 m.2) :
    ∃ m, messages.take (n + 1) = messages.take n ++ [m] ∧ m ∈ messages ∧
      piece = utf8 m.1 := by
  have split : stream messages = stream (messages.take n) ++ stream (messages.drop n) := by
    rw [← stream_append, List.take_append_drop]
  rw [split, List.prefix_append_right_inj] at unread
  cases rest' : messages.drop n with
  | nil =>
      rw [rest'] at unread
      have empty := List.prefix_nil.mp unread
      simp at empty
  | cons m ms =>
      have there : messages[n]? = some m := by
        rw [← List.head?_drop, rest', List.head?_cons]
      have mem := List.mem_of_getElem? there
      refine ⟨m, ?_, mem, ?_⟩
      · rw [List.take_add_one, there]
        rfl
      · rw [rest'] at unread
        have line : stream (m :: ms) = utf8 m.1 ++ newline :: stream ms := by
          unfold stream
          rw [List.flatMap_cons, List.append_assoc, List.singleton_append]
        rw [line] at unread
        obtain ⟨tail, eq⟩ := unread
        rw [List.append_assoc, List.cons_append] at eq
        exact (Delimited.first_cut inside (newline_notMem_utf8 (valid m mem).one) eq).1

/-- A line that the harness has written is handed over as its message. -/
theorem Lossless.received {piece rest : Bytes} {handled : Handled} (h : Lossless messages s)
    (valid : ∀ m ∈ messages, IsMessage fromStr m.1 m.2) (sends : s.written <+: stream messages)
    (buffer : s.buffer = piece ++ newline :: rest) (inside : newline ∉ piece) :
    Lossless messages (StdioState.received fromStr { s with buffer := rest }
      (s.line ++ piece ++ [newline]) handled) := by
  obtain ⟨n, same, written⟩ := h.handed
  have unread : stream (messages.take n) ++
      (s.line ++ piece ++ newline :: (rest ++ s.pipe)) <+: stream messages := by
    rw [written, buffer] at sends
    simpa using sends
  have whole : newline ∉ s.line ++ piece := by
    simpa using ⟨h.partial_, inside⟩
  obtain ⟨m, taken, mem, eq⟩ := next_message unread whole valid
  have line : readWireLine fromStr (s.line ++ piece ++ [newline]) = .message m.2 := by
    rw [eq]
    exact (valid m mem).readWireLine
  unfold StdioState.received
  simp only [line]
  obtain ⟨handed, hwritten, hline, hbuffer, hpipe, -, herrors⟩ :=
    handOver_fields { s with buffer := rest } m.2 handled
  refine ⟨herrors.trans h.framing, ?_, n + 1, ?_, ?_⟩
  · rw [hline]
    exact List.not_mem_nil
  · rw [handed, taken, List.map_append, same]
    rfl
  · rw [hwritten, hline, hbuffer, hpipe, taken, stream_append]
    show s.written = _
    rw [written, buffer]
    have last : stream [m] = s.line ++ piece ++ [newline] := by
      rw [eq]
      simp [stream]
    rw [last]
    simp

/-- Writing goes on at the end, and not after the stream is closed. -/
theorem step_written (next : s.step fromStr a = some t) :
    s.written <+: t.written ∧ (s.closed = true → t.closed = true ∧ t.written = s.written) := by
  have handOver : ∀ (u : StdioState) value handled,
      (u.handOver value handled).written = u.written ∧
        (u.handOver value handled).closed = u.closed := fun u value handled =>
    ⟨(handOver_fields u value handled).2.1, (handOver_fields u value handled).2.2.2.2.2.1⟩
  have received : ∀ (u : StdioState) line handled,
      (u.received fromStr line handled).written = u.written ∧
        (u.received fromStr line handled).closed = u.closed := by
    intro u line handled
    unfold StdioState.received
    split
    · exact ⟨rfl, rfl⟩
    · exact ⟨rfl, rfl⟩
    · exact handOver u _ handled
  have kept : t.written = s.written ∧ t.closed = s.closed →
      s.written <+: t.written ∧ (s.closed = true → t.closed = true ∧ t.written = s.written) := by
    rintro ⟨hwritten, hclosed⟩
    rw [hwritten, hclosed]
    exact ⟨List.prefix_rfl, fun h => ⟨h, rfl⟩⟩
  cases a with
  | arrive bytes =>
      simp only [step] at next
      split_ifs at next with closed
      obtain rfl := Option.some.inj next
      exact ⟨List.prefix_append _ _, fun h => absurd h closed⟩
  | close =>
      obtain rfl := Option.some.inj next
      exact ⟨List.prefix_rfl, fun _ => ⟨rfl, rfl⟩⟩
  | take handled =>
      simp only [step] at next
      split_ifs at next
      split at next <;> obtain rfl := Option.some.inj next
      · exact kept ⟨rfl, rfl⟩
      · exact kept (received { s with buffer := _ } _ handled)
  | finish handled =>
      simp only [step] at next
      split_ifs at next <;> obtain rfl := Option.some.inj next
      · exact kept ⟨rfl, rfl⟩
      · exact kept (received s s.line handled)
  | command sent waits =>
      simp only [step] at next
      split_ifs at next
      cases waits <;> obtain rfl := Option.some.inj next <;> exact kept ⟨rfl, rfl⟩
  | _ =>
      simp only [step, dropReader] at next
      split_ifs at next
      all_goals
        obtain rfl := Option.some.inj next
        exact kept ⟨rfl, rfl⟩

theorem Sends.before (h : Sends messages t) (next : s.step fromStr a = some t) :
    Sends messages s := by
  obtain ⟨grows, closed⟩ := step_written next
  refine ⟨grows.trans h.prefix_, fun hclosed => ?_⟩
  obtain ⟨stays, same⟩ := closed hclosed
  rw [← same]
  exact h.whole stays

/-! ### Steps and runs -/

/-- Another branch of the `select` drops nothing if the reader has nothing. -/
theorem Lossless.dropReader (h : Lossless messages s) (empty : s.line = []) :
    Lossless messages s.dropReader := by
  unfold StdioState.dropReader
  rw [← empty]
  exact h

/-- A step that keeps what was taken of a line loses nothing. -/
theorem Lossless.step (h : Lossless messages s)
    (valid : ∀ m ∈ messages, IsMessage fromStr m.1 m.2) (sends : Sends messages t)
    (keeps : KeepsLine s a) (next : s.step fromStr a = some t) : Lossless messages t := by
  have sends₀ := sends.before next
  obtain ⟨n, same, written⟩ := h.handed
  cases a with
  | arrive bytes =>
      simp only [StdioState.step] at next
      split_ifs at next
      obtain rfl := Option.some.inj next
      refine ⟨h.framing, h.partial_, n, same, ?_⟩
      show s.written ++ bytes = _
      rw [written]
      simp
  | close =>
      obtain rfl := Option.some.inj next
      exact ⟨h.framing, h.partial_, n, same, written⟩
  | fill k =>
      simp only [StdioState.step] at next
      split_ifs at next with enabled
      obtain rfl := Option.some.inj next
      refine ⟨h.framing, h.partial_, n, same, ?_⟩
      show s.written = _
      rw [written, enabled.2.1]
      simp
  | take handled =>
      simp only [StdioState.step] at next
      split_ifs at next
      split at next
      · next none =>
          -- the line goes on behind the buffer
          obtain rfl := Option.some.inj next
          refine ⟨h.framing, ?_, n, same, ?_⟩
          · have outside : newline ∉ s.buffer := by
              intro mem
              have stop := List.dropWhile_eq_nil_iff.mp none newline mem
              simp at stop
            show newline ∉ s.line ++ s.buffer
            simpa using ⟨h.partial_, outside⟩
          · show s.written = _
            rw [written]
            simp
      · next c rest found =>
          obtain rfl := Option.some.inj next
          have stop : c = newline := by
            have head := List.head?_dropWhile_not (fun b => decide (b ≠ newline)) s.buffer
            rw [found] at head
            simpa using head
          subst stop
          have buffer : s.buffer = s.buffer.takeWhile (· ≠ newline) ++ newline :: rest := by
            rw [← found, List.takeWhile_append_dropWhile]
          refine h.received valid sends₀.prefix_ buffer ?_
          intro mem
          have stop := List.mem_takeWhile_imp mem
          simp at stop
  | finish handled =>
      simp only [StdioState.step] at next
      split_ifs at next with enabled empty
      · obtain rfl := Option.some.inj next
        exact ⟨h.framing, h.partial_, n, same, written⟩
      · -- a closed stream ends with a line
        obtain ⟨-, closed, pipe, buffer⟩ := enabled
        have split : stream messages = stream (messages.take n) ++ stream (messages.drop n) := by
          rw [← stream_append, List.take_append_drop]
        rw [pipe, buffer, List.append_nil, List.append_nil, sends₀.whole closed, split,
          List.append_cancel_left_eq] at written
        cases rest : messages.drop n with
        | nil =>
            rw [rest] at written
            exact absurd written.symm empty
        | cons m ms =>
            rw [rest] at written
            refine absurd ?_ h.partial_
            rw [← written]
            simp [stream]
  | request startsTurn =>
      simp only [StdioState.step] at next
      split_ifs at next
      obtain rfl := Option.some.inj next
      exact ⟨h.framing, h.partial_, n, same, written⟩
  | opened =>
      simp only [StdioState.step] at next
      split_ifs at next
      obtain rfl := Option.some.inj next
      exact ⟨h.framing, h.partial_, n, same, written⟩
  | command sent waits =>
      have dropped := h.dropReader keeps
      simp only [StdioState.step] at next
      split_ifs at next
      cases waits <;> obtain rfl := Option.some.inj next <;>
        exact ⟨dropped.framing, dropped.partial_, dropped.handed⟩
  | stderrLine =>
      simp only [StdioState.step] at next
      split_ifs at next
      obtain rfl := Option.some.inj next
      exact h.dropReader keeps
  | heartbeat delivered =>
      have dropped := h.dropReader keeps
      simp only [StdioState.step] at next
      split_ifs at next <;> obtain rfl := Option.some.inj next <;>
        exact ⟨dropped.framing, dropped.partial_, dropped.handed⟩

/-- Before the harness has written anything. -/
theorem start_lossless : Lossless messages start where
  framing := rfl
  partial_ := List.not_mem_nil
  handed := ⟨0, rfl, rfl⟩

/-- While the transport is read and bytes are there, the reader goes on. -/
theorem reader_enabled (reads : s.phase.reads = true) (there : s.buffer ++ s.pipe ≠ []) :
    (∃ n, (s.step fromStr (.fill n)).isSome = true) ∨
      ∀ handled, (s.step fromStr (.take handled)).isSome = true := by
  by_cases empty : s.buffer = []
  · rw [empty, List.nil_append] at there
    have length := List.length_pos_iff.mpr there
    refine .inl ⟨1, ?_⟩
    have enabled : s.phase.reads ∧ s.buffer = [] ∧ 0 < 1 ∧ 1 ≤ bufferCapacity ∧
        1 ≤ s.pipe.length := ⟨reads, empty, by omega, by decide, length⟩
    simp only [StdioState.step, enabled, and_self, if_true, Option.isSome_some]
  · refine .inr fun handled => ?_
    simp only [StdioState.step, reads, empty, ne_eq, not_false_eq_true, and_self, if_true]
    split <;> rfl

/-- **No peer output is lost.** Along a run in which no other branch of the `select` completes while
the reader has a part of a line, the messages of the harness are handed over in order, each once,
and no line is refused; when all that was written is read, all are handed over. -/
theorem peer_output_lossless (valid : ∀ m ∈ messages, IsMessage fromStr m.1 m.2)
    (reached : Reaches (StdioState.step fromStr) KeepsLine start s) (sends : Sends messages s) :
    Lossless messages s ∧
      (s.written = stream messages → s.line ++ s.buffer ++ s.pipe = [] →
        s.handed.map Prod.fst = messages.map Prod.snd) ∧
      (s.phase.reads = true → s.buffer ++ s.pipe ≠ [] →
        (∃ n, (s.step fromStr (.fill n)).isSome = true) ∨
          ∀ handled, (s.step fromStr (.take handled)).isSome = true) := by
  have lossless : Lossless messages s := by
    refine reached.invariant (P := fun s => Sends messages s → Lossless messages s)
      (fun keeps next before sends => ?_) (fun _ => start_lossless) sends
    exact (before (sends.before next)).step valid sends keeps next
  refine ⟨lossless, fun whole read => ?_, reader_enabled⟩
  obtain ⟨n, same, written⟩ := lossless.handed
  have split : stream messages = stream (messages.take n) ++ stream (messages.drop n) := by
    rw [← stream_append, List.take_append_drop]
  have unread : stream (messages.take n) ++ (s.line ++ s.buffer ++ s.pipe) = stream messages := by
    rw [← whole, written]
    simp
  rw [read, split, List.append_cancel_left_eq] at unread
  have none : messages.drop n = [] := by
    cases rest : messages.drop n with
    | nil => rfl
    | cons m ms =>
        rw [rest] at unread
        simp [stream] at unread
  rw [same, List.take_of_length_le (List.drop_eq_nil_iff.mp none)]

end

/-! ### A line in two pieces -/

namespace TwoPieces

def parser (text : Text) : Option Json := JsonText.parse (utf8 text)

/-- The response to the first request. -/
def response : Text := "\x7b\"id\":1,\"result\":\x7b\x7d\x7d".toList

/-- A notification. -/
def event : Text := "\x7b\"method\":\"turn/completed\"\x7d".toList

def responseValue : Json :=
  .object [(⟨utf8 "id".toList, false⟩, .number (utf8 "1".toList)),
    (⟨utf8 "result".toList, false⟩, .object [])]

def eventValue : Json :=
  .object [(⟨utf8 "method".toList, false⟩, .string (utf8 "turn/completed".toList))]

def messages : List (Text × Json) := [(response, responseValue), (event, eventValue)]

theorem valid : ∀ m ∈ messages, IsMessage parser m.1 m.2 := by
  intro m mem
  obtain rfl | rfl : m = (response, responseValue) ∨ m = (event, eventValue) := by
    simpa [messages] using mem
  · exact ⟨by decide +kernel, by decide +kernel, rfl⟩
  · exact ⟨by decide +kernel, by decide +kernel, rfl⟩

/-- The handshake, and the first half of the notification. -/
def half : List StdioAction :=
  [.request false, .arrive (utf8 response ++ [newline]), .fill 21, .take .done, .opened,
    .arrive ((utf8 event).take 10), .fill 10, .take .done]

/-- The other half. -/
def rest : List StdioAction :=
  [.arrive ((utf8 event).drop 10 ++ [newline]), .fill 18, .take .done]

/-- The state after some actions. -/
theorem sends_of_run {actions : List StdioAction} {s : StdioState}
    (h : run (step parser) start actions = some s)
    (written : (run (step parser) start actions).map StdioState.written =
      some (stream messages)) : Sends messages s := by
  rw [h, Option.map_some, Option.some.injEq] at written
  exact ⟨written ▸ List.prefix_rfl, fun _ => written⟩

end TwoPieces

open TwoPieces in
/-- The theorem when nothing happens between the pieces. -/
theorem peer_output_lossless_sample :
    ∃ s, run (step parser) start (half ++ rest) = some s ∧ Lossless messages s ∧
      (s.written = stream messages → s.line ++ s.buffer ++ s.pipe = [] →
        s.handed.map Prod.fst = messages.map Prod.snd) ∧
      (s.phase.reads = true → s.buffer ++ s.pipe ≠ [] →
        (∃ n, (s.step parser (.fill n)).isSome = true) ∨
          ∀ handled, (s.step parser (.take handled)).isSome = true) := by
  obtain ⟨s, reached⟩ := Option.isSome_iff_exists.mp
    (show (run (step parser) start (half ++ rest)).isSome = true by decide +kernel)
  refine ⟨s, reached, peer_output_lossless valid (reaches_of_run (fun a mem u => ?_) reached)
    (sends_of_run reached (by decide +kernel))⟩
  simp only [half, rest, List.cons_append, List.nil_append, List.mem_cons, List.not_mem_nil,
    or_false] at mem
  obtain rfl | rfl | rfl | rfl | rfl | rfl | rfl | rfl | rfl | rfl | rfl := mem <;> trivial

open TwoPieces in
/-- A tick between the pieces loses the first one; the second one is refused and the run ends. -/
theorem peer_output_lossless_fails :
    ∃ s, Reaches (step parser) (fun _ _ => True) start s ∧ Sends messages s ∧
      s.written = stream messages ∧ s.phase = .ended ∧ s.handed.length = 1 ∧
      s.framingErrors = 1 ∧ ¬ Lossless messages s := by
  have result : (run (step parser) start (half ++ .heartbeat true :: rest)).map
      (fun s => (s.written, s.phase, s.handed.length, s.framingErrors)) =
        some (stream messages, .ended, 1, 1) := by decide +kernel
  obtain ⟨s, reached, eq⟩ := Option.map_eq_some_iff.mp result
  obtain ⟨written, phase, handed, errors⟩ : s.written = stream messages ∧ s.phase = .ended ∧
      s.handed.length = 1 ∧ s.framingErrors = 1 := by simpa using eq
  refine ⟨s, reaches_of_run (fun _ _ _ => trivial) reached,
    ⟨written ▸ List.prefix_rfl, fun _ => written⟩, written, phase, handed, errors, fun h => ?_⟩
  rw [h.framing] at errors
  cases errors

end StdioState

end Orgasmic
