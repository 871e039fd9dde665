import Orgasmic.ConversationInput

/-! # Messages of an operator

What a conversation sends to a run is composed of the scope, a tail of the transcript, the context
chips in a delimited block, and the operator's message.  The transcript tail takes the message back
out of what was sent.

* **Sends** (`compose`).  A send with a preamble carries the block, possibly empty.
* **Reading back** (`operatorMessage`) looks for the last close of a block. -/

namespace Orgasmic

open Text

/-! ### Sends -/

/-- `CONTEXT_OPEN`. -/
def contextOpen : Text := "<<<orgasmic-context".toList

/-- `CONTEXT_CLOSE`. -/
def contextClose : Text := ">>>".toList

section

-- `serde_json::to_string` of a chip
variable (chipJson : ContextChip → Text)

def chipsBlock (chips : List ContextChip) : Text :=
  contextOpen ++ ['\n'] ++ chips.flatMap (fun chip => chipJson chip ++ ['\n']) ++ contextClose ++ ['\n']

/-- The text is there and not blank. -/
def presentText (text : Option Text) : Option Text := (text.map trim).filter (· ≠ [])

/-- What stands before the block. -/
def preamble (scope tail : Option Text) : List Text :=
  (presentText scope).toList ++ ((presentText tail).map fun tail =>
    "Earlier in this conversation (bounded tail, oldest first):\n".toList ++ tail).toList

/-- `join` with a blank line. -/
def joinParts (parts : List Text) : Text := ['\n', '\n'].intercalate parts

def compose (scope tail : Option Text) (chips : List ContextChip) (message : Text) : Text :=
  let parts := preamble scope tail
  if parts = [] ∧ chips = [] then trim message
  else joinParts (parts ++ [chipsBlock chipJson chips ++ trim message])

end

/-! ### Reading back -/

/-- `rsplit_once` of a pattern that is not empty: the text before and behind its last occurrence. -/
def rsplitOnce (pattern : Text) : Text → Option (Text × Text)
  | [] => none
  | c :: text =>
      match rsplitOnce pattern text with
      | some (before, behind) => some (c :: before, behind)
      | none => if pattern.isPrefixOf (c :: text) then some ([], (c :: text).drop pattern.length) else none

def closeLine : Text := contextClose ++ ['\n']

def operatorMessage (text : Text) : Text :=
  ((rsplitOnce closeLine text).map (·.2)).getD text

inductive TurnSide where
  | operator
  | assistant
deriving DecidableEq, Repr

/-- What the transcript says of one envelope. -/
inductive TranscriptRecord where
  | composerSend (text : Text)
  | assistantText (text : Text)
  | other

/-- One envelope more in the turns so far. -/
def addTurn (turns : List (TurnSide × Text)) : TranscriptRecord → List (TurnSide × Text)
  | .composerSend text =>
      if trim (operatorMessage text) = [] then turns
      else turns ++ [(.operator, trim (operatorMessage text))]
  | .assistantText text =>
      if text = [] then turns
      else match turns.getLast? with
        | some (.assistant, last) => turns.dropLast ++ [(.assistant, last ++ text)]
        | _ => turns ++ [(.assistant, text)]
  | .other => turns

/-- The turns of `transcript_tail`, before they are labelled and bounded. -/
def transcriptTurns (records : List TranscriptRecord) : List (TurnSide × Text) :=
  records.foldl addTurn []

/-! ### The last occurrence -/

theorem rsplitOnce_eq_none {pattern text : Text} (proper : pattern ≠ []) :
    rsplitOnce pattern text = none ↔ ¬ pattern <:+: text := by
  induction text with
  | nil =>
      refine ⟨fun _ inside => proper (List.infix_nil.mp inside), fun _ => rfl⟩
  | cons c text ih =>
      rw [rsplitOnce, List.infix_cons_iff, not_or]
      cases split : rsplitOnce pattern text with
      | some pieces =>
          rw [split] at ih
          exact ⟨nofun, fun h => absurd h.2 (mt ih.mpr nofun)⟩
      | none =>
          rw [split] at ih
          rw [← List.isPrefixOf_iff_prefix]
          dsimp only
          split
          · next starts => exact ⟨nofun, fun h => absurd starts h.1⟩
          · next other => exact ⟨fun _ => ⟨other, ih.mp rfl⟩, fun _ => rfl⟩

theorem rsplitOnce_length {pattern text before behind : Text} (proper : pattern ≠ [])
    (h : rsplitOnce pattern text = some (before, behind)) : behind.length < text.length := by
  induction text generalizing before with
  | nil => cases h
  | cons c text ih =>
      rw [rsplitOnce] at h
      split at h
      · next split =>
          obtain ⟨-, rfl⟩ := Prod.mk.inj (Option.some.inj h)
          exact (ih split).trans (Nat.lt_succ_self _)
      · split at h
        · obtain ⟨-, rfl⟩ := Prod.mk.inj (Option.some.inj h)
          have positive := List.length_pos_iff.mpr proper
          rw [List.length_drop, List.length_cons]
          omega
        · cases h

theorem rsplitOnce_append {pattern text before behind : Text} (front : Text)
    (h : rsplitOnce pattern text = some (before, behind)) :
    rsplitOnce pattern (front ++ text) = some (front ++ before, behind) := by
  induction front with
  | nil => exact h
  | cons c front ih => rw [List.cons_append, rsplitOnce, ih, List.cons_append]

theorem closeLine_ne_nil : closeLine ≠ [] := nofun

/-- Behind a close there is no occurrence across its end. -/
theorem rsplitOnce_closeLine {text : Text} (none : rsplitOnce closeLine text = none) :
    rsplitOnce closeLine (closeLine ++ text) = some ([], text) := by
  have close : closeLine = ['>', '>', '>', '\n'] := rfl
  simp only [close] at none
  simp [close, rsplitOnce, none]

/-- What is read back of a text behind a close. -/
theorem operatorMessage_behind (front text : Text) :
    operatorMessage (front ++ (closeLine ++ text)) = operatorMessage text := by
  unfold operatorMessage
  cases split : rsplitOnce closeLine text with
  | none => rw [rsplitOnce_append front (rsplitOnce_closeLine split)]; rfl
  | some pieces => rw [← List.append_assoc, rsplitOnce_append _ split]; rfl

theorem operatorMessage_eq_self {text : Text} :
    operatorMessage text = text ↔ ¬ closeLine <:+: text := by
  rw [← rsplitOnce_eq_none closeLine_ne_nil]
  unfold operatorMessage
  cases split : rsplitOnce closeLine text with
  | none => exact ⟨fun _ => rfl, fun _ => rfl⟩
  | some pieces =>
      have shorter := rsplitOnce_length closeLine_ne_nil split
      refine ⟨fun same => ?_, nofun⟩
      have same : pieces.2 = text := same
      rw [same] at shorter
      exact absurd shorter (Nat.lt_irrefl _)

section

variable (chipJson : ContextChip → Text)

theorem joinParts_concat (parts : List Text) (last : Text) :
    ∃ front, joinParts (parts ++ [last]) = front ++ last := by
  induction parts with
  | nil => exact ⟨[], by simp [joinParts, List.intercalate]⟩
  | cons part parts ih =>
      obtain ⟨front, eq⟩ := ih
      refine ⟨part ++ ['\n', '\n'] ++ front, ?_⟩
      have ne : parts ++ [last] ≠ [] := List.append_ne_nil_of_right_ne_nil _ (List.cons_ne_nil _ _)
      obtain ⟨head, rest, split⟩ := List.exists_cons_of_ne_nil ne
      rw [joinParts, split] at eq
      rw [joinParts, List.cons_append, split]
      rw [List.append_assoc, List.append_assoc, ← eq]
      simp [List.intercalate, List.intersperse]

/-- What is read back of a send is what is read back of the message alone. -/
theorem operatorMessage_compose (scope tail : Option Text) (chips : List ContextChip)
    (message : Text) :
    operatorMessage (compose chipJson scope tail chips message) = operatorMessage (trim message) := by
  unfold compose
  dsimp only
  split
  · rfl
  · obtain ⟨front, eq⟩ := joinParts_concat (preamble scope tail)
      (chipsBlock chipJson chips ++ trim message)
    have block : chipsBlock chipJson chips = contextOpen ++ ['\n'] ++
        chips.flatMap (fun chip => chipJson chip ++ ['\n']) ++ closeLine := by
      simp only [chipsBlock, closeLine, List.append_assoc]
    rw [eq, block, List.append_assoc _ closeLine, ← List.append_assoc front]
    exact operatorMessage_behind _ _

/-- The turn that a composed send adds. -/
theorem addTurn_compose {scope tail : Option Text} {chips : List ContextChip} {message : Text}
    (kept : operatorMessage (compose chipJson scope tail chips message) = trim message)
    (turns : List (TurnSide × Text)) :
    addTurn turns (.composerSend (compose chipJson scope tail chips message)) =
      if trim message = [] then turns else turns ++ [(.operator, trim message)] := by
  rw [addTurn, kept, trim_trim]

/-- **When a send is read back.**  Whatever the scope, the tail and the chips are: the message that
is read back, and the turn in the transcript, are what the operator wrote, if and only if the
message has no line that ends with the close of a block before another one. -/
theorem operatorMessage_compose_iff (scope tail : Option Text) (chips : List ContextChip)
    (message : Text) :
    (operatorMessage (compose chipJson scope tail chips message) = trim message ∧
        ∀ turns, addTurn turns (.composerSend (compose chipJson scope tail chips message)) =
          if trim message = [] then turns else turns ++ [(.operator, trim message)]) ↔
      ¬ closeLine <:+: trim message := by
  rw [← operatorMessage_eq_self, ← operatorMessage_compose chipJson scope tail chips message]
  exact ⟨fun h => h.1, fun h => ⟨h, addTurn_compose chipJson h⟩⟩

end

/-- A message that quotes the end of a block and goes on. -/
theorem operatorMessage_compose_fails :
    ¬ ∀ (chipJson : ContextChip → Text) (scope tail : Option Text) (chips : List ContextChip)
      (message : Text),
      operatorMessage (compose chipJson scope tail chips message) = trim message := by
  intro all
  exact absurd (all (fun _ => []) none none [] "a >>>\nb".toList) (by decide)

end Orgasmic
