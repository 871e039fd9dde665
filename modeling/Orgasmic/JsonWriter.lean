import Orgasmic.JsonText

/-! # Writing JSON text

The compact form of a JSON value: no white space, members in the order they are in, and in strings
an escape only where there has to be one.

* **Escaped bodies** (`Escaped`).  What stands between the quotes of a string: plain bytes and
  pairs of a backslash and any byte.  So a quote in a body always follows a backslash, and a text
  without quotes and backslashes that ends at a quote is the whole rest of the body
  (`Escaped.cut`).
* **Members.**  A member of an object stands in the object's text behind an opening brace or a
  comma (`write_object_append`). -/

namespace JsonText

/-- A digit of the lower-case hexadecimal alphabet. -/
def hexLower (n : UInt8) : UInt8 := if n < 10 then 48 + n else 87 + n

/-- The bytes that write a byte of a string. -/
def escapeByte (b : UInt8) : List UInt8 :=
  if b = 34 then [92, 34]
  else if b = 92 then [92, 92]
  else if b = 8 then [92, 98]
  else if b = 9 then [92, 116]
  else if b = 10 then [92, 110]
  else if b = 12 then [92, 102]
  else if b = 13 then [92, 114]
  else if b < 32 then [92, 117, 48, 48, hexLower (b / 16), hexLower (b % 16)]
  else [b]

/-- The text of a string between its quotes. -/
def body (text : List UInt8) : List UInt8 := text.flatMap escapeByte

def quoted (text : List UInt8) : List UInt8 := 34 :: (body text ++ [34])

mutual

def write : Json → List UInt8
  | .null => [110, 117, 108, 108]
  | .bool true => [116, 114, 117, 101]
  | .bool false => [102, 97, 108, 115, 101]
  | .number text => text
  | .string text => quoted text
  | .array [] => [91, 93]
  | .array (item :: items) => 91 :: (write item ++ writeItems items ++ [93])
  | .object [] => [123, 125]
  | .object (member :: members) => 123 :: (writeMember member ++ writeMembers members ++ [125])

def writeItems : List Json → List UInt8
  | [] => []
  | item :: items => 44 :: (write item ++ writeItems items)

def writeMember : Key × Json → List UInt8
  | (key, value) => quoted key.text ++ 58 :: write value

def writeMembers : List (Key × Json) → List UInt8
  | [] => []
  | member :: members => 44 :: (writeMember member ++ writeMembers members)

end

/-! ### Bodies of strings -/

/-- Plain bytes and pairs of a backslash and a byte. -/
inductive Escaped : List UInt8 → Prop
  | nil : Escaped []
  | plain {b : UInt8} {rest : List UInt8} (quote : b ≠ 34) (backslash : b ≠ 92) :
      Escaped rest → Escaped (b :: rest)
  | pair (b : UInt8) {rest : List UInt8} : Escaped rest → Escaped (92 :: b :: rest)

/-- No quote and no backslash. -/
def Plain (text : List UInt8) : Prop := ∀ b ∈ text, b ≠ 34 ∧ b ≠ 92

instance (text : List UInt8) : Decidable (Plain text) :=
  List.decidableBAll (fun b => b ≠ 34 ∧ b ≠ 92) text

theorem Escaped.append {s t : List UInt8} (hs : Escaped s) (ht : Escaped t) : Escaped (s ++ t) := by
  induction hs with
  | nil => exact ht
  | plain quote backslash _ ih => exact .plain quote backslash ih
  | pair b _ ih => exact .pair b ih

theorem Escaped.of_plain {text : List UInt8} (h : Plain text) : Escaped text := by
  induction text with
  | nil => exact .nil
  | cons b text ih =>
      obtain ⟨⟨quote, backslash⟩, rest⟩ := List.forall_mem_cons.mp h
      exact .plain quote backslash (ih rest)

/-- An escaped byte is plain, or a backslash with a byte behind it and plain bytes. -/
theorem escapeByte_shape (b : UInt8) : Plain ((escapeByte b).drop 2) ∧
    (Plain (escapeByte b) ∨ (escapeByte b).take 2 = [92, (escapeByte b).getD 1 0]) := by
  have tail : (List.range 256).all fun n => decide (Plain ((escapeByte (.ofNat n)).drop 2)) := by
    decide +kernel
  have first : (List.range 256).all fun n => decide (Plain (escapeByte (.ofNat n)) ∨
      (escapeByte (.ofNat n)).take 2 = [92, (escapeByte (.ofNat n)).getD 1 0]) := by
    decide +kernel
  have mem : b.toNat ∈ List.range 256 := List.mem_range.mpr b.toNat_lt
  have htail := of_decide_eq_true (List.all_eq_true.mp tail _ mem)
  have hfirst := of_decide_eq_true (List.all_eq_true.mp first _ mem)
  rw [UInt8.ofNat_toNat] at htail hfirst
  exact ⟨htail, hfirst⟩

theorem escaped_escapeByte (b : UInt8) : Escaped (escapeByte b) := by
  obtain ⟨tail, first⟩ := escapeByte_shape b
  obtain plain | pair := first
  · exact .of_plain plain
  · rw [← List.take_append_drop 2 (escapeByte b), pair]
    exact .pair _ (.of_plain tail)

theorem escaped_body (text : List UInt8) : Escaped (body text) := by
  induction text with
  | nil => exact .nil
  | cons b text ih =>
      rw [body, List.flatMap_cons]
      exact (escaped_escapeByte b).append ih

/-- A plain name that ends at a quote in a string is the rest of the string's body. -/
theorem Escaped.cut {rest name s t : List UInt8} (h : Escaped rest) (plain : Plain name)
    (eq : name ++ 34 :: s = rest ++ 34 :: t) : name = rest ∧ s = t := by
  induction h generalizing name with
  | nil =>
      cases name with
      | nil => exact ⟨rfl, (List.cons.inj eq).2⟩
      | cons b name => exact absurd (List.cons.inj eq).1 (plain b List.mem_cons_self).1
  | plain quote _ _ ih =>
      cases name with
      | nil => exact absurd (List.cons.inj eq).1.symm quote
      | cons b name =>
          obtain ⟨rfl, eq'⟩ := List.cons.inj eq
          obtain ⟨rfl, rfl⟩ := ih (List.forall_mem_cons.mp plain).2 eq'
          exact ⟨rfl, rfl⟩
  | pair b _ _ =>
      cases name with
      | nil => exact absurd (List.cons.inj eq).1 (by decide)
      | cons c name => exact absurd (List.cons.inj eq).1 (plain c List.mem_cons_self).2

/-! ### Members of an object -/

theorem writeMembers_append (front : List (Key × Json)) (member : Key × Json)
    (back : List (Key × Json)) :
    writeMembers (front ++ member :: back) =
      44 :: (front.flatMap (writeMember · ++ [44]) ++ (writeMember member ++ writeMembers back)) := by
  induction front with
  | nil => rfl
  | cons first front ih =>
      rw [List.cons_append, writeMembers, ih]
      simp only [List.flatMap_cons, List.append_assoc, List.cons_append, List.nil_append]

/-- Every member of an object follows a brace or a comma. -/
theorem write_object_append (front : List (Key × Json)) (member : Key × Json)
    (back : List (Key × Json)) :
    write (.object (front ++ member :: back)) =
      123 :: (front.flatMap (writeMember · ++ [44]) ++
        (writeMember member ++ (writeMembers back ++ [125]))) := by
  cases front with
  | nil => simp only [List.nil_append, write, List.flatMap_nil, List.append_assoc]
  | cons first front =>
      rw [List.cons_append, write, writeMembers_append]
      simp only [List.flatMap_cons, List.append_assoc, List.cons_append, List.nil_append]

end JsonText
