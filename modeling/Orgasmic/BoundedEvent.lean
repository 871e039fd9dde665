import Orgasmic.JsonWriter
import Orgasmic.LedgerHandles

/-! # Bounding driver events

What a session file keeps of the event of a driver.  Long strings are cut to a head that names their
digest, and subtrees that are still too large, or nested too deep, become digests.

* **Lengths** (`jsonLen`) are computed without writing the text.
* **Payloads.** `boundChild` is one child of a container, with the levels that are left below it; the
  sizes and statistics of the children are added up by `boundValueWith`.
* **Events** (`boundDriverEventPayload`).  An event that is too large as a whole gives up its members
  largest first, those that make it countable last.

A `serde_json` map is a list of members that keeps the order of insertion. -/

namespace Orgasmic

open Text JsonText

/-! ### Lengths -/

/-- `json_string_len`. -/
def jsonStringLen (text : Bytes) : ℕ :=
  2 + (text.map fun b =>
    if [34, 92, 10, 13, 9, 8, 12].contains b then 2 else if b < 0x20 then 6 else 1).sum

mutual

def jsonLen : Json → ℕ
  | .null => 4
  | .bool true => 4
  | .bool false => 5
  | .number text => text.length
  | .string text => jsonStringLen text
  | .array items => 2 + (items.length - 1) + itemsLen items
  | .object members => 2 + (members.length - 1) + membersLen members

def itemsLen : List Json → ℕ
  | [] => 0
  | item :: items => jsonLen item + itemsLen items

def membersLen : List (Key × Json) → ℕ
  | [] => 0
  | (key, value) :: members => jsonStringLen key.text + 1 + jsonLen value + membersLen members

end

/-- `json_len_of_object`. -/
def jsonLenOfObject (members : List (Key × Json)) : ℕ :=
  2 + (members.length - 1) + membersLen members

/-! ### Maps -/

/-- `Map::get`. -/
def mapGet (members : List (Key × Json)) (key : Bytes) : Option Json :=
  (members.find? (·.1.text = key)).map (·.2)

/-- `Map::insert`: the value of a key that is there is replaced where it stands. -/
def mapInsert (key : Bytes) (value : Json) : List (Key × Json) → List (Key × Json)
  | [] => [(⟨key, false⟩, value)]
  | m :: members =>
      if m.1.text = key then (m.1, value) :: members else m :: mapInsert key value members

mutual

/-- Every map in the value holds each key once, as `Map` does. -/
def DistinctKeys : Json → Prop
  | .array items => DistinctKeysAll items
  | .object members => (members.map (·.1.text)).Nodup ∧ DistinctKeysBelow members
  | _ => True

def DistinctKeysAll : List Json → Prop
  | [] => True
  | item :: items => DistinctKeys item ∧ DistinctKeysAll items

def DistinctKeysBelow : List (Key × Json) → Prop
  | [] => True
  | (_, value) :: members => DistinctKeys value ∧ DistinctKeysBelow members

end

theorem distinctKeys_array {items : List Json} (h : DistinctKeys (.array items)) :
    ∀ item ∈ items, DistinctKeys item := by
  rw [DistinctKeys] at h
  induction items with
  | nil => exact fun _ mem => absurd mem List.not_mem_nil
  | cons item items ih => exact List.forall_mem_cons.mpr ⟨h.1, ih h.2⟩

theorem distinctKeys_object {members : List (Key × Json)} (h : DistinctKeys (.object members)) :
    (members.map (·.1.text)).Nodup ∧ ∀ m ∈ members, DistinctKeys m.2 := by
  rw [DistinctKeys] at h
  refine ⟨h.1, ?_⟩
  replace h := h.2
  induction members with
  | nil => exact fun _ mem => absurd mem List.not_mem_nil
  | cons m members ih => exact List.forall_mem_cons.mpr ⟨h.1, ih h.2⟩

def jsonField (name : String) (value : Json) : Key × Json := (⟨utf8 name.toList, false⟩, value)

/-- A `u64` or `usize`, printed. -/
def decimalBytes (n : ℕ) : Bytes := utf8 (Nat.toDigits 10 (n % 2 ^ 64))

/-! ### Digests -/

structure BoundStats where
  boundedPayloads : ℕ := 0
  bytesElided : ℕ := 0
deriving DecidableEq, Repr

instance : Zero BoundStats := ⟨{}⟩

instance : Add BoundStats :=
  ⟨fun a b => ⟨a.boundedPayloads + b.boundedPayloads, a.bytesElided + b.bytesElided⟩⟩

/-- `BOUNDED_PAYLOAD_HEAD_BYTES`. -/
def boundedPayloadHeadBytes : ℕ := 2 * 1024

/-- `BOUNDED_SUFFIX`. -/
def boundedSuffix : Bytes := utf8 "_bounded".toList

/-- `BOUNDED_PAYLOAD_SOURCE`. -/
def boundedPayloadSource : Bytes :=
  utf8 "harness-native session transcript (vendor-owned; never copied by orgasmic)".toList

/-- `DRIVER_EVENT_PAYLOAD_CAP_BYTES`. -/
def driverEventPayloadCapBytes : ℕ := 16 * 1024

def driverEventTotalCap (payloadCap : ℕ) : ℕ := payloadCap * 4

/-- `BOUND_MAX_DEPTH`. -/
def boundMaxDepth : ℕ := 16

/-- `is_char_boundary`. -/
def isCharBoundary (text : Bytes) (index : ℕ) : Bool :=
  index = 0 || index = text.length ||
    (text.drop index).head?.any fun b => b < 128 || 192 ≤ b

/-- The loop of `char_boundary_at_or_below`. -/
def boundaryFrom (text : Bytes) : ℕ → ℕ
  | 0 => 0
  | index + 1 => if isCharBoundary text (index + 1) then index + 1 else boundaryFrom text index

def charBoundaryAtOrBelow (text : Bytes) (index : ℕ) : ℕ :=
  if text.length ≤ index then text.length else boundaryFrom text index

section

-- `Sha256::digest`
variable (sha256 : Bytes → Vector UInt8 32)

def hexSha256 (bytes : Bytes) : Bytes :=
  (sha256 bytes).toList.flatMap fun b => [hexLower (b / 16), hexLower (b % 16)]

/-- The first bytes of a long string. -/
def retainedHead (text : Bytes) : Bytes :=
  text.take (charBoundaryAtOrBelow text boundedPayloadHeadBytes)

/-- The retained head of a long string, with the marker behind it. -/
def boundedHead (text : Bytes) : Bytes :=
  retainedHead text ++ utf8 "…[orgasmic-bounded: ".toList ++ decimalBytes text.length ++
    utf8 " bytes, sha256 ".toList ++ hexSha256 sha256 text ++ utf8 ", retained ".toList ++
    decimalBytes (charBoundaryAtOrBelow text boundedPayloadHeadBytes) ++
    utf8 "; full payload stays in the ".toList ++ boundedPayloadSource ++ utf8 "]".toList

/-- The digest that stands beside a long string. -/
def siblingDigest (text : Bytes) : Json :=
  .object [jsonField "bytes" (.number (decimalBytes text.length)),
    jsonField "sha256" (.string (hexSha256 sha256 text)),
    jsonField "retained_bytes"
      (.number (decimalBytes (charBoundaryAtOrBelow text boundedPayloadHeadBytes))),
    jsonField "source" (.string boundedPayloadSource)]

def digestPayload (text : Bytes) : Bytes × Json := (boundedHead sha256 text, siblingDigest sha256 text)

inductive DigestReason where
  | depth
  | subtreeSize
  | eventSize
deriving DecidableEq, Repr

def DigestReason.name : DigestReason → Bytes
  | depth => utf8 "depth".toList
  | subtreeSize => utf8 "subtree-size".toList
  | eventSize => utf8 "event-size".toList

/-- The value that `digest_subtree` leaves. -/
def digestOf (reason : DigestReason) (value : Json) : Json :=
  .object [jsonField "orgasmic_bounded" (.object
    [jsonField "bytes" (.number (decimalBytes (write value).length)),
      jsonField "sha256" (.string (hexSha256 sha256 (write value))),
      jsonField "retained_bytes" (.number (decimalBytes 0)),
      jsonField "reason" (.string reason.name),
      jsonField "source" (.string boundedPayloadSource)])]

/-- A value that was bounded, its serialized length, and what was elided. -/
structure BoundedValue where
  value : Json
  size : ℕ
  stats : BoundStats := 0

def digestSubtree (reason : DigestReason) (value : Json) : BoundedValue :=
  ⟨digestOf sha256 reason value, jsonLen (digestOf sha256 reason value),
    ⟨1, (write value).length⟩⟩

/-- `is_bounded_marker`. -/
def isBoundedMarker : Json → Bool
  | .object [m] => m.1.text = utf8 "orgasmic_bounded".toList
  | _ => false

/-! ### Payloads -/

/-- A child of a container, with the digest that is to stand beside it. -/
structure BoundedChild extends BoundedValue where
  digest : Option Json := none

variable (cap : ℕ)

/-- The siblings that the children of an object publish. -/
def siblingDigests (children : List (Key × BoundedChild)) : List (Bytes × Json) :=
  children.filterMap fun c => c.2.digest.map fun digest => (c.1.text ++ boundedSuffix, digest)

/-- `bound_value` over a way to bound children. -/
def boundValueWith (child : Json → BoundedChild) : Json → BoundedValue
  | .object members =>
      let children := members.map fun m => (m.1, child m.2)
      let digests := siblingDigests children
      { value := .object (digests.foldl (fun map d => mapInsert d.1 d.2 map)
          (children.map fun c => (c.1, c.2.value)))
        size := 2 + (members.length - 1) +
          (children.map fun c => jsonStringLen c.1.text + 1 + c.2.size).sum +
          (digests.map fun d => jsonStringLen d.1 + 2 + jsonLen d.2).sum
        stats := (children.map fun c => c.2.stats).sum }
  | .array items =>
      let children := items.map child
      { value := .array (children.map fun c => c.value)
        size := 2 + (items.length - 1) + (children.map fun c => c.size).sum
        stats := (children.map fun c => c.stats).sum }
  | other => ⟨other, jsonLen other, 0⟩

/-- `bound_child` at depth `BOUND_MAX_DEPTH - levels`. -/
def boundChild : ℕ → Json → BoundedChild
  | levels, child =>
      if isBoundedMarker child then { value := child, size := jsonLen child }
      else match levels with
        | 0 => { digestSubtree sha256 .depth child with }
        | levels + 1 =>
            match child with
            | .string text =>
                if cap < text.length then
                  { value := .string (digestPayload sha256 text).1
                    size := jsonStringLen (digestPayload sha256 text).1
                    stats := ⟨1, text.length - (digestPayload sha256 text).1.length⟩
                    digest := some (digestPayload sha256 text).2 }
                else { value := .string text, size := jsonStringLen text }
            | .object members =>
                let bounded := boundValueWith (boundChild levels) (.object members)
                if cap < bounded.size then
                  { digestSubtree sha256 .subtreeSize bounded.value with
                    stats := bounded.stats + (digestSubtree sha256 .subtreeSize bounded.value).stats }
                else { bounded with }
            | .array items =>
                let bounded := boundValueWith (boundChild levels) (.array items)
                if cap < bounded.size then
                  { digestSubtree sha256 .subtreeSize bounded.value with
                    stats := bounded.stats + (digestSubtree sha256 .subtreeSize bounded.value).stats }
                else { bounded with }
            | other => { value := other, size := jsonLen other }

/-- `bound_value`. -/
def boundValue (depth : ℕ) : Json → BoundedValue :=
  boundValueWith (boundChild sha256 cap (boundMaxDepth - (depth + 1)))

/-! ### Events -/

/-- `STRUCTURAL_KEYS`. -/
def structuralKeys : List Bytes :=
  [utf8 "type".toList, utf8 "call_id".toList, utf8 "name".toList, utf8 "ok".toList,
    utf8 "seq".toList, utf8 "stream".toList, utf8 "phase".toList, utf8 "protocol_version".toList]

/-- The members that are not structural, largest first. -/
def elisionOrder (members : List (Key × Json)) : List (Bytes × ℕ) :=
  ((members.filter (·.1.text ∉ structuralKeys)).map fun m => (m.1.text, jsonLen m.2)).mergeSort
    fun a b => b.2 < a.2 || (a.2 = b.2 && a.1 ≤ b.1)

/-- An event underway to its budget. -/
structure Elision where
  members : List (Key × Json)
  current : ℕ
  stats : BoundStats := 0

/-- One turn of the loop of `bound_whole_event`, which ends when the event fits. -/
def elideStep (totalCap : ℕ) (e : Elision) (entry : Bytes × ℕ) : Elision :=
  if e.current ≤ totalCap then e
  else match mapGet e.members entry.1 with
    | none => e
    | some child =>
        let digest := digestSubtree sha256 .eventSize child
        { members := mapInsert entry.1 digest.value e.members
          current := e.current - entry.2 + digest.size
          stats := e.stats + digest.stats }

def typeKeyword : Bytes := utf8 "type".toList

/-- The whole event as a digest, with its type. -/
def digestEvent (value : Json) (type : Option Json) : BoundedValue :=
  let digest := digestSubtree sha256 .eventSize value
  match type, digest.value with
  | some type, .object map =>
      { digest with
        value := .object (mapInsert typeKeyword type map)
        size := digest.size + jsonStringLen typeKeyword + 2 + jsonLen type }
  | _, _ => digest

def boundWholeEvent (totalCap : ℕ) : Json → BoundedValue
  | .object members =>
      let e := (elisionOrder members).foldl (elideStep sha256 totalCap)
        ⟨members, jsonLenOfObject members, 0⟩
      if e.current ≤ totalCap then ⟨.object e.members, e.current, e.stats⟩
      else
        let digest := digestEvent sha256 (.object e.members) (mapGet e.members typeKeyword)
        { digest with stats := e.stats + digest.stats }
  | value => digestSubtree sha256 .eventSize value

structure BoundedDriverEvent where
  value : Json
  boundedPayloads : ℕ
  bytesElided : ℕ

def boundDriverEventPayload (event : Json) : BoundedDriverEvent :=
  let bounded := boundValue sha256 cap 0 event
  if driverEventTotalCap cap < bounded.size then
    let whole := boundWholeEvent sha256 (driverEventTotalCap cap) bounded.value
    let stats := bounded.stats + whole.stats
    ⟨whole.value, stats.boundedPayloads, stats.bytesElided⟩
  else ⟨bounded.value, bounded.stats.boundedPayloads, bounded.stats.bytesElided⟩

end

end Orgasmic
