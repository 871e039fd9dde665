import Orgasmic.LinksKept
import Orgasmic.ResumableUpload

/-! # The integrity of resumable uploads

* **Slices.** The chunks are slices of one file `F` at the offsets that they claim; the payload is
  always a prefix of it.
* **Records.** The writer's memory and the records of the node let one record in.
* **Retries.** Once the record is there a finish answers it, whatever failed behind it. -/

namespace Orgasmic

open Text Interleaving

namespace Resumable

/-! ### Bytes -/

theorem writeAt_end (file bytes : Bytes) : writeAt file file.length bytes = file ++ bytes := by
  rw [writeAt, List.take_length, Nat.sub_self, List.replicate_zero, List.append_nil,
    List.drop_eq_nil_of_le (by omega), List.append_nil]

theorem setLen_le {file : Bytes} {length : ℕ} (h : length ≤ file.length) :
    setLen file length = file.take length := by
  rw [setLen, Nat.sub_eq_zero_of_le h, List.replicate_zero, List.append_nil]

/-- A prefix goes on with a part of a slice that stands behind it. -/
theorem slice_extend {F p bytes : Bytes} {offset written count : ℕ} (before : p <+: F)
    (slice : bytes <+: F.drop offset) (length : p.length = offset + written) :
    p ++ (bytes.drop written).take count <+: F := by
  obtain ⟨rest, rfl⟩ := before
  refine (List.prefix_append_right_inj p).mpr ?_
  have behind : bytes.drop written <+: rest := by
    have cut := slice.drop written
    rwa [List.drop_drop, ← length, List.drop_left] at cut
  exact (List.take_prefix _ _).trans behind

theorem checkedAdd_any {offset : UInt64} {length size : ℕ}
    (h : (checkedAdd offset length).any (· ≤ size) = true) : offset.toNat + length ≤ size := by
  unfold checkedAdd at h
  split at h
  · exact of_decide_eq_true h
  · cases h

/-! ### The attachments of a node -/

/-- `attachments.org` of the node has this record under the id. -/
def Found (id : Text) (attachments : Text → Text) (node : Text) (r : AttachmentRecord) : Prop :=
  ∃ assets, readAttachments (attachments node) = .ok assets ∧ r ∈ assets ∧ r.id = id

theorem isValue_of_isUuid {id : Text} (h : isUuid id = true) : IsValue id := by
  unfold isUuid at h
  rw [Bool.and_eq_true, List.all_eq_true] at h
  have inked : ∀ c ∈ id, isWhitespace c = false := by
    intro c mem
    obtain ⟨i, hi⟩ := List.mem_iff_getElem?.mp mem
    have char := h.2 (c, i) (List.mem_zipIdx_iff_getElem?.mpr hi)
    split at char
    · have hyphen : c = '-' := of_decide_eq_true char
      rw [hyphen]
      decide
    · have digits : "0123456789abcdefABCDEF".toList.all (fun c => isWhitespace c = false) = true := by
        decide
      exact of_decide_eq_true (List.all_eq_true.mp digits c (of_decide_eq_true char))
  refine ⟨fun mem => absurd (inked _ mem) (by decide), trim_of_inked inked⟩

/-- **What the transform writes**: the records that were there, and perhaps the new one. -/
theorem attachTransform_spec {next : AttachmentRecord} {source text : Text} (fits : next.Fits)
    (h : attachTransform next source = .ok text) :
    ∃ assets, readAttachments source = .ok assets ∧
      ((∃ old ∈ assets, old.id = next.id ∧ old.revision = next.revision ∧
          readAttachments text = .ok assets) ∨
        ((∀ r ∈ assets, r.id ≠ next.id) ∧
          readAttachments text = .ok (assets ++ [next.normalized]))) := by
  unfold attachTransform at h
  obtain ⟨assets, read, h⟩ := of_bind_ok h
  have stable := readAttachments_stable read
  refine ⟨assets, read, ?_⟩
  split at h
  · next old found =>
      have named : old.id = next.id := by
        simpa only [decide_eq_true_eq] using List.find?_some found
      split at h
      · next same =>
          cases h
          exact Or.inl ⟨old, List.mem_of_find?_eq_some found, named, same,
            readAttachments_render_stable stable⟩
      · cases h
  · next absent =>
      cases h
      refine Or.inr ⟨fun r mem named => ?_, ?_⟩
      · exact absurd (decide_eq_true named) (List.find?_eq_none.mp absent r mem)
      · have all : ∀ r ∈ assets ++ [next], r.Fits :=
          List.forall_mem_append.mpr ⟨fun r mem => (stable r mem).1,
            List.forall_mem_singleton.mpr fits⟩
        have same : assets.map AttachmentRecord.normalized = assets := by
          conv_rhs => rw [← List.map_id assets]
          exact List.map_congr_left fun r mem => (stable r mem).2
        rw [readAttachments_render all, List.map_append, same, List.map_singleton]

/-! ### The ledger -/

section

variable (digest : Bytes → Digest) (id : Text) (F : Bytes) (N : UInt64)

/-- The record is of all of what was declared. -/
structure Whole (r : AttachmentRecord) : Prop where
  size : r.size = N
  revision : r.revision = (digest (F.take N.toNat)).val
  complete : N.toNat ≤ F.length

/-- What the nodes and the writer know of the upload. -/
structure LedgerOk (attachments : Text → Text) (remembered : Option Digest) : Prop where
  once : ∀ node assets, readAttachments (attachments node) = .ok assets →
    assets.countP (·.id = id) ≤ 1
  single : ∀ node r node' r', Found id attachments node r → Found id attachments node' r' →
    node = node' ∧ r = r'
  known : ∀ node r, Found id attachments node r →
    ∃ revision, remembered = some revision ∧ r.revision = revision.val
  written : ∀ revision, remembered = some revision → ∃ node r, Found id attachments node r
  whole : ∀ node r, Found id attachments node r → Whole digest F N r

end

section

variable {digest : Bytes → Digest} {id : Text} {F : Bytes} {N : UInt64}
  {attachments : Text → Text} {remembered : Option Digest} {node : Text}

theorem found_update_of_ne {text other : Text} {r : AttachmentRecord} (h : other ≠ node) :
    Found id (Function.update attachments node text) other r ↔ Found id attachments other r := by
  rw [Found, Function.update_of_ne h, Found]

theorem found_update {text : Text} {r : AttachmentRecord} {assets : List AttachmentRecord}
    (read : readAttachments text = .ok assets) :
    Found id (Function.update attachments node text) node r ↔ r ∈ assets ∧ r.id = id := by
  rw [Found, Function.update_self, read]
  exact ⟨fun ⟨_, same, mem, named⟩ => by cases same; exact ⟨mem, named⟩,
    fun ⟨mem, named⟩ => ⟨assets, rfl, mem, named⟩⟩

/-- A text that has the same records under the id leaves the ledger as it is. -/
theorem found_update_same {text : Text} {assets records : List AttachmentRecord}
    (before : readAttachments (attachments node) = .ok assets)
    (after : readAttachments text = .ok records)
    (same : ∀ r, r.id = id → (r ∈ records ↔ r ∈ assets)) (other : Text) (r : AttachmentRecord) :
    Found id (Function.update attachments node text) other r ↔ Found id attachments other r := by
  by_cases here : other = node
  · subst here
    rw [found_update after]
    constructor
    · exact fun ⟨mem, named⟩ => ⟨assets, before, (same r named).mp mem, named⟩
    · rintro ⟨assets', read, mem, named⟩
      obtain rfl : assets = assets' := Except.ok.inj (before.symm.trans read)
      exact ⟨(same r named).mpr mem, named⟩
  · exact found_update_of_ne here

theorem LedgerOk.same (h : LedgerOk digest id F N attachments remembered) {text : Text}
    {assets records : List AttachmentRecord}
    (before : readAttachments (attachments node) = .ok assets)
    (after : readAttachments text = .ok records)
    (filtered : records.filter (·.id = id) = assets.filter (·.id = id)) :
    LedgerOk digest id F N (Function.update attachments node text) remembered ∧
      ∀ other r, Found id (Function.update attachments node text) other r ↔
        Found id attachments other r := by
  have same : ∀ r, r.id = id → (r ∈ records ↔ r ∈ assets) := by
    intro r named
    have mem : ∀ l : List AttachmentRecord, r ∈ l.filter (·.id = id) ↔ r ∈ l := by
      intro l
      rw [List.mem_filter]
      exact and_iff_left (decide_eq_true named)
    rw [← mem records, filtered, mem]
  have iff := found_update_same before after same
  refine ⟨⟨fun other list read => ?_, fun node r node' r' found found' => ?_,
    fun node r found => ?_, fun revision known => ?_, fun node r found => ?_⟩, iff⟩
  · by_cases here : other = node
    · subst here
      rw [Function.update_self, after] at read
      cases read
      rw [List.countP_eq_length_filter, filtered, ← List.countP_eq_length_filter]
      exact h.once other assets before
    · rw [Function.update_of_ne here] at read
      exact h.once other list read
  · exact h.single node r node' r' ((iff node r).mp found) ((iff node' r').mp found')
  · exact h.known node r ((iff node r).mp found)
  · obtain ⟨node, r, found⟩ := h.written revision known
    exact ⟨node, r, (iff node r).mpr found⟩
  · exact h.whole node r ((iff node r).mp found)

/-- The first record that is written under the id. -/
theorem LedgerOk.first (none_there : ∀ node r, ¬Found id attachments node r) {text : Text}
    {assets : List AttachmentRecord} {record : AttachmentRecord} {revision : Digest}
    (before : readAttachments (attachments node) = .ok assets)
    (after : readAttachments text = .ok (assets ++ [record]))
    (once : ∀ node assets, readAttachments (attachments node) = .ok assets →
      assets.countP (·.id = id) ≤ 1)
    (named : record.id = id) (whole : Whole digest F N record)
    (same : record.revision = revision.val) :
    LedgerOk digest id F N (Function.update attachments node text) (some revision) ∧
      Found id (Function.update attachments node text) node record := by
  have absent : ∀ r ∈ assets, r.id ≠ id :=
    fun r mem named => none_there node r ⟨assets, before, mem, named⟩
  have only : ∀ other r, Found id (Function.update attachments node text) other r →
      other = node ∧ r = record := by
    intro other r found
    by_cases here : other = node
    · subst here
      obtain ⟨mem, hid⟩ := (found_update after).mp found
      obtain inside | last := List.mem_append.mp mem
      · exact absurd hid (absent r inside)
      · exact ⟨rfl, List.mem_singleton.mp last⟩
    · exact absurd ((found_update_of_ne here).mp found) (none_there other r)
  have there : Found id (Function.update attachments node text) node record :=
    (found_update after).mpr ⟨List.mem_append_right _ (List.mem_singleton_self _), named⟩
  refine ⟨⟨fun other list read => ?_, fun node r node' r' found found' => ?_,
    fun node r found => ?_, fun _ _ => ⟨node, record, there⟩, fun node r found => ?_⟩, there⟩
  · by_cases here : other = node
    · subst here
      rw [Function.update_self, after] at read
      cases read
      have zero : assets.countP (·.id = id) = 0 :=
        List.countP_eq_zero.mpr fun r mem => by simpa only [decide_eq_true_eq] using absent r mem
      rw [List.countP_append, zero, List.countP_singleton]
      split <;> omega
    · rw [Function.update_of_ne here] at read
      exact once other list read
  · obtain ⟨rfl, rfl⟩ := only node r found
    obtain ⟨rfl, rfl⟩ := only node' r' found'
    exact ⟨rfl, rfl⟩
  · obtain ⟨-, rfl⟩ := only node r found
    exact ⟨revision, rfl, same⟩
  · obtain ⟨-, rfl⟩ := only node r found
    exact whole

end

/-! ### The invariant -/

section

variable (digest : Bytes → Digest) (id : Text) (F : Bytes) (N : UInt64)

/-- What is right about a `state.json`. -/
structure UploadOk (attachments : Text → Text) (u : Upload) : Prop where
  size : u.size = N
  node : OneLine u.node
  name : OneLine u.name
  mediaType : OneLine u.mediaType
  complete : ∀ r, u.complete = some r → Found id attachments u.node r

structure PayloadOk (payload : Option Bytes) : Prop where
  front : ∀ p, payload = some p → p <+: F
  bounded : ∀ p, payload = some p → p.length ≤ N.toNat

/-- All of what was declared is there. -/
def Full (payload : Option Bytes) : Prop := payload = some (F.take N.toNat) ∧ N.toNat ≤ F.length

/-- The finish has verified the payload. -/
structure Verified (payload : Option Bytes) (u : Upload) : Prop where
  full : Full F N payload
  signature : signatureFits (F.take N.toNat) u.mediaType = true

def FinishOk (s : State) (u : Upload) : FinishPhase → Prop
  | .loaded => s.upload = some u
  | .verified revision =>
      s.upload = some u ∧ Verified F N s.payload u ∧ revision = digest (F.take N.toNat)
  | .published revision =>
      s.upload = some u ∧ Verified F N s.payload u ∧ revision = digest (F.take N.toNat)
  | .committed => s.upload = some u ∧ Verified F N s.payload u
  | .recorded r => s.upload = some u ∧ Verified F N s.payload u ∧ Found id s.attachments u.node r
  | .saved r => s.upload = some { u with complete := some r } ∧ Verified F N s.payload u ∧
      Found id s.attachments u.node r

/-- The chunk is a slice of the file and fits. -/
structure Slice (offset : UInt64) (bytes : Bytes) : Prop where
  slice : bytes <+: F.drop offset.toNat
  fits : offset.toNat + bytes.length ≤ N.toNat
  nonempty : bytes ≠ []

/-- The payload stands where the write is. -/
def WriteOk (payload : Option Bytes) (offset : UInt64) (bytes : Bytes) (written : ℕ) : Prop :=
  written ≤ bytes.length ∧ ∃ p, payload = some p ∧ p.length = offset.toNat + written

/-- There is a `state.json`, and it is not complete. -/
def Unfinished (upload : Option Upload) : Prop := ∃ u, upload = some u ∧ u.complete = none

/-- What a request on the upload relies on; its lock keeps the `state.json` for it. -/
def CallOk (s : State) : Option Call → Prop
  | none => True
  | some (.put offset bytes) => Unfinished s.upload ∧ Slice F N offset bytes
  | some (.writing offset bytes written) =>
      Unfinished s.upload ∧ Slice F N offset bytes ∧ WriteOk s.payload offset bytes written
  | some .cancel => True
  | some (.finish u phase) =>
      UploadOk id N s.attachments u ∧ u.complete = none ∧ FinishOk digest id F N s u phase

def StartOk (s : State) : Option StartCall → Prop
  | none => True
  | some ⟨u, .vacant⟩ => s.upload = none ∧ UploadOk id N s.attachments u ∧ u.complete = none
  | some ⟨u, .created⟩ => s.upload = none ∧ UploadOk id N s.attachments u ∧ u.complete = none
  | some ⟨_, .seen u⟩ => UploadOk id N s.attachments u

structure Sound (s : State) : Prop where
  ledger : LedgerOk digest id F N s.attachments s.remembered
  payload : PayloadOk F N s.payload
  upload : ∀ u, s.upload = some u → UploadOk id N s.attachments u
  call : CallOk digest id F N s s.call
  start : StartOk id N s s.start

/-- The requests upload slices of the file, with its size declared; other uploads write their own
records. -/
def OfFile : Action → Prop
  | .startLock _ u => u.size = N
  | .putLock _ offset bytes _ => bytes <+: F.drop offset.toNat
  | .otherCommit _ next => next.Fits ∧ IsValue next.id ∧ next.id ≠ id
  | _ => True

/-- What an answer may say, by the states before and after it. -/
def AnswerOk (s t : State) : Answer → Prop
  | .offset offset => (∃ p, t.payload = some p ∧ offset = p.length) ∨
      (offset = N.toNat ∧ ∃ node r, Found id t.attachments node r)
  | .record r => (∃ node, Found id t.attachments node r) ∧
      (Full F N s.payload ∨ ∃ u, s.upload = some u ∧ u.complete = some r)
  | .cancelled => True
  | .failed => True

/-- An action keeps the invariant and the records, and answers what it may. -/
structure Goes (s t : State) (answer : Option Answer) : Prop where
  sound : Sound digest id F N t
  kept : ∀ node r, Found id s.attachments node r → Found id t.attachments node r
  answered : ∀ a, answer = some a → AnswerOk id F N s t a

end

section

variable {digest : Bytes → Digest} {id : Text} {F : Bytes} {N : UInt64} {s t : State}
  {answer : Option Answer}

theorem PayloadOk.none_there : PayloadOk F N none := ⟨nofun, nofun⟩

/-- A payload of the declared length is all of it. -/
theorem PayloadOk.full {p : Bytes} (h : PayloadOk F N (some p)) (length : p.length = N.toNat) :
    Full F N (some p) ∧ p = F.take N.toNat := by
  have front := h.front p rfl
  have eq : p = F.take N.toNat := by
    rw [← length]
    exact List.prefix_iff_eq_take.mp front
  exact ⟨⟨congrArg some eq, length ▸ front.length_le⟩, eq⟩

/-- The action answers nothing of its own, or that it failed. -/
theorem answered_failed (a : Answer) (h : some Answer.failed = some a) : AnswerOk id F N s t a := by
  cases h
  trivial

/-- A refusal changes nothing. -/
theorem Sound.refused (h : Sound digest id F N s) : Goes digest id F N s s (some .failed) :=
  ⟨h, fun _ _ found => found, answered_failed⟩

theorem Sound.setStart (h : Sound digest id F N s) {start : Option StartCall}
    (ok : StartOk id N s start) : Sound digest id F N (s.setStart start) :=
  ⟨h.ledger, h.payload, h.upload, h.call, ok⟩

theorem Sound.setCall (h : Sound digest id F N s) {call : Option Call}
    (ok : CallOk digest id F N s call) : Sound digest id F N (s.setCall call) :=
  ⟨h.ledger, h.payload, h.upload, ok, h.start⟩

/-- The upload's request fails. -/
theorem Sound.ended (h : Sound digest id F N s) :
    Goes digest id F N s (s.setCall none) (some .failed) :=
  ⟨h.setCall trivial, fun _ _ found => found, answered_failed⟩

/-- A request that relies on the `state.json` runs only while it is there. -/
theorem Sound.idle (h : Sound digest id F N s) (absent : s.upload = none) :
    s.call = none ∨ s.call = some .cancel := by
  have ok := h.call
  cases call : s.call with
  | none => exact Or.inl rfl
  | some c =>
      rw [call] at ok
      cases c with
      | put offset bytes =>
          obtain ⟨⟨u, there, -⟩, -⟩ := ok
          exact nomatch absent.symm.trans there
      | writing offset bytes written =>
          obtain ⟨⟨u, there, -⟩, -⟩ := ok
          exact nomatch absent.symm.trans there
      | cancel => exact Or.inr rfl
      | finish u phase =>
          obtain ⟨-, -, rest⟩ := ok
          cases phase with
          | loaded => exact nomatch absent.symm.trans rest
          | verified revision => exact nomatch absent.symm.trans rest.1
          | published revision => exact nomatch absent.symm.trans rest.1
          | committed => exact nomatch absent.symm.trans rest.1
          | recorded r => exact nomatch absent.symm.trans rest.1
          | saved r => exact nomatch absent.symm.trans rest.1

/-- What a start relies on. -/
theorem StartOk.trans {start : Option StartCall} (h : StartOk id N s start)
    (absent : s.upload = none → t.upload = none) (same : t.attachments = s.attachments) :
    StartOk id N t start := by
  cases start with
  | none => trivial
  | some call =>
      obtain ⟨u, phase⟩ := call
      cases phase with
      | vacant => exact ⟨absent h.1, same ▸ h.2.1, h.2.2⟩
      | created => exact ⟨absent h.1, same ▸ h.2.1, h.2.2⟩
      | seen saved =>
          have ok : UploadOk id N s.attachments saved := h
          rw [← same] at ok
          exact ok

theorem callOk_of_idle (h : s.call = none ∨ s.call = some .cancel) :
    CallOk digest id F N t s.call := by
  obtain idle | idle := h
  · rw [idle]
    trivial
  · rw [idle]
    trivial

theorem view_answer {u : Upload} (ok : UploadOk id N s.attachments u) :
    AnswerOk id F N s s (s.view u) := by
  unfold State.view
  split
  · next complete =>
      obtain ⟨r, done⟩ := Option.isSome_iff_exists.mp complete
      exact Or.inr ⟨by rw [ok.size], u.node, r, ok.complete r done⟩
  · split
    · next payload there => exact Or.inl ⟨payload, there, rfl⟩
    · trivial

/-! ### The start -/

theorem uploadOk_of_acceptable {attachments : Text → Text} {nodeText : Text} {u : Upload}
    (found : nodeFound u.node nodeText = true) (acceptable : u.acceptable = true)
    (size : u.size = N) : UploadOk id N attachments { u with complete := none } := by
  unfold Upload.acceptable at acceptable
  simp only [Bool.and_eq_true, decide_eq_true_eq] at acceptable
  obtain ⟨⟨⟨⟨line, -⟩, -⟩, -⟩, media⟩ := acceptable
  have types : ∀ t ∈ mediaTypes, OneLine t := by decide
  refine ⟨size, (isValue_of_nodeFound found).oneLine, ?_, types _ media, nofun⟩
  unfold singleLine at line
  rw [Bool.not_eq_true', Bool.or_eq_false_iff] at line
  exact oneLine_of_no_control line.2

theorem Sound.actStart (h : Sound digest id F N s) {a : Action} (ofFile : OfFile id F N a)
    (act : s.actStart a = some (t, answer)) : Goes digest id F N s t answer := by
  cases a with
  | startLock nodeText u =>
    unfold State.actStart at act
    dsimp only at act
    split_ifs at act with busy refused
    · cases act
      exact h.refused
    · rw [Bool.or_eq_true, not_or, Bool.not_eq_true', Bool.not_eq_true', Bool.not_eq_false,
        Bool.not_eq_false] at refused
      split at act
      · next absent =>
          cases act
          refine ⟨h.setStart ⟨absent, ?_, rfl⟩, fun _ _ found => found, nofun⟩
          exact uploadOk_of_acceptable refused.1 refused.2 ofFile
      · next saved there =>
          split_ifs at act
          · cases act
            exact ⟨h.setStart (h.upload saved there), fun _ _ found => found, nofun⟩
          · cases act
            exact h.refused
  | startCreate =>
    unfold State.actStart at act
    dsimp only at act
    split at act
    · next u begun =>
        have ok := h.start
        rw [begun] at ok
        split_ifs at act with there
        · cases act
          exact ⟨h.setStart trivial, fun _ _ found => found, answered_failed⟩
        · cases act
          have empty : PayloadOk F N (some []) := by
            refine ⟨?_, ?_⟩
            · rintro _ ⟨⟩
              exact List.nil_prefix
            · rintro _ ⟨⟩
              exact Nat.zero_le _
          exact ⟨⟨h.ledger, empty, h.upload, callOk_of_idle (h.idle ok.1), ok⟩,
            fun _ _ found => found, nofun⟩
    · cases act
  | startSave =>
    unfold State.actStart at act
    dsimp only at act
    split at act
    · next u created =>
        cases act
        have ok := h.start
        rw [created] at ok
        refine ⟨⟨h.ledger, h.payload, ?_, callOk_of_idle (h.idle ok.1), ok.2.1⟩,
          fun _ _ found => found, nofun⟩
        rintro _ ⟨⟩
        exact ok.2.1
    · cases act
  | startClean =>
    unfold State.actStart at act
    dsimp only at act
    split at act
    · next u created =>
        cases act
        have ok := h.start
        rw [created] at ok
        exact ⟨⟨h.ledger, .none_there, nofun, callOk_of_idle (h.idle ok.1), trivial⟩,
          fun _ _ found => found, answered_failed⟩
    · cases act
  | startView =>
    unfold State.actStart at act
    dsimp only at act
    split at act
    · next u seen =>
        cases act
        have ok := h.start
        rw [seen] at ok
        refine ⟨h.setStart trivial, fun _ _ found => found, ?_⟩
        rintro _ ⟨⟩
        exact view_answer ok
    · cases act
  | startFail =>
    unfold State.actStart at act
    dsimp only at act
    split_ifs at act
    cases act
    exact ⟨h.setStart trivial, fun _ _ found => found, answered_failed⟩
  | _ => cases act

/-! ### The chunks -/

theorem chunkFits_slice {u : Upload} {offset : UInt64} {bytes : Bytes} {checksum : Option Text}
    (slice : bytes <+: F.drop offset.toNat) (size : u.size = N)
    (fits : chunkFits digest u offset bytes checksum = true) : Slice F N offset bytes := by
  unfold chunkFits at fits
  simp only [Bool.and_eq_true, decide_eq_true_eq] at fits
  obtain ⟨⟨⟨nonempty, -⟩, inside⟩, -⟩ := fits
  rw [size] at inside
  exact ⟨slice, checkedAdd_any inside, nonempty⟩

theorem load_eq_some {actor : Text} {u : Upload} (h : s.load actor = some u) :
    s.upload = some u ∧ u.actor = actor := by
  obtain ⟨there, same⟩ := Option.filter_eq_some_iff.mp h
  exact ⟨there, of_decide_eq_true same⟩

/-- A payload that is written on stays a prefix of the file. -/
theorem Sound.write (h : Sound digest id F N s) {offset : UInt64} {bytes p : Bytes} {written : ℕ}
    (slice : Slice F N offset bytes) (there : s.payload = some p)
    (length : p.length = offset.toNat + written) (written_le : written ≤ bytes.length) (count : ℕ) :
    PayloadOk F N (some (writeAt p (offset.toNat + written) ((bytes.drop written).take count))) ∧
      WriteOk (some (writeAt p (offset.toNat + written) ((bytes.drop written).take count))) offset
        bytes (written + ((bytes.drop written).take count).length) := by
  rw [← length, writeAt_end]
  have part : ((bytes.drop written).take count).length ≤ bytes.length - written := by
    rw [List.length_take, List.length_drop]
    exact min_le_right _ _
  have fits := slice.fits
  refine ⟨⟨?_, ?_⟩, by omega, _, rfl, by rw [List.length_append, length, Nat.add_assoc]⟩
  · rintro _ ⟨⟩
    exact slice_extend (h.payload.front p there) slice.slice length
  · rintro _ ⟨⟩
    rw [List.length_append]
    omega

theorem Sound.actPut (h : Sound digest id F N s) {a : Action} (ofFile : OfFile id F N a)
    (act : s.actPut digest a = some (t, answer)) : Goes digest id F N s t answer := by
  cases a with
  | putLock actor offset bytes checksum =>
    unfold State.actPut at act
    dsimp only at act
    split_ifs at act
    split at act
    · cases act
      exact h.refused
    · next u loaded =>
        obtain ⟨there, -⟩ := load_eq_some loaded
        split_ifs at act with refused
        · cases act
          exact h.refused
        · cases act
          rw [Bool.or_eq_true, not_or, Bool.not_eq_true', Bool.not_eq_false,
            Option.not_isSome_iff_eq_none] at refused
          have slice := chunkFits_slice ofFile (h.upload u there).size refused.2
          exact ⟨h.setCall ⟨⟨u, there, refused.1⟩, slice⟩, fun _ _ found => found, nofun⟩
  | putOpen =>
    unfold State.actPut at act
    dsimp only at act
    split at act
    · next offset bytes put =>
        have ok := h.call
        rw [put] at ok
        split at act
        · next payload there =>
            split_ifs at act with length
            · cases act
              refine ⟨h.setCall ⟨ok.1, ok.2, Nat.zero_le _, payload, there, length⟩,
                fun _ _ found => found, nofun⟩
            · cases act
              exact h.ended
        · cases act
          exact h.ended
    · cases act
  | putWrite count =>
    unfold State.actPut at act
    dsimp only at act
    split at act
    · next offset bytes written payload writing there =>
        cases act
        have ok := h.call
        rw [writing] at ok
        obtain ⟨upload, slice, written_le, p, present, length⟩ := ok
        obtain rfl : payload = p := Option.some.inj (there.symm.trans present)
        obtain ⟨payload_ok, write_ok⟩ := h.write slice there length written_le count
        exact ⟨⟨h.ledger, payload_ok, h.upload, ⟨upload, slice, write_ok⟩, h.start⟩,
          fun _ _ found => found, nofun⟩
    · cases act
  | putSync =>
    unfold State.actPut at act
    dsimp only at act
    split at act
    · next offset bytes written writing =>
        have ok := h.call
        rw [writing] at ok
        obtain ⟨-, -, -, p, present, length⟩ := ok
        split_ifs at act with all
        cases act
        refine ⟨h.setCall trivial, fun _ _ found => found, ?_⟩
        rintro _ ⟨⟩
        exact Or.inl ⟨p, present, by rw [length, all]⟩
    · cases act
  | putTruncate =>
    unfold State.actPut at act
    dsimp only at act
    split at act
    · next offset bytes written payload writing there =>
        cases act
        have ok := h.call
        rw [writing] at ok
        obtain ⟨-, -, -, p, present, length⟩ := ok
        obtain rfl : payload = p := Option.some.inj (there.symm.trans present)
        have cut : PayloadOk F N (some (setLen payload offset.toNat)) := by
          rw [setLen_le (by omega)]
          refine ⟨?_, ?_⟩
          · rintro _ ⟨⟩
            exact (List.take_prefix _ _).trans (h.payload.front payload there)
          · rintro _ ⟨⟩
            exact le_trans (List.length_take_le' _ _) (h.payload.bounded payload there)
        exact ⟨⟨h.ledger, cut, h.upload, trivial, h.start⟩, fun _ _ found => found,
          answered_failed⟩
    · cases act
  | _ => cases act

/-! ### The cancel -/

theorem Sound.actCancel (h : Sound digest id F N s) {a : Action}
    (act : s.actCancel a = some (t, answer)) : Goes digest id F N s t answer := by
  cases a with
  | cancelLock actor =>
    unfold State.actCancel at act
    dsimp only at act
    split_ifs at act
    split at act
    · cases act
      exact h.refused
    · split_ifs at act
      · cases act
        exact h.refused
      · cases act
        exact ⟨h.setCall trivial, fun _ _ found => found, nofun⟩
  | cancelState =>
    unfold State.actCancel at act
    dsimp only at act
    split at act
    · next cancel =>
        cases act
        have start : StartOk id N { s with upload := none } s.start := h.start.trans (fun _ => rfl) rfl
        exact ⟨⟨h.ledger, h.payload, nofun, callOk_of_idle (Or.inr cancel), start⟩,
          fun _ _ found => found, nofun⟩
    · cases act
  | cancelPayload =>
    unfold State.actCancel at act
    dsimp only at act
    split at act
    · next cancel =>
        cases act
        exact ⟨⟨h.ledger, .none_there, h.upload, callOk_of_idle (Or.inr cancel), h.start⟩,
          fun _ _ found => found, nofun⟩
    · cases act
  | cancelEnd =>
    unfold State.actCancel at act
    dsimp only at act
    split at act
    · split_ifs at act
      · cases act
        refine ⟨h.setCall trivial, fun _ _ found => found, ?_⟩
        rintro _ ⟨⟩
        trivial
      · cases act
        exact h.ended
    · cases act
  | _ => cases act

/-! ### The finish -/

theorem UploadOk.mono {attachments attachments' : Text → Text} {u : Upload}
    (h : UploadOk id N attachments u)
    (kept : ∀ node r, Found id attachments node r → Found id attachments' node r) :
    UploadOk id N attachments' u :=
  ⟨h.size, h.node, h.name, h.mediaType, fun r done => kept _ r (h.complete r done)⟩

/-- Records that were added leave the requests as they are. -/
theorem Sound.setLedger (h : Sound digest id F N s) {attachments : Text → Text}
    {remembered : Option Digest} (ledger : LedgerOk digest id F N attachments remembered)
    (kept : ∀ node r, Found id s.attachments node r → Found id attachments node r) :
    Sound digest id F N { s with attachments, remembered } := by
  refine ⟨ledger, h.payload, fun u there => (h.upload u there).mono kept, ?_, ?_⟩
  · have ok := h.call
    dsimp only
    cases call : s.call with
    | none => trivial
    | some c =>
        rw [call] at ok
        cases c with
        | put offset bytes => exact ok
        | writing offset bytes written => exact ok
        | cancel => trivial
        | finish u phase =>
            obtain ⟨upload, incomplete, rest⟩ := ok
            refine ⟨upload.mono kept, incomplete, ?_⟩
            cases phase with
            | loaded => exact rest
            | verified revision => exact rest
            | published revision => exact rest
            | committed => exact rest
            | recorded r => exact ⟨rest.1, rest.2.1, kept _ r rest.2.2⟩
            | saved r => exact ⟨rest.1, rest.2.1, kept _ r rest.2.2⟩
  · have ok := h.start
    dsimp only
    cases begun : s.start with
    | none => trivial
    | some call =>
        rw [begun] at ok
        obtain ⟨u, phase⟩ := call
        cases phase with
        | vacant => exact ⟨ok.1, ok.2.1.mono kept, ok.2.2⟩
        | created => exact ⟨ok.1, ok.2.1.mono kept, ok.2.2⟩
        | seen saved => exact ok.mono kept

theorem newRecord_fits {attachments : Text → Text} {u : Upload} {revision : Digest}
    {actor machine now : Stamp} (value : IsValue id) (ok : UploadOk id N attachments u) :
    (newRecord id u revision actor machine now).Fits := by
  have hex : OneLine revision.val := by
    have all : "0123456789abcdef".toList.all (fun c => c ≠ '\n' ∧ c ≠ '\r') = true := by decide
    have digits : ∀ c ∈ "0123456789abcdef".toList, c ≠ '\n' ∧ c ≠ '\r' := fun c mem =>
      of_decide_eq_true (List.all_eq_true.mp all c mem)
    refine ⟨fun mem => (digits _ (revision.property.2 _ mem)).1 rfl, fun last => ?_⟩
    exact (digits _ (revision.property.2 _ (List.mem_of_getLast? last))).2 rfl
  refine ⟨value.oneLine, ok.node, ok.name, hex, ok.mediaType, actor.property, now.property, ?_⟩
  rintro _ ⟨⟩
  exact machine.property

theorem newRecord_whole {attachments : Text → Text} {u : Upload} {actor machine now : Stamp}
    (ok : UploadOk id N attachments u) (all : N.toNat ≤ F.length) :
    Whole digest F N (newRecord id u (digest (F.take N.toNat)) actor machine now).normalized := by
  refine ⟨ok.size, ?_, all⟩
  exact trim_of_inked fun c mem => by
    have digits : "0123456789abcdef".toList.all (fun c => isWhitespace c = false) = true := by decide
    exact of_decide_eq_true
      (List.all_eq_true.mp digits c ((digest (F.take N.toNat)).property.2 c mem))

/-- **The commit.**  The writer writes the first record and remembers it. -/
theorem Sound.commit (h : Sound digest id F N s) (value : IsValue id) {u : Upload}
    {revision : Digest} {actor machine now : Stamp}
    (call : s.call = some (.finish u (.published revision)))
    (act : s.commit id u revision actor machine now = some (t, answer)) :
    Goes digest id F N s t answer := by
  have ok := h.call
  rw [call] at ok
  obtain ⟨upload, incomplete, there, verified, rfl⟩ := ok
  unfold State.commit at act
  split at act
  · next known remembered =>
      split_ifs at act
      · cases act
        exact ⟨h.setCall ⟨upload, incomplete, there, verified⟩, fun _ _ found => found, nofun⟩
      · cases act
        exact h.ended
  · next forgotten =>
      split at act
      · cases act
        exact h.ended
      · next text written =>
          cases act
          have fits : (newRecord id u (digest (F.take N.toNat)) actor machine now).Fits :=
            newRecord_fits value upload
          obtain ⟨assets, before, found⟩ := attachTransform_spec fits written
          have none_there : ∀ node r, ¬Found id s.attachments node r := by
            intro node r found
            obtain ⟨revision, known, -⟩ := h.ledger.known node r found
            exact nomatch forgotten.symm.trans known
          obtain ⟨old, mem, named, -⟩ | ⟨-, after⟩ := found
          · exact absurd ⟨assets, before, mem, named⟩ (none_there u.node old)
          · have whole : Whole digest F N
                (newRecord id u (digest (F.take N.toNat)) actor machine now).normalized :=
              newRecord_whole upload verified.full.2
            obtain ⟨ledger, -⟩ := LedgerOk.first none_there before after h.ledger.once value.2
              whole whole.revision
            have kept : ∀ node r, Found id s.attachments node r →
                Found id (Function.update s.attachments u.node text) node r :=
              fun node r found => absurd found (none_there node r)
            have sound := h.setLedger ledger kept
            exact ⟨sound.setCall ⟨upload.mono kept, incomplete, there, verified⟩, kept, nofun⟩

theorem Sound.actFinish (h : Sound digest id F N s) (value : IsValue id) {a : Action}
    (act : s.actFinish digest id a = some (t, answer)) : Goes digest id F N s t answer := by
  cases a with
  | finishLock actor =>
    unfold State.actFinish at act
    dsimp only at act
    split_ifs at act
    split at act
    · cases act
      exact h.refused
    · next u loaded =>
        obtain ⟨there, -⟩ := load_eq_some loaded
        have ok := h.upload u there
        split at act
        · next done complete =>
            cases act
            refine ⟨h, fun _ _ found => found, ?_⟩
            rintro _ ⟨⟩
            exact ⟨⟨u.node, ok.complete done complete⟩, Or.inr ⟨u, there, complete⟩⟩
        · next incomplete =>
            cases act
            exact ⟨h.setCall ⟨ok, incomplete, there⟩, fun _ _ found => found, nofun⟩
  | finishVerify expected =>
    unfold State.actFinish at act
    dsimp only at act
    split at act
    · next u payload call there =>
        have ok := h.call
        rw [call] at ok
        split_ifs at act with length signature
        · cases act
          exact h.ended
        · cases act
          exact h.ended
        · cases act
          exact h.ended
        · cases act
          rw [ok.1.size] at length
          rw [Bool.not_eq_true', Bool.not_eq_false] at signature
          have payload_ok := h.payload
          rw [there] at payload_ok
          obtain ⟨full, eq⟩ := payload_ok.full (not_not.mp length)
          rw [← there] at full
          rw [eq] at signature
          refine ⟨h.setCall ⟨ok.1, ok.2.1, ok.2.2, ⟨full, signature⟩, ?_⟩,
            fun _ _ found => found, nofun⟩
          rw [eq]
    · cases act
      exact h.ended
    · cases act
  | finishPublish =>
    unfold State.actFinish at act
    dsimp only at act
    split at act
    · next u revision payload call there =>
        cases act
        have ok := h.call
        rw [call] at ok
        exact ⟨⟨h.ledger, h.payload, h.upload, ok, h.start⟩, fun _ _ found => found, nofun⟩
    · cases act
  | finishCommit actor machine now =>
    unfold State.actFinish at act
    dsimp only at act
    split at act
    · next u revision call => exact h.commit value call act
    · cases act
  | finishRead =>
    unfold State.actFinish at act
    dsimp only at act
    split at act
    · next u call =>
        have ok := h.call
        rw [call] at ok
        split at act
        · cases act
          exact h.ended
        · next assets read =>
            split at act
            · cases act
              exact h.ended
            · next record found =>
                cases act
                have named : record.id = id := by
                  simpa only [decide_eq_true_eq] using List.find?_some found
                have there : Found id s.attachments u.node record :=
                  ⟨assets, read, List.mem_of_find?_eq_some found, named⟩
                exact ⟨h.setCall ⟨ok.1, ok.2.1, ok.2.2.1, ok.2.2.2, there⟩,
                  fun _ _ found => found, nofun⟩
    · cases act
  | finishSave =>
    unfold State.actFinish at act
    dsimp only at act
    split at act
    · next u record call =>
        cases act
        have ok := h.call
        rw [call] at ok
        obtain ⟨upload, incomplete, there, verified, found⟩ := ok
        have saved : UploadOk id N s.attachments { u with complete := some record } := by
          refine ⟨upload.size, upload.node, upload.name, upload.mediaType, ?_⟩
          rintro _ ⟨⟩
          exact found
        refine ⟨⟨h.ledger, h.payload, ?_, ⟨upload, incomplete, rfl, verified, found⟩, ?_⟩,
          fun _ _ found => found, nofun⟩
        · rintro _ ⟨⟩
          exact saved
        · exact h.start.trans (fun absent => nomatch there.symm.trans absent) rfl
    · cases act
  | finishDrop =>
    unfold State.actFinish at act
    dsimp only at act
    split at act
    · next u record call =>
        have ok := h.call
        rw [call] at ok
        obtain ⟨upload, incomplete, there, verified, found⟩ := ok
        split_ifs at act
        · cases act
          refine ⟨⟨h.ledger, .none_there, h.upload, trivial, h.start⟩, fun _ _ found => found, ?_⟩
          rintro _ ⟨⟩
          exact ⟨⟨u.node, found⟩, Or.inl verified.full⟩
        · cases act
          exact h.ended
    · cases act
  | _ => cases act

/-! ### One action -/

/-- The record of another upload. -/
theorem Sound.otherCommit (h : Sound digest id F N s) {node text : Text} {next : AttachmentRecord}
    (fits : next.Fits) (value : IsValue next.id) (other : next.id ≠ id)
    (written : attachTransform next (s.attachments node) = .ok text) :
    Goes digest id F N s { s with attachments := Function.update s.attachments node text } none := by
  obtain ⟨assets, before, found⟩ := attachTransform_spec fits written
  have ledger : LedgerOk digest id F N (Function.update s.attachments node text) s.remembered ∧
      ∀ other r, Found id (Function.update s.attachments node text) other r ↔
        Found id s.attachments other r := by
    obtain ⟨_, _, _, _, after⟩ | ⟨-, after⟩ := found
    · exact h.ledger.same before after rfl
    · refine h.ledger.same before after ?_
      have named : next.normalized.id = next.id := value.2
      rw [List.filter_append, List.filter_singleton, named, decide_eq_false other]
      exact List.append_nil _
  have kept : ∀ node' r, Found id s.attachments node' r →
      Found id (Function.update s.attachments node text) node' r :=
    fun node' r => (ledger.2 node' r).mpr
  exact ⟨h.setLedger ledger.1 kept, kept, nofun⟩

/-- **One action** keeps the invariant and the records, and answers what it may. -/
theorem Sound.act (h : Sound digest id F N s) (value : IsValue id) {a : Action}
    (ofFile : OfFile id F N a) (act : s.act digest id a = some (t, answer)) :
    Goes digest id F N s t answer := by
  cases a with
  | startLock nodeText u => exact h.actStart ofFile act
  | startCreate => exact h.actStart ofFile act
  | startSave => exact h.actStart ofFile act
  | startClean => exact h.actStart ofFile act
  | startView => exact h.actStart ofFile act
  | startFail => exact h.actStart ofFile act
  | getView actor =>
      unfold State.act at act
      dsimp only at act
      split_ifs at act
      split at act
      · cases act
        exact h.refused
      · next u loaded =>
          cases act
          refine ⟨h, fun _ _ found => found, ?_⟩
          rintro _ ⟨⟩
          exact view_answer (h.upload u (load_eq_some loaded).1)
  | callFail =>
      unfold State.act at act
      dsimp only at act
      split_ifs at act
      cases act
      exact h.ended
  | otherCommit node next =>
      unfold State.act at act
      dsimp only at act
      split at act
      · cases act
      · next text written =>
          cases act
          exact h.otherCommit ofFile.1 ofFile.2.1 ofFile.2.2 written
  | putLock actor offset bytes checksum => exact h.actPut ofFile act
  | putOpen => exact h.actPut ofFile act
  | putWrite count => exact h.actPut ofFile act
  | putSync => exact h.actPut ofFile act
  | putTruncate => exact h.actPut ofFile act
  | cancelLock actor => exact h.actCancel (a := .cancelLock actor) act
  | cancelState => exact h.actCancel (a := .cancelState) act
  | cancelPayload => exact h.actCancel (a := .cancelPayload) act
  | cancelEnd => exact h.actCancel (a := .cancelEnd) act
  | finishLock actor => exact h.actFinish (a := .finishLock actor) value act
  | finishVerify expected => exact h.actFinish (a := .finishVerify expected) value act
  | finishPublish => exact h.actFinish (a := .finishPublish) value act
  | finishCommit actor machine now =>
      exact h.actFinish (a := .finishCommit actor machine now) value act
  | finishRead => exact h.actFinish (a := .finishRead) value act
  | finishSave => exact h.actFinish (a := .finishSave) value act
  | finishDrop => exact h.actFinish (a := .finishDrop) value act

/-! ### Finishing again -/

section

variable (F N)

/-- The upload is as a finish leaves it that has verified the payload, or it is complete. -/
def Resumes (s : State) (u : Upload) : Prop :=
  (s.upload = some u ∧ u.complete = none ∧ Verified F N s.payload u) ∨
    ∃ r, s.upload = some { u with complete := some r }

/-- No request takes files away, or writes to the payload. -/
def Undisturbed : Option Call → Prop
  | some .cancel => False
  | some (.writing _ _ _) => False
  | _ => True

/-- Not the begin of a cancel. -/
def NoCancel : Action → Prop
  | .cancelLock _ => False
  | _ => True

end

theorem Resumes.there {u : Upload} (h : Resumes F N s u) : s.upload ≠ none := by
  obtain ⟨there, -⟩ | ⟨r, there⟩ := h
  · rw [there]
    exact Option.some_ne_none _
  · rw [there]
    exact Option.some_ne_none _

/-- What neither the state nor the payload sees leaves the upload as it is. -/
theorem Resumes.same {u : Upload} (h : Resumes F N s u) (upload : t.upload = s.upload)
    (payload : t.payload = s.payload) : Resumes F N t u := by
  unfold Resumes
  rw [upload, payload]
  exact h

theorem Resumes.actStart {u : Upload} (h : Sound digest id F N s) (resumes : Resumes F N s u)
    {a : Action} (act : s.actStart a = some (t, answer)) :
    Resumes F N t u ∧ t.call = s.call := by
  cases a with
  | startLock nodeText req =>
    unfold State.actStart at act
    dsimp only at act
    split_ifs at act
    · cases act
      exact ⟨resumes, rfl⟩
    · split at act
      · next absent => exact absurd absent resumes.there
      · split_ifs at act <;> cases act <;> exact ⟨resumes, rfl⟩
  | startCreate =>
    unfold State.actStart at act
    dsimp only at act
    split at act
    · next v begun =>
        have ok := h.start
        rw [begun] at ok
        exact absurd ok.1 resumes.there
    · cases act
  | startSave =>
    unfold State.actStart at act
    dsimp only at act
    split at act
    · next v begun =>
        have ok := h.start
        rw [begun] at ok
        exact absurd ok.1 resumes.there
    · cases act
  | startClean =>
    unfold State.actStart at act
    dsimp only at act
    split at act
    · next v begun =>
        have ok := h.start
        rw [begun] at ok
        exact absurd ok.1 resumes.there
    · cases act
  | startView =>
    unfold State.actStart at act
    dsimp only at act
    split at act
    · cases act
      exact ⟨resumes, rfl⟩
    · cases act
  | startFail =>
    unfold State.actStart at act
    dsimp only at act
    split_ifs at act
    cases act
    exact ⟨resumes, rfl⟩
  | _ => cases act

/-- There is no room for another chunk. -/
theorem Resumes.no_chunk {u : Upload} {offset : UInt64} {bytes payload : Bytes}
    (resumes : Resumes F N s u) (unfinished : Unfinished s.upload) (slice : Slice F N offset bytes)
    (there : s.payload = some payload) : payload.length ≠ offset.toNat := by
  obtain ⟨v, saved, incomplete⟩ := unfinished
  obtain ⟨-, verified⟩ | ⟨r, complete⟩ := resumes
  · obtain ⟨full, all⟩ := verified.2.full
    obtain rfl : payload = F.take N.toNat := Option.some.inj (there.symm.trans full)
    have fits := slice.fits
    have some_bytes := List.length_pos_iff.mpr slice.nonempty
    rw [List.length_take, min_eq_left all]
    omega
  · obtain rfl := Option.some.inj (saved.symm.trans complete)
    exact nomatch incomplete

theorem Resumes.actPut {u : Upload} (h : Sound digest id F N s) (resumes : Resumes F N s u)
    (undisturbed : Undisturbed s.call) {a : Action}
    (act : s.actPut digest a = some (t, answer)) :
    Resumes F N t u ∧ Undisturbed t.call := by
  cases a with
  | putLock actor offset bytes checksum =>
    unfold State.actPut at act
    dsimp only at act
    split_ifs at act
    split at act
    · cases act
      exact ⟨resumes, undisturbed⟩
    · split_ifs at act
      · cases act
        exact ⟨resumes, undisturbed⟩
      · cases act
        exact ⟨resumes.same rfl rfl, trivial⟩
  | putOpen =>
    unfold State.actPut at act
    dsimp only at act
    split at act
    · next offset bytes put =>
        have ok := h.call
        rw [put] at ok
        split at act
        · next payload there =>
            rw [if_neg (resumes.no_chunk ok.1 ok.2 there)] at act
            cases act
            exact ⟨resumes.same rfl rfl, trivial⟩
        · cases act
          exact ⟨resumes.same rfl rfl, trivial⟩
    · cases act
  | putWrite count =>
    unfold State.actPut at act
    dsimp only at act
    split at act
    · next writing there =>
        rw [writing] at undisturbed
        exact undisturbed.elim
    · cases act
  | putSync =>
    unfold State.actPut at act
    dsimp only at act
    split at act
    · next writing =>
        rw [writing] at undisturbed
        exact undisturbed.elim
    · cases act
  | putTruncate =>
    unfold State.actPut at act
    dsimp only at act
    split at act
    · next writing there =>
        rw [writing] at undisturbed
        exact undisturbed.elim
    · cases act
  | _ => cases act

theorem Resumes.actCancel {u : Upload} (undisturbed : Undisturbed s.call) {a : Action}
    (noCancel : NoCancel a) (act : s.actCancel a = some (t, answer)) :
    Resumes F N t u ∧ Undisturbed t.call := by
  cases a with
  | cancelLock actor => exact noCancel.elim
  | cancelState =>
    unfold State.actCancel at act
    dsimp only at act
    split at act
    · next cancel =>
        rw [cancel] at undisturbed
        exact undisturbed.elim
    · cases act
  | cancelPayload =>
    unfold State.actCancel at act
    dsimp only at act
    split at act
    · next cancel =>
        rw [cancel] at undisturbed
        exact undisturbed.elim
    · cases act
  | cancelEnd =>
    unfold State.actCancel at act
    dsimp only at act
    split at act
    · next cancel =>
        rw [cancel] at undisturbed
        exact undisturbed.elim
    · cases act
  | _ => cases act

/-- The request on the upload goes on or ends. -/
theorem Resumes.setCall {u : Upload} (resumes : Resumes F N s u) {call : Option Call}
    (undisturbed : Undisturbed call) :
    Resumes F N (s.setCall call) u ∧ Undisturbed (s.setCall call).call :=
  ⟨resumes.same rfl rfl, undisturbed⟩

theorem Resumes.actFinish {u : Upload} (h : Sound digest id F N s) (resumes : Resumes F N s u)
    (undisturbed : Undisturbed s.call) {a : Action}
    (act : s.actFinish digest id a = some (t, answer)) :
    Resumes F N t u ∧ Undisturbed t.call := by
  cases a with
  | finishLock actor =>
    unfold State.actFinish at act
    dsimp only at act
    split_ifs at act
    split at act
    · cases act
      exact ⟨resumes, undisturbed⟩
    · split at act
      · cases act
        exact ⟨resumes, undisturbed⟩
      · cases act
        exact resumes.setCall trivial
  | finishVerify expected =>
    unfold State.actFinish at act
    dsimp only at act
    split at act
    · split_ifs at act <;> cases act <;> exact resumes.setCall trivial
    · cases act
      exact resumes.setCall trivial
    · cases act
  | finishPublish =>
    unfold State.actFinish at act
    dsimp only at act
    split at act
    · cases act
      exact ⟨resumes.same rfl rfl, trivial⟩
    · cases act
  | finishCommit actor machine now =>
    unfold State.actFinish State.commit at act
    dsimp only at act
    split at act
    · split at act
      · split_ifs at act <;> cases act <;> exact resumes.setCall trivial
      · split at act
        · cases act
          exact resumes.setCall trivial
        · cases act
          exact ⟨resumes.same rfl rfl, trivial⟩
    · cases act
  | finishRead =>
    unfold State.actFinish at act
    dsimp only at act
    split at act
    · split at act
      · cases act
        exact resumes.setCall trivial
      · split at act <;> cases act <;> exact resumes.setCall trivial
    · cases act
  | finishSave =>
    unfold State.actFinish at act
    dsimp only at act
    split at act
    · next v record call =>
        cases act
        have ok := h.call
        rw [call] at ok
        obtain ⟨-, incomplete, there, -⟩ := ok
        refine ⟨Or.inr ⟨record, ?_⟩, trivial⟩
        obtain ⟨same, -⟩ | ⟨r, complete⟩ := resumes
        · rw [Option.some.inj (same.symm.trans there)]
          rfl
        · rw [Option.some.inj (there.symm.trans complete)]
          rfl
    · cases act
  | finishDrop =>
    unfold State.actFinish at act
    dsimp only at act
    split at act
    · next v record call =>
        have ok := h.call
        rw [call] at ok
        obtain ⟨-, incomplete, there, -⟩ := ok
        split_ifs at act
        · cases act
          refine ⟨Or.inr ?_, trivial⟩
          obtain ⟨same, unfinished, -⟩ | complete := resumes
          · obtain rfl := Option.some.inj (there.symm.trans same)
            exact nomatch unfinished
          · exact complete
        · cases act
          exact resumes.setCall trivial
    · cases act
  | _ => cases act

/-- Without a cancel, the upload stays as the finish left it. -/
theorem Resumes.act {u : Upload} (h : Sound digest id F N s) (resumes : Resumes F N s u)
    (undisturbed : Undisturbed s.call) {a : Action} (noCancel : NoCancel a)
    (act : s.act digest id a = some (t, answer)) :
    Resumes F N t u ∧ Undisturbed t.call := by
  have start : ∀ {a : Action}, s.actStart a = some (t, answer) →
      Resumes F N t u ∧ Undisturbed t.call := by
    intro a act
    obtain ⟨kept, same⟩ := resumes.actStart h act
    rw [same]
    exact ⟨kept, undisturbed⟩
  have put := @Resumes.actPut digest id F N s t answer u h resumes undisturbed
  have cancel := @Resumes.actCancel F N s t answer u undisturbed
  have finish := @Resumes.actFinish digest id F N s t answer u h resumes undisturbed
  cases a with
  | startLock nodeText v => exact start (a := .startLock nodeText v) act
  | startCreate => exact start (a := .startCreate) act
  | startSave => exact start (a := .startSave) act
  | startClean => exact start (a := .startClean) act
  | startView => exact start (a := .startView) act
  | startFail => exact start (a := .startFail) act
  | getView actor =>
      unfold State.act at act
      dsimp only at act
      split_ifs at act
      split at act <;> cases act <;> exact ⟨resumes, undisturbed⟩
  | callFail =>
      unfold State.act at act
      dsimp only at act
      split_ifs at act
      cases act
      exact resumes.setCall trivial
  | otherCommit node next =>
      unfold State.act at act
      dsimp only at act
      split at act <;> cases act
      exact ⟨resumes.same rfl rfl, undisturbed⟩
  | putLock actor offset bytes checksum =>
      exact put (a := .putLock actor offset bytes checksum) act
  | putOpen => exact put (a := .putOpen) act
  | putWrite count => exact put (a := .putWrite count) act
  | putSync => exact put (a := .putSync) act
  | putTruncate => exact put (a := .putTruncate) act
  | cancelLock actor => exact noCancel.elim
  | cancelState => exact cancel (a := .cancelState) noCancel act
  | cancelPayload => exact cancel (a := .cancelPayload) noCancel act
  | cancelEnd => exact cancel (a := .cancelEnd) noCancel act
  | finishLock actor => exact finish (a := .finishLock actor) act
  | finishVerify expected => exact finish (a := .finishVerify expected) act
  | finishPublish => exact finish (a := .finishPublish) act
  | finishCommit actor machine now => exact finish (a := .finishCommit actor machine now) act
  | finishRead => exact finish (a := .finishRead) act
  | finishSave => exact finish (a := .finishSave) act
  | finishDrop => exact finish (a := .finishDrop) act

/-- The records of the node can be read, and no other node has one under the id. -/
structure Writable (id : Text) (attachments : Text → Text) (node : Text) : Prop where
  readable : ∃ assets, readAttachments (attachments node) = .ok assets
  here : ∀ other r, Found id attachments other r → other = node

theorem Writable.of_found {node : Text} {r : AttachmentRecord} (h : Sound digest id F N s)
    (found : Found id s.attachments node r) : Writable id s.attachments node :=
  ⟨found.imp fun _ read => read.1, fun other r' found' => (h.ledger.single _ _ _ _ found' found).1⟩

theorem serve_next {a : Action} {rest : List Action} (act : s.act digest id a = some (t, none)) :
    s.serve digest id (a :: rest) = t.serve digest id rest := by
  rw [State.serve, act]

theorem serve_answer {a : Action} {rest : List Action} {x : Answer}
    (act : s.act digest id a = some (t, some x)) :
    s.serve digest id (a :: rest) = some (t, x) := by
  rw [State.serve, act]

theorem load_of {u : Upload} (there : s.upload = some u) : s.load u.actor = some u := by
  rw [State.load, there]
  exact Option.filter_some_pos (decide_eq_true rfl)

/-- The commit of a finish that meets no failure leaves the record in the node. -/
theorem Sound.commit_ok (h : Sound digest id F N s) (value : IsValue id) {u : Upload}
    (writable : Writable id s.attachments u.node) (actor machine now : Stamp)
    (call : s.call = some (.finish u (.published (digest (F.take N.toNat))))) :
    ∃ t r, s.commit id u (digest (F.take N.toNat)) actor machine now = some (t, none) ∧
      t.call = some (.finish u .committed) ∧ t.payload = s.payload ∧
        Found id t.attachments u.node r := by
  cases remembered : s.remembered with
  | some known =>
      obtain ⟨node, r, found⟩ := h.ledger.written known remembered
      obtain rfl := writable.here node r found
      obtain ⟨known', same, revision⟩ := h.ledger.known _ r found
      obtain rfl : known = known' := Option.some.inj (remembered.symm.trans same)
      have equal : known.val = (digest (F.take N.toNat)).val := by
        rw [← revision, (h.ledger.whole _ r found).revision]
      refine ⟨s.setCall (some (.finish u .committed)), r, ?_, rfl, rfl, found⟩
      unfold State.commit
      rw [remembered]
      dsimp only
      rw [if_pos equal]
      rfl
  | none =>
      obtain ⟨assets, read⟩ := writable.readable
      have absent : assets.find?
          (·.id = (newRecord id u (digest (F.take N.toNat)) actor machine now).id) = none := by
        refine List.find?_eq_none.mpr fun r mem named => ?_
        obtain ⟨revision, known, -⟩ :=
          h.ledger.known u.node r ⟨assets, read, mem, of_decide_eq_true named⟩
        cases remembered.symm.trans known
      have written : attachTransform (newRecord id u (digest (F.take N.toNat)) actor machine now)
          (s.attachments u.node) = .ok (renderAttachments
            (assets ++ [newRecord id u (digest (F.take N.toNat)) actor machine now])) := by
        unfold attachTransform
        rw [read]
        simp only [bind, Except.bind, absent]
      have act : s.commit id u (digest (F.take N.toNat)) actor machine now =
          State.next { s with
            attachments := Function.update s.attachments u.node (renderAttachments
              (assets ++ [newRecord id u (digest (F.take N.toNat)) actor machine now]))
            remembered := some (digest (F.take N.toNat)) } (.finish u .committed) := by
        unfold State.commit
        rw [remembered]
        dsimp only
        rw [written]
      have ok := h.call
      rw [call] at ok
      obtain ⟨there, before, after⟩ := attachTransform_spec (newRecord_fits value ok.1) written
      obtain ⟨old, mem, named, -⟩ | ⟨-, after⟩ := after
      · obtain ⟨_, known, -⟩ := h.ledger.known u.node old ⟨there, before, mem, named⟩
        cases remembered.symm.trans known
      · exact ⟨_, _, act, rfl, rfl,
          (found_update after).mpr ⟨List.mem_append_right _ (List.mem_singleton_self _), value.2⟩⟩

/-- **A finish that meets no failure** answers the record, wherever the one before it stopped. -/
theorem Sound.finishes (h : Sound digest id F N s) (value : IsValue id) {u : Upload}
    (idle : s.call = none) (resumes : Resumes F N s u)
    (writable : Writable id s.attachments u.node) {expected : Option Text}
    (agrees : ∀ e, expected = some e → e = (digest (F.take N.toNat)).val)
    (actor machine now : Stamp) :
    ∃ t r, s.serve digest id (finishActions u.actor expected actor machine now) =
        some (t, .record r) ∧ Found id t.attachments u.node r ∧
          ∀ node r', Found id s.attachments node r' → r' = r := by
  obtain ⟨there, incomplete, verified⟩ | ⟨r, there⟩ := resumes
  · obtain ⟨full, all⟩ := verified.full
    have lock : s.act digest id (.finishLock u.actor) =
        some (s.setCall (some (.finish u .loaded)), none) := by
      unfold State.act State.actFinish
      simp only [idle, Option.isSome_none, load_of there, incomplete]
      rfl
    have sound := (h.act value (a := .finishLock u.actor) trivial lock).sound
    have size : u.size.toNat = N.toNat := congrArg UInt64.toNat (h.upload u there).size
    -- the payload is verified and published
    have verify : (s.setCall (some (.finish u .loaded))).act digest id (.finishVerify expected) =
        some (s.setCall (some (.finish u (.verified (digest (F.take N.toNat))))), none) := by
      have length : ¬(F.take N.toNat).length ≠ u.size.toNat := by
        rw [List.length_take, min_eq_left all, size]
        exact not_not.mpr rfl
      have checksum : ¬expected.any (· ≠ (digest (F.take N.toNat)).val) = true := by
        rw [Option.any_eq_true]
        rintro ⟨e, some_e, differs⟩
        exact of_decide_eq_true differs (agrees e some_e)
      unfold State.act State.actFinish
      dsimp only [State.setCall]
      rw [full]
      dsimp only
      rw [if_neg length, verified.signature, if_neg checksum]
      rfl
    replace sound := (sound.act value (a := .finishVerify expected) trivial verify).sound
    obtain ⟨blobs, publish⟩ : ∃ blobs,
        (s.setCall (some (.finish u (.verified (digest (F.take N.toNat)))))).act digest id
          .finishPublish = some ({ s with
            blobs, call := some (.finish u (.published (digest (F.take N.toNat)))) }, none) := by
      unfold State.act State.actFinish
      dsimp only [State.setCall]
      rw [full]
      exact ⟨_, rfl⟩
    replace sound := (sound.act value (a := .finishPublish) trivial publish).sound
    -- the record is written, or there already
    obtain ⟨t, r, commit, call, payload, found⟩ :=
      sound.commit_ok value writable actor machine now rfl
    have committed := sound.commit value rfl commit
    have committing : State.act digest id
        { s with blobs, call := some (.finish u (.published (digest (F.take N.toNat)))) }
        (.finishCommit actor machine now) = some (t, none) := commit
    replace sound := committed.sound
    obtain ⟨assets, read, mem, named⟩ := found
    have find : assets.find? (·.id = id) = some r := by
      obtain ⟨r', find⟩ := Option.isSome_iff_exists.mp
        (List.find?_isSome (p := (·.id = id)).mpr ⟨r, mem, decide_eq_true named⟩)
      have named' : r'.id = id := by
        simpa only [decide_eq_true_eq] using List.find?_some find
      rw [find, (sound.ledger.single _ _ _ _ ⟨assets, read, List.mem_of_find?_eq_some find, named'⟩
        ⟨assets, read, mem, named⟩).2]
    have readBack : t.act digest id .finishRead =
        some (t.setCall (some (.finish u (.recorded r))), none) := by
      unfold State.act State.actFinish
      dsimp only
      rw [call]
      dsimp only
      rw [read]
      dsimp only
      rw [find]
      rfl
    refine ⟨{ t with
      upload := some { u with complete := some r }, payload := none, call := none }, r, ?_,
      ⟨assets, read, mem, named⟩, fun node r' found' => ?_⟩
    · rw [finishActions, serve_next lock, serve_next verify, serve_next publish,
        serve_next committing, serve_next readBack, serve_next rfl]
      have some_payload : t.payload.isSome = true := by
        rw [payload, full]
        rfl
      exact serve_answer (if_pos some_payload)
    · exact (sound.ledger.single _ _ _ _ (committed.kept node r' found')
        ⟨assets, read, mem, named⟩).2
  · have lock : s.act digest id (.finishLock u.actor) = some (s, some (.record r)) := by
      have load : s.load u.actor = some { u with complete := some r } :=
        load_of (u := { u with complete := some r }) there
      unfold State.act State.actFinish
      simp only [idle, Option.isSome_none, load]
      rfl
    have found := (h.upload _ there).complete r rfl
    refine ⟨s, r, serve_answer lock, found, fun node r' found' => ?_⟩
    exact (h.ledger.single _ _ _ _ found' found).2

/-! ### Runs -/

section

variable (digest id F N)

/-- Nothing is there of the upload. -/
structure Fresh (s : State) : Prop where
  upload : s.upload = none
  payload : s.payload = none
  remembered : s.remembered = none
  start : s.start = none
  call : s.call = none
  records : ∀ node r, ¬Found id s.attachments node r

/-- The steps of requests that upload the file. -/
abbrev Runs : State → State → Prop :=
  Reaches (State.step digest id) fun _ a => OfFile id F N a

/-- The steps of requests that upload the file and do not cancel. -/
abbrev RunsOn : State → State → Prop :=
  Reaches (State.step digest id) fun _ a => OfFile id F N a ∧ NoCancel a

end

theorem Fresh.sound (h : Fresh id s) : Sound digest id F N s := by
  refine ⟨⟨fun node assets read => ?_, fun node r _ _ found _ => absurd found (h.records node r),
    fun node r found => absurd found (h.records node r), fun revision known => ?_,
    fun node r found => absurd found (h.records node r)⟩, ?_, fun u there => ?_, ?_, ?_⟩
  · have none_of : assets.countP (·.id = id) = 0 := by
      refine List.countP_eq_zero.mpr fun r mem named => ?_
      exact h.records node r ⟨assets, read, mem, of_decide_eq_true named⟩
    omega
  · exact nomatch h.remembered.symm.trans known
  · rw [h.payload]
    exact .none_there
  · exact nomatch h.upload.symm.trans there
  · rw [h.call]
    trivial
  · rw [h.start]
    trivial

theorem step_eq_some {a : Action} (h : s.step digest id a = some t) :
    ∃ answer, s.act digest id a = some (t, answer) := by
  obtain ⟨⟨t', answer⟩, act, rfl⟩ := Option.map_eq_some_iff.mp h
  exact ⟨answer, act⟩

/-- **The run lemma.** -/
theorem Sound.runs (h : Sound digest id F N s) (value : IsValue id) (runs : Runs digest id F N s t) :
    Sound digest id F N t ∧
      ∀ node r, Found id s.attachments node r → Found id t.attachments node r := by
  refine Reaches.invariant (P := fun t => Sound digest id F N t ∧
    ∀ node r, Found id s.attachments node r → Found id t.attachments node r) runs ?_
    ⟨h, fun _ _ found => found⟩
  rintro t t' a ofFile step ⟨sound, kept⟩
  obtain ⟨answer, act⟩ := step_eq_some step
  have goes := sound.act value ofFile act
  exact ⟨goes.sound, fun node r found => goes.kept node r (kept node r found)⟩

/-- Whatever comes behind a finish that had verified the payload, except a cancel, leaves the upload
so that a finish can be made again. -/
theorem Sound.runsOn (h : Sound digest id F N s) (value : IsValue id) {u : Upload}
    {phase : FinishPhase} (call : s.call = some (.finish u phase)) (past : phase ≠ .loaded)
    (runs : RunsOn digest id F N s t) : Sound digest id F N t ∧ Resumes F N t u := by
  have ok := h.call
  rw [call] at ok
  obtain ⟨-, incomplete, rest⟩ := ok
  have resumes : Resumes F N s u := by
    cases phase with
    | loaded => exact absurd rfl past
    | verified revision => exact Or.inl ⟨rest.1, incomplete, rest.2.1⟩
    | published revision => exact Or.inl ⟨rest.1, incomplete, rest.2.1⟩
    | committed => exact Or.inl ⟨rest.1, incomplete, rest.2⟩
    | recorded r => exact Or.inl ⟨rest.1, incomplete, rest.2.1⟩
    | saved r => exact Or.inr ⟨r, rest.1⟩
  have undisturbed : Undisturbed s.call := by
    rw [call]
    trivial
  obtain ⟨sound, kept, -⟩ := Reaches.invariant
    (P := fun t => Sound digest id F N t ∧ Resumes F N t u ∧ Undisturbed t.call) runs (by
      rintro t t' a ⟨ofFile, noCancel⟩ step ⟨sound, resumes, undisturbed⟩
      obtain ⟨answer, act⟩ := step_eq_some step
      exact ⟨(sound.act value ofFile act).sound, resumes.act sound undisturbed noCancel act⟩)
    ⟨h, resumes, undisturbed⟩
  exact ⟨sound, kept⟩

/-- A finish on the upload answers the one record. -/
def FinishAnswers (digest : Bytes → Digest) (id : Text) (F : Bytes) (N : UInt64) (s : State)
    (u : Upload) : Prop :=
  ∀ expected actor machine now, (∀ e, expected = some e → e = (digest (F.take N.toNat)).val) →
    ∃ t r, s.serve digest id (finishActions u.actor expected actor machine now) =
        some (t, .record r) ∧ Found id t.attachments u.node r ∧
          ∀ node r', Found id s.attachments node r' → r' = r

/-- What holds in a state of a run; `F.take N` is the file, if its size was declared. -/
structure Intact (digest : Bytes → Digest) (id : Text) (F : Bytes) (N : UInt64) (s : State) :
    Prop where
  /-- The payload is a prefix of the file, and no longer than declared. -/
  payload : PayloadOk F N s.payload
  /-- No `attachments.org` has two records under the id, and no two of them have one. -/
  once : ∀ node assets, readAttachments (s.attachments node) = .ok assets →
    assets.countP (·.id = id) ≤ 1
  single : ∀ node r node' r', Found id s.attachments node r → Found id s.attachments node' r' →
    node = node' ∧ r = r'
  /-- The record stays. -/
  kept : ∀ t, Runs digest id F N s t →
    ∀ node r, Found id s.attachments node r → Found id t.attachments node r
  /-- Its size and its revision are those of what was declared, and that was all there. -/
  whole : ∀ node r, Found id s.attachments node r → Whole digest F N r
  /-- A confirmed offset is the length of the payload; a finish answers the record, with all of the
  payload there or the upload complete. -/
  answered : ∀ a t x, OfFile id F N a → s.act digest id a = some (t, some x) → AnswerOk id F N s t x
  /-- A finish answers the record again. -/
  finishes : ∀ u, s.call = none → Resumes F N s u → Writable id s.attachments u.node →
    FinishAnswers digest id F N s u
  /-- After a finish that stopped behind the check of the payload, at any of its steps. -/
  retried : ∀ u phase t, s.call = some (.finish u phase) → phase ≠ .loaded →
    RunsOn digest id F N s t → t.call = none → Writable id t.attachments u.node →
      FinishAnswers digest id F N t u
  /-- Once the record is in the node, it is what that finish answers. -/
  sameRecord : ∀ u phase t r, s.call = some (.finish u phase) → phase ≠ .loaded →
    Found id s.attachments u.node r → RunsOn digest id F N s t → t.call = none →
      ∀ expected actor machine now, (∀ e, expected = some e → e = r.revision) →
        ∃ t', t.serve digest id (finishActions u.actor expected actor machine now) =
          some (t', .record r)

/-- **Resumable uploads keep their integrity**, in every order of requests and of their steps. -/
theorem upload_integrity {digest : Bytes → Digest} {id : Text} {F : Bytes} {N : UInt64}
    {start s : State} (uuid : isUuid id = true) (fresh : Fresh id start)
    (runs : Runs digest id F N start s) : Intact digest id F N s := by
  have value := isValue_of_isUuid uuid
  have sound : Sound digest id F N start := fresh.sound
  obtain ⟨h, -⟩ := sound.runs value runs
  refine ⟨h.payload, h.ledger.once, h.ledger.single, fun t later => (h.runs value later).2,
    h.ledger.whole, fun a t x ofFile act => (h.act value ofFile act).answered x rfl,
    fun u idle resumes writable expected actor machine now agrees =>
      h.finishes value idle resumes writable agrees actor machine now, ?_, ?_⟩
  · intro u phase t call past later idle writable expected actor machine now agrees
    obtain ⟨sound, resumes⟩ := h.runsOn value call past later
    exact sound.finishes value idle resumes writable agrees actor machine now
  · intro u phase t r call past found later idle expected actor machine now agrees
    obtain ⟨sound, resumes⟩ := h.runsOn value call past later
    have there := (h.runs value (later.mono fun _ _ both => both.1)).2 u.node r found
    have revision := (sound.ledger.whole u.node r there).revision
    obtain ⟨t', r', served, -, only⟩ := sound.finishes value idle resumes (.of_found sound there)
      (fun e some_e => (agrees e some_e).trans revision) actor machine now
    exact ⟨t', by rw [only u.node r there]; exact served⟩

end

namespace Retry

def digits : Text := "2cf24dba5fb0a30e26e83b2ac5b9e29e1b161e5c1fa7425e73043362938b9824".toList

theorem hexDigits : digits.length = 64 ∧ ∀ c ∈ digits, c ∈ "0123456789abcdef".toList := by
  have all : digits.all (fun c => c ∈ "0123456789abcdef".toList) = true := by decide +kernel
  exact ⟨by decide +kernel, fun c mem => of_decide_eq_true (List.all_eq_true.mp all c mem)⟩

/-- SHA-256 on the file below. -/
def hash : Bytes → Digest := fun _ => ⟨digits, hexDigits⟩

def id : Text := "01234567-89ab-cdef-0123-456789abcdef".toList

def file : Bytes := utf8 "hello".toList

def upload : Upload := ⟨"A".toList, "admin".toList, "hello.txt".toList, 5, "text/plain".toList, none⟩

def nodeText : Text := "* n\n:PROPERTIES:\n:ID: A\n:END:\n".toList

theorem stamp_oneLine : OneLine "ada".toList := by decide

def stamp : Stamp := ⟨"ada".toList, stamp_oneLine⟩

/-- Nothing on file. -/
def empty : State := ⟨none, none, fun _ _ => none, fun _ => [], none, none, none⟩

/-- The first chunk stops in the middle, and the first finish behind its commit. -/
def actions : List Action :=
  [.startLock nodeText upload, .startCreate, .startSave, .startView,
    .putLock "admin".toList 0 (file.take 3) none, .putOpen, .putWrite 2, .callFail,
    .getView "admin".toList,
    .putLock "admin".toList 2 (file.drop 2) none, .putOpen, .putWrite 3, .putSync,
    .finishLock "admin".toList, .finishVerify none, .finishPublish,
    .finishCommit stamp stamp stamp, .callFail]

def stopped : State := (run (State.step hash id) empty actions).getD empty

theorem reached : run (State.step hash id) empty actions = some stopped := by
  have there : (run (State.step hash id) empty actions).isSome = true := by decide +kernel
  obtain ⟨t, ht⟩ := Option.isSome_iff_exists.mp there
  rw [stopped, ht]
  rfl

end Retry

theorem upload_integrity_sample : Intact Retry.hash Retry.id Retry.file 5 Retry.stopped := by
  have fresh : Fresh Retry.id Retry.empty := by
    refine ⟨rfl, rfl, rfl, rfl, rfl, ?_⟩
    rintro node r ⟨assets, read, mem, -⟩
    have none_there : readAttachments [] = .ok [] := by decide +kernel
    obtain rfl := Except.ok.inj (none_there.symm.trans read)
    exact nomatch mem
  refine upload_integrity (by decide +kernel) fresh (reaches_of_run ?_ Retry.reached)
  have slices : (Retry.file.take 3) <+: Retry.file.drop 0 ∧
      Retry.file.drop 2 <+: Retry.file.drop 2 := ⟨List.take_prefix 3 _, List.prefix_rfl⟩
  simp only [Retry.actions, List.forall_mem_cons]
  exact ⟨fun _ => rfl, fun _ => trivial, fun _ => trivial, fun _ => trivial, fun _ => slices.1,
    fun _ => trivial, fun _ => trivial, fun _ => trivial, fun _ => trivial, fun _ => slices.2,
    fun _ => trivial, fun _ => trivial, fun _ => trivial, fun _ => trivial, fun _ => trivial,
    fun _ => trivial, fun _ => trivial, fun _ => trivial, by simp⟩

end Resumable

end Orgasmic
