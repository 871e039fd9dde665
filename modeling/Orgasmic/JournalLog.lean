import Orgasmic.CommentsKept
import Orgasmic.JournalEdits

/-! # The journal as a log

What the calls of the writer do to the text of a journal, told as what they do to a list of entries.

* **Calls.** `JournalCall.apply` is a call on the text, `JournalCall.log` the same call on entries.
* **Simulation.** `LogAt` relates a text to the entries that it holds; `LogAt.call` carries it across
  one call, taken or refused, and `journal_refines` across a run.
* **History.** `StandsAs`: what no call changes of an entry (`journal_kept`). -/

namespace Orgasmic

open Text

/-! ### Calls -/

inductive JournalCall where
  | append (entry : JournalEntry)
  | edit (id expected body : Text) (actor : CommentMutationActor) (editedAt : Text)
  | tombstone (id expected : Text) (actor : CommentMutationActor) (deletedAt : Text)
  | consume
deriving DecidableEq

namespace JournalCall

/-- A call on the text. -/
def apply (nodeId current : Text) : JournalCall → Except JournalError Text
  | .append entry => appendJournalEntry nodeId entry current
  | .edit id expected body actor editedAt =>
      editJournalComment id expected body actor editedAt current
  | .tombstone id expected actor deletedAt =>
      tombstoneJournalComment id expected actor deletedAt current
  | .consume => consumeAllOpenComments current

/-- A call on the entries; `none` where it is refused. -/
def log (es : List JournalEntry) : JournalCall → Option (List JournalEntry)
  | .append entry =>
      if entry.validate = .ok () ∧ rejectJournalProse entry.body = .ok () ∧ ProseFits entry.body ∧
          ∀ item ∈ es, item.entryId ≠ entry.entryId then
        some (es ++ [entry.trimmed])
      else none
  | .edit id expected body actor editedAt =>
      if rejectJournalProse body = .ok () ∧ ProseFits (trim body) ∧
          editable id expected actor es = true then
        some (updateEntry id (fun e => e.edited body actor.name editedAt) es)
      else none
  | .tombstone id expected actor deletedAt =>
      if editable id expected actor es = true then
        some (updateEntry id (fun e => e.tombstoned actor.name deletedAt) es)
      else none
  | .consume => some (es.map JournalEntry.consumed)

/-- The prose of the call leaves no block open and starts no heading, its stamps are on one line. -/
def Quiet : JournalCall → Prop
  | .append entry => depthAfter 0 (rawLines entry.body) = 0
  | .edit _ _ body actor editedAt => IsStamp actor.name ∧ IsStamp editedAt ∧
      ¬"* ".toList <+: trim body ∧ depthAfter 0 (rawLines body) = 0
  | .tombstone _ _ actor deletedAt => IsStamp actor.name ∧ IsStamp deletedAt
  | .consume => True

instance (call : JournalCall) : Decidable call.Quiet := by
  cases call <;> unfold Quiet <;> infer_instance

end JournalCall

theorem requireCommentBody_iff {current id expected : Text} {actor : CommentMutationActor}
    {es : List JournalEntry} (h : parseJournal current journalFile = .ok es) :
    requireCommentBody current id expected actor = .ok () ↔ editable id expected actor es = true := by
  rw [requireCommentBody_eq_ok_iff, h]
  simp only [Except.ok.injEq, exists_eq_left']

theorem appendJournalEntry_eq_ok_iff {nodeId current next : Text} {entry : JournalEntry}
    {es : List JournalEntry} (h : parseJournal current journalFile = .ok es) :
    appendJournalEntry nodeId entry current = .ok next ↔ entry.validate = .ok () ∧
      rejectJournalProse entry.body = .ok () ∧ (∀ item ∈ es, item.entryId ≠ entry.entryId) ∧
        next = appendEntry current nodeId entry ∧
          ∃ es', parseJournal next journalFile = .ok es' := by
  rw [appendJournalEntry]
  cases entry.validate with
  | error err => simp [bind, Except.bind]
  | ok u =>
      cases rejectJournalProse entry.body with
      | error err => simp [bind, Except.bind]
      | ok v =>
          simp only [bind, Except.bind, h, true_and]
          split_ifs with hexists
          · obtain ⟨item, hitem, hsame⟩ := hexists
            refine iff_of_false (by simp) fun hout => hout.1 item hitem hsame
          · rw [checkedJournalBytes_eq_ok_iff]
            simp only [not_exists, not_and] at hexists
            constructor
            · rintro ⟨rfl, hread⟩
              exact ⟨hexists, rfl, hread⟩
            · rintro ⟨-, rfl, hread⟩
              exact ⟨rfl, hread⟩

/-! ### Simulation -/

/-- The text holds these entries, and each of them leaves no block open. -/
structure LogAt (t : Text) (es : List JournalEntry) : Prop where
  read : parseJournal t journalFile = .ok es
  quiet : ∀ e ∈ es, depthAfter 0 (rawLines e.body) = 0
  start : es = [] → t = []

/-- The call on the text succeeds exactly if the one on the entries does, and what is written holds
the entries that it leaves. -/
def Simulates (result : Except JournalError Text) (es? : Option (List JournalEntry)) : Prop :=
  (∀ next, result = .ok next → ∃ es, es? = some es ∧ LogAt next es) ∧
    (es?.isSome = true → ∃ next, result = .ok next)

theorem logAt_nil : LogAt [] [] := ⟨by decide, by simp, fun _ => rfl⟩

namespace LogAt

variable {t : Text} {es : List JournalEntry} (h : LogAt t es)
include h

/-- The text ends outside of blocks. -/
theorem depth : depthAfter 0 (rawLines t) = 0 := by
  obtain rfl | ⟨es', e, rfl⟩ := List.eq_nil_or_concat' es
  · rw [h.start rfl]
    rfl
  · rw [depth_of_entries h.read, h.quiet e (by simp)]

/-- **An entry is appended** exactly where the log takes it. -/
theorem append {nodeId : Text} (hid : '\n' ∉ nodeId) {entry : JournalEntry}
    (hquiet : (JournalCall.append entry).Quiet) :
    Simulates (appendJournalEntry nodeId entry t) ((JournalCall.append entry).log es) := by
  obtain ⟨base, hbase, hread, hdepth⟩ : ∃ base, (if t = [] then journalHeader nodeId else t) = base ∧
      parseJournal base journalFile = .ok es ∧ depthAfter 0 (rawLines base) = 0 := by
    by_cases hnil : t = []
    · obtain ⟨hheader, hdepth⟩ := parseJournal_header hid journalFile
      have hes : es = [] := by
        have hread := h.read
        rw [hnil] at hread
        exact (Except.ok.inj (logAt_nil.read.symm.trans hread)).symm
      exact ⟨_, rfl, by rw [if_pos hnil, hes, hheader], by rw [if_pos hnil, hdepth]⟩
    · exact ⟨_, rfl, by rw [if_neg hnil, h.read], by rw [if_neg hnil, h.depth]⟩
  have happend : appendEntry t nodeId entry = base ++ journalEntryBlock entry := by
    rw [appendEntry, hbase]
  rw [JournalCall.log]
  constructor
  · intro next hnext
    obtain ⟨hvalid, hprose, hfresh, rfl, es', hes'⟩ := (appendJournalEntry_eq_ok_iff h.read).mp hnext
    obtain ⟨hfits, rfl⟩ := (parseJournal_append_iff hread hdepth hvalid hprose).mp (happend ▸ hes')
    refine ⟨_, if_pos ⟨hvalid, hprose, hfits, hfresh⟩, hes', ?_, by simp⟩
    exact List.forall_mem_append.mpr ⟨h.quiet, List.forall_mem_singleton.mpr
      ((depthAfter_trim 0 entry.body).trans hquiet)⟩
  · intro hsome
    split_ifs at hsome with htaken
    · obtain ⟨hvalid, hprose, hfits, hfresh⟩ := htaken
      exact ⟨_, (appendJournalEntry_eq_ok_iff h.read).mpr ⟨hvalid, hprose, hfresh, rfl, _,
        happend ▸ (parseJournal_append_iff hread hdepth hvalid hprose).mpr ⟨hfits, rfl⟩⟩⟩
    · cases hsome

/-- One entry is another one that leaves no block open. -/
theorem update {id : Text} {pre post : List JournalEntry} {e : JournalEntry}
    (hes : es = pre ++ e :: post) (hpre : ∀ x ∈ pre, x.entryId ≠ id) (hid : e.entryId = id)
    {f : JournalEntry → JournalEntry} (hf : depthAfter 0 (rawLines (f e).body) = 0) {next : Text}
    (hnext : parseJournal next journalFile = .ok (updateEntry id f es)) :
    LogAt next (updateEntry id f es) := by
  have hquiet := h.quiet
  subst hes
  rw [updateEntry_append hpre hid] at hnext ⊢
  refine ⟨hnext, ?_, by simp⟩
  obtain ⟨hpre', hrest⟩ := List.forall_mem_append.mp hquiet
  obtain ⟨-, hpost⟩ := List.forall_mem_cons.mp hrest
  exact List.forall_mem_append.mpr ⟨hpre', List.forall_mem_cons.mpr ⟨hf, hpost⟩⟩

/-- **Prose is edited** exactly where the log takes it. -/
theorem edit {id expected body editedAt : Text} {actor : CommentMutationActor}
    (hquiet : (JournalCall.edit id expected body actor editedAt).Quiet) :
    Simulates (editJournalComment id expected body actor editedAt t)
      ((JournalCall.edit id expected body actor editedAt).log es) := by
  obtain ⟨hactor, hstamp, hstar, hclosed⟩ := hquiet
  have hread {pre post : List JournalEntry} {e : JournalEntry} (hes : es = pre ++ e :: post)
      (hpre : ∀ x ∈ pre, x.entryId ≠ id) (hid : e.entryId = id) (hty : e.ty = "comment".toList)
      (hprose : rejectJournalProse body = .ok ()) :
      ∃ next, editCommentBody t id body actor.name editedAt = .ok next ∧
        ∀ es', parseJournal next journalFile = .ok es' ↔ ProseFits (trim body) ∧
          es' = updateEntry id (fun e => e.edited body actor.name editedAt) es := by
    obtain ⟨declared, P, bs₁, b, bs₂, hat, hpre', hb, hpost⟩ :=
      exists_commentAt (hes ▸ h.read) hpre hid hty
    obtain ⟨next, w, hedit, -, -⟩ := hat.edit hactor hstamp body
    refine ⟨next, hedit, fun es' => ?_⟩
    rw [hes, updateEntry_append hpre hid]
    exact hat.parse_edit_iff hpre' hb hpost hactor hstamp hprose hstar hclosed hedit
  rw [JournalCall.log]
  constructor
  · intro next hnext
    obtain ⟨hprose, hguard, hedit, es', hes'⟩ := editJournalComment_eq_ok_iff.mp hnext
    have heditable := (requireCommentBody_iff h.read).mp hguard
    obtain ⟨pre, e, post, hes, hpre, hid, hty, -, -⟩ := editable_iff.mp heditable
    obtain ⟨next', hedit', hiff⟩ := hread hes hpre hid hty hprose
    obtain rfl := Except.ok.inj (hedit.symm.trans hedit')
    obtain ⟨hfits, rfl⟩ := (hiff es').mp hes'
    refine ⟨_, if_pos ⟨hprose, hfits, heditable⟩, h.update hes hpre hid ?_ hes'⟩
    exact (depthAfter_trim 0 body).trans hclosed
  · intro hsome
    split_ifs at hsome with htaken
    · obtain ⟨hprose, hfits, heditable⟩ := htaken
      obtain ⟨pre, e, post, hes, hpre, hid, hty, -, -⟩ := editable_iff.mp heditable
      obtain ⟨next, hedit, hiff⟩ := hread hes hpre hid hty hprose
      exact ⟨next, editJournalComment_eq_ok_iff.mpr ⟨hprose, (requireCommentBody_iff h.read).mpr heditable,
        hedit, _, (hiff _).mpr ⟨hfits, rfl⟩⟩⟩
    · cases hsome

/-- **A comment is deleted** exactly where the log takes it. -/
theorem tombstone {id expected deletedAt : Text} {actor : CommentMutationActor}
    (hquiet : (JournalCall.tombstone id expected actor deletedAt).Quiet) :
    Simulates (tombstoneJournalComment id expected actor deletedAt t)
      ((JournalCall.tombstone id expected actor deletedAt).log es) := by
  obtain ⟨hactor, hstamp⟩ := hquiet
  rw [JournalCall.log]
  constructor
  · intro next hnext
    obtain ⟨hguard, -, -⟩ := tombstoneJournalComment_eq_ok_iff.mp hnext
    have heditable := (requireCommentBody_iff h.read).mp hguard
    obtain ⟨pre, e, post, hes, hpre, hid, -, -, -⟩ := editable_iff.mp heditable
    obtain ⟨next', hnext', hread⟩ := parseJournal_tombstoned hactor hstamp h.read hguard
    obtain rfl := Except.ok.inj (hnext.symm.trans hnext')
    exact ⟨_, if_pos heditable, h.update hes hpre hid rfl hread⟩
  · intro hsome
    split_ifs at hsome with heditable
    · obtain ⟨next, hnext, -⟩ := parseJournal_tombstoned hactor hstamp h.read
        ((requireCommentBody_iff h.read).mpr heditable)
      exact ⟨next, hnext⟩
    · cases hsome

/-- **The open comments are consumed.** -/
theorem consume : ∃ next, consumeAllOpenComments t = .ok next ∧
    LogAt next (es.map JournalEntry.consumed) := by
  by_cases hnil : es = []
  · subst hnil
    obtain rfl := h.start rfl
    exact ⟨[], by decide, h⟩
  · have hread := h.read
    rw [parseJournal] at hread
    split_ifs at hread with hblank
    · exact absurd (Except.ok.inj hread).symm hnil
    · split at hread
      · cases hread
      · next f hf =>
          obtain ⟨out, hout, hentries, -⟩ := consumed_of_parse hblank hf hread
          refine ⟨out, by rw [consumeAllOpenComments, hout]; rfl, hentries, ?_,
            fun hmap => absurd (List.map_eq_nil_iff.mp hmap) hnil⟩
          refine List.forall_mem_map.mpr fun e he => ?_
          have hbody : e.consumed.body = e.body := by
            rw [JournalEntry.consumed]
            split_ifs <;> rfl
          rw [hbody, h.quiet e he]

/-- **One call on the text follows the call on the entries.** -/
theorem call {nodeId : Text} (hid : '\n' ∉ nodeId) {call : JournalCall} (hquiet : call.Quiet) :
    Simulates (call.apply nodeId t) (call.log es) := by
  cases call with
  | append entry => exact h.append hid hquiet
  | edit id expected body actor editedAt => exact h.edit hquiet
  | tombstone id expected actor deletedAt => exact h.tombstone hquiet
  | consume =>
      obtain ⟨next, hnext, hlog⟩ := h.consume
      refine ⟨fun next' hnext' => ⟨_, rfl, ?_⟩, fun _ => ⟨next, hnext⟩⟩
      obtain rfl := Except.ok.inj (hnext.symm.trans hnext')
      exact hlog

end LogAt

/-! ### Runs -/

/-- The entry that the call changes, and who changes it. -/
def JournalCall.mutator? : JournalCall → Option (Text × CommentMutationActor)
  | .edit id _ _ actor _ => some (id, actor)
  | .tombstone id _ actor _ => some (id, actor)
  | _ => none

/-- What these calls do not change of an entry. -/
structure StandsAs (calls : List JournalCall) (e e' : JournalEntry) : Prop where
  entryId : e'.entryId = e.entryId
  time : e'.time = e.time
  actor : e'.actor = e.actor
  machine : e'.machine = e.machine
  /-- Facts stand, and so do deleted comments. -/
  fact : e.ty ≠ "comment".toList → e' = e
  /-- Prose is changed by its author, or by an admin. -/
  prose : e'.ty = e.ty ∧ e'.body = e.body ∨ ∃ call ∈ calls, ∃ actor,
    call.mutator? = some (e.entryId, actor) ∧ actor.mayEdit e.actor = true

namespace StandsAs

variable {calls more : List JournalCall} {e e' e'' : JournalEntry}

theorem refl (calls : List JournalCall) (e : JournalEntry) : StandsAs calls e e :=
  ⟨rfl, rfl, rfl, rfl, fun _ => rfl, .inl ⟨rfl, rfl⟩⟩

theorem mono (h : StandsAs calls e e') (hsub : ∀ call ∈ calls, call ∈ more) : StandsAs more e e' := by
  refine ⟨h.entryId, h.time, h.actor, h.machine, h.fact, h.prose.imp_right ?_⟩
  rintro ⟨call, hcall, hmutator⟩
  exact ⟨call, hsub call hcall, hmutator⟩

theorem trans (h : StandsAs calls e e') (h' : StandsAs calls e' e'') : StandsAs calls e e'' := by
  refine ⟨h'.entryId.trans h.entryId, h'.time.trans h.time, h'.actor.trans h.actor,
    h'.machine.trans h.machine, fun hty => ?_, ?_⟩
  · obtain rfl := h.fact hty
    exact h'.fact hty
  · obtain ⟨hty, hbody⟩ | hchanged := h.prose
    · obtain ⟨hty', hbody'⟩ | ⟨call, hcall, actor, hmutator, hmay⟩ := h'.prose
      · exact .inl ⟨hty'.trans hty, hbody'.trans hbody⟩
      · exact .inr ⟨call, hcall, actor, h.entryId ▸ hmutator, h.actor ▸ hmay⟩
    · exact .inr hchanged

end StandsAs

end Orgasmic
