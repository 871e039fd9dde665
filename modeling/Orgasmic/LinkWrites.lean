import Orgasmic.ConversationInput
import Orgasmic.LedgerHandles
import Orgasmic.NodeRecords

/-! # Writing links

The requests that change the `links.org` of a node: `post_link` of the daemon's `node_services.rs`,
which replaces a record, and `append_link_anchors`, which adds the anchors of a message that was
sent to a record that is there.

* **Requests.** `LinkWrite.next` makes the checks of a `post_link` and the record it wants to write;
  `freshAnchors` finds what an append has to write on a copy of the file.
* **Transforms.** `postTransform` and `appendTransform` change the text of the file when the writer
  comes to the request; both read the records again and check again.
* **Steps.** Between its checks and the writer's turn a request waits, and other requests act.  A
  request can fail anywhere, also after its write; the writer answers a request id it remembers
  without writing, and forgets ids.  The lock of the directory is left out: what holds without it
  holds of the fewer interleavings that it allows. -/

namespace Orgasmic

open Text Interleaving

/-! ### Values from elsewhere -/

/-- A SHA-256 digest as it is formatted. -/
def Digest : Type :=
  { t : Text // t.length = 64 ∧ ∀ c ∈ t, c ∈ "0123456789abcdef".toList }

/-- A name or a time stamp that the daemon puts into a record.  Both also stand in the transaction
of the write, which has one line for each. -/
def Stamp : Type := { t : Text // OneLine t }

/-! ### Errors -/

inductive LinkError
  | badRequest (text : Text)
  | records (error : RecordError)
  | notFound (text : Text)
  | conflict (text : Text)
  | message (text : Text)
deriving DecidableEq

/-! ### Posting a link -/

structure LinkWrite where
  project : Text
  source : Text
  target : Text
  kind : Text
  anchors : List MediaAnchor
  baseRevision : UInt64
  deleted : Bool
  requestId : Text
deriving DecidableEq

/-- The identity of a link. -/
def linkId (digest : Bytes → Digest) (source target : Text) : Text :=
  (digest (utf8 (source ++ '\x00' :: target))).val

/-- What `node` needs of the file of a node: a heading with the id. -/
def nodeFound (id source : Text) : Bool :=
  match OrgFile.parse source "node.org".toList with
  | .ok file => (file.findById id).isSome
  | .error _ => false

def singleLine (s : Text) (max : ℕ) : Bool := !(max < byteLen s || s.any isControl)

/-- The exact revision of an audio or video attachment. -/
def mediaRevisionOwned (assets : List AttachmentRecord) (attachment revision : Text) : Bool :=
  assets.any fun a => a.id = attachment && a.revision = revision &&
    ("audio/".toList.isPrefixOf a.mediaType || "video/".toList.isPrefixOf a.mediaType)

/-- The largest integer that a JSON number keeps. -/
def MAX_MS : UInt64 := 9007199254740991

def checkAnchor (assets : List AttachmentRecord) (anchor : MediaAnchor) : Except LinkError Unit :=
  if !singleLine anchor.label 512 then
    .error (.badRequest "value must be a bounded single line".toList)
  else if MAX_MS < anchor.startMs ∨
      anchor.endMs.any (fun stop => stop ≤ anchor.startMs || MAX_MS < stop) then
    .error (.badRequest "invalid media anchor range".toList)
  else if !mediaRevisionOwned assets anchor.attachment anchor.revision then
    .error (.badRequest ("anchor must reference an immutable media revision owned by the source ".toList
      ++ "or target node".toList))
  else .ok ()

/-- The checks on the request alone. -/
def LinkWrite.checkShape (req : LinkWrite) : Except LinkError Unit :=
  if req.source = req.target ∨ req.kind ∉ ["RELATES_TO".toList, "PRODUCES".toList] ∨
      256 < req.anchors.length then
    .error (.badRequest
      "links require distinct nodes, RELATES_TO/PRODUCES, and at most 256 anchors".toList)
  else .ok ()

/-- `u64::checked_add(1)`. -/
def nextRevision (base : UInt64) : Option UInt64 :=
  if base.toNat + 1 < 2 ^ 64 then some (base + 1) else none

/-- The checks under the lock, on the attachments of both nodes, and the record to write. -/
def LinkWrite.next (digest : Bytes → Digest) (req : LinkWrite) (sourceNode : Text)
    (sourceAttachments targetAttachments : Text) (actor now : Stamp) : Except LinkError LinkRecord := do
  if !nodeFound req.source sourceNode then .error (.notFound "node unavailable".toList)
  else
    let assets ← (readAttachments sourceAttachments).mapError .records
    let more ← (readAttachments targetAttachments).mapError .records
    let _ ← req.anchors.mapM (checkAnchor (assets ++ more))
    match nextRevision req.baseRevision with
    | none => .error (.badRequest "revision overflow".toList)
    | some revision =>
        .ok ⟨linkId digest req.source req.target, req.source, req.target, req.kind, revision,
          req.deleted, req.anchors, actor.val, now.val⟩

/-- The revision that a request has to know. -/
def currentRevision (links : List LinkRecord) (id : Text) : UInt64 :=
  match links.find? fun r => r.id = id with
  | none => 0
  | some r => r.revision

/-- What the writer does for a `post_link`. -/
def postTransform (next : LinkRecord) (expected : UInt64) (source : Text) :
    Except LinkError Text := do
  let links ← (readLinks source).mapError .records
  if currentRevision links next.id ≠ expected then
    .error (.conflict "link changed; reload before editing".toList)
  else .ok (renderLinks (links.filter (fun r => r.id ≠ next.id) ++ [next]))

/-! ### Appending anchors -/

def ANCHOR_LABEL_CHARS : ℕ := 80

/-- The anchors of the ranges that a message names on the node in scope. -/
def rangeAnchors (scope : Text) (chips : List ContextChip) (message : Text) : List MediaAnchor :=
  let label := trim (([' '].intercalate (splitWhitespace message)).take ANCHOR_LABEL_CHARS)
  chips.filterMap fun chip =>
    match chip with
    | .range node attachment revision startMs endMs =>
        if node ≠ scope then none
        else some ⟨attachment, revision, .ofNat startMs, some (.ofNat endMs), label⟩
    | _ => none

/-- The anchors that `record_range_anchors` appends; attachments that cannot be read count as
none. -/
def recordedAnchors (scope : Text) (chips : List ContextChip) (message attachments : Text) :
    List MediaAnchor :=
  let assets := match readAttachments attachments with
    | .ok assets => assets
    | .error _ => []
  (rangeAnchors scope chips message).filter fun a =>
    mediaRevisionOwned assets a.attachment a.revision

/-- Anchors on the same range of the same revision. -/
def MediaAnchor.same (a b : MediaAnchor) : Bool :=
  a.attachment = b.attachment && a.revision = b.revision && a.startMs = b.startMs &&
    a.endMs = b.endMs

/-- The anchors that are neither on file nor named before. -/
def freshAnchors (onFile anchors : List MediaAnchor) : List MediaAnchor :=
  anchors.foldl
    (fun fresh anchor =>
      if (onFile ++ fresh).any (fun b => b.same anchor) then fresh else fresh ++ [anchor]) []

/-- The live record with an id. -/
def liveLink (links : List LinkRecord) (id : Text) : Option LinkRecord :=
  links.find? fun r => r.id = id && !r.deleted

/-- The check on the copy: what is left to write. -/
def lookAnchors (id : Text) (anchors : List MediaAnchor) (source : Text) :
    Except LinkError (List MediaAnchor) := do
  let links ← (readLinks source).mapError .records
  match liveLink links id with
  | none => .error (.badRequest "scope link is missing".toList)
  | some link => .ok (freshAnchors link.anchors anchors)

/-- The anchors of a record after those that are not there have been pushed. -/
def pushAnchors (onFile fresh : List MediaAnchor) : List MediaAnchor :=
  fresh.foldl
    (fun anchors anchor =>
      if anchors.any (fun b => b.same anchor) then anchors else anchors ++ [anchor]) onFile

/-- The record after an append; the revision wraps around. -/
def LinkRecord.appended (link : LinkRecord) (fresh : List MediaAnchor) (actor now : Text) :
    LinkRecord :=
  { link with
    anchors := pushAnchors link.anchors fresh
    revision := link.revision + 1
    actor := actor
    updatedAt := now }

/-- Change the first live record with the id. -/
def editLive (id : Text) (f : LinkRecord → LinkRecord) :
    List LinkRecord → Option (List LinkRecord)
  | [] => none
  | r :: rest =>
      if r.id = id && !r.deleted then some (f r :: rest)
      else (editLive id f rest).map fun rest => r :: rest

/-- What the writer does for an append. -/
def appendTransform (id : Text) (fresh : List MediaAnchor) (actor now : Text) (source : Text) :
    Except LinkError Text := do
  let links ← (readLinks source).mapError .records
  match editLive id (fun link => link.appended fresh actor now) links with
  | none => .error (.message "scope link is missing".toList)
  | some links => .ok (renderLinks links)

/-! ### Requests in flight -/

inductive LinkRequest
  | post (req : LinkWrite)
  | append (source target : Text) (anchors : List MediaAnchor)
deriving DecidableEq

inductive LinkAnswer
  | posted (id : Text)
  /-- Was anything written? -/
  | appended (wrote : Bool)
  | failed
deriving DecidableEq

def LinkAnswer.succeeded : LinkAnswer → Bool
  | .failed => false
  | _ => true

/-- How far a request has come. -/
inductive LinkPhase
  | received
  /-- Both nodes were found. -/
  | resolved
  /-- The record waits for the writer. -/
  | ready (next : LinkRecord)
  /-- The anchors that were not on the copy wait for the writer. -/
  | fresh (anchors : List MediaAnchor)
  | written
  /-- The writer remembered the request. -/
  | replayed
  | answered (answer : LinkAnswer)
deriving DecidableEq

structure LinkCall where
  req : LinkRequest
  phase : LinkPhase
deriving DecidableEq

structure LinksState where
  /-- The text of `links.org`; no file counts as an empty one. -/
  file : Text
  /-- The requests that the writer remembers by their ids. -/
  replays : Text → Option LinkWrite
  calls : ℕ → Option LinkCall

inductive LinkAction
  | post (i : ℕ) (req : LinkWrite)
  /-- A message was sent into a conversation about a node. -/
  | record (i : ℕ) (conversation scope : Text) (chips : List ContextChip)
      (message attachments : Text)
  /-- The files of both nodes are read. -/
  | resolve (i : ℕ) (sourceNode targetNode : Text)
  | check (i : ℕ) (sourceNode sourceAttachments targetAttachments : Text) (actor now : Stamp)
  /-- An append reads its copy. -/
  | look (i : ℕ)
  /-- The writer comes to the request. -/
  | commit (i : ℕ) (actor now : Stamp)
  | reply (i : ℕ)
  /-- The request fails for a reason outside of what is modelled, or is dropped. -/
  | fail (i : ℕ)
  | forget (requestId : Text)

namespace LinksState

def setCall (s : LinksState) (i : ℕ) (req : LinkRequest) (phase : LinkPhase) : LinksState :=
  { s with calls := Function.update s.calls i (some ⟨req, phase⟩) }

/-- The writer's turn: the phase after it, with the text and the memory it leaves. -/
def commitCall (digest : Bytes → Digest) (s : LinksState) (i : ℕ) (call : LinkCall)
    (actor now : Stamp) : Option LinksState :=
  match call.req, call.phase with
  | .post req, .ready next =>
      match s.replays req.requestId with
      | some known =>
          if known = req then some (s.setCall i call.req .replayed)
          else some (s.setCall i call.req (.answered .failed))
      | none =>
          match postTransform next req.baseRevision s.file with
          | .error _ => some (s.setCall i call.req (.answered .failed))
          | .ok text =>
              some ({ s with
                file := text
                replays := Function.update s.replays req.requestId (some req) }.setCall i call.req
                  .written)
  | .append source target _, .fresh fresh =>
      match appendTransform (linkId digest source target) fresh actor.val now.val s.file with
      | .error _ => some (s.setCall i call.req (.answered .failed))
      | .ok text => some ({ s with file := text }.setCall i call.req .written)
  | _, _ => none

/-- The answer of a request that the writer is done with. -/
def answerOf (digest : Bytes → Digest) : LinkRequest → LinkAnswer
  | .post req => .posted (linkId digest req.source req.target)
  | .append _ _ _ => .appended true

def step (digest : Bytes → Digest) (s : LinksState) : LinkAction → Option LinksState
  | .post i req => if (s.calls i).isNone then some (s.setCall i (.post req) .received) else none
  | .record i conversation scope chips message attachments =>
      let anchors := recordedAnchors scope chips message attachments
      if (s.calls i).isNone ∧ anchors ≠ [] then
        some (s.setCall i (.append conversation scope anchors) .received)
      else none
  | .resolve i sourceNode targetNode =>
      match s.calls i with
      | some ⟨.post req, .received⟩ =>
          if nodeFound req.source sourceNode && nodeFound req.target targetNode &&
              req.checkShape.isOk then
            some (s.setCall i (.post req) .resolved)
          else some (s.setCall i (.post req) (.answered .failed))
      | _ => none
  | .check i sourceNode sourceAttachments targetAttachments actor now =>
      match s.calls i with
      | some ⟨.post req, .resolved⟩ =>
          match req.next digest sourceNode sourceAttachments targetAttachments actor now with
          | .ok next => some (s.setCall i (.post req) (.ready next))
          | .error _ => some (s.setCall i (.post req) (.answered .failed))
      | _ => none
  | .look i =>
      match s.calls i with
      | some ⟨.append source target anchors, .received⟩ =>
          match lookAnchors (linkId digest source target) anchors s.file with
          | .error _ => some (s.setCall i (.append source target anchors) (.answered .failed))
          | .ok [] =>
              some (s.setCall i (.append source target anchors) (.answered (.appended false)))
          | .ok fresh => some (s.setCall i (.append source target anchors) (.fresh fresh))
      | _ => none
  | .commit i actor now =>
      match s.calls i with
      | some call => s.commitCall digest i call actor now
      | none => none
  | .reply i =>
      match s.calls i with
      | some ⟨req, .written⟩ => some (s.setCall i req (.answered (answerOf digest req)))
      | some ⟨req, .replayed⟩ => some (s.setCall i req (.answered (answerOf digest req)))
      | _ => none
  | .fail i =>
      match s.calls i with
      | some ⟨_, .answered _⟩ => none
      | some ⟨req, _⟩ => some (s.setCall i req (.answered .failed))
      | none => none
  | .forget requestId => some { s with replays := Function.update s.replays requestId none }

end LinksState

end Orgasmic
