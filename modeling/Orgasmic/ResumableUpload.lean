import Orgasmic.AssetQuota
import Orgasmic.AttachmentRecords
import Orgasmic.LinkWrites

/-! # Resumable uploads

The upload requests of the daemon's `node_services.rs`, for one upload id of a project.

* **Files.** `state.json` and `payload` in the directory of the upload, `attachments.org` and the
  blobs of every node.  The writer remembers the transaction of a finish that it has carried out, by
  its journal also after a restart.
* **Locks.** `start_upload` holds the lock of the store, the other requests the lock of the upload;
  so a start runs beside one of the others, and `remove_dir_all` of a cancel takes the files one by
  one.
* **Failures.** A request can end without an answer after each of its steps, and its file
  writes can stop in the middle.
* **Finishing** has four durable steps: the blob, the record, the state, and the payload that goes. -/

namespace Orgasmic

open Text Interleaving

namespace Resumable

/-- `MEDIA_TYPES`. -/
def mediaTypes : List Text :=
  ["audio/wav".toList, "audio/mpeg".toList, "audio/ogg".toList, "video/ogg".toList,
    "audio/mp4".toList, "video/mp4".toList, "audio/webm".toList, "video/webm".toList,
    "image/png".toList, "image/jpeg".toList, "application/pdf".toList, "text/plain".toList]

def matchesMedia (front : Bytes) (media : Text) : Bool :=
  if media = "audio/wav".toList then
    (utf8 "RIFF".toList).isPrefixOf front && (utf8 "WAVE".toList).isPrefixOf (front.drop 8)
  else if media = "audio/mpeg".toList then
    (utf8 "ID3".toList).isPrefixOf front ||
      match front with
      | a :: b :: _ => a = 0xff && b &&& 0xe0 = 0xe0
      | _ => false
  else if media = "audio/ogg".toList ∨ media = "video/ogg".toList then
    (utf8 "OggS".toList).isPrefixOf front
  else if media = "audio/mp4".toList ∨ media = "video/mp4".toList then
    (utf8 "ftyp".toList).isPrefixOf (front.drop 4)
  else if media = "audio/webm".toList ∨ media = "video/webm".toList then
    [0x1a, 0x45, 0xdf, 0xa3].isPrefixOf front
  else if media = "image/png".toList then
    [0x89, 0x50, 0x4e, 0x47, 0x0d, 0x0a, 0x1a, 0x0a].isPrefixOf front
  else if media = "image/jpeg".toList then [0xff, 0xd8, 0xff].isPrefixOf front
  else if media = "application/pdf".toList then (utf8 "%PDF-".toList).isPrefixOf front
  else if media = "text/plain".toList then !front.contains 0
  else false

/-- `uuid`: 36 characters that are read as an UUID are hexadecimal digits in five groups. -/
def isUuid (value : Text) : Bool :=
  value.length = 36 && value.zipIdx.all fun p =>
    if p.2 ∈ [8, 13, 18, 23] then p.1 = '-'
    else p.1 ∈ "0123456789abcdefABCDEF".toList

/-- The length of the buffer that a payload is read through. -/
def bufferSize : ℕ := 64 * 1024

/-- Does the first buffer look like the media type?  An empty file is not looked at. -/
def signatureFits (payload : Bytes) (media : Text) : Bool :=
  payload = [] || matchesMedia (payload.take bufferSize) media

/-! ### State -/

/-- `state.json`. -/
structure Upload where
  node : Text
  actor : Text
  name : Text
  size : UInt64
  mediaType : Text
  complete : Option AttachmentRecord
deriving DecidableEq

inductive StartPhase
  /-- There was no `state.json`. -/
  | vacant
  | created
  /-- The `state.json` that was read or written; its view is the answer. -/
  | seen (upload : Upload)
deriving DecidableEq

/-- A `start_upload` that holds the lock of the store. -/
structure StartCall where
  upload : Upload
  phase : StartPhase
deriving DecidableEq

inductive FinishPhase
  | loaded
  | verified (revision : Digest)
  | published (revision : Digest)
  | committed
  | recorded (record : AttachmentRecord)
  | saved (record : AttachmentRecord)

/-- A request that holds the lock of the upload. -/
inductive Call
  | put (offset : UInt64) (bytes : Bytes)
  /-- The payload is open, and so many of the bytes are written. -/
  | writing (offset : UInt64) (bytes : Bytes) (written : ℕ)
  | cancel
  | finish (upload : Upload) (phase : FinishPhase)

structure State where
  /-- `state.json`. -/
  upload : Option Upload
  payload : Option Bytes
  /-- The blobs of the nodes, by revision. -/
  blobs : Text → Text → Option Bytes
  /-- The text of `attachments.org` of a node; no file counts as an empty one. -/
  attachments : Text → Text
  /-- The revision in the finish that the writer remembers. -/
  remembered : Option Digest
  start : Option StartCall
  call : Option Call

inductive Answer
  | offset (offset : ℕ)
  | cancelled
  | record (record : AttachmentRecord)
  | failed
deriving DecidableEq

inductive Action
  /-- The file of the node, and the request as it would be saved. -/
  | startLock (nodeText : Text) (upload : Upload)
  | startCreate
  | startSave
  /-- The save failed, and the directory is removed. -/
  | startClean
  | startView
  | startFail
  | getView (actor : Text)
  | putLock (actor : Text) (offset : UInt64) (bytes : Bytes) (checksum : Option Text)
  | putOpen
  /-- So many more bytes are in the file. -/
  | putWrite (count : ℕ)
  | putSync
  /-- The write or the sync failed, and the file is cut at the offset. -/
  | putTruncate
  | cancelLock (actor : Text)
  | cancelState
  | cancelPayload
  | cancelEnd
  | finishLock (actor : Text)
  | finishVerify (expected : Option Text)
  | finishPublish
  | finishCommit (actor machine now : Stamp)
  | finishRead
  | finishSave
  | finishDrop
  /-- The request on the upload fails, or is dropped. -/
  | callFail
  /-- The finish of another upload writes its record. -/
  | otherCommit (node : Text) (next : AttachmentRecord)

/-! ### Requests -/

/-- The checks of a `start_upload` on the request. -/
def Upload.acceptable (u : Upload) : Bool :=
  singleLine u.name 255 && trim u.name ≠ [] && u.size ≠ 0 && u.size.toNat ≤ FILE_LIMIT &&
    u.mediaType ∈ mediaTypes

/-- Is the request the one that the upload was started with? -/
def Upload.sameRequest (saved u : Upload) : Bool :=
  saved.node = u.node && saved.name = u.name && saved.size = u.size &&
    saved.mediaType = u.mediaType

def checkedAdd (a : UInt64) (b : ℕ) : Option ℕ :=
  if a.toNat + b < 2 ^ 64 then some (a.toNat + b) else none

/-- The checks of a `put_chunk` before the file is opened. -/
def chunkFits (digest : Bytes → Digest) (u : Upload) (offset : UInt64) (bytes : Bytes)
    (checksum : Option Text) : Bool :=
  bytes ≠ [] && bytes.length ≤ CHUNK_LIMIT &&
    (checkedAdd offset bytes.length).any (· ≤ u.size.toNat) &&
    checksum.all (· = (digest bytes).val)

/-- The file with these bytes at a position; what is skipped behind its end is zeros. -/
def writeAt (file : Bytes) (position : ℕ) (bytes : Bytes) : Bytes :=
  file.take position ++ List.replicate (position - file.length) 0 ++ bytes ++
    file.drop (position + bytes.length)

/-- `set_len`. -/
def setLen (file : Bytes) (length : ℕ) : Bytes :=
  file.take length ++ List.replicate (length - file.length) 0

/-- The record that a finish wants to write. -/
def newRecord (id : Text) (u : Upload) (revision : Digest) (actor machine now : Stamp) :
    AttachmentRecord :=
  ⟨id, u.node, u.name, revision.val, u.size, u.mediaType, actor.val, now.val, some machine.val⟩

/-- What the writer does to `attachments.org` for a finish. -/
def attachTransform (next : AttachmentRecord) (source : Text) : Except RecordError Text := do
  let assets ← readAttachments source
  match assets.find? (·.id = next.id) with
  | some old =>
      if old.revision = next.revision then .ok (renderAttachments assets)
      else .error (.message "conflict: immutable attachment changed".toList)
  | none => .ok (renderAttachments (assets ++ [next]))

namespace State

/-- `load_upload`. -/
def load (s : State) (actor : Text) : Option Upload := s.upload.filter (·.actor = actor)

/-- `upload_view`. -/
def view (s : State) (u : Upload) : Answer :=
  if u.complete.isSome then .offset u.size.toNat
  else
    match s.payload with
    | some payload => .offset payload.length
    | none => .failed

def setStart (s : State) (start : Option StartCall) : State := { s with start }

def setCall (s : State) (call : Option Call) : State := { s with call }

/-- The request on the upload ends. -/
def answer (s : State) (a : Answer) : Option (State × Option Answer) := some (s.setCall none, some a)

/-- The request on the upload goes on. -/
def next (s : State) (call : Call) : Option (State × Option Answer) :=
  some (s.setCall (some call), none)

section

variable (digest : Bytes → Digest) (id : Text)

def actStart (s : State) : Action → Option (State × Option Answer)
  | .startLock nodeText u =>
      if s.start.isSome then none
      else if !nodeFound u.node nodeText || !u.acceptable then some (s, some .failed)
      else
        match s.upload with
        | none => some (s.setStart (some ⟨{ u with complete := none }, .vacant⟩), none)
        | some saved =>
            if saved.actor = u.actor && saved.sameRequest u then
              some (s.setStart (some ⟨u, .seen saved⟩), none)
            else some (s, some .failed)
  | .startCreate =>
      match s.start with
      | some ⟨u, .vacant⟩ =>
          if s.payload.isSome then some (s.setStart none, some .failed)
          else some ({ s with payload := some [] }.setStart (some ⟨u, .created⟩), none)
      | _ => none
  | .startSave =>
      match s.start with
      | some ⟨u, .created⟩ => some ({ s with upload := some u }.setStart (some ⟨u, .seen u⟩), none)
      | _ => none
  | .startClean =>
      match s.start with
      | some ⟨_, .created⟩ =>
          some ({ s with upload := none, payload := none }.setStart none, some .failed)
      | _ => none
  | .startView =>
      match s.start with
      | some ⟨_, .seen u⟩ => some (s.setStart none, some (s.view u))
      | _ => none
  | .startFail => if s.start.isSome then some (s.setStart none, some .failed) else none
  | _ => none

def actPut (s : State) : Action → Option (State × Option Answer)
  | .putLock actor offset bytes checksum =>
      if s.call.isSome then none
      else
        match s.load actor with
        | none => some (s, some .failed)
        | some u =>
            if u.complete.isSome || !chunkFits digest u offset bytes checksum then
              some (s, some .failed)
            else s.next (.put offset bytes)
  | .putOpen =>
      match s.call with
      | some (.put offset bytes) =>
          match s.payload with
          | some payload =>
              if payload.length = offset.toNat then s.next (.writing offset bytes 0)
              else s.answer .failed
          | none => s.answer .failed
      | _ => none
  | .putWrite count =>
      match s.call, s.payload with
      | some (.writing offset bytes written), some payload =>
          let more := (bytes.drop written).take count
          { s with payload := some (writeAt payload (offset.toNat + written) more) }.next
            (.writing offset bytes (written + more.length))
      | _, _ => none
  | .putSync =>
      match s.call with
      | some (.writing offset bytes written) =>
          if written = bytes.length then s.answer (.offset (offset.toNat + bytes.length)) else none
      | _ => none
  | .putTruncate =>
      match s.call, s.payload with
      | some (.writing offset _ _), some payload =>
          { s with payload := some (setLen payload offset.toNat) }.answer .failed
      | _, _ => none
  | _ => none

def actCancel (s : State) : Action → Option (State × Option Answer)
  | .cancelLock actor =>
      if s.call.isSome then none
      else
        match s.load actor with
        | none => some (s, some .failed)
        | some u => if u.complete.isSome then some (s, some .failed) else s.next .cancel
  | .cancelState =>
      match s.call with
      | some .cancel => some ({ s with upload := none }, none)
      | _ => none
  | .cancelPayload =>
      match s.call with
      | some .cancel => some ({ s with payload := none }, none)
      | _ => none
  | .cancelEnd =>
      match s.call with
      | some .cancel =>
          if s.upload.isNone && s.payload.isNone then s.answer .cancelled else s.answer .failed
      | _ => none
  | _ => none

/-- `commit_extra`: the writer answers what it remembers, and otherwise writes and remembers. -/
def commit (s : State) (u : Upload) (revision : Digest) (actor machine now : Stamp) :
    Option (State × Option Answer) :=
  match s.remembered with
  | some known =>
      if known.val = revision.val then s.next (.finish u .committed) else s.answer .failed
  | none =>
      match attachTransform (newRecord id u revision actor machine now) (s.attachments u.node) with
      | .error _ => s.answer .failed
      | .ok text =>
          { s with
            attachments := Function.update s.attachments u.node text
            remembered := some revision }.next (.finish u .committed)

def actFinish (s : State) : Action → Option (State × Option Answer)
  | .finishLock actor =>
      if s.call.isSome then none
      else
        match s.load actor with
        | none => some (s, some .failed)
        | some u =>
            match u.complete with
            | some done => some (s, some (.record done))
            | none => s.next (.finish u .loaded)
  | .finishVerify expected =>
      match s.call, s.payload with
      | some (.finish u .loaded), some payload =>
          if payload.length ≠ u.size.toNat then s.answer .failed
          else if !signatureFits payload u.mediaType then s.answer .failed
          else if expected.any (· ≠ (digest payload).val) then s.answer .failed
          else s.next (.finish u (.verified (digest payload)))
      | some (.finish _ .loaded), none => s.answer .failed
      | _, _ => none
  | .finishPublish =>
      match s.call, s.payload with
      | some (.finish u (.verified revision)), some payload =>
          { s with
            blobs := fun node name =>
              if node = u.node ∧ name = revision.val then (s.blobs node name).or (some payload)
              else s.blobs node name }.next (.finish u (.published revision))
      | _, _ => none
  | .finishCommit actor machine now =>
      match s.call with
      | some (.finish u (.published revision)) => s.commit id u revision actor machine now
      | _ => none
  | .finishRead =>
      match s.call with
      | some (.finish u .committed) =>
          match readAttachments (s.attachments u.node) with
          | .error _ => s.answer .failed
          | .ok assets =>
              match assets.find? (·.id = id) with
              | none => s.answer .failed
              | some record => s.next (.finish u (.recorded record))
      | _ => none
  | .finishSave =>
      match s.call with
      | some (.finish u (.recorded record)) =>
          { s with upload := some { u with complete := some record } }.next
            (.finish u (.saved record))
      | _ => none
  | .finishDrop =>
      match s.call with
      | some (.finish _ (.saved record)) =>
          if s.payload.isSome then { s with payload := none }.answer (.record record)
          else s.answer .failed
      | _ => none
  | _ => none

/-- One action, with the answer if it ends a request; `none` if it cannot happen. -/
def act (s : State) : Action → Option (State × Option Answer)
  | .startLock nodeText u => s.actStart (.startLock nodeText u)
  | .startCreate => s.actStart .startCreate
  | .startSave => s.actStart .startSave
  | .startClean => s.actStart .startClean
  | .startView => s.actStart .startView
  | .startFail => s.actStart .startFail
  | .getView actor =>
      if s.call.isSome then none
      else
        match s.load actor with
        | none => some (s, some .failed)
        | some u => some (s, some (s.view u))
  | .callFail => if s.call.isSome then s.answer .failed else none
  | .otherCommit node next =>
      match attachTransform next (s.attachments node) with
      | .error _ => none
      | .ok text => some ({ s with attachments := Function.update s.attachments node text }, none)
  | .putLock actor offset bytes checksum => s.actPut digest (.putLock actor offset bytes checksum)
  | .putOpen => s.actPut digest .putOpen
  | .putWrite count => s.actPut digest (.putWrite count)
  | .putSync => s.actPut digest .putSync
  | .putTruncate => s.actPut digest .putTruncate
  | .cancelLock actor => s.actCancel (.cancelLock actor)
  | .cancelState => s.actCancel .cancelState
  | .cancelPayload => s.actCancel .cancelPayload
  | .cancelEnd => s.actCancel .cancelEnd
  | a => s.actFinish digest id a

def step (s : State) (a : Action) : Option State := (s.act digest id a).map Prod.fst

/-- Take the actions until one of them answers. -/
def serve (s : State) : List Action → Option (State × Answer)
  | [] => none
  | a :: rest =>
      match s.act digest id a with
      | none => none
      | some (t, some answer) => some (t, answer)
      | some (t, none) => t.serve rest

end

end State

/-- The actions of a finish that nothing fails for. -/
def finishActions (owner : Text) (expected : Option Text) (actor machine now : Stamp) : List Action :=
  [.finishLock owner, .finishVerify expected, .finishPublish, .finishCommit actor machine now,
    .finishRead, .finishSave, .finishDrop]

end Resumable

end Orgasmic
