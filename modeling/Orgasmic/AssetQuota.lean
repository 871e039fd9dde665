import Orgasmic.Interleaving
import Orgasmic.Text

/-! # Attachments and their quota

Attachments are uploaded in chunks and then published: `start_upload` opens an unfinished upload,
`put_chunk` appends to its payload, `finish_upload` links the payload into the ledger as a blob
named by its digest and marks the upload complete, `cancel_upload` removes an unfinished one.

* **The quota.** `start_upload` adds up the blobs and the sizes of the unfinished uploads, in two
  scans, and refuses what would exceed `STORE_LIMIT`. A directory scan returns what was there when
  it began; what appears meanwhile it may return or not.
* **Locks.** One for the store, held by `start_upload`; one an upload, held by the other requests. -/

namespace Orgasmic

def CHUNK_LIMIT : ℕ := 4 * 1024 * 1024
def FILE_LIMIT : ℕ := 8 * 1024 * 1024 * 1024
def STORE_LIMIT : ℕ := 64 * 1024 * 1024 * 1024

/-- How many uploads of a project may be unfinished. -/
def SESSION_LIMIT : ℕ := 4096

/-- `u64::MAX`. -/
def u64Max : ℕ := 2 ^ 64 - 1

def saturatingAdd (a b : ℕ) : ℕ := min (a + b) u64Max

/-- A published blob: the file `attachments/<revision>` of a node. -/
structure Blob where
  node : Text
  revision : Text
  len : ℕ
  /-- The serial number of the upload that was linked here; no part of the file. -/
  publisher : ℕ
deriving DecidableEq

/-- The `state.json` and the payload of an upload. -/
structure Upload where
  id : Text
  node : Text
  size : ℕ
  payload : List UInt8
  complete : Bool
  /-- Numbers the uploads in the order they begin; no part of the file. -/
  serial : ℕ
deriving DecidableEq

inductive StartPhase
  | locked
  /-- In the scan of the blobs; those that were there when it began. -/
  | blobs (must : List Blob)
  /-- In the scan of the uploads; those that were there when it began. -/
  | sessions (must : List Text)
  | admitted

/-- A `start_upload` that holds the lock of the store. -/
structure StartCall where
  id : Text
  node : Text
  size : ℕ
  phase : StartPhase
  reserved : ℕ
  /-- The blobs that the scan has returned. -/
  counted : List Blob
  /-- The uploads that the scan has returned, and those it found unfinished, as it found them. -/
  visited : List Text
  tallied : List Upload

inductive FinishPhase
  | loaded
  | verified (revision : Text)
  | published
  | marked

/-- A request that holds the lock of an upload, past its checks. -/
inductive UploadCall
  | put (offset : ℕ) (bytes : List UInt8)
  | cancel
  | finish (phase : FinishPhase)

structure AssetStore where
  blobs : List Blob
  uploads : List Upload
  start : Option StartCall
  calls : Text → Option UploadCall
  /-- The next serial number. -/
  next : ℕ

inductive QuotaAction
  | startLock (id node : Text) (size : ℕ)
  | startScan
  | startBlob (blob : Blob)
  | startBlobsEnd
  | startSession (id : Text)
  | startSessionsEnd
  | startSave
  | startFail
  | putLock (id : Text) (offset : ℕ) (bytes : List UInt8)
  | putWrite (id : Text)
  | cancelLock (id : Text)
  /-- `remove_dir_all` takes the files one by one: an upload started again under the name goes too. -/
  | cancelRemove (id : Text)
  | finishLock (id : Text)
  | finishVerify (id : Text)
  | finishPublish (id : Text)
  | finishMark (id : Text)
  | finishDrop (id : Text)
  /-- The request on the upload ends, or fails. -/
  | callEnd (id : Text)

namespace AssetStore

def upload? (s : AssetStore) (id : Text) : Option Upload := s.uploads.find? fun u => u.id = id

/-- The upload, if it is there and not complete. -/
def unfinished? (s : AssetStore) (id : Text) : Option Upload :=
  (s.upload? id).filter fun u => !u.complete

def setCall (s : AssetStore) (id : Text) (call : Option UploadCall) : AssetStore :=
  { s with calls := Function.update s.calls id call }

/-- Change the upload of this name. -/
def change (s : AssetStore) (id : Text) (f : Upload → Upload) : AssetStore :=
  { s with uploads := s.uploads.map fun u => if u.id = id then f u else u }

def setStart (s : AssetStore) (call : Option StartCall) : AssetStore := { s with start := call }

/-- The quota check. -/
def refuses (call : StartCall) : Bool :=
  decide (SESSION_LIMIT ≤ call.tallied.length) ||
    decide (STORE_LIMIT < saturatingAdd call.reserved call.size)

section step

variable (digest : List UInt8 → Text)

/-- The blob of the payload, if it is not there yet. -/
def publishBlob (s : AssetStore) (u : Upload) (revision : Text) : AssetStore :=
  if s.blobs.any fun b => decide (b.node = u.node) && decide (b.revision = revision) then s
  else { s with blobs := ⟨u.node, revision, u.payload.length, u.serial⟩ :: s.blobs }

/-- One action; `none` if it cannot happen. `digest` names a blob by its bytes. -/
def step (s : AssetStore) : QuotaAction → Option AssetStore
  | .startLock id node size =>
      if s.start.isSome ∨ size = 0 ∨ FILE_LIMIT < size then none
      else some (s.setStart (some ⟨id, node, size, .locked, 0, [], [], []⟩))
  | .startScan =>
      match s.start with
      | some call =>
          match call.phase with
          | .locked =>
              if (s.upload? call.id).isSome then some (s.setStart none)
              else some (s.setStart (some { call with phase := .blobs s.blobs }))
          | _ => none
      | none => none
  | .startBlob blob =>
      match s.start with
      | some call =>
          match call.phase with
          | .blobs _ =>
              if blob ∈ s.blobs ∧ blob ∉ call.counted then
                some (s.setStart (some { call with
                  reserved := saturatingAdd call.reserved blob.len
                  counted := blob :: call.counted }))
              else none
          | _ => none
      | none => none
  | .startBlobsEnd =>
      match s.start with
      | some call =>
          match call.phase with
          | .blobs must =>
              if must ⊆ call.counted then
                some (s.setStart (some { call with phase := .sessions (s.uploads.map Upload.id) }))
              else none
          | _ => none
      | none => none
  | .startSession id =>
      match s.start with
      | some call =>
          match call.phase with
          | .sessions _ =>
              if id ∈ call.visited then none
              else
                match s.unfinished? id with
                | none => some (s.setStart (some { call with visited := id :: call.visited }))
                | some u =>
                    some (s.setStart (some { call with
                      reserved := saturatingAdd call.reserved u.size
                      visited := id :: call.visited
                      tallied := u :: call.tallied }))
          | _ => none
      | none => none
  | .startSessionsEnd =>
      match s.start with
      | some call =>
          match call.phase with
          | .sessions must =>
              if must ⊆ call.visited then
                if refuses call then some (s.setStart none)
                else some (s.setStart (some { call with phase := .admitted }))
              else none
          | _ => none
      | none => none
  | .startSave =>
      match s.start with
      | some call =>
          match call.phase with
          | .admitted =>
              some { s with
                uploads := ⟨call.id, call.node, call.size, [], false, s.next⟩ :: s.uploads
                start := none
                next := s.next + 1 }
          | _ => none
      | none => none
  | .startFail => some (s.setStart none)
  | .putLock id offset bytes =>
      match s.calls id, s.unfinished? id with
      | none, some u =>
          if bytes = [] ∨ CHUNK_LIMIT < bytes.length ∨ u.size < offset + bytes.length then none
          else some (s.setCall id (some (.put offset bytes)))
      | _, _ => none
  | .putWrite id =>
      match s.calls id, s.upload? id with
      | some (.put offset bytes), some u =>
          if u.payload.length = offset then
            some ((s.change id fun u => { u with payload := u.payload ++ bytes }).setCall id none)
          else some (s.setCall id none)
      | _, _ => none
  | .cancelLock id =>
      match s.calls id, s.unfinished? id with
      | none, some _ => some (s.setCall id (some .cancel))
      | _, _ => none
  | .cancelRemove id =>
      match s.calls id with
      | some .cancel => some { s with uploads := s.uploads.filter fun u => u.id ≠ id }
      | _ => none
  | .finishLock id =>
      match s.calls id, s.unfinished? id with
      | none, some _ => some (s.setCall id (some (.finish .loaded)))
      | _, _ => none
  | .finishVerify id =>
      match s.calls id, s.upload? id with
      | some (.finish .loaded), some u =>
          if u.payload.length = u.size then
            some (s.setCall id (some (.finish (.verified (digest u.payload)))))
          else some (s.setCall id none)
      | _, _ => none
  | .finishPublish id =>
      match s.calls id, s.upload? id with
      | some (.finish (.verified revision)), some u =>
          some ((s.publishBlob u revision).setCall id (some (.finish .published)))
      | _, _ => none
  | .finishMark id =>
      match s.calls id with
      | some (.finish .published) =>
          some ((s.change id fun u => { u with complete := true }).setCall id
            (some (.finish .marked)))
      | _ => none
  | .finishDrop id =>
      match s.calls id with
      | some (.finish .marked) =>
          some ((s.change id fun u => { u with payload := [] }).setCall id none)
      | _ => none
  | .callEnd id => some (s.setCall id none)

end step

/-! ### What is used -/

/-- The published bytes. -/
def published (s : AssetStore) : ℕ := (s.blobs.map Blob.len).sum

/-- The declared sizes of the unfinished uploads. -/
def declared (s : AssetStore) : ℕ :=
  ((s.uploads.filter fun u => !u.complete).map Upload.size).sum

/-- The upload is unfinished and its bytes are not in the ledger. -/
def pending (blobs : List Blob) (u : Upload) : Bool :=
  !u.complete && blobs.all fun b => decide (b.publisher ≠ u.serial)

/-- The published bytes and the sizes of the uploads whose bytes are not among them. -/
def used (blobs : List Blob) (uploads : List Upload) : ℕ :=
  (blobs.map Blob.len).sum + ((uploads.filter (pending blobs)).map Upload.size).sum

end AssetStore

end Orgasmic
