import Orgasmic.Journal

/-! # Ledgers behind open handles

The writer keeps one `CachedTxWriter` for each ledger it has appended to.

* **Files.** A `Disk` is the bytes at each path; a path is its components.
* **Rows.** `prepareTxEntry` mints what the caller left open; `journalEntry` turns a row into an
  entry of `journal.org`.
* **Handles.** A handle knows the `EVENT_ID`s of its ledger and appends a row only once
  (`CachedTxWriter.append`); `appendMany` stops at the first row that is refused, with the rows
  before it written. -/

namespace Orgasmic

open Text

/-! ### Files -/

/-- The components of a path. -/
abbrev FilePath := List Text

abbrev Bytes := List UInt8

def newline : UInt8 := 10

/-- The files that are there, by path. -/
abbrev Disk := FilePath → Option Bytes

def utf8 (t : Text) : Bytes := t.flatMap String.utf8EncodeChar

/-- `read_to_string` of the bytes. -/
def readToString (bytes : Bytes) : Option Text :=
  (String.fromUTF8? ⟨bytes.toArray⟩).map String.toList

theorem readToString_utf8 (t : Text) : readToString (utf8 t) = some t := by
  have bytes : (⟨(utf8 t).toArray⟩ : ByteArray) = (String.ofList t).toByteArray := by
    rw [String.toByteArray_ofList]
    exact ByteArray.ext (List.data_toByteArray (l := utf8 t)).symm
  unfold readToString String.fromUTF8?
  rw [bytes, dif_pos (String.ofList t).isValidUTF8]
  exact congrArg some (String.toList_ofList ..)

/-- The byte of a line break comes from a line break. -/
theorem newline_notMem_encode {c : Char} (h : c ≠ '\n') : newline ∉ String.utf8EncodeChar c := by
  have byte : ∀ n, newline = UInt8.ofNat n → n % 256 = 10 := by
    intro n eq
    have value := congrArg UInt8.toNat eq
    rw [UInt8.toNat_ofNat'] at value
    exact value.symm
  unfold String.utf8EncodeChar
  dsimp only
  split_ifs with h1 h2 h3
  · rw [List.mem_singleton]
    intro eq
    have value := byte _ eq
    have same : c.toNat = '\n'.toNat := by
      show c.val.toNat = 10
      omega
    exact h (Char.toNat_inj.mp same)
  all_goals
    simp only [List.mem_cons, List.not_mem_nil, or_false, not_or]
    repeat' apply And.intro
    all_goals
      intro eq
      have value := byte _ eq
      omega

theorem newline_notMem_utf8 {t : Text} (h : '\n' ∉ t) : newline ∉ utf8 t := by
  intro mem
  obtain ⟨c, hc, hbyte⟩ := List.mem_flatMap.mp mem
  exact newline_notMem_encode (fun eq => h (eq ▸ hc)) hbyte

def displayPath (path : FilePath) : Text := path.flatMap ('/' :: ·)

def fileName (path : FilePath) : Option Text := path.getLast?

/-- `file_name` of the parent. -/
def parentName (path : FilePath) : Option Text := path.dropLast.getLast?

/-- `file_stem`. -/
def fileStem (path : FilePath) : Option Text :=
  (fileName path).map fun name =>
    match (name.rdropWhile (· ≠ '.')).dropLast with
    | [] => name
    | stem => stem

def isJournal (path : FilePath) : Bool := fileName path = some "journal.org".toList

/-! ### Requests -/

inductive TxIdPolicy where
  | preserve
  | projectSequence (projectId date : Text)
deriving DecidableEq, Repr

structure TxAppend where
  txPath : FilePath
  entry : TxEntry
  projectId : Option Text
  txIdPolicy : TxIdPolicy
  requestId : Option Text
deriving DecidableEq, Repr

structure TxAppendResult where
  txId : Text
  txPath : FilePath
deriving DecidableEq, Repr

inductive WriterError where
  | requestIdReuse (requestId : Text)
  | mutationIdentity (requestId : Text)
  | syncUncertain (retry : Bool)
  | journal (error : JournalError)
  | tx (error : TxError)
  /-- An operation of the file system that fails, by the words of its context. -/
  | io (context : Text)
  | message (text : Text)
deriving DecidableEq, Repr

def eventIdKey : Text := "EVENT_ID".toList

/-- The identifiers minted for one attempt: the end of a transaction id and an `EVENT_ID`. -/
structure Minted where
  txSuffix : Text
  eventId : Text
deriving DecidableEq, Repr

def projectTxSlug (projectId : Text) : Text :=
  let raw := projectId.takeWhile (· ≠ '-')
  match raw.filter fun c => c.isAlphanum || c = '_' with
  | [] => "proj".toList
  | slug => slug

section
variable (isUuid : Text → Bool)

/-- The row that an attempt writes; `isUuid` is the parser of the `uuid` crate. -/
def prepareTxEntry (minted : Minted) (req : TxAppend) : Except WriterError TxEntry :=
  let entry : TxEntry :=
    match req.txIdPolicy with
    | .preserve => req.entry
    | .projectSequence projectId date =>
        { req.entry with
          txId := "tx-".toList ++ date ++ "-".toList ++ projectTxSlug projectId ++ "-".toList ++
            minted.txSuffix }
  match (entry.extra.filter fun p => p.1 = eventIdKey).map Prod.snd with
  | [] => .ok { entry with extra := entry.extra ++ [(eventIdKey, minted.eventId)] }
  | [id] => if isUuid id then .ok entry else .error (.message "EVENT_ID is not a UUID".toList)
  | _ => .error (.message "event has duplicate EVENT_ID properties".toList)

end

def eventId (entry : TxEntry) : Text := (entry.extra? eventIdKey).getD entry.txId

/-! ### Journal rows -/

def unescapePropertyValue : Text → Text
  | '\\' :: 'n' :: rest => '\n' :: unescapePropertyValue rest
  | '\\' :: '\\' :: rest => '\\' :: unescapePropertyValue rest
  | c :: rest => c :: unescapePropertyValue rest
  | [] => []

/-- The journal entry of a row; its prose is the property `BODY`. -/
def journalEntry (entry : TxEntry) : JournalEntry where
  entryId := entry.txId
  time := entry.time
  ty := entry.ty
  actor := entry.actor
  machine := entry.machine
  extras :=
    ([("PROJECT".toList, entry.project), ("TASK".toList, entry.task),
        ("TARGET".toList, entry.target), ("REASON".toList, entry.reason)].filterMap fun p =>
      p.2.map fun value => (p.1, value)) ++ entry.extra.filter fun p => p.1 ≠ "BODY".toList
  body := unescapePropertyValue ((entry.extra? "BODY".toList).getD [])

/-! ### Handles -/

/-- What a handle appends to. -/
inductive LedgerWriter where
  | tx (needsLeadingBlank : Bool)
  | journal
deriving DecidableEq, Repr

structure CachedTxWriter where
  writer : LedgerWriter
  /-- The transaction of each `EVENT_ID` of the ledger, the last one first. -/
  eventIds : List (Text × Text)
deriving DecidableEq, Repr

/-- The transaction ids of a ledger by `EVENT_ID`. -/
def readEventIds (path : FilePath) (source : Text) : Except WriterError (List (Text × Text)) :=
  if isJournal path then
    match parseJournal source (displayPath path) with
    | .error e => .error (.journal e)
    | .ok entries =>
        .ok (entries.map fun entry =>
          ((entry.extra? eventIdKey).getD entry.entryId, entry.entryId)).reverse
  else
    match parseTxFile source (displayPath path) with
    | .error e => .error (.tx e)
    | .ok entries => .ok (entries.map fun entry => (eventId entry, entry.txId)).reverse

namespace CachedTxWriter

/-- The header that opening writes to a ledger that is not there or empty. -/
def headerAt (path : FilePath) : Option Text :=
  if isJournal path then (parentName path).map journalHeader
  else some (seedText ((fileStem path).getD "tx".toList))

/-- The bytes of the ledger once it is open. -/
def openedBytes (disk : Disk) (path : FilePath) : Option Bytes :=
  match disk path with
  | some (b :: bs) => some (b :: bs)
  | _ => (headerAt path).map utf8

/-- `CachedTxWriter::open`: the ledger as it is then on the disk, and the handle. -/
def openAt (disk : Disk) (path : FilePath) : Disk × Except WriterError CachedTxWriter :=
  match openedBytes disk path with
  | none => (Function.update disk path (some ((disk path).getD [])),
      .error (.message "journal path has no node id".toList))
  | some bytes =>
      let disk' := Function.update disk path (some bytes)
      match readToString bytes with
      | none => (disk', .error (.io "read".toList))
      | some source =>
          match readEventIds path source with
          | .error e => (disk', .error e)
          | .ok eventIds =>
              let existed := (disk path).getD [] ≠ []
              let needsLeadingBlank := existed && !fileEndsWithBlankLine source
              (disk', .ok ⟨if isJournal path then .journal else .tx needsLeadingBlank, eventIds⟩)

/-- The transaction that the ledger has under this `EVENT_ID`. -/
def known? (w : CachedTxWriter) (id : Text) : Option Text :=
  (w.eventIds.find? fun p => p.1 = id).map Prod.snd

end CachedTxWriter

namespace LedgerWriter

/-- The text that a row is written as. -/
def block (w : LedgerWriter) (entry : TxEntry) : Except WriterError Text :=
  match w with
  | .tx needsLeadingBlank =>
      let (written, result) := TxWriter.appendMany ⟨[], needsLeadingBlank⟩ [entry]
      match result with
      | .error e => .error (.tx e)
      | .ok () => .ok written.text
  | .journal =>
      let entry := journalEntry entry
      match entry.validate with
      | .error e => .error (.journal e)
      | .ok () =>
          match rejectJournalProse entry.body with
          | .error e => .error (.journal e)
          | .ok () => .ok (journalEntryBlock entry)

/-- A writer that has just written starts its rows with their own blank line. -/
def after : LedgerWriter → LedgerWriter
  | .tx _ => .tx false
  | .journal => .journal

end LedgerWriter

namespace CachedTxWriter

/-- `append`: the handle after it, the text it wrote and the transaction id. -/
def append (w : CachedTxWriter) (entry : TxEntry) :
    Except WriterError (CachedTxWriter × Text × Text) :=
  match w.known? (eventId entry) with
  | some existing => .ok (w, [], existing)
  | none =>
      match w.writer.block entry with
      | .error e => .error e
      | .ok text =>
          .ok (⟨w.writer.after, (eventId entry, entry.txId) :: w.eventIds⟩, text, entry.txId)

/-- `append_many`: the handle and the text written so far, also where a row is refused. -/
def appendMany (w : CachedTxWriter) :
    List TxEntry → CachedTxWriter × Text × Except WriterError (List Text)
  | [] => (w, [], .ok [])
  | entry :: entries =>
      match w.append entry with
      | .error e => (w, [], .error e)
      | .ok (w', text, txId) =>
          let (w'', rest, result) := w'.appendMany entries
          (w'', text ++ rest, result.map (txId :: ·))

end CachedTxWriter

end Orgasmic
