import Orgasmic.TxWriter

/-! # Node journals

`journal.org` of a node, as `node_kernel.rs` and the writer's guards hold it.

* **Entries.** A journal entry is a top-level heading with a property drawer and a body of prose;
  `parseJournal` reads them, `journalEntryBlock` renders one.
* **Edits.** `editCommentBody` and `tombstoneComment` splice into the text at the spans of the
  parsed entry.
* **Guarded operations.** `appendJournalEntry`, `editJournalComment` and `tombstoneJournalComment`
  are the transforms that the writer runs on the text of the file. -/

namespace Orgasmic

open Text

/-- `CommentMutationActor`. -/
inductive CommentMutationActor where
  | member (name : Text)
  | admin (name : Text)
deriving DecidableEq, Repr

def CommentMutationActor.name : CommentMutationActor → Text
  | .member name => name
  | .admin name => name

/-- A member edits the comments under the own name. -/
def CommentMutationActor.mayEdit (author : Text) : CommentMutationActor → Bool
  | .member name => author = name
  | .admin _ => true

/-- One journal entry. -/
structure JournalEntry where
  entryId : Text
  time : Text
  ty : Text
  actor : Text
  machine : Text
  /-- Every drawer key beyond the five required ones, in file order. -/
  extras : List (Text × Text)
  body : Text
deriving DecidableEq, Repr

inductive JournalError where
  | duplicateProperty (entryId key : Text)
  | drawer (error : TxError)
  | parse (error : OrgError)
  | duplicateKey (display title key : Text)
  | missingKey (display title : Text)
  | notFound (entryId : Text)
  | noType (entryId : Text)
  | notComment (entryId : Text)
  | drawerEnd
  | prose (line : ℕ)
  | exists (entryId : Text)
  | commentNotFound (entryId : Text)
  | commentForbidden (entryId : Text)
  | commentConflict (entryId : Text)
deriving DecidableEq, Repr

/-- The first element of the list that was seen before. -/
def firstRepeated {α : Type} [DecidableEq α] (seen : List α) : List α → Option α
  | [] => none
  | a :: as => if a ∈ seen then some a else firstRepeated (a :: seen) as

theorem firstRepeated_eq_none_iff {α : Type} [DecidableEq α] {seen as : List α} :
    firstRepeated seen as = none ↔ as.Nodup ∧ ∀ a ∈ as, a ∉ seen := by
  induction as generalizing seen with
  | nil => simp [firstRepeated]
  | cons a as ih =>
      rw [firstRepeated, List.nodup_cons, List.forall_mem_cons]
      split_ifs with hmem
      · simp [hmem]
      · rw [ih]
        constructor
        · rintro ⟨hnodup, hfresh⟩
          exact ⟨⟨fun ha => hfresh a ha List.mem_cons_self, hnodup⟩, hmem,
            fun b hb hs => hfresh b hb (List.mem_cons_of_mem _ hs)⟩
        · rintro ⟨⟨ha, hnodup⟩, -, hfresh⟩
          refine ⟨hnodup, fun b hb => ?_⟩
          rw [List.mem_cons, not_or]
          exact ⟨fun h => ha (h ▸ hb), hfresh b hb⟩

/-- `REQUIRED`. -/
def requiredKeys : List Text :=
  ["TX_ID".toList, "TIME".toList, "TYPE".toList, "ACTOR".toList, "MACHINE".toList]

def journalFile : Text := "journal.org".toList

namespace JournalEntry

/-- The first further property with this key. -/
def extra? (entry : JournalEntry) (key : Text) : Option Text :=
  (entry.extras.find? fun p => p.1 = key).map Prod.snd

/-- The row that the drawer of the entry would be. -/
def toTx (entry : JournalEntry) : TxEntry :=
  { TxEntry.new entry.entryId entry.ty entry.time entry.actor entry.machine with
    extra := entry.extras }

def validate (entry : JournalEntry) : Except JournalError Unit :=
  match firstRepeated requiredKeys (entry.extras.map Prod.fst) with
  | some key => .error (.duplicateProperty entry.entryId key)
  | none =>
      match entry.toTx.validate with
      | .error e => .error (.drawer e)
      | .ok () => .ok ()

end JournalEntry

/-! ### Reading -/

/-- What a journal entry is read from: the properties of the heading and everything below its
drawer, sections included. -/
def readJournalEntry (display title : Text) (pairs : List (Text × Text)) (body : Text) :
    Except JournalError JournalEntry :=
  let get := fun key : Text => (pairs.find? fun p => p.1 = key).map Prod.snd
  match firstRepeated [] (pairs.map Prod.fst) with
  | some key => .error (.duplicateKey display title key)
  | none =>
      match get "TX_ID".toList, get "TIME".toList, get "TYPE".toList, get "ACTOR".toList,
          get "MACHINE".toList with
      | some entryId, some time, some ty, some actor, some machine =>
          let entry : JournalEntry :=
            { entryId, time, ty, actor, machine
              extras := pairs.filter fun p => p.1 ∉ requiredKeys
              body := trim body }
          match entry.validate with
          | .error e => .error e
          | .ok () => .ok entry
      | _, _, _, _, _ => .error (.missingKey display title)

/-- Everything below the drawer of a top-level heading. -/
def Heading.wholeBody (h : Heading) : Span := ⟨h.body.start, h.span.stop⟩

/-- The loop over the headings of a journal. -/
def readJournalEntries (content display : Text) :
    List Heading → Except JournalError (List JournalEntry)
  | [] => .ok []
  | h :: hs =>
      match readJournalEntry display h.title (h.propertyEntries.map PropertyEntry.pair)
          (slice content h.wholeBody) with
      | .error e => .error e
      | .ok entry =>
          match readJournalEntries content display hs with
          | .error e => .error e
          | .ok entries => .ok (entry :: entries)

def parseJournal (content display : Text) : Except JournalError (List JournalEntry) :=
  if trim content = [] then .ok []
  else match OrgFile.parse content display with
    | .error e => .error (.parse e)
    | .ok file => readJournalEntries content display file.headings

/-! ### Writing -/

def journalHeader (id : Text) : Text :=
  "#+title: orgasmic journal ".toList ++ id ++ "\n".toList ++ "#+orgasmic_version: 2\n".toList

/-- `:KEY: value` with the blanks between them. -/
def drawerLine (key pad value : Text) : Text :=
  ":".toList ++ key ++ ":".toList ++ pad ++ value ++ "\n".toList

/-- The drawer lines of an entry. -/
def JournalEntry.drawerLines (entry : JournalEntry) : List Text :=
  [drawerLine "TX_ID".toList "   ".toList entry.entryId,
      drawerLine "TIME".toList "    ".toList entry.time,
      drawerLine "TYPE".toList "    ".toList entry.ty,
      drawerLine "ACTOR".toList "   ".toList entry.actor,
      drawerLine "MACHINE".toList " ".toList entry.machine] ++
    entry.extras.map fun p => drawerLine p.1 " ".toList p.2

/-- Render one entry. -/
def journalEntryBlock (entry : JournalEntry) : Text :=
  "\n".toList ++ ("* ".toList ++ entry.entryId ++ " ".toList ++ entry.ty ++ "\n".toList) ++
    ":PROPERTIES:\n".toList ++ entry.drawerLines.flatten ++ ":END:\n".toList ++
    if entry.body = [] then [] else "\n".toList ++ entry.body ++ "\n".toList

/-- Facts and comments alike enter through here. -/
def appendEntry (current id : Text) (entry : JournalEntry) : Text :=
  (if current = [] then journalHeader id else current) ++ journalEntryBlock entry

/-! ### Splicing -/

/-- `rfind`. -/
def rfind (pattern : Text) : Text → Option ℕ
  | [] => if pattern = [] then some 0 else none
  | c :: cs =>
      match rfind pattern cs with
      | some i => some (i + 1)
      | none => if pattern.isPrefixOf (c :: cs) then some 0 else none

/-- The body span of an entry and the key and value span of each of its properties. -/
abbrev EntrySpans := Span × List (Text × Span)

def entrySpans (content entryId : Text) : Except JournalError EntrySpans :=
  match OrgFile.parse content journalFile with
  | .error e => .error (.parse e)
  | .ok file =>
      match file.headings.find? fun h => h.property "TX_ID".toList = some entryId with
      | none => .error (.notFound entryId)
      | some h => .ok (h.wholeBody, h.propertyEntries.map fun e => (e.key, e.valueSpan))

def commentSpans (content entryId : Text) : Except JournalError EntrySpans :=
  match entrySpans content entryId with
  | .error e => .error e
  | .ok spans =>
      match spans.2.find? fun p => p.1 = "TYPE".toList with
      | none => .error (.noType entryId)
      | some ty =>
          if slice content ty.2 = "comment".toList then .ok spans
          else .error (.notComment entryId)

def upsertCommentProperty (content entryId key value : Text) : Except JournalError Text :=
  match commentSpans content entryId with
  | .error e => .error e
  | .ok (body, props) =>
      match props.find? fun p => p.1 = key with
      | some p => .ok (replaceRange content p.2 value)
      | none =>
          match rfind ":END:".toList (content.take body.start) with
          | none => .error .drawerEnd
          | some endLine =>
              .ok (replaceRange content ⟨endLine, endLine⟩
                (":".toList ++ key ++ ": ".toList ++ value ++ "\n".toList))

/-- Authored prose is edited in place. -/
def editCommentBody (content entryId newBody editedBy editedAt : Text) :
    Except JournalError Text := do
  let stamped ← upsertCommentProperty content entryId "EDITED_BY".toList editedBy
  let stamped ← upsertCommentProperty stamped entryId "EDITED_AT".toList editedAt
  let (body, _) ← commentSpans stamped entryId
  .ok (stamped.take body.start ++ "\n".toList ++ trim newBody ++ "\n".toList ++
    stamped.drop body.stop)

/-- Drop the body and leave the one-line tombstone. -/
def tombstoneComment (content entryId deletedBy deletedAt : Text) : Except JournalError Text := do
  let stamped ← upsertCommentProperty content entryId "DELETED_BY".toList deletedBy
  let stamped ← upsertCommentProperty stamped entryId "DELETED_AT".toList deletedAt
  let (body, props) ← commentSpans stamped entryId
  match props.find? fun p => p.1 = "TYPE".toList with
  | none => .error (.noType entryId)
  | some ty =>
      .ok (stamped.take ty.2.start ++ "comment.deleted".toList ++
        slice stamped ⟨ty.2.stop, body.start⟩ ++ stamped.drop body.stop)

/-! ### Guards -/

/-- The column-0 heading lines that journal prose may not have; lines count from 1. -/
def rejectJournalProse (body : Text) : Except JournalError Unit :=
  match (lines body).findIdx? fun line => "* ".toList.isPrefixOf line with
  | some line => .error (.prose (line + 1))
  | none => .ok ()

/-- Authorship and the expected prose of a comment. -/
def requireCommentBody (current entryId expectedBody : Text) (actor : CommentMutationActor) :
    Except JournalError Unit :=
  match parseJournal current journalFile with
  | .error e => .error e
  | .ok entries =>
      match entries.find? fun entry => entry.entryId = entryId with
      | none => .error (.commentNotFound entryId)
      | some entry =>
          if entry.ty ≠ "comment".toList then .error (.notComment entryId)
          else if actor.mayEdit entry.actor = false then .error (.commentForbidden entryId)
          else if entry.body ≠ expectedBody then .error (.commentConflict entryId)
          else .ok ()

def checkedJournalBytes (next : Text) : Except JournalError Text :=
  match parseJournal next journalFile with
  | .error e => .error e
  | .ok _ => .ok next

/-! ### Guarded operations -/

/-- `WriterHandle::append_journal_entry` on the text of the journal. -/
def appendJournalEntry (nodeId : Text) (entry : JournalEntry) (current : Text) :
    Except JournalError Text := do
  entry.validate
  rejectJournalProse entry.body
  let entries ← parseJournal current journalFile
  if ∃ item ∈ entries, item.entryId = entry.entryId then .error (.exists entry.entryId)
  else checkedJournalBytes (appendEntry current nodeId entry)

/-- `WriterHandle::edit_journal_comment` on the text of the journal. -/
def editJournalComment (entryId expectedBody newBody : Text) (actor : CommentMutationActor)
    (editedAt current : Text) : Except JournalError Text := do
  rejectJournalProse newBody
  requireCommentBody current entryId expectedBody actor
  let next ← editCommentBody current entryId newBody actor.name editedAt
  checkedJournalBytes next

/-- `WriterHandle::tombstone_journal_comment` on the text of the journal. -/
def tombstoneJournalComment (entryId expectedBody : Text) (actor : CommentMutationActor)
    (deletedAt current : Text) : Except JournalError Text := do
  requireCommentBody current entryId expectedBody actor
  let next ← tombstoneComment current entryId actor.name deletedAt
  checkedJournalBytes next

end Orgasmic
