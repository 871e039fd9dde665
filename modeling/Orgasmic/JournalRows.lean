import Orgasmic.ConsumedComments
import Orgasmic.LedgerHandles
import Orgasmic.OrgLineBreak
import Orgasmic.TxLedger

/-! # Journal entries as rows

The index reads a journal as rows of the ledger, and the writer appends rows as entries.

* **Rows.** `journalTxEntry` is the row of an entry; its prose is the property `BODY`, escaped to one
  line (`unescape_escape`).
* **Entries.** `EntryOf.written`: the drawer that is written of a valid entry reads as the entry with
  trimmed values.
* **Journals.** `parseJournal_append_iff`: after an entry is appended to a journal, it reads as the
  entries before and the new one, unless a heading in the prose of the new one cannot be read. -/

namespace Orgasmic

open Text

/-! ### Rows -/

/-- `str::replace` of a character. -/
def replaceChar (c : Char) (u t : Text) : Text := t.flatMap fun d => if d = c then u else [d]

def escapePropertyValue (value : Text) : Text :=
  replaceChar '\n' "\\n".toList (replaceChar '\\' "\\\\".toList value)

/-- The keys of further properties that a row has fields for. -/
def rowKeys : List Text := ["PROJECT".toList, "TASK".toList, "TARGET".toList, "REASON".toList]

/-- `journal_tx_entry`: the row of an entry in the journal of a node. -/
def journalTxEntry (entry : JournalEntry) (projectId : Text) (nodeId : Option Text) : TxEntry :=
  { TxEntry.new entry.entryId entry.ty entry.time entry.actor entry.machine with
    project := (entry.extra? "PROJECT".toList).or (some projectId)
    task := (entry.extra? "TASK".toList).or (nodeId.filter fun id => "TASK-".toList.isPrefixOf id)
    target := entry.extra? "TARGET".toList
    reason := entry.extra? "REASON".toList
    extra := (entry.extras.filter fun p => p.1 ∉ rowKeys) ++
      if entry.body = [] then [] else [("BODY".toList, escapePropertyValue entry.body)] }

/-- The row with the white space around its values left out and its prose at the end. -/
def TxEntry.settled (entry : TxEntry) : TxEntry where
  txId := trim entry.txId
  time := trim entry.time
  ty := trim entry.ty
  actor := trim entry.actor
  machine := trim entry.machine
  project := entry.project.map trim
  task := entry.task.map trim
  target := entry.target.map trim
  reason := entry.reason.map trim
  extra := ((entry.extra.filter fun p => p.1 ≠ "BODY".toList) ++
    entry.extra.filter fun p => p.1 = "BODY".toList).map trimmedValue

/-! ### Escapes -/

theorem escape_cons (c : Char) (t : Text) : escapePropertyValue (c :: t) =
    (if c = '\\' then "\\\\".toList else if c = '\n' then "\\n".toList else [c]) ++
      escapePropertyValue t := by
  unfold escapePropertyValue replaceChar
  rw [List.flatMap_cons, List.flatMap_append]
  congr 1
  by_cases hslash : c = '\\'
  · rw [if_pos hslash, if_pos hslash]
    rfl
  · rw [if_neg hslash, if_neg hslash]
    simp

theorem escape_append (a b : Text) :
    escapePropertyValue (a ++ b) = escapePropertyValue a ++ escapePropertyValue b := by
  simp [escapePropertyValue, replaceChar]

theorem unescape_cons {c : Char} (h : c ≠ '\\') (t : Text) :
    unescapePropertyValue (c :: t) = c :: unescapePropertyValue t := by
  conv_lhs => unfold unescapePropertyValue
  split <;> simp_all

/-- Escaping is undone. -/
theorem unescape_escape (t : Text) : unescapePropertyValue (escapePropertyValue t) = t := by
  induction t with
  | nil => rfl
  | cons c t ih =>
      rw [escape_cons]
      by_cases hslash : c = '\\'
      · rw [if_pos hslash, hslash]
        exact congrArg ('\\' :: ·) ih
      · rw [if_neg hslash]
        by_cases hline : c = '\n'
        · rw [if_pos hline, hline]
          exact congrArg ('\n' :: ·) ih
        · rw [if_neg hline, List.singleton_append, unescape_cons hslash, ih]

theorem escape_eq_nil_iff {t : Text} : escapePropertyValue t = [] ↔ t = [] := by
  constructor
  · intro h
    rw [← unescape_escape t, h]
    rfl
  · rintro rfl
    rfl

/-- What is escaped begins and ends like the text. -/
theorem trim_escape {t : Text} (h : trim t = t) : trim (escapePropertyValue t) = escapePropertyValue t := by
  have hstart : trimStart (escapePropertyValue t) = escapePropertyValue t := by
    cases t with
    | nil => rfl
    | cons c t =>
        have hc : isWhitespace c = false := trimStart_head (trimStart_of_trim_eq h)
        rw [escape_cons]
        split_ifs
        · exact trimStart_cons_of_not_ws (by decide) _
        · exact trimStart_cons_of_not_ws (by decide) _
        · exact trimStart_cons_of_not_ws hc _
  have hend : trimEnd (escapePropertyValue t) = escapePropertyValue t := by
    obtain rfl | ⟨t, c, rfl⟩ := List.eq_nil_or_concat t
    · rfl
    · rw [List.concat_eq_append] at h ⊢
      have hc : isWhitespace c = false := by
        rw [Bool.eq_false_iff]
        intro hws
        have htrim : trimEnd (t ++ [c]) = t ++ [c] := by
          rw [← h, trim, trimEnd_trimEnd]
        rw [trimEnd_append_blank (by simpa using hws)] at htrim
        have := congrArg List.length htrim
        have hle := (List.rdropWhile_prefix isWhitespace t).length_le
        rw [List.length_append, List.length_singleton] at this
        have : (trimEnd t).length ≤ t.length := hle
        omega
      have hlast : ∃ v d, escapePropertyValue [c] = v ++ [d] ∧ isWhitespace d = false := by
        rw [escape_cons]
        split_ifs
        · exact ⟨['\\'], '\\', rfl, by decide⟩
        · exact ⟨['\\'], 'n', rfl, by decide⟩
        · exact ⟨[], c, rfl, hc⟩
      obtain ⟨v, d, hv, hd⟩ := hlast
      rw [escape_append, hv, ← List.append_assoc]
      exact trimEnd_concat_of_not_ws hd _
  rw [trim, hstart, hend]

/-! ### The text of an entry -/

namespace JournalEntry

/-- The entry with the white space around its values left out. -/
def trimmed (entry : JournalEntry) : JournalEntry where
  entryId := trim entry.entryId
  time := trim entry.time
  ty := trim entry.ty
  actor := trim entry.actor
  machine := trim entry.machine
  extras := entry.extras.map trimmedValue
  body := trim entry.body

def titleText (entry : JournalEntry) : Text := "* ".toList ++ entry.entryId ++ " ".toList ++ entry.ty

/-- `:KEY: value` with the blanks between them. -/
def rowText (key pad value : Text) : Text := ":".toList ++ key ++ ":".toList ++ pad ++ value

/-- The rows of the drawer, without their line feeds. -/
def rowTexts (entry : JournalEntry) : List Text :=
  [rowText "TX_ID".toList "   ".toList entry.entryId, rowText "TIME".toList "    ".toList entry.time,
      rowText "TYPE".toList "    ".toList entry.ty, rowText "ACTOR".toList "   ".toList entry.actor,
      rowText "MACHINE".toList " ".toList entry.machine] ++
    entry.extras.map fun p => rowText p.1 " ".toList p.2

/-- The lines from the title to the end of the drawer. -/
def headLines (entry : JournalEntry) : List Text :=
  (entry.titleText ++ ['\n']) ::
    ":PROPERTIES:\n".toList :: (entry.rowTexts.map (· ++ ['\n']) ++ [":END:\n".toList])

/-- The prose below the drawer. -/
def proseText (body : Text) : Text := if body = [] then [] else '\n' :: (body ++ ['\n'])

theorem block_eq (entry : JournalEntry) :
    journalEntryBlock entry = ['\n'] ++ (entry.headLines.flatten ++ proseText entry.body) := by
  have hrows : entry.drawerLines = entry.rowTexts.map (· ++ ['\n']) := by
    simp only [drawerLines, rowTexts, List.map_append, List.map_map]
    rfl
  have hprose : (if entry.body = [] then [] else "\n".toList ++ entry.body ++ "\n".toList) =
      proseText entry.body := rfl
  rw [journalEntryBlock, hprose, hrows]
  simp only [headLines, titleText, List.flatten_cons, List.flatten_append, List.flatten_nil,
    List.append_nil, List.append_assoc]
  rfl

variable {entry : JournalEntry}

theorem valid_toTx (h : entry.validate = .ok ()) : entry.toTx.Valid :=
  TxEntry.valid_of_validate (JournalEntry.validate_eq_ok_iff.mp h).2

/-- The pairs that are written to the drawer. -/
theorem pairs_eq (entry : JournalEntry) : entry.toTx.orderedProperties =
    [("TX_ID".toList, entry.entryId), ("TIME".toList, entry.time), ("TYPE".toList, entry.ty),
      ("ACTOR".toList, entry.actor), ("MACHINE".toList, entry.machine)] ++ entry.extras := by
  simp [TxEntry.orderedProperties, toTx, TxEntry.new]

theorem rowText_line {key pad value : Text} (hkey : TxEntry.Key key) (hpad : Blank pad)
    (hline : TxEntry.Plain pad) (hvalue : TxEntry.Plain value) :
    PropertyLine key value (rowText key pad value) := by
  refine ⟨hkey.ne_nil, hkey.not_mem_colon, hkey.not_end, ⟨pad ++ value, ?_, ?_⟩, ?_⟩
  · simp [rowText]
  · rw [trim_blank_append hpad]
  · refine TxEntry.Plain.oneLine ?_
    simp only [rowText, TxEntry.plain_append]
    exact ⟨⟨⟨⟨by decide, hkey.is_plain⟩, by decide⟩, hline⟩, hvalue⟩

/-- The rows carry the pairs. -/
theorem rows_lines (h : entry.validate = .ok ()) : List.Forall₂
    (fun p line => PropertyLine p.1 p.2 line) entry.toTx.orderedProperties entry.rowTexts := by
  have hvalid := valid_toTx h
  rw [TxEntry.Valid, pairs_eq] at hvalid
  obtain ⟨hown, hextras⟩ := List.forall_mem_append.mp hvalid
  simp only [List.forall_mem_cons] at hown
  obtain ⟨h1, h2, h3, h4, h5, -⟩ := hown
  rw [pairs_eq, rowTexts]
  refine List.rel_append ?_ ?_
  · exact .cons (rowText_line h1.1 (by decide) (by decide) h1.2)
      (.cons (rowText_line h2.1 (by decide) (by decide) h2.2)
      (.cons (rowText_line h3.1 (by decide) (by decide) h3.2)
      (.cons (rowText_line h4.1 (by decide) (by decide) h4.2)
      (.cons (rowText_line h5.1 (by decide) (by decide) h5.2) .nil))))
  · rw [List.forall₂_map_right_iff, List.forall₂_same]
    exact fun p hp => rowText_line (hextras p hp).1 (by decide) (by decide) (hextras p hp).2

theorem drawn (h : entry.validate = .ok ()) :
    Drawn 1 entry.titleText entry.toTx.orderedProperties entry.rowTexts where
  level_eq := headingLevel_replicate Nat.one_pos _
  one := by
    have hvalid := valid_toTx h
    rw [TxEntry.Valid, pairs_eq] at hvalid
    refine TxEntry.Plain.oneLine ?_
    simp only [titleText, TxEntry.plain_append]
    exact ⟨⟨⟨by decide, (hvalid ("TX_ID".toList, entry.entryId) (by simp)).2⟩, by decide⟩,
      (hvalid ("TYPE".toList, entry.ty) (by simp)).2⟩
  lines := rows_lines h

/-- The chunk of the title line, with `y` below the drawer. -/
def headChunk (entry : JournalEntry) (y : List Text) : Chunk :=
  (entry.titleText ++ ['\n'],
    ":PROPERTIES:\n".toList :: (entry.rowTexts.map (· ++ ['\n']) ++ ":END:\n".toList :: y))

/-- **The chunks of an entry.** -/
theorem chunksOf_entry (h : entry.validate = .ok ()) {u : Text} {y : List Text} {rest : List Chunk}
    (hu : chunksOf u = (y, rest)) :
    chunksOf (entry.headLines.flatten ++ u) = ([], entry.headChunk y :: rest) := by
  have hdrawn := drawn h
  obtain ⟨hterm, hquiet⟩ := hdrawn.terminated 0
  have hlines : (drawerChunk entry.titleText entry.rowTexts 0).lines = entry.headLines := by
    simp [drawerChunk, Chunk.lines, headLines]
  rw [hlines] at hterm
  obtain ⟨hno, hdepth⟩ := noHead_quiet hquiet 0
  have hcons := chunksOf_cons (rawLines_flatten_append hterm u) ?_ hno hdepth hu
  · rw [hcons, headChunk]
    simp [drawerChunk]
  · rw [isHead_zero_iff]
    exact ⟨1, by rw [hdrawn.one.content, hdrawn.level_eq]⟩

/-- What the chunk says. -/
theorem headChunk_exact (h : entry.validate = .ok ()) {declared : List Text} (hd : [] ∉ declared)
    (y : List Text) : ∃ n, (entry.headChunk y).exact declared = some n ∧ n.level = 1 ∧
      n.properties = entry.toTx.orderedProperties.map trimmedValue ∧ n.body = y.flatten := by
  have hdrawn := drawn h
  obtain ⟨d, b, hread, hentries⟩ :=
    readDrawer_lines hdrawn.lines 0 (0 + ":PROPERTIES:\n".toList.length) [] y
  have hopen : trim (content ":PROPERTIES:\n".toList) = ":PROPERTIES:".toList := by decide
  have hpairs : readPairs (entry.headChunk y).2 =
      some (entry.toTx.orderedProperties.map trimmedValue, y) := by
    simp only [headChunk, readPairs, readProperties, if_pos hopen, hread, Option.map_some,
      drawerPairs, hentries, List.map_nil, List.nil_append]
  have htitle : entry.titleText = stars 1 (entry.entryId ++ " ".toList ++ entry.ty) := by
    simp [titleText, stars]
  obtain ⟨parsed, hparsed⟩ : ∃ parsed, parseHeadingLine entry.titleText 1 declared = some parsed :=
    ⟨_, htitle ▸ parseHeadingLine_stars 1 _ hd⟩
  refine ⟨_, Chunk.exact_eq_some_iff.mpr ⟨1, parsed, _, _, ?_, ?_, hpairs, rfl⟩, rfl, rfl, rfl⟩
  · rw [headChunk, hdrawn.one.content, hdrawn.level_eq]
  · rw [headChunk, hdrawn.one.content, hparsed]

end JournalEntry

/-! ### What is read of an entry -/

/-- A value is refused for its characters. -/
theorem validatePropertyValue_ok_iff {key value : Text} :
    TxEntry.validatePropertyValue key value = .ok () ↔
      ∀ c ∈ value, ¬(c = '\n' ∨ c = '\r') ∧ ¬(isControl c && c ≠ '\t') = true := by
  constructor
  · intro h
    induction value with
    | nil => simp
    | cons c cs ih =>
        unfold TxEntry.validatePropertyValue at h
        split_ifs at h with hline hcontrol
        exact List.forall_mem_cons.mpr ⟨⟨hline, hcontrol⟩, ih h⟩
  · intro h
    induction value with
    | nil => rfl
    | cons c cs ih =>
        obtain ⟨⟨hline, hcontrol⟩, hcs⟩ := List.forall_mem_cons.mp h
        rw [TxEntry.validatePropertyValue, if_neg hline, if_neg hcontrol]
        exact ih hcs

theorem trim_subset (t : Text) : trim t ⊆ t := by
  obtain ⟨w, w', -, -, h⟩ := trim_spec t
  intro c hc
  rw [h]
  simp [hc]

namespace JournalEntry

variable {entry : JournalEntry}

theorem map_fst_trimmed (ps : List (Text × Text)) :
    (ps.map trimmedValue).map Prod.fst = ps.map Prod.fst := by
  rw [List.map_map]
  rfl

theorem pairs_trimmed (entry : JournalEntry) :
    entry.trimmed.toTx.orderedProperties = entry.toTx.orderedProperties.map trimmedValue := by
  rw [pairs_eq, pairs_eq, List.map_append]
  rfl

/-- The values stay valid without the white space around them. -/
theorem validate_trimmed (h : entry.validate = .ok ()) : entry.trimmed.validate = .ok () := by
  obtain ⟨hkeys, hvalid⟩ := JournalEntry.validate_eq_ok_iff.mp h
  refine JournalEntry.validate_eq_ok_iff.mpr ⟨?_, ?_⟩
  · rw [show entry.trimmed.extras = entry.extras.map trimmedValue from rfl, map_fst_trimmed, hkeys]
  · rw [TxEntry.validate, validateProperties_ok_iff] at hvalid ⊢
    rw [pairs_trimmed]
    intro p hp
    obtain ⟨q, hq, rfl⟩ := List.mem_map.mp hp
    obtain ⟨hkey, hvalue⟩ := hvalid q hq
    refine ⟨hkey, ?_⟩
    rw [validatePropertyValue_ok_iff] at hvalue ⊢
    exact fun c hc => hvalue c (trim_subset _ hc)

/-- **The drawer that is written of a valid entry** reads as the entry with trimmed values. -/
theorem entryOf_written (h : entry.validate = .ok ()) {body : Text} (hbody : trim body = trim entry.body) :
    EntryOf (entry.toTx.orderedProperties.map trimmedValue) body entry.trimmed := by
  obtain ⟨hkeys, -⟩ := JournalEntry.validate_eq_ok_iff.mp h
  obtain ⟨hnodup, hfresh⟩ := firstRepeated_eq_none_iff.mp hkeys
  have hpairs : entry.toTx.orderedProperties.map trimmedValue =
      [("TX_ID".toList, trim entry.entryId), ("TIME".toList, trim entry.time),
        ("TYPE".toList, trim entry.ty), ("ACTOR".toList, trim entry.actor),
        ("MACHINE".toList, trim entry.machine)] ++ entry.extras.map trimmedValue := by
    rw [pairs_eq, List.map_append]
    rfl
  have hown : ∀ p ∈ [("TX_ID".toList, trim entry.entryId), ("TIME".toList, trim entry.time),
      ("TYPE".toList, trim entry.ty), ("ACTOR".toList, trim entry.actor),
      ("MACHINE".toList, trim entry.machine)], p.1 ∈ requiredKeys := by
    simp [requiredKeys]
  have hextras : ∀ p ∈ entry.extras.map trimmedValue, p.1 ∉ requiredKeys := by
    intro p hp
    obtain ⟨q, hq, rfl⟩ := List.mem_map.mp hp
    exact hfresh q.1 (List.mem_map_of_mem hq)
  rw [hpairs]
  refine ⟨?_, rfl, rfl, rfl, rfl, rfl, ?_, hbody.symm, validate_trimmed h⟩
  · rw [firstRepeated_eq_none_iff, List.map_append, map_fst_trimmed]
    refine ⟨List.nodup_append'.mpr ⟨?_, hnodup, ?_⟩, by simp⟩
    · show requiredKeys.Nodup
      decide
    · intro a ha hmem
      exact hfresh a hmem ha
  · rw [List.filter_append, List.filter_eq_nil_iff.mpr (by simpa using hown),
      List.filter_eq_self.mpr (by simpa using hextras)]
    rfl

end JournalEntry

/-! ### Journals -/

theorem readKeywords_of_blank {P : List Text} (h : ∀ l ∈ P, Blank l) (off : ℕ)
    (keywords : List Keyword) (declared : List Text) :
    readKeywords off keywords declared P = some (keywords, declared) := by
  induction P generalizing off with
  | nil => rfl
  | cons r rs ih =>
      obtain ⟨hr, hrs⟩ := List.forall_mem_cons.mp h
      have hstart : trimStart (content r) = [] := by
        rw [trimStart_eq_nil_iff, ← trim_eq_nil_iff, trim_content, hr.trim_eq]
      rw [readKeywords, hstart, trim_content, hr.trim_eq]
      exact ih hrs _

/-- An accepted journal is made of blocks. -/
theorem exists_blocks {source display : Text} {entries : List JournalEntry}
    (h : parseJournal source display = .ok entries) :
    ∃ P bs, chunksOf source = (P, Segment.join bs) ∧ ∀ b ∈ bs, TopBlock.IsTop b := by
  rw [parseJournal] at h
  split_ifs at h with hblank
  · refine ⟨(chunksOf source).1, [], ?_, by simp⟩
    by_contra hne
    have hc : chunksOf source = ((chunksOf source).1, (chunksOf source).2) := rfl
    refine not_blank_of_chunks hc ?_ hblank
    intro hnil
    exact hne (by rw [Segment.join_nil, ← hnil])
  · split at h
    · cases h
    · next f hf =>
        obtain ⟨hjoin, hat⟩ := blocksAt_of_parse hf
        exact ⟨_, _, by rw [← hjoin], hat.isTop⟩

/-- **What a journal needs to be read**, by its blocks. -/
theorem parseJournal_eq_ok_iff {source display : Text} {P : List Text} {bs : List TopBlock}
    (hc : chunksOf source = (P, Segment.join bs)) (htop : ∀ b ∈ bs, b.IsTop)
    {entries : List JournalEntry} :
    parseJournal source display = .ok entries ↔ ∃ keywords declared,
      readKeywords 0 [] [] P = some (keywords, declared) ∧ [] ∉ declared ∧
      (∀ c ∈ Segment.join bs, ∃ n, c.exact declared = some n) ∧
      Outline.Stepped 0 ((Segment.join bs).map Chunk.level) ∧
      List.Forall₂ (TopBlock.Reads declared display) bs entries := by
  rw [parseJournal]
  split_ifs with hblank
  · have hnil : bs = [] := by
      by_contra hne
      exact not_blank_of_chunks hc (mt (Segment.join_eq_nil_iff bs).mp hne) hblank
    subst hnil
    have hP : ∀ l ∈ P, Blank l := by
      rw [← blank_flatten, ← trim_eq_nil_iff]
      have htext : P.flatten = source := by simpa using flatten_of_chunksOf hc
      rwa [htext]
    constructor
    · intro h
      obtain rfl := Except.ok.inj h
      exact ⟨[], [], readKeywords_of_blank hP 0 [] [], by simp, by simp, trivial, .nil⟩
    · rintro ⟨keywords, declared, -, -, -, -, hreads⟩
      cases hreads
      rfl
  · constructor
    · intro h
      split at h
      · cases h
      · next f hf =>
          obtain ⟨-, hflat, -, -⟩ := readFlat_of_parse hf
          obtain ⟨declared, hk, -, hstepped⟩ := (readFlat_eq_some_iff _ _ _).mp hflat
          obtain rfl : declared = f.declared := readKeywords_declared rfl hk
          have hexacts := exacts_of_parse hf
          rw [hc] at hk hstepped hexacts
          exact ⟨f.keywords, f.declared, hk, f.declared_ne_nil, exists_exact_of_mem hexacts, hstepped,
            (readJournalEntries_of_parse hf hc htop entries).mp h⟩
    · rintro ⟨keywords, declared, hk, -, hnodes, hstepped, hreads⟩
      obtain ⟨f, hf, -, -, -⟩ := parse_chunks display hc hk (fun c hmem => by
        obtain ⟨n, hn⟩ := hnodes c hmem
        exact ⟨_, Chunk.exact_node hn⟩) hstepped
      have hdeclared : f.declared = declared := by
        obtain ⟨-, hflat, -, -⟩ := readFlat_of_parse hf
        obtain ⟨declared', hk', -, -⟩ := (readFlat_eq_some_iff _ _ _).mp hflat
        obtain rfl : declared' = f.declared := readKeywords_declared rfl hk'
        rw [hc, hk, Option.some.injEq, Prod.mk.injEq] at hk'
        exact hk'.2.symm
      rw [hf]
      exact (readJournalEntries_of_parse hf hc htop entries).mpr (hdeclared ▸ hreads)

/-! ### Prose -/

/-- The headings below the title line of the entry, with what belongs to each. -/
def proseChunks (body : Text) : List Chunk := (chunksOf (body ++ ['\n'])).2

/-- The headings in the prose can be read below the one of the entry: none is more than one level
deeper than the one before it, and the drawer of each ends. -/
def ProseFits (body : Text) : Prop :=
  Outline.Stepped 1 ((proseChunks body).map Chunk.level) ∧
    ∀ c ∈ proseChunks body, (readPairs c.2).isSome = true

instance (body : Text) : Decidable (ProseFits body) := inferInstanceAs (Decidable (_ ∧ _))

theorem chunksOf_prose (body : Text) :
    ∃ y, chunksOf (JournalEntry.proseText body) = (y, proseChunks body) := by
  rw [JournalEntry.proseText, proseChunks]
  split_ifs with hnil
  · subst hnil
    exact ⟨[], rfl⟩
  · refine ⟨['\n'] :: (chunksOf (body ++ ['\n'])).1, ?_⟩
    have hno : NoHead 0 [['\n']] := noHead_blank (by simpa using blank_line) 0
    have hcut := Segment.cut_noHead_append lineDepth isHead hno (rawLines (body ++ ['\n']))
    rw [show Segment.run lineDepth 0 [['\n']] = 0 from lineDepth_blank blank_line 0] at hcut
    exact hcut

theorem Broken.mem {rs rs' : List Text} (h : Broken rs rs') {l : Text} (hl : l ∈ rs') :
    l ∈ rs ∨ l = ['\n'] ∨ ∃ r ∈ rs, '\n' ∉ r ∧ l = r ++ ['\n'] := by
  cases h with
  | line =>
      obtain hl | hl := List.mem_append.mp hl
      · exact .inl hl
      · exact .inr (.inl (List.mem_singleton.mp hl))
  | last rs r hr =>
      obtain hl | hl := List.mem_append.mp hl
      · exact .inl (List.mem_append_left _ hl)
      · exact .inr (.inr ⟨r, by simp, hr, List.mem_singleton.mp hl⟩)

theorem Chunks.isHead {d : ℕ} {cs : List Chunk} (h : Chunks d cs) : ∀ c ∈ cs, isHead 0 c.1 = true := by
  induction cs generalizing d with
  | nil => simp
  | cons c cs ih =>
      obtain ⟨-, hhead, -, h⟩ := (chunks_cons_iff _ _ _).mp h
      exact List.forall_mem_cons.mpr ⟨hhead, ih h⟩

/-- Prose that is not refused has no top-level headings. -/
theorem proseChunks_deep {body : Text} (h : rejectJournalProse body = .ok ()) :
    ∀ c ∈ proseChunks body, c.level ≠ 1 := by
  have hlines : ∀ l ∈ lines body, ¬"* ".toList <+: l := by
    rw [rejectJournalProse] at h
    split at h
    · cases h
    · next hnone =>
        intro l hl hprefix
        have := List.findIdx?_eq_none_iff.mp hnone l hl
        rw [List.isPrefixOf_iff_prefix.mpr hprefix] at this
        cases this
  intro c hc hlevel
  obtain ⟨hraw, -, hchunks⟩ := chunksOf_spec (body ++ ['\n'])
  have hmem : c.1 ∈ rawLines (body ++ ['\n']) := by
    rw [hraw]
    exact List.mem_append_right _ (List.mem_flatMap.mpr ⟨c, hc, List.mem_cons_self⟩)
  have hhead : headingLevel (content c.1) = some c.level :=
    headingLevel_chunk (hchunks.isHead c hc)
  rw [hlevel] at hhead
  obtain ⟨-, u, hu⟩ := (headingLevel_eq_some_iff _ _).mp hhead
  have hprefix : "* ".toList <+: content c.1 := ⟨u, by rw [hu]; rfl⟩
  obtain hown | hown | ⟨r, hr, hnl, hown⟩ := (broken_rawLines body).mem hmem
  · exact hlines _ (List.mem_map_of_mem hown) hprefix
  · rw [hown] at hhead
    cases hhead
  · refine hlines (content r) (List.mem_map_of_mem hr) ?_
    have hcontent : content c.1 <+: r := by
      rw [hown, content_terminated]
      split_ifs
      · exact List.dropLast_prefix r
      · exact List.prefix_rfl
    rw [content_of_no_newline hnl]
    exact hprefix.trans hcontent

/-- A heading can be read if its drawer can. -/
theorem exists_exact_iff {declared : List Text} (hd : [] ∉ declared) {c : Chunk}
    (hhead : isHead 0 c.1 = true) :
    (∃ n, c.exact declared = some n) ↔ (readPairs c.2).isSome = true := by
  constructor
  · rintro ⟨n, hn⟩
    obtain ⟨level, parsed, ps, body, -, -, hr, -⟩ := Chunk.exact_eq_some_iff.mp hn
    rw [hr]
    rfl
  · intro hsome
    obtain ⟨⟨ps, body⟩, hr⟩ := Option.isSome_iff_exists.mp hsome
    obtain ⟨m, rest, hm, htitle⟩ := (isHead_zero_iff_stars c.1).mp hhead
    obtain ⟨parsed, hparsed⟩ : ∃ parsed, parseHeadingLine (content c.1) m declared = some parsed :=
      ⟨_, by rw [htitle, content_stars]; exact parseHeadingLine_stars m _ hd⟩
    refine ⟨_, Chunk.exact_eq_some_iff.mpr ⟨m, parsed, ps, body, ?_, hparsed, hr, rfl⟩⟩
    rw [htitle, content_stars, headingLevel_stars hm]

/-! ### Appending an entry -/

/-- The entries of a journal that ends with one more line break. -/
theorem journal_break {source display : Text} {entries : List JournalEntry} {P : List Text}
    {bs : List TopBlock} {keywords : List Keyword} {declared : List Text}
    (hc : chunksOf source = (P, Segment.join bs)) (htop : ∀ b ∈ bs, b.IsTop)
    (hk : readKeywords 0 [] [] P = some (keywords, declared)) (hd : [] ∉ declared)
    (hnodes : ∀ c ∈ Segment.join bs, ∃ n, c.exact declared = some n)
    (hreads : List.Forall₂ (TopBlock.Reads declared display) bs entries) :
    ∃ P' bs' keywords', chunksOf (source ++ ['\n']) = (P', Segment.join bs') ∧
      (∀ b ∈ bs', TopBlock.IsTop b) ∧ readKeywords 0 [] [] P' = some (keywords', declared) ∧
      (∀ c ∈ Segment.join bs', ∃ n, c.exact declared = some n) ∧
      (Segment.join bs').map Chunk.level = (Segment.join bs).map Chunk.level ∧
      List.Forall₂ (TopBlock.Reads declared display) bs' entries := by
  obtain ⟨hnil, P', hbreak, hbroken⟩ | ⟨as, c, c', hsplit, hbreak, hbroken⟩ := chunksOf_break hc
  · obtain rfl := (Segment.join_eq_nil_iff bs).mp hnil
    obtain ⟨keywords', hk'⟩ := hbroken.readKeywords hk
    exact ⟨P', [], keywords', hbreak, htop, hk', hnodes, rfl, hreads⟩
  · rw [hsplit] at hnodes ⊢
    obtain ⟨n, hn⟩ := hnodes c (by simp)
    obtain ⟨w, -, hn'⟩ := Chunk.exact_broken hd hbroken hn
    obtain ⟨bs', hjoin, htop', hreads'⟩ := blocks_break hd hsplit hbroken htop hn
    refine ⟨P, bs', keywords, by rw [hjoin, hbreak], htop', hk, ?_, ?_, hreads' _ _ hreads⟩
    · rw [hjoin]
      intro d hmem
      obtain hmem | hmem := List.mem_append.mp hmem
      · exact hnodes d (List.mem_append_left _ hmem)
      · exact ⟨_, List.mem_singleton.mp hmem ▸ hn'⟩
    · rw [hjoin, List.map_append, List.map_append, List.map_singleton, List.map_singleton,
        ← Chunk.exact_level hn', ← Chunk.exact_level hn]

/-- A block reads as one entry. -/
theorem TopBlock.Reads.unique {declared : List Text} {display : Text} {b : TopBlock}
    {e e' : JournalEntry} (h : b.Reads declared display e) (h' : b.Reads declared display e') :
    e = e' := by
  obtain ⟨n, hn, hread⟩ := h
  obtain ⟨n', hn', hread'⟩ := h'
  obtain rfl := Option.some.inj (hn.symm.trans hn')
  exact Except.ok.inj (hread.symm.trans hread')

theorem reads_unique {declared : List Text} {display : Text} {bs : List TopBlock}
    {es es' : List JournalEntry} (h : List.Forall₂ (TopBlock.Reads declared display) bs es)
    (h' : List.Forall₂ (TopBlock.Reads declared display) bs es') : es = es' := by
  induction h generalizing es' with
  | nil =>
      cases h'
      rfl
  | cons hb _ ih =>
      cases h' with
      | cons hb' h' => rw [hb.unique hb', ih h']

theorem trim_proseText (body : Text) : trim (JournalEntry.proseText body) = trim body := by
  rw [JournalEntry.proseText]
  split_ifs with hnil
  · rw [hnil]
  · rw [← List.singleton_append, trim_blank_append (by decide), trim_append_blank (by decide)]

/-- The block of a new entry reads as the entry with trimmed values. -/
theorem reads_written {entry : JournalEntry} (hvalid : entry.validate = .ok ())
    {declared : List Text} (hd : [] ∉ declared) (display : Text) {y : List Text}
    (hy : chunksOf (JournalEntry.proseText entry.body) = (y, proseChunks entry.body)) :
    TopBlock.Reads declared display (entry.headChunk y, proseChunks entry.body) entry.trimmed := by
  obtain ⟨n, hn, -, hproperties, hbody⟩ := JournalEntry.headChunk_exact hvalid hd y
  refine ⟨n, hn, readJournalEntry_eq_ok_iff.mpr ?_⟩
  rw [hproperties, hbody, flatten_of_chunksOf hy]
  exact JournalEntry.entryOf_written hvalid (trim_proseText entry.body)

/-- **Appending an entry to a journal** that ends outside of blocks: it reads as the entries before
and the new one, unless a heading in the prose cannot be read. -/
theorem parseJournal_append_iff {source display : Text} {entries es : List JournalEntry}
    {entry : JournalEntry} (hsource : parseJournal source display = .ok entries)
    (hdepth : depthAfter 0 (rawLines source) = 0) (hvalid : entry.validate = .ok ())
    (hprose : rejectJournalProse entry.body = .ok ()) :
    parseJournal (source ++ journalEntryBlock entry) display = .ok es ↔
      ProseFits entry.body ∧ es = entries ++ [entry.trimmed] := by
  obtain ⟨P, bs, hc, htop⟩ := exists_blocks hsource
  obtain ⟨keywords, declared, hk, hd, hnodes, hstepped, hreads⟩ :=
    (parseJournal_eq_ok_iff hc htop).mp hsource
  obtain ⟨P', bs', keywords', hc', htop', hk', hnodes', hlevels', hreads'⟩ :=
    journal_break hc htop hk hd hnodes hreads
  rw [← hlevels'] at hstepped
  obtain ⟨hfront, htext⟩ := front_break hc' hdepth
  obtain ⟨y, hy⟩ := chunksOf_prose entry.body
  have hchunks := hfront.chunksOf_append (JournalEntry.chunksOf_entry hvalid hy)
  rw [htext, List.append_assoc, ← JournalEntry.block_eq] at hchunks
  let b : TopBlock := (entry.headChunk y, proseChunks entry.body)
  have hjoin : Segment.join bs' ++ entry.headChunk y :: proseChunks entry.body =
      Segment.join (bs' ++ [b]) := by simp [b]
  obtain ⟨n, hn, hlevel, -, -⟩ := JournalEntry.headChunk_exact hvalid hd y
  have hroot : (entry.headChunk y).level = 1 := by rw [← Chunk.exact_level hn, hlevel]
  have htopb : ∀ x ∈ bs' ++ [b], TopBlock.IsTop x :=
    List.forall_mem_append.mpr ⟨htop', List.forall_mem_singleton.mpr
      ⟨hroot, proseChunks_deep hprose⟩⟩
  have hown : TopBlock.Reads declared display b entry.trimmed := reads_written hvalid hd display hy
  have hall : List.Forall₂ (TopBlock.Reads declared display) (bs' ++ [b])
      (entries ++ [entry.trimmed]) := List.rel_append hreads' (.cons hown .nil)
  have hhead : ∀ c ∈ proseChunks entry.body, isHead 0 c.1 = true :=
    (chunksOf_spec (entry.body ++ ['\n'])).2.2.isHead
  rw [parseJournal_eq_ok_iff (hjoin ▸ hchunks) htopb]
  simp only [← hjoin, List.map_append, List.map_cons, hroot, List.forall_mem_append,
    List.forall_mem_cons, Outline.stepped_append]
  constructor
  · rintro ⟨keywords₂, declared₂, hk₂, -, ⟨-, -, hreadable⟩, ⟨-, -, hsteps⟩, hreads₂⟩
    rw [hk', Option.some.injEq, Prod.mk.injEq] at hk₂
    obtain ⟨-, rfl⟩ := hk₂
    exact ⟨⟨hsteps, fun c hmem => (exists_exact_iff hd (hhead c hmem)).mp (hreadable c hmem)⟩,
      reads_unique hreads₂ hall⟩
  · rintro ⟨⟨hsteps, hreadable⟩, rfl⟩
    exact ⟨keywords', declared, hk', hd,
      ⟨hnodes', ⟨n, hn⟩, fun c hmem => (exists_exact_iff hd (hhead c hmem)).mpr (hreadable c hmem)⟩,
      ⟨hstepped, by omega, hsteps⟩, hall⟩

end Orgasmic
