import Orgasmic.JournalRows

/-! # Rows kept by a journal

A row that the writer appends to the journal of a node is read back by the index.

* **Rows.** `RowKept` is what is to be: the rows of the journal before, then the new row, and its
  `EVENT_ID` beside the old ones.  `KeepsRow` is what it takes.
* **Result.** `row_kept_iff`: a row that `CachedTxWriter.append` accepts is kept exactly if
  `KeepsRow` holds.  A deeper heading in the prose of the row leaves the journal unreadable. -/

namespace Orgasmic

open Text

/-! ### What is kept -/

/-- The transaction of an `EVENT_ID` in what was read of a ledger. -/
def transactionOf (ids : List (Text × Text)) (id : Text) : Option Text :=
  (ids.find? fun p => p.1 = id).map Prod.snd

/-- After `text` is appended to the journal at `path`, it has the old rows and then the row `entry`,
and its event ids are the old ones and the new one. -/
structure RowKept (path : FilePath) (source text : Text) (entry : TxEntry) (projectId : Text)
    (nodeId : Option Text) : Prop where
  rows : ∃ entries entries', parseJournal source (displayPath path) = .ok entries ∧
    parseJournal (source ++ text) (displayPath path) = .ok entries' ∧
    (entries'.map fun e => journalTxEntry e projectId nodeId) =
      (entries.map fun e => journalTxEntry e projectId nodeId) ++ [entry.settled]
  ids : ∃ old new, readEventIds path source = .ok old ∧ readEventIds path (source ++ text) = .ok new ∧
    ∀ id tx, transactionOf new id = some tx ↔
      transactionOf old id = some tx ∨ id = trim (eventId entry) ∧ tx = trim entry.txId

/-- What it takes to keep a row. -/
structure KeepsRow (w : CachedTxWriter) (path : FilePath) (source : Text) (entry : TxEntry) : Prop where
  fresh : w.known? (eventId entry) = none
  /-- The headings in the prose can be read below the heading of the entry. -/
  prose : ProseFits (journalEntry entry).body
  /-- There is at most one body, and it says something. -/
  body : (entry.extra.filter fun p => p.1 = "BODY".toList).length ≤ 1 ∧
    ("BODY".toList, []) ∉ entry.extra
  /-- No further property has the key of a field. -/
  fields : ∀ p ∈ entry.extra, p.1 ≠ "TARGET".toList ∧ p.1 ≠ "REASON".toList
  /-- The trimmed event id is not that of another transaction. -/
  event : ∀ old, readEventIds path source = .ok old → ∀ tx,
    transactionOf old (trim (eventId entry)) = some tx → tx = trim entry.txId

/-! ### The entry of a row -/

section entry
variable {entry : TxEntry} {key : Text}

/-- The fields of a row that are further properties of its entry. -/
def rowFields (entry : TxEntry) : List (Text × Text) :=
  [("PROJECT".toList, entry.project), ("TASK".toList, entry.task),
    ("TARGET".toList, entry.target), ("REASON".toList, entry.reason)].filterMap fun p =>
      p.2.map fun value => (p.1, value)

theorem journalEntry_extras (entry : TxEntry) : (journalEntry entry).extras =
    rowFields entry ++ entry.extra.filter fun p => p.1 ≠ "BODY".toList := rfl

theorem mem_rowFields {p : Text × Text} : p ∈ rowFields entry ↔
    p.1 = "PROJECT".toList ∧ entry.project = some p.2 ∨ p.1 = "TASK".toList ∧ entry.task = some p.2 ∨
      p.1 = "TARGET".toList ∧ entry.target = some p.2 ∨
        p.1 = "REASON".toList ∧ entry.reason = some p.2 := by
  obtain ⟨k, v⟩ := p
  simp only [rowFields, List.mem_filterMap, List.mem_cons, List.not_mem_nil, or_false,
    Option.map_eq_some_iff, Prod.mk.injEq]
  constructor
  · rintro ⟨_, rfl | rfl | rfl | rfl, _, hv, rfl, rfl⟩
    · exact .inl ⟨rfl, hv⟩
    · exact .inr (.inl ⟨rfl, hv⟩)
    · exact .inr (.inr (.inl ⟨rfl, hv⟩))
    · exact .inr (.inr (.inr ⟨rfl, hv⟩))
  · rintro (⟨rfl, hv⟩ | ⟨rfl, hv⟩ | ⟨rfl, hv⟩ | ⟨rfl, hv⟩)
    · exact ⟨_, .inl rfl, v, hv, rfl, rfl⟩
    · exact ⟨_, .inr (.inl rfl), v, hv, rfl, rfl⟩
    · exact ⟨_, .inr (.inr (.inl rfl)), v, hv, rfl, rfl⟩
    · exact ⟨_, .inr (.inr (.inr rfl)), v, hv, rfl, rfl⟩

/-- With distinct keys, a pair of the list is the one that is found. -/
theorem find?_eq_of_mem {ps : List (Text × Text)} (hnodup : (ps.map Prod.fst).Nodup) {p : Text × Text}
    (hp : p ∈ ps) : (ps.find? fun q => q.1 = p.1) = some p := by
  induction ps with
  | nil => cases hp
  | cons q ps ih =>
      rw [List.map_cons, List.nodup_cons] at hnodup
      obtain rfl | hp := List.mem_cons.mp hp
      · rw [List.find?_cons_of_pos (by simp)]
      · rw [List.find?_cons_of_neg, ih hnodup.2 hp]
        simp only [decide_eq_true_eq]
        intro heq
        exact hnodup.1 (heq ▸ List.mem_map_of_mem hp)

theorem extra?_trimmed (e : JournalEntry) (key : Text) :
    e.trimmed.extra? key = (e.extra? key).map trim := by
  rw [JournalEntry.extra?, JournalEntry.extra?, JournalEntry.trimmed, List.find?_map, Option.map_map,
    Option.map_map]
  rfl

section valid
variable (hvalid : (journalEntry entry).validate = .ok ())

include hvalid

theorem extras_nodup : ((journalEntry entry).extras.map Prod.fst).Nodup :=
  (firstRepeated_eq_none_iff.mp (JournalEntry.validate_eq_ok_iff.mp hvalid).1).1

theorem extra?_of_mem {value : Text} (h : (key, value) ∈ (journalEntry entry).extras) :
    (journalEntry entry).extra? key = some value := by
  rw [JournalEntry.extra?, find?_eq_of_mem (extras_nodup hvalid) h]
  rfl

/-- No further property of the row repeats a field. -/
theorem not_mem_of_field {p : Text × Text} (hp : p ∈ rowFields entry) (hne : p.1 ≠ "BODY".toList) :
    ∀ q ∈ entry.extra, q.1 ≠ p.1 := by
  intro q hq heq
  have hnodup := extras_nodup hvalid
  rw [journalEntry_extras, List.map_append] at hnodup
  refine (List.nodup_append'.mp hnodup).2.2 (List.mem_map_of_mem hp) ?_
  rw [← heq]
  refine List.mem_map_of_mem (List.mem_filter.mpr ⟨hq, ?_⟩)
  rw [heq]
  exact decide_eq_true hne

/-- A field is read back, unless a further property has its key. -/
theorem field_eq_iff {value : Option Text}
    (hfield : ∀ v, (key, v) ∈ rowFields entry ↔ value = some v) (hne : key ≠ "BODY".toList) :
    (journalEntry entry).trimmed.extra? key = value.map trim ↔ ∀ p ∈ entry.extra, p.1 ≠ key := by
  rw [extra?_trimmed]
  constructor
  · intro heq p hp hkey
    have hmem : (key, p.2) ∈ (journalEntry entry).extras := by
      rw [journalEntry_extras]
      refine List.mem_append_right _ (List.mem_filter.mpr ⟨hkey ▸ hp, ?_⟩)
      exact decide_eq_true hne
    rw [extra?_of_mem hvalid hmem, Option.map_some] at heq
    obtain ⟨v, hv, -⟩ := Option.map_eq_some_iff.mp heq.symm
    exact not_mem_of_field hvalid ((hfield v).mpr hv) hne p hp hkey
  · intro hfree
    cases value with
    | some v =>
        rw [extra?_of_mem hvalid]
        rw [journalEntry_extras]
        exact List.mem_append_left _ ((hfield v).mpr rfl)
    | none =>
        rw [JournalEntry.extra?, List.find?_eq_none.mpr]
        · rfl
        · intro p hp hkey
          rw [decide_eq_true_eq] at hkey
          subst hkey
          rw [journalEntry_extras] at hp
          obtain hp | hp := List.mem_append.mp hp
          · cases (hfield p.2).mp hp
          · exact hfree p (List.mem_filter.mp hp).1 rfl

/-- A field that is set is read back. -/
theorem field_eq_some {v : Text} (hfield : (key, v) ∈ rowFields entry) :
    (journalEntry entry).trimmed.extra? key = some (trim v) := by
  rw [extra?_trimmed, extra?_of_mem hvalid]
  · rfl
  · rw [journalEntry_extras]
    exact List.mem_append_left _ hfield

/-- The further properties of the entry that the row has no fields for. -/
theorem extras_read (hproject : entry.project.isSome = true) (htask : entry.task.isSome = true)
    (hfields : ∀ p ∈ entry.extra, p.1 ≠ "TARGET".toList ∧ p.1 ≠ "REASON".toList) :
    ((journalEntry entry).trimmed.extras.filter fun p => p.1 ∉ rowKeys) =
      (entry.extra.filter fun p => p.1 ≠ "BODY".toList).map trimmedValue := by
  obtain ⟨project, hproject⟩ := Option.isSome_iff_exists.mp hproject
  obtain ⟨task, htask⟩ := Option.isSome_iff_exists.mp htask
  have hnoproject := not_mem_of_field hvalid (p := ("PROJECT".toList, project))
    (mem_rowFields.mpr (.inl ⟨rfl, hproject⟩)) (show "PROJECT".toList ≠ "BODY".toList by decide)
  have hnotask := not_mem_of_field hvalid (p := ("TASK".toList, task))
    (mem_rowFields.mpr (.inr (.inl ⟨rfl, htask⟩))) (show "TASK".toList ≠ "BODY".toList by decide)
  have hextras : (journalEntry entry).trimmed.extras = (rowFields entry).map trimmedValue ++
      (entry.extra.filter fun p => p.1 ≠ "BODY".toList).map trimmedValue := List.map_append
  rw [hextras, List.filter_append, List.filter_eq_nil_iff.mpr, List.nil_append,
    List.filter_eq_self.mpr]
  · intro p hp
    obtain ⟨q, hq, rfl⟩ := List.mem_map.mp hp
    have hq := (List.mem_filter.mp hq).1
    have hkeys : q.1 ∉ rowKeys := by
      simp only [rowKeys, List.mem_cons, List.not_mem_nil, or_false, not_or]
      exact ⟨hnoproject q hq, hnotask q hq, (hfields q hq).1, (hfields q hq).2⟩
    exact decide_eq_true hkeys
  · intro p hp
    obtain ⟨q, hq, rfl⟩ := List.mem_map.mp hp
    have hkey : q.1 ∈ rowKeys := by
      simp only [rowKeys, List.mem_cons, List.not_mem_nil, or_false]
      obtain ⟨h, -⟩ | ⟨h, -⟩ | ⟨h, -⟩ | ⟨h, -⟩ := mem_rowFields.mp hq
      · exact .inl h
      · exact .inr (.inl h)
      · exact .inr (.inr (.inl h))
      · exact .inr (.inr (.inr h))
    exact fun hnot => of_decide_eq_true hnot hkey

end valid

/-- The prose that is read back. -/
theorem body_eq_iff
    (hbody : ∀ p ∈ entry.extra, p.1 = "BODY".toList →
      ∃ t, trim t = t ∧ p.2 = escapePropertyValue t) :
    (if (journalEntry entry).trimmed.body = [] then []
      else [("BODY".toList, escapePropertyValue (journalEntry entry).trimmed.body)]) =
        (entry.extra.filter fun p => p.1 = "BODY".toList).map trimmedValue ↔
      (entry.extra.filter fun p => p.1 = "BODY".toList).length ≤ 1 ∧
        ("BODY".toList, []) ∉ entry.extra := by
  have hempty : ("BODY".toList, []) ∈ entry.extra ↔
      ("BODY".toList, []) ∈ entry.extra.filter fun p => p.1 = "BODY".toList := by
    simp [List.mem_filter]
  have hread : (journalEntry entry).trimmed.body = trim (unescapePropertyValue
      (((entry.extra.filter fun p => p.1 = "BODY".toList).head?.map Prod.snd).getD [])) := by
    rw [List.head?_filter]
    rfl
  rw [hempty, hread]
  have hbodies : ∀ p ∈ entry.extra.filter fun p => p.1 = "BODY".toList,
      p.1 = "BODY".toList ∧ ∃ t, trim t = t ∧ p.2 = escapePropertyValue t := by
    intro p hp
    obtain ⟨hmem, hkey⟩ := List.mem_filter.mp hp
    exact ⟨of_decide_eq_true hkey, hbody p hmem (of_decide_eq_true hkey)⟩
  generalize (entry.extra.filter fun p => p.1 = "BODY".toList) = bodies at hbodies
  cases bodies with
  | nil => simp [unescapePropertyValue, trim, trimStart, trimEnd]
  | cons b bodies =>
      obtain ⟨⟨hkey, t, ht, hvalue⟩, -⟩ := List.forall_mem_cons.mp hbodies
      obtain ⟨k, v⟩ := b
      obtain rfl : k = "BODY".toList := hkey
      obtain rfl : v = escapePropertyValue t := hvalue
      rw [List.head?_cons, Option.map_some, Option.getD_some, unescape_escape, ht]
      by_cases hnil : t = []
      · subst hnil
        simp [escape_eq_nil_iff.mpr rfl]
      · have hne : escapePropertyValue t ≠ [] := mt escape_eq_nil_iff.mp hnil
        rw [if_neg hnil, List.map_cons, trimmedValue, trim_escape ht, List.cons.injEq]
        cases bodies with
        | nil => simp [Ne.symm hne]
        | cons c bodies => simp

/-- **The row of the entry that is read back.** -/
theorem journalTxEntry_eq_iff (hvalid : (journalEntry entry).validate = .ok ())
    (hproject : entry.project.isSome = true) (htask : entry.task.isSome = true)
    (hbody : ∀ p ∈ entry.extra, p.1 = "BODY".toList →
      ∃ t, trim t = t ∧ p.2 = escapePropertyValue t) (projectId : Text) (nodeId : Option Text) :
    journalTxEntry (journalEntry entry).trimmed projectId nodeId = entry.settled ↔
      ((entry.extra.filter fun p => p.1 = "BODY".toList).length ≤ 1 ∧
        ("BODY".toList, []) ∉ entry.extra) ∧
      ∀ p ∈ entry.extra, p.1 ≠ "TARGET".toList ∧ p.1 ≠ "REASON".toList := by
  have htarget : (journalEntry entry).trimmed.extra? "TARGET".toList = entry.target.map trim ↔
      ∀ p ∈ entry.extra, p.1 ≠ "TARGET".toList :=
    field_eq_iff hvalid (fun v => by simp [mem_rowFields]) (by decide)
  have hreason : (journalEntry entry).trimmed.extra? "REASON".toList = entry.reason.map trim ↔
      ∀ p ∈ entry.extra, p.1 ≠ "REASON".toList :=
    field_eq_iff hvalid (fun v => by simp [mem_rowFields]) (by decide)
  obtain ⟨project, hproject'⟩ := Option.isSome_iff_exists.mp hproject
  obtain ⟨task, htask'⟩ := Option.isSome_iff_exists.mp htask
  have hprojects : (journalEntry entry).trimmed.extra? "PROJECT".toList = some (trim project) :=
    field_eq_some hvalid (mem_rowFields.mpr (.inl ⟨rfl, hproject'⟩))
  have htasks : (journalEntry entry).trimmed.extra? "TASK".toList = some (trim task) :=
    field_eq_some hvalid (mem_rowFields.mpr (.inr (.inl ⟨rfl, htask'⟩)))
  have hextra (hfields : ∀ p ∈ entry.extra, p.1 ≠ "TARGET".toList ∧ p.1 ≠ "REASON".toList) :
      (journalTxEntry (journalEntry entry).trimmed projectId nodeId).extra = entry.settled.extra ↔
        (entry.extra.filter fun p => p.1 = "BODY".toList).length ≤ 1 ∧
          ("BODY".toList, []) ∉ entry.extra := by
    have hread : (journalTxEntry (journalEntry entry).trimmed projectId nodeId).extra =
        (entry.extra.filter fun p => p.1 ≠ "BODY".toList).map trimmedValue ++
          if (journalEntry entry).trimmed.body = [] then []
          else [("BODY".toList, escapePropertyValue (journalEntry entry).trimmed.body)] :=
      congrArg (· ++ _) (extras_read hvalid hproject htask hfields)
    have hsettled : entry.settled.extra =
        (entry.extra.filter fun p => p.1 ≠ "BODY".toList).map trimmedValue ++
          (entry.extra.filter fun p => p.1 = "BODY".toList).map trimmedValue := List.map_append
    rw [hread, hsettled, List.append_right_inj, body_eq_iff hbody]
  constructor
  · intro h
    have hfields : ∀ p ∈ entry.extra, p.1 ≠ "TARGET".toList ∧ p.1 ≠ "REASON".toList :=
      fun p hp => ⟨htarget.mp (congrArg TxEntry.target h) p hp,
        hreason.mp (congrArg TxEntry.reason h) p hp⟩
    exact ⟨(hextra hfields).mp (congrArg TxEntry.extra h), hfields⟩
  · rintro ⟨hone, hfields⟩
    have htargets := htarget.mpr fun p hp => (hfields p hp).1
    have hreasons := hreason.mpr fun p hp => (hfields p hp).2
    have hextras := (hextra hfields).mpr hone
    have hsplit (a b : TxEntry) (hid : a.txId = b.txId) (htime : a.time = b.time) (hty : a.ty = b.ty)
        (hactor : a.actor = b.actor) (hmachine : a.machine = b.machine)
        (hproject : a.project = b.project) (htask : a.task = b.task) (htarget : a.target = b.target)
        (hreason : a.reason = b.reason) (hextra : a.extra = b.extra) : a = b := by
      cases a
      cases b
      simp_all
    refine hsplit _ _ rfl rfl rfl rfl rfl ?_ ?_ htargets hreasons hextras
    · rw [TxEntry.settled, hproject', journalTxEntry, hprojects]
      rfl
    · rw [TxEntry.settled, htask', journalTxEntry, htasks]
      rfl

/-- The event id of the entry that is read back. -/
theorem eventId_trimmed (entry : TxEntry) :
    ((journalEntry entry).trimmed.extra? eventIdKey).getD (journalEntry entry).trimmed.entryId =
      trim (eventId entry) := by
  have hown : ((rowFields entry).find? fun p => p.1 = eventIdKey) = none := by
    rw [List.find?_eq_none]
    intro p hp hkey
    have hkey := of_decide_eq_true hkey
    obtain ⟨h, -⟩ | ⟨h, -⟩ | ⟨h, -⟩ | ⟨h, -⟩ := mem_rowFields.mp hp <;>
    · rw [h] at hkey
      revert hkey
      decide
  have hsame : (journalEntry entry).extra? eventIdKey = entry.extra? eventIdKey := by
    rw [JournalEntry.extra?, journalEntry_extras, List.find?_append, hown, Option.none_or,
      List.find?_filter, TxEntry.extra?]
    have hne : eventIdKey ≠ "BODY".toList := by decide
    congr 2
    funext p
    by_cases hp : p.1 = eventIdKey
    · rw [decide_eq_true hp]
      exact decide_eq_true ⟨decide_eq_true (hp ▸ hne), rfl⟩
    · rw [decide_eq_false hp]
      exact decide_eq_false fun h => Bool.false_ne_true h.2
  rw [extra?_trimmed, hsame, eventId]
  cases entry.extra? eventIdKey with
  | none => rfl
  | some id => rfl

end entry

/-! ### Appending a row -/

/-- What `append` does with a handle of a journal. -/
theorem append_journal {w w' : CachedTxWriter} {entry : TxEntry} {text txId : Text}
    (hw : w.writer = .journal) (h : w.append entry = .ok (w', text, txId)) :
    (∃ existing, w.known? (eventId entry) = some existing ∧ text = []) ∨
      w.known? (eventId entry) = none ∧ (journalEntry entry).validate = .ok () ∧
        rejectJournalProse (journalEntry entry).body = .ok () ∧
        text = journalEntryBlock (journalEntry entry) := by
  rw [CachedTxWriter.append, hw] at h
  cases hknown : w.known? (eventId entry) with
  | some existing =>
      rw [hknown] at h
      cases h
      exact .inl ⟨_, rfl, rfl⟩
  | none =>
      rw [hknown] at h
      refine .inr ⟨rfl, ?_⟩
      cases hvalid : (journalEntry entry).validate with
      | error e => simp [LedgerWriter.block, hvalid] at h
      | ok u =>
          cases hprose : rejectJournalProse (journalEntry entry).body with
          | error e => simp [LedgerWriter.block, hvalid, hprose] at h
          | ok u' =>
              simp only [LedgerWriter.block, hvalid, hprose] at h
              cases h
              exact ⟨rfl, rfl, rfl⟩

theorem readEventIds_journal {path : FilePath} {source : Text} {entries : List JournalEntry}
    (hpath : isJournal path = true) (h : parseJournal source (displayPath path) = .ok entries) :
    readEventIds path source = .ok (entries.map fun entry =>
      ((entry.extra? eventIdKey).getD entry.entryId, entry.entryId)).reverse := by
  rw [readEventIds, if_pos hpath, h]

theorem transactionOf_cons (p : Text × Text) (ids : List (Text × Text)) (id tx : Text) :
    transactionOf (p :: ids) id = some tx ↔
      p.1 = id ∧ p.2 = tx ∨ p.1 ≠ id ∧ transactionOf ids id = some tx := by
  by_cases hid : p.1 = id
  · simp [transactionOf, hid]
  · simp [transactionOf, hid]

/-- **A row that is appended to a journal** is kept, with its event id, exactly if the headings in
its prose can be read below the heading of the entry, it has one body at most and that one says
something, no further property has the key of a field, and its event id is new. -/
theorem row_kept_iff {w w' : CachedTxWriter} {path : FilePath} {source text txId : Text}
    {entry : TxEntry} {entries : List JournalEntry} (hpath : isJournal path = true)
    (hsource : parseJournal source (displayPath path) = .ok entries)
    (hdepth : depthAfter 0 (rawLines source) = 0) (hw : w.writer = .journal)
    (happend : w.append entry = .ok (w', text, txId)) (hproject : entry.project.isSome = true)
    (htask : entry.task.isSome = true)
    (hbody : ∀ p ∈ entry.extra, p.1 = "BODY".toList →
      ∃ t, trim t = t ∧ p.2 = escapePropertyValue t) (projectId : Text) (nodeId : Option Text) :
    RowKept path source text entry projectId nodeId ↔ KeepsRow w path source entry := by
  have hold := readEventIds_journal hpath hsource
  obtain ⟨existing, hknown, rfl⟩ | ⟨hknown, hvalid, hprose, rfl⟩ := append_journal hw happend
  · -- nothing is written
    constructor
    · rintro ⟨⟨before, after, hbefore, hafter, hrows⟩, -⟩
      rw [List.append_nil, hbefore] at hafter
      obtain rfl := Except.ok.inj hafter
      have := congrArg List.length hrows
      simp at this
    · intro h
      rw [h.fresh] at hknown
      cases hknown
  · have happended (es : List JournalEntry) :
        parseJournal (source ++ journalEntryBlock (journalEntry entry)) (displayPath path) = .ok es ↔
          ProseFits (journalEntry entry).body ∧ es = entries ++ [(journalEntry entry).trimmed] :=
      parseJournal_append_iff hsource hdepth hvalid hprose
    have hrow := journalTxEntry_eq_iff hvalid hproject htask hbody projectId nodeId
    have hnew (hfits : ProseFits (journalEntry entry).body) :
        readEventIds path (source ++ journalEntryBlock (journalEntry entry)) =
          .ok ((trim (eventId entry), trim entry.txId) :: (entries.map fun entry =>
            ((entry.extra? eventIdKey).getD entry.entryId, entry.entryId)).reverse) := by
      rw [readEventIds_journal hpath ((happended _).mpr ⟨hfits, rfl⟩), List.map_append,
        List.reverse_append]
      show Except.ok ((_, _) :: _) = _
      rw [eventId_trimmed]
      rfl
    constructor
    · rintro ⟨⟨before, after, hbefore, hafter, hrows⟩, old, new, hold', hnew', hids⟩
      obtain rfl := Except.ok.inj (hsource.symm.trans hbefore)
      obtain ⟨hfits, rfl⟩ := (happended _).mp hafter
      rw [List.map_append, List.append_right_inj] at hrows
      obtain ⟨hone, hfields⟩ := hrow.mp (List.cons.inj hrows).1
      refine ⟨hknown, hfits, hone, hfields, fun old' hold'' tx htx => ?_⟩
      obtain rfl := Except.ok.inj (hold'.symm.trans hold'')
      rw [hnew hfits] at hnew'
      obtain rfl := Except.ok.inj hnew'
      obtain ⟨-, h⟩ | ⟨hne, -⟩ := (transactionOf_cons _ _ _ _).mp ((hids _ tx).mpr (.inl htx))
      · exact h.symm
      · exact absurd rfl hne
    · rintro ⟨-, hfits, hone, hfields, hevent⟩
      refine ⟨⟨entries, _, hsource, (happended _).mpr ⟨hfits, rfl⟩, ?_⟩,
        _, _, hold, hnew hfits, fun id tx => ?_⟩
      · rw [List.map_append, List.map_singleton, hrow.mpr ⟨hone, hfields⟩]
      · rw [transactionOf_cons]
        constructor
        · rintro (⟨rfl, rfl⟩ | ⟨-, h⟩)
          · exact .inr ⟨rfl, rfl⟩
          · exact .inl h
        · rintro (h | ⟨rfl, rfl⟩)
          · by_cases hid : trim (eventId entry) = id
            · subst hid
              exact .inl ⟨rfl, (hevent _ hold tx h).symm⟩
            · exact .inr ⟨hid, h⟩
          · exact .inl ⟨rfl, rfl⟩

/-! ### Samples -/

def nodeJournal : FilePath := ["TASK-1".toList, "journal.org".toList]

/-- A comment on a task, with this prose. -/
def commentRow (body : Text) : TxEntry where
  txId := "tx-1".toList
  time := "[2026-01-01]".toList
  ty := "comment".toList
  actor := "operator".toList
  machine := "m".toList
  project := some "p".toList
  task := some "TASK-1".toList
  target := none
  reason := some " because ".toList
  extra := [("BODY".toList, escapePropertyValue body), ("EVENT_ID".toList, "e-1".toList)]

theorem parse_header : parseJournal (journalHeader "TASK-1".toList) (displayPath nodeJournal) = .ok [] := by
  decide +kernel

theorem commentRow_body {body : Text} (h : trim body = body) :
    ∀ p ∈ (commentRow body).extra, p.1 = "BODY".toList →
      ∃ t, trim t = t ∧ p.2 = escapePropertyValue t := by
  intro p hp hkey
  obtain rfl | hp := List.mem_cons.mp hp
  · exact ⟨body, h, rfl⟩
  · rw [List.mem_singleton.mp hp] at hkey
    exact absurd hkey (by decide)

/-- A backslash and a deeper heading in the prose. -/
def plainProse : Text := "a \\ b\n** c".toList

theorem row_kept_iff_sample : RowKept nodeJournal (journalHeader "TASK-1".toList)
    (journalEntryBlock (journalEntry (commentRow plainProse))) (commentRow plainProse) "p".toList
    (some "TASK-1".toList) := by
  have happend : CachedTxWriter.append ⟨.journal, []⟩ (commentRow plainProse) =
      .ok (⟨.journal, [("e-1".toList, "tx-1".toList)]⟩,
        journalEntryBlock (journalEntry (commentRow plainProse)), "tx-1".toList) := by
    decide +kernel
  refine (row_kept_iff (by decide) parse_header (by decide) rfl happend rfl rfl
    (commentRow_body (by decide)) _ _).mpr ⟨rfl, by decide, by decide, by decide, ?_⟩
  intro old hold tx htx
  rw [readEventIds_journal (by decide) parse_header] at hold
  obtain rfl := Except.ok.inj hold
  cases htx

/-- A heading two levels below the one of the entry. -/
def deepProse : Text := "*** note".toList

/-- A row with a heading deep in its prose is written, and the journal cannot be read any more. -/
theorem row_kept_fails : ∃ w' text txId,
    CachedTxWriter.append ⟨.journal, []⟩ (commentRow deepProse) = .ok (w', text, txId) ∧
      parseJournal (journalHeader "TASK-1".toList) (displayPath nodeJournal) = .ok [] ∧
      (∀ entries, parseJournal (journalHeader "TASK-1".toList ++ text) (displayPath nodeJournal) ≠
        .ok entries) ∧
      ¬RowKept nodeJournal (journalHeader "TASK-1".toList) text (commentRow deepProse) "p".toList
        (some "TASK-1".toList) := by
  have happend : CachedTxWriter.append ⟨.journal, []⟩ (commentRow deepProse) =
      .ok (⟨.journal, [("e-1".toList, "tx-1".toList)]⟩,
        journalEntryBlock (journalEntry (commentRow deepProse)), "tx-1".toList) := by
    decide +kernel
  have hfails (entries : List JournalEntry) : parseJournal (journalHeader "TASK-1".toList ++
      journalEntryBlock (journalEntry (commentRow deepProse))) (displayPath nodeJournal) ≠
        .ok entries := by
    intro h
    have hfits := ((parseJournal_append_iff parse_header (by decide) (by decide) (by decide)).mp h).1
    revert hfits
    decide
  refine ⟨_, _, _, happend, parse_header, hfails, ?_⟩
  rintro ⟨⟨_, entries, _, h, _⟩, _⟩
  exact hfails entries h

end Orgasmic
