import Orgasmic.JournalBlocks
import Orgasmic.OrgProperties

/-! # Consuming the open comments of a journal

`consume_open_comments` marks every open comment with `:CONSUMED: true` by one pass of edits that
are computed on one parse.

* **Drawers.** `EntrySet`: setting a property replaces a value, or puts a line in front of the line
  that ends the drawer.
* **Chunks.** `Marked`: the chunk of a comment with the property set is read as the same heading.
* **Runs.** `blocks_marked` follows the loop over the headings and the splice of its edits;
  `comments_consumed` reads the result back. -/

namespace Orgasmic

open Text

/-! ### The operation -/

/-- A comment is open while it is neither consumed nor tombstoned. -/
def JournalEntry.isOpenComment (entry : JournalEntry) : Bool :=
  entry.ty = "comment".toList && entry.extra? "CONSUMED".toList ≠ some "true".toList

/-- The edit that marks a heading. -/
def consumeEdit (content : Text) (h : HeadingInfo) : Except JournalError (Span × Text) :=
  match h.propertyEntries.find? fun e => e.key = "CONSUMED".toList with
  | some e => .ok (e.valueSpan, "true".toList)
  | none =>
      match rfind ":END:".toList (content.take h.body.start) with
      | none => .error .drawerEnd
      | some endLine => .ok (⟨endLine, endLine⟩, ":CONSUMED: true\n".toList)

/-- The loop over the headings: the edits and the ids of the consumed comments. -/
def consumeLoop (content : Text) :
    List Heading → Except JournalError (List (Span × Text) × List Text)
  | [] => .ok ([], [])
  | h :: hs =>
      if h.property "TYPE".toList ≠ some "comment".toList ∨
          h.property "CONSUMED".toList = some "true".toList then
        consumeLoop content hs
      else match consumeEdit content h.toHeadingInfo with
        | .error e => .error e
        | .ok edit =>
            match consumeLoop content hs with
            | .error e => .error e
            | .ok (edits, consumed) =>
                .ok (edit :: edits, (h.property "TX_ID".toList).getD [] :: consumed)

/-- The text from `cursor` on with these edits. -/
def splice (content : Text) (cursor : ℕ) : List (Span × Text) → Text
  | [] => content.drop cursor
  | (r, rep) :: edits => slice content ⟨cursor, r.start⟩ ++ rep ++ splice content r.stop edits

/-- `consume_open_comments`. -/
def consumeOpenComments (content : Text) : Except JournalError (Text × List Text) :=
  if trim content = [] then .ok (content, [])
  else match OrgFile.parse content journalFile with
    | .error e => .error (.parse e)
    | .ok file =>
        match consumeLoop content file.headings with
        | .error e => .error e
        | .ok (edits, consumed) =>
            .ok (splice content 0 (edits.mergeSort fun a b => decide (a.1.start ≤ b.1.start)), consumed)

/-! ### Setting a property -/

/-- The first value of a key, or a further pair. -/
def setPair (key value : Text) : List (Text × Text) → List (Text × Text)
  | [] => [(key, value)]
  | p :: ps => if p.1 = key then (key, value) :: ps else p :: setPair key value ps

/-- The entry with the comment consumed. -/
def JournalEntry.consumed (entry : JournalEntry) : JournalEntry :=
  if entry.isOpenComment then
    { entry with extras := setPair "CONSUMED".toList "true".toList entry.extras }
  else entry

section pairs
variable {key value : Text}

theorem mem_setPair {p : Text × Text} {ps : List (Text × Text)} (h : p ∈ setPair key value ps) :
    p ∈ ps ∨ p = (key, value) := by
  induction ps with
  | nil => exact .inr (List.mem_singleton.mp h)
  | cons q ps ih =>
      rw [setPair] at h
      split_ifs at h
      · rcases List.mem_cons.mp h with rfl | h
        · exact .inr rfl
        · exact .inl (List.mem_cons_of_mem _ h)
      · rcases List.mem_cons.mp h with rfl | h
        · exact .inl List.mem_cons_self
        · exact (ih h).imp_left (List.mem_cons_of_mem _)

theorem find_setPair_self (ps : List (Text × Text)) :
    (setPair key value ps).find? (fun p => p.1 = key) = some (key, value) := by
  induction ps with
  | nil => simp [setPair]
  | cons p ps ih =>
      rw [setPair]
      split_ifs with hp
      · simp
      · rw [List.find?_cons_of_neg (by simpa using hp), ih]

/-- Other keys keep their values. -/
theorem find_setPair_of_ne {other : Text} (hne : other ≠ key) (ps : List (Text × Text)) :
    (setPair key value ps).find? (fun p => p.1 = other) = ps.find? fun p => p.1 = other := by
  induction ps with
  | nil => simp [setPair, hne.symm]
  | cons p ps ih =>
      rw [setPair]
      split_ifs with hp
      · have hother : ¬p.1 = other := fun h => hne (h.symm.trans hp)
        simp [hne.symm, hother]
      · rw [List.find?_cons, List.find?_cons, ih]

/-- The keys of the pairs, with the set one. -/
theorem keys_setPair (ps : List (Text × Text)) :
    (setPair key value ps).map Prod.fst =
      if key ∈ ps.map Prod.fst then ps.map Prod.fst else ps.map Prod.fst ++ [key] := by
  induction ps with
  | nil => simp [setPair]
  | cons p ps ih =>
      rw [setPair]
      split_ifs with hp hmem hmem
      · simp [hp]
      · exact absurd (by simp [hp]) hmem
      · have htail : key ∈ ps.map Prod.fst := by
          rw [List.map_cons, List.mem_cons] at hmem
          exact hmem.resolve_left fun h => hp h.symm
        rw [List.map_cons, ih, if_pos htail, List.map_cons]
      · have htail : key ∉ ps.map Prod.fst := fun h => hmem (List.mem_cons_of_mem _ h)
        rw [List.map_cons, ih, if_neg htail, List.map_cons, List.cons_append]

theorem filter_setPair {p : Text → Prop} [DecidablePred p] (hkey : p key) (ps : List (Text × Text)) :
    (setPair key value ps).filter (fun q => p q.1) = setPair key value (ps.filter fun q => p q.1) := by
  induction ps with
  | nil => simp [setPair, hkey]
  | cons q ps ih =>
      rw [setPair]
      split_ifs with hq
      · rw [List.filter_cons_of_pos (by simpa using hkey),
          List.filter_cons_of_pos (by simpa [hq] using hkey), setPair, if_pos hq]
      · by_cases hp : p q.1
        · rw [List.filter_cons_of_pos (by simpa using hp), List.filter_cons_of_pos (by simpa using hp),
            setPair, if_neg hq, ih]
        · rw [List.filter_cons_of_neg (by simpa using hp), List.filter_cons_of_neg (by simpa using hp),
            ih]

/-- Distinct keys stay distinct. -/
theorem firstRepeated_setPair {seen : List Text} {ps : List (Text × Text)}
    (h : firstRepeated seen (ps.map Prod.fst) = none) (hkey : key ∉ seen) :
    firstRepeated seen ((setPair key value ps).map Prod.fst) = none := by
  rw [firstRepeated_eq_none_iff] at h ⊢
  obtain ⟨hnodup, hfresh⟩ := h
  rw [keys_setPair]
  split_ifs with hmem
  · exact ⟨hnodup, hfresh⟩
  · refine ⟨List.nodup_append.mpr ⟨hnodup, List.nodup_singleton _, ?_⟩, ?_⟩
    · intro a ha b hb hab
      rw [List.mem_singleton] at hb
      exact hmem (hb ▸ hab ▸ ha)
    · exact List.forall_mem_append.mpr ⟨hfresh, List.forall_mem_singleton.mpr hkey⟩

end pairs

theorem validateProperties_ok_iff {properties : List (Text × Text)} :
    TxEntry.validateProperties properties = .ok () ↔ ∀ p ∈ properties,
      TxEntry.validatePropertyKey p.1 = .ok () ∧ TxEntry.validatePropertyValue p.1 p.2 = .ok () := by
  induction properties with
  | nil => simp [TxEntry.validateProperties]
  | cons p properties ih =>
      obtain ⟨key, value⟩ := p
      rw [List.forall_mem_cons, ← ih, TxEntry.validateProperties]
      cases TxEntry.validatePropertyKey key with
      | error e => simp [bind, Except.bind]
      | ok u =>
          cases TxEntry.validatePropertyValue key value with
          | error e => simp [bind, Except.bind]
          | ok u' => simp [bind, Except.bind]

theorem JournalEntry.validate_eq_ok_iff {e : JournalEntry} :
    e.validate = .ok () ↔ firstRepeated requiredKeys (e.extras.map Prod.fst) = none ∧
      e.toTx.validate = .ok () := by
  rw [JournalEntry.validate]
  cases firstRepeated requiredKeys (e.extras.map Prod.fst) with
  | some key => simp
  | none =>
      cases e.toTx.validate with
      | error err => simp
      | ok u => simp

/-- An entry stays valid with a further valid property. -/
theorem JournalEntry.validate_setPair {e : JournalEntry} (h : e.validate = .ok ()) {key value : Text}
    (hkey : TxEntry.validatePropertyKey key = .ok ())
    (hvalue : TxEntry.validatePropertyValue key value = .ok ()) (hown : key ∉ requiredKeys) :
    ({ e with extras := setPair key value e.extras } : JournalEntry).validate = .ok () := by
  obtain ⟨hkeys, hvalid⟩ := JournalEntry.validate_eq_ok_iff.mp h
  refine JournalEntry.validate_eq_ok_iff.mpr ⟨firstRepeated_setPair hkeys hown, ?_⟩
  rw [TxEntry.validate, validateProperties_ok_iff] at hvalid ⊢
  intro p hp
  have hcases : p ∈ e.toTx.orderedProperties ∨ p = (key, value) := by
    rw [TxEntry.orderedProperties, List.mem_append] at hp ⊢
    rcases hp with hp | hp
    · exact .inl (.inl hp)
    · exact (mem_setPair hp).imp_left .inr
  rcases hcases with hp | rfl
  · exact hvalid p hp
  · exact ⟨hkey, hvalue⟩

/-- The value of the first pair with this key. -/
def pairValue (key : Text) (pairs : List (Text × Text)) : Option Text :=
  (pairs.find? fun p => p.1 = key).map Prod.snd

/-- What the fields of an entry are read from. -/
structure EntryOf (pairs : List (Text × Text)) (body : Text) (e : JournalEntry) : Prop where
  keys : firstRepeated [] (pairs.map Prod.fst) = none
  entryId : pairValue "TX_ID".toList pairs = some e.entryId
  time : pairValue "TIME".toList pairs = some e.time
  ty : pairValue "TYPE".toList pairs = some e.ty
  actor : pairValue "ACTOR".toList pairs = some e.actor
  machine : pairValue "MACHINE".toList pairs = some e.machine
  extras : e.extras = pairs.filter fun p => p.1 ∉ requiredKeys
  body : e.body = trim body
  valid : e.validate = .ok ()

theorem readJournalEntry_eq_ok_iff {display title body : Text} {pairs : List (Text × Text)}
    {e : JournalEntry} :
    readJournalEntry display title pairs body = .ok e ↔ EntryOf pairs body e := by
  constructor
  · intro h
    dsimp only [readJournalEntry] at h
    split at h
    · cases h
    · next hkeys =>
        split at h
        · next entryId time ty actor machine h1 h2 h3 h4 h5 =>
            split at h
            · cases h
            · next hvalid =>
                obtain rfl := Except.ok.inj h
                exact ⟨hkeys, h1, h2, h3, h4, h5, rfl, rfl, hvalid⟩
        · cases h
  · intro h
    obtain ⟨entryId, time, ty, actor, machine, extras, body'⟩ := e
    obtain ⟨hkeys, h1, h2, h3, h4, h5, rfl, rfl, hvalid⟩ := h
    dsimp only [pairValue] at h1 h2 h3 h4 h5
    simp only [readJournalEntry, hkeys, h1, h2, h3, h4, h5, hvalid]

/-- The pairs of an open comment. -/
def OpenPairs (pairs : List (Text × Text)) : Prop :=
  pairValue "TYPE".toList pairs = some "comment".toList ∧
    pairValue "CONSUMED".toList pairs ≠ some "true".toList

instance (pairs : List (Text × Text)) : Decidable (OpenPairs pairs) :=
  inferInstanceAs (Decidable (_ ∧ _))

section entry
variable {pairs : List (Text × Text)} {body : Text} {e : JournalEntry}

/-- A key without a field of its own is looked up in the further properties. -/
theorem EntryOf.extra_eq (h : EntryOf pairs body e) {key : Text} (hkey : key ∉ requiredKeys) :
    e.extra? key = pairValue key pairs := by
  rw [JournalEntry.extra?, h.extras, List.find?_filter, pairValue]
  congr 2
  funext p
  by_cases hp : p.1 = key
  · simp [hp, hkey]
  · simp [hp]

theorem EntryOf.isOpenComment_iff (h : EntryOf pairs body e) :
    e.isOpenComment = true ↔ OpenPairs pairs := by
  have hextra := h.extra_eq (show "CONSUMED".toList ∉ requiredKeys by decide)
  rw [JournalEntry.isOpenComment, OpenPairs, h.ty, ← hextra, Bool.and_eq_true, decide_eq_true_iff,
    decide_eq_true_iff, Option.some.injEq]

theorem pairValue_setPair_of_ne {key other value : Text} (hne : other ≠ key)
    (ps : List (Text × Text)) : pairValue other (setPair key value ps) = pairValue other ps := by
  rw [pairValue, find_setPair_of_ne hne, pairValue]

/-- **Reading the pairs with the comment consumed.** -/
theorem EntryOf.consumed (h : EntryOf pairs body e) (hopen : OpenPairs pairs) :
    EntryOf (setPair "CONSUMED".toList "true".toList pairs) body e.consumed := by
  have hconsumed : e.consumed =
      { e with extras := setPair "CONSUMED".toList "true".toList e.extras } := by
    rw [JournalEntry.consumed, if_pos (h.isOpenComment_iff.mpr hopen)]
  have hvalue {other value : Text} (hne : other ≠ "CONSUMED".toList)
      (hother : pairValue other pairs = some value) :
      pairValue other (setPair "CONSUMED".toList "true".toList pairs) = some value := by
    rw [pairValue_setPair_of_ne hne, hother]
  rw [hconsumed]
  refine ⟨firstRepeated_setPair h.keys (by simp), hvalue (by decide) h.entryId,
    hvalue (by decide) h.time, hvalue (by decide) h.ty, hvalue (by decide) h.actor,
    hvalue (by decide) h.machine, ?_, h.body, ?_⟩
  · exact h.extras ▸ (filter_setPair (p := fun key => key ∉ requiredKeys) (by decide) pairs).symm
  · exact JournalEntry.validate_setPair h.valid (by decide) (by decide) (by decide)

end entry

/-! ### Setting a property in a drawer -/

theorem rfind_append (pattern : Text) {t : Text} {i : ℕ} (h : rfind pattern t = some i) (a : Text) :
    rfind pattern (a ++ t) = some (a.length + i) := by
  induction a with
  | nil => rw [List.nil_append, h, List.length_nil, Nat.zero_add]
  | cons c a ih =>
      rw [List.cons_append, rfind, ih, List.length_cons]
      simp only [Option.some.injEq]
      omega

/-- A pattern is not found without its first character. -/
theorem rfind_eq_none {c : Char} {pattern t : Text} (h : c ∉ t) : rfind (c :: pattern) t = none := by
  induction t with
  | nil => simp [rfind]
  | cons d t ih =>
      rw [List.mem_cons, not_or] at h
      rw [rfind, ih h.2]
      simp [h.1]

/-- The last line of a drawer is found from behind. -/
theorem rfind_end (a : Text) {w : Text} (hw : Blank w) :
    rfind ":END:".toList (a ++ (":END:".toList ++ w)) = some a.length := by
  have hfresh {c : Char} (hc : isWhitespace c = false) : c ∉ w := fun hmem => by
    rw [hw c hmem] at hc
    cases hc
  have hnone : rfind [':', 'E', 'N', 'D', ':'] w = none := rfind_eq_none (hfresh (by decide))
  have hprefix : ['E', 'N', 'D', ':'].isPrefixOf w = false := by
    cases w with
    | nil => rfl
    | cons c w =>
        have hne : 'E' ≠ c := fun h => hfresh (c := 'E') (by decide) (h ▸ List.mem_cons_self)
        simp [List.isPrefixOf, hne]
  have hfound : rfind [':', 'E', 'N', 'D', ':'] ([':', 'E', 'N', 'D', ':'] ++ w) = some 0 := by
    simp [rfind, hnone, hprefix]
  rw [show ":END:".toList = [':', 'E', 'N', 'D', ':'] from rfl]
  rw [rfind_append _ hfound, Nat.add_zero]

/-- Entries at another place. -/
theorem Entries.shift {off : ℕ} {ds : List Text} {es : List PropertyEntry} (h : Entries off ds es)
    (off' : ℕ) : ∃ es', Entries off' ds es' ∧
      es'.map PropertyEntry.pair = es.map PropertyEntry.pair := by
  induction ds generalizing off off' es with
  | nil =>
      cases es with
      | nil => exact ⟨[], trivial, rfl⟩
      | cons e es => exact h.elim
  | cons l ds ih =>
      cases es with
      | nil => exact h.elim
      | cons e es =>
          obtain ⟨hl, hparsed, h⟩ := h
          have hpair := parsePropertyLine_pair (content l) (spanAt off l) (spanAt off' l)
          rw [hparsed] at hpair
          obtain ⟨e', hparsed', hsame⟩ := Option.map_eq_some_iff.mp hpair.symm
          obtain ⟨es', hes', hpairs⟩ := ih h (off' + l.length)
          exact ⟨e' :: es', ⟨hl, hparsed', hes'⟩, by rw [List.map_cons, List.map_cons, hsame, hpairs]⟩

/-- The drawer lines `ds` at `off`, with the line `last` behind them, once a property is set: the
text in front of the edit, what stands there, what is put there, and the text behind it. -/
structure EntrySet (key value : Text) (off : ℕ) (ds : List Text) (es : List PropertyEntry)
    (last : Text) where
  ds' : List Text
  es' : List PropertyEntry
  ws : Text
  last' : Text
  before : Text
  old : Text
  new : Text
  behind : Text
  text : ds.flatten ++ last = before ++ (old ++ behind)
  text' : ds'.flatten ++ last' = before ++ (new ++ behind)
  terminated : ∀ l ∈ ds', Terminated l
  entries : Entries off ds' es'
  pairs : es'.map PropertyEntry.pair = setPair key value (es.map PropertyEntry.pair)
  unindented : last = ws ++ last'
  blank : Blank ws
  newline : '\n' ∉ ws
  replaced : ∀ e, es.find? (fun e => e.key = key) = some e →
    e.valueSpan = ⟨off + before.length, off + before.length + old.length⟩ ∧ new = value
  inserted : es.find? (fun e => e.key = key) = none →
    old = [] ∧ new = ":".toList ++ key ++ ": ".toList ++ value ++ "\n".toList ∧
      ∃ w, Blank w ∧ behind = ":END:".toList ++ w

section drawer
variable {key value : Text} (hkey : IsKey key) (hvalue : trim value = value) (hline : '\n' ∉ value)
include hkey hvalue hline

/-- A new line in front of the last one. -/
theorem exists_entrySet_nil (off : ℕ) {last : Text} (hends : trim last = ":END:".toList)
    (hlast : '\n' ∉ last ∨ Terminated last) : Nonempty (EntrySet key value off [] [] last) := by
  obtain ⟨ws, w, hws, hw, hsplit⟩ := trim_spec last
  rw [hends, List.append_assoc] at hsplit
  have hnl : '\n' ∉ ws := by
    rcases hlast with hlast | ⟨b, hb, hb'⟩
    · exact fun h => hlast (by rw [hsplit]; exact List.mem_append_left _ h)
    · rcases List.eq_nil_or_concat' w with rfl | ⟨w, c, rfl⟩
      · have h := congrArg List.getLast? (hsplit.symm.trans hb')
        rw [List.append_nil, List.getLast?_append, List.getLast?_concat] at h
        simp at h
      · rw [← List.append_assoc, ← List.append_assoc] at hsplit
        have hsame := List.append_inj_left' (hsplit.symm.trans hb') rfl
        exact fun h => hb (by rw [← hsame, List.append_assoc]; exact List.mem_append_left _ h)
  have hraw : trim (' ' :: (value ++ ['\n'])) = value := by
    rw [← List.singleton_append, trim_blank_append (show Blank [' '] by decide),
      trim_append_blank (show Blank ['\n'] by decide), hvalue]
  obtain ⟨x, y, -, -, -, -, hparsed⟩ :=
    propertyLine_parsed hws hkey.ne_nil hkey.colon (' ' :: (value ++ ['\n']))
  rw [hraw] at hparsed
  refine ⟨{
    ds' := [ws ++ ':' :: (key ++ ':' :: (' ' :: (value ++ ['\n'])))]
    es' := [_]
    ws := ws
    last' := ":END:".toList ++ w
    before := ws
    old := []
    new := ":".toList ++ key ++ ": ".toList ++ value ++ "\n".toList
    behind := ":END:".toList ++ w
    text := by rw [List.flatten_nil, List.nil_append, List.nil_append]; exact hsplit
    text' := by simp
    terminated := List.forall_mem_singleton.mpr
      ⟨ws ++ ':' :: (key ++ ':' :: (' ' :: value)), by simp [hnl, hkey.newline, hline], by simp⟩
    entries := ⟨trim_propertyLine_ne hws hkey.colon hkey.ne_end _, hparsed _, trivial⟩
    pairs := rfl
    unindented := hsplit
    blank := hws
    newline := hnl
    replaced := by simp
    inserted := fun _ => ⟨rfl, rfl, w, hw, rfl⟩ }⟩

/-- Another value on the line of the key. -/
theorem exists_entrySet_head {off : ℕ} {l : Text} {ds : List Text} {e : PropertyEntry}
    {es : List PropertyEntry} {last : Text} (hl : Terminated l)
    (hterm : ∀ l ∈ ds, Terminated l) (hparsed : parsePropertyLine (content l) (spanAt off l) = some e)
    (hes : Entries (off + l.length) ds es) (he : e.key = key) :
    Nonempty (EntrySet key value off (l :: ds) (e :: es) last) := by
  obtain ⟨front, behind, e', rfl, hterm', hne, hparsed', hpair, hspan⟩ :=
    propertyLine_set hl hparsed (he ▸ hkey.ne_end) hline
  rw [he, hvalue] at hpair
  obtain ⟨es', hes', hpairs⟩ := hes.shift (off + (front ++ (value ++ behind)).length)
  refine ⟨{
    ds' := (front ++ (value ++ behind)) :: ds
    es' := e' :: es'
    ws := []
    last' := last
    before := front
    old := e.value
    new := value
    behind := behind ++ (ds.flatten ++ last)
    text := by simp
    text' := by simp
    terminated := List.forall_mem_cons.mpr ⟨hterm', hterm⟩
    entries := ⟨hne, hparsed', hes'⟩
    pairs := ?_
    unindented := rfl
    blank := blank_nil
    newline := by simp
    replaced := ?_
    inserted := ?_ }⟩
  · have hfirst : (PropertyEntry.pair e).1 = key := he
    rw [List.map_cons, List.map_cons, setPair, if_pos hfirst, hpairs, hpair]
  · intro e₀ hfound
    rw [List.find?_cons_of_pos (by simpa using he), Option.some.injEq] at hfound
    rw [← hfound]
    exact ⟨hspan, rfl⟩
  · intro hnone
    rw [List.find?_cons_of_pos (by simpa using he)] at hnone
    cases hnone

/-- **Setting a property** of a drawer. -/
theorem exists_entrySet {off : ℕ} {ds : List Text} {es : List PropertyEntry} {last : Text}
    (hterm : ∀ l ∈ ds, Terminated l) (hes : Entries off ds es)
    (hends : trim last = ":END:".toList) (hlast : '\n' ∉ last ∨ Terminated last) :
    Nonempty (EntrySet key value off ds es last) := by
  induction ds generalizing off es with
  | nil =>
      cases es with
      | nil => exact exists_entrySet_nil hkey hvalue hline off hends hlast
      | cons e es => exact hes.elim
  | cons l ds ih =>
      cases es with
      | nil => exact hes.elim
      | cons e es =>
          obtain ⟨hl, hparsed, hes⟩ := hes
          obtain ⟨htermL, hterm⟩ := List.forall_mem_cons.mp hterm
          by_cases he : e.key = key
          · exact exists_entrySet_head hkey hvalue hline htermL hterm hparsed hes he
          · obtain ⟨t⟩ := ih hterm hes
            have hother : ¬(PropertyEntry.pair e).1 = key := he
            refine ⟨{
              ds' := l :: t.ds'
              es' := e :: t.es'
              ws := t.ws
              last' := t.last'
              before := l ++ t.before
              old := t.old
              new := t.new
              behind := t.behind
              text := by rw [List.flatten_cons, List.append_assoc, t.text, List.append_assoc]
              text' := by rw [List.flatten_cons, List.append_assoc, t.text', List.append_assoc]
              terminated := List.forall_mem_cons.mpr ⟨htermL, t.terminated⟩
              entries := ⟨hl, hparsed, t.entries⟩
              pairs := by rw [List.map_cons, t.pairs, List.map_cons, setPair, if_neg hother]
              unindented := t.unindented
              blank := t.blank
              newline := t.newline
              replaced := ?_
              inserted := ?_ }⟩
            · intro e' hfound
              rw [List.find?_cons_of_neg (by simpa using he)] at hfound
              rw [List.length_append, ← Nat.add_assoc]
              exact t.replaced e' hfound
            · intro hnone
              rw [List.find?_cons_of_neg (by simpa using he)] at hnone
              exact t.inserted hnone

end drawer

/-! ### Setting a property in a document -/

/-- The chunk `m` behind a front, once its comment is consumed. -/
structure Marked (declared P : List Text) (as : List Chunk) (info : HeadingInfo) (m m' : Chunk) where
  before : Text
  old : Text
  new : Text
  behind : Text
  text : m.text = before ++ (old ++ behind)
  text' : m'.text = before ++ (new ++ behind)
  edit : ∀ rest, consumeEdit (frontText P as ++ (m.text ++ rest)) info =
    .ok (⟨(frontText P as).length + before.length,
      (frontText P as).length + before.length + old.length⟩, new)
  title : m'.1 = m.1
  exact : ∀ n, m.exact declared = some n → m'.exact declared =
    some { n with properties := setPair "CONSUMED".toList "true".toList n.properties }
  chunks : ∀ bs, chunksOf (frontText P as ++ (m.text ++ (Segment.join bs).flatten)) =
      (P, as ++ m :: bs) →
    chunksOf (frontText P as ++ (m'.text ++ (Segment.join bs).flatten)) = (P, as ++ m' :: bs)

theorem text_drawerChunk (title opening last : Text) (ds body : List Text) :
    Chunk.text (title, opening :: (ds ++ last :: body)) =
      title ++ (opening ++ (ds.flatten ++ last ++ body.flatten)) := by
  simp [Chunk.text, Chunk.lines]

/-- The line that ends a drawer, without the white space in front of it. -/
theorem chunksOf_unindented {ws last rest : Text} {body : List Text} {bs : List Chunk}
    (hws : Blank ws) (hnl : '\n' ∉ ws) (hends : trim (ws ++ last) = ":END:".toList)
    (h : chunksOf (ws ++ (last ++ rest)) = ((ws ++ last) :: body, bs)) :
    chunksOf (last ++ rest) = (last :: body, bs) := by
  obtain ⟨hraw, hno, hchunks⟩ := (chunksOf_eq_iff _ _ _).mp h
  have hends' : trim last = ":END:".toList := by rw [← trim_blank_append hws, hends]
  have hquiet {l : Text} (hl : trim l = ":END:".toList) : isHead 0 l = false ∧ lineDepth 0 l = 0 := by
    obtain ⟨u, hu⟩ := trimStart_of_trim hl
    exact ⟨(colonLine hu).1.1, (colonLine hu).2⟩
  obtain ⟨-, hdepth⟩ := hquiet hends
  obtain ⟨hhead', hdepth'⟩ := hquiet hends'
  obtain ⟨l, ls, hl⟩ : ∃ l ls, rawLines (last ++ rest) = l :: ls := by
    refine List.exists_cons_of_ne_nil fun hnil => ?_
    rw [rawLines_eq_nil_iff, List.append_eq_nil_iff] at hnil
    rw [hnil.1] at hends'
    cases hends'
  rw [rawLines_glue hnl hl, List.cons_append, List.cons.injEq] at hraw
  obtain ⟨hsame, rfl⟩ := hraw
  obtain rfl := List.append_cancel_left hsame
  obtain ⟨-, hno⟩ := hno
  rw [hdepth] at hno
  refine (chunksOf_eq_iff _ _ _).mpr ⟨hl, ⟨hhead', ?_⟩, ?_⟩
  · rw [hdepth']
    exact hno
  · rw [depthAfter_cons, hdepth] at hchunks
    rw [depthAfter_cons, hdepth']
    exact hchunks

/-- **An open comment is marked as consumed.** -/
theorem exists_marked {t : Text} {declared P : List Text} {as bs : List Chunk} {m : Chunk}
    {info : HeadingInfo} (hc : chunksOf t = (P, as ++ m :: bs))
    (hread : readHeading declared (frontText P as).length m = some info)
    (hdrawer : info.properties ≠ none) : ∃ m', Nonempty (Marked declared P as info m m') := by
  obtain ⟨level, parsed, properties, b, body, -, -, hr, rfl⟩ := readHeading_eq_some_iff.mp hread
  obtain ⟨d, rfl⟩ := Option.ne_none_iff_exists'.mp hdrawer
  obtain ⟨title, rs⟩ := m
  obtain ⟨opening, ds, last, rfl, hopens, hends, hes, hb⟩ := readProperties_drawer hr
  obtain ⟨hterm, hhead, hrest⟩ := drawer_tail hc hopens hes
  have hlast : '\n' ∉ last ∨ Terminated last :=
    rawLine_cases (t := t) (by rw [((chunksOf_eq_iff _ _ _).mp hc).1]; simp)
  have hkey : IsKey "CONSUMED".toList := ⟨by decide, by decide, by decide, by decide⟩
  obtain ⟨s⟩ := exists_entrySet hkey (show trim "true".toList = "true".toList by decide) (by decide)
    (fun l hl => hterm l (by simp [hl])) hes hends hlast
  have hfront : ∀ l ∈ [title, opening], Terminated l := fun l hl => hterm l (by
    rcases List.mem_pair.mp hl with rfl | rfl <;> simp)
  have hends' : trim s.last' = ":END:".toList := by
    rw [← trim_blank_append s.blank, ← s.unindented, hends]
  refine ⟨(title, opening :: (s.ds' ++ s.last' :: body)), ⟨{
    before := title ++ (opening ++ s.before)
    old := s.old
    new := s.new
    behind := s.behind ++ body.flatten
    text := ?_
    text' := ?_
    edit := ?_
    title := rfl
    exact := ?_
    chunks := ?_ }⟩⟩
  · rw [text_drawerChunk, s.text]
    simp
  · rw [text_drawerChunk, s.text']
    simp
  · intro rest
    rw [consumeEdit]
    cases hfind : d.entries.find? fun e => e.key = "CONSUMED".toList with
    | some e =>
        obtain ⟨hspan, hnew⟩ := s.replaced e hfind
        simp only [HeadingInfo.propertyEntries, hfind, hspan, hnew, List.length_append,
          Nat.add_assoc]
    | none =>
        obtain ⟨hold, hnew, w, hw, hbehind⟩ := s.inserted hfind
        have htext : frontText P as ++ ((title ++ (opening ++ (ds.flatten ++ last ++ body.flatten))) ++
            rest) = (frontText P as ++ title ++ opening ++ (ds.flatten ++ last)) ++
              (body.flatten ++ rest) := by
          simp
        have hlen : b = (frontText P as ++ title ++ opening ++ (ds.flatten ++ last)).length := by
          rw [hb]
          simp [Nat.add_assoc]
        have hrfind := rfind_end (frontText P as ++ title ++ opening ++ s.before) hw
        simp only [HeadingInfo.propertyEntries, hfind]
        rw [text_drawerChunk, htext, hlen, List.take_left, s.text, hold, hbehind, List.nil_append,
          ← List.append_assoc _ s.before, hrfind, hnew]
        simp
  · intro n hn
    obtain ⟨_, _, ps, body', -, -, hpairs, rfl⟩ := Chunk.exact_eq_some_iff.mp hn
    rw [readPairs_of_readProperties hr, Option.some.injEq, Prod.mk.injEq] at hpairs
    obtain ⟨rfl, rfl⟩ := hpairs
    obtain ⟨_, _, hnew⟩ := readProperties_of_entries hopens hends' body s.entries
    have hpairs' := readPairs_of_readProperties hnew
    rw [show drawerPairs (some ⟨s.es', _⟩) = s.es'.map PropertyEntry.pair from rfl, s.pairs]
      at hpairs'
    exact Chunk.exact_same_title (title, opening :: (s.ds' ++ s.last' :: body)) hn rfl hpairs'
  · intro bs' hc'
    obtain ⟨-, -, hrest'⟩ := drawer_tail hc' hopens hes
    rw [s.unindented, List.append_assoc] at hrest'
    have hrest' := chunksOf_unindented s.blank s.newline (s.unindented ▸ hends) hrest'
    have hfits := Drawer.chunksOf_text (D := ⟨P, as, title, opening, s.last', body, bs',
      front_of_chunksOf hc', hfront, hhead, hopens, hends', hrest'⟩) ⟨s.terminated, s.entries⟩
    rw [text_drawerChunk]
    simpa [Drawer.text, Drawer.chunk] using hfits

/-! ### The loop over the headings -/

/-- The node with the comment consumed. -/
def Node.consumed (n : Node) : Node :=
  if OpenPairs n.properties then
    { n with properties := setPair "CONSUMED".toList "true".toList n.properties }
  else n

/-- A block and the one it becomes. -/
def ConsumedBlock (declared : List Text) (b b' : TopBlock) : Prop :=
  b'.2 = b.2 ∧ b'.1.level = b.1.level ∧
    ∃ n, b.1.exact declared = some n ∧ b'.1.exact declared = some n.consumed

/-- A heading of an open comment. -/
def OpenHeading (h : HeadingInfo) : Prop :=
  OpenPairs (h.propertyEntries.map PropertyEntry.pair)

instance (h : HeadingInfo) : Decidable (OpenHeading h) :=
  inferInstanceAs (Decidable (OpenPairs _))

theorem pairValue_entries (h : HeadingInfo) (key : Text) :
    pairValue key (h.propertyEntries.map PropertyEntry.pair) = h.property key := by
  simp only [pairValue, HeadingInfo.property, List.find?_map, Option.map_map]
  rfl

theorem openHeading_iff (h : HeadingInfo) : OpenHeading h ↔
    h.property "TYPE".toList = some "comment".toList ∧
      h.property "CONSUMED".toList ≠ some "true".toList := by
  rw [OpenHeading, OpenPairs, pairValue_entries, pairValue_entries]

theorem consumeLoop_skip {content : Text} {h : Heading} (hs : List Heading)
    (hopen : ¬OpenHeading h.toHeadingInfo) :
    consumeLoop content (h :: hs) = consumeLoop content hs := by
  rw [openHeading_iff, not_and_or, not_not] at hopen
  rw [consumeLoop, if_pos hopen]

theorem consumeLoop_open {content : Text} {h : Heading} {hs : List Heading} {edit : Span × Text}
    {edits : List (Span × Text)} {ids : List Text} (hopen : OpenHeading h.toHeadingInfo)
    (hedit : consumeEdit content h.toHeadingInfo = .ok edit)
    (hloop : consumeLoop content hs = .ok (edits, ids)) :
    consumeLoop content (h :: hs) =
      .ok (edit :: edits, (h.property "TX_ID".toList).getD [] :: ids) := by
  rw [openHeading_iff] at hopen
  rw [consumeLoop, if_neg (by rw [not_or, not_not]; exact hopen), hedit, hloop]

/-- Without open comments nothing is edited. -/
theorem consumeLoop_closed (content : Text) {hs : List Heading}
    (h : ∀ g ∈ hs, ¬OpenHeading g.toHeadingInfo) : consumeLoop content hs = .ok ([], []) := by
  induction hs with
  | nil => rfl
  | cons g hs ih =>
      obtain ⟨hg, hs⟩ := List.forall_mem_cons.mp h
      rw [consumeLoop_skip _ hg, ih hs]

/-- The ids of the open comments. -/
def openIds (hs : List Heading) : List Text :=
  (hs.filter fun h => OpenHeading h.toHeadingInfo).map fun h =>
    (h.property "TX_ID".toList).getD []

theorem frontText_block (P : List Text) (as : List Chunk) (b : TopBlock) :
    frontText P (as ++ b.chunks) = frontText P as ++ b.text := by
  simp only [frontText, Segment.join_append, List.flatten_append, TopBlock.text, List.append_assoc]

theorem openIds_cons (h : Heading) (hs : List Heading) : openIds (h :: hs) =
    if OpenHeading h.toHeadingInfo then (h.property "TX_ID".toList).getD [] :: openIds hs
    else openIds hs := by
  rw [openIds, List.filter_cons]
  split_ifs with hopen hopen'
  · rfl
  · exact absurd (of_decide_eq_true hopen) hopen'
  · exact absurd (decide_eq_true ‹_›) hopen
  · rfl

/-- What the loop over the headings yields on a text `front ++ gap ++ …` whose blocks begin behind
the gap: the spliced text is made of the blocks with their comments consumed. -/
theorem blocks_marked {declared P : List Text} {as : List Chunk} {hs : List Heading}
    {bs : List TopBlock} {front gap content : Text} (hfront : frontText P as = front ++ gap)
    (hat : BlocksAt declared (frontText P as).length hs bs)
    (hcontent : content = frontText P as ++ (Segment.join (Segment.join bs)).flatten)
    (hc : chunksOf content = (P, as ++ Segment.join bs)) :
    ∃ edits bs', consumeLoop content hs = .ok (edits, openIds hs) ∧
      List.Forall₂ (ConsumedBlock declared) bs bs' ∧
      splice content front.length edits = gap ++ (Segment.join (Segment.join bs')).flatten ∧
      edits.Pairwise (fun a b => a.1.start ≤ b.1.start) ∧
      (∀ e ∈ edits, (frontText P as).length ≤ e.1.start) ∧
      chunksOf (frontText P as ++ (Segment.join (Segment.join bs')).flatten) =
        (P, as ++ Segment.join bs') := by
  induction bs generalizing as hs front gap with
  | nil =>
      cases hs with
      | cons h hs => exact hat.elim
      | nil =>
          refine ⟨[], [], rfl, .nil, ?_, .nil, by simp, ?_⟩
          · rw [splice, hcontent, hfront, List.append_assoc, List.drop_left]
          · rw [← hc, hcontent]
  | cons b bs ih =>
      cases hs with
      | nil => exact hat.elim
      | cons h hs =>
          obtain ⟨htop, hread, hspan, hat⟩ := hat
          have hblock : Segment.join (b :: bs) = b.chunks ++ Segment.join bs := by simp [TopBlock.chunks]
          have hcontent' : content = frontText P (as ++ b.chunks) ++
              (Segment.join (Segment.join bs)).flatten := by
            rw [hcontent, text_join_cons, frontText_block, List.append_assoc]
          have hc' : chunksOf content = (P, (as ++ b.chunks) ++ Segment.join bs) := by
            rw [hc, hblock, List.append_assoc]
          have hat' : BlocksAt declared (frontText P (as ++ b.chunks)).length hs bs := by
            rw [frontText_block, List.length_append]
            exact hat
          obtain ⟨hexact, -⟩ := slice_wholeBody (Segment.join (Segment.join bs)).flatten hread hspan
          rw [← text_join_cons, ← hcontent] at hexact
          by_cases hopen : OpenHeading h.toHeadingInfo
          · have hdrawer : h.properties ≠ none := by
              intro hnone
              have htype := ((openHeading_iff h.toHeadingInfo).mp hopen).1
              simp [HeadingInfo.property, HeadingInfo.propertyEntries, hnone] at htype
            have hchunk : chunksOf content = (P, as ++ b.1 :: (b.2 ++ Segment.join bs)) := by
              rw [hc', List.append_assoc]
              rfl
            obtain ⟨m', ⟨s⟩⟩ := exists_marked hchunk hread hdrawer
            have hbtext : b.text = b.1.text ++ (Segment.join b.2).flatten := by
              simp [TopBlock.text, TopBlock.chunks, Chunk.text, Chunk.lines]
            -- the text behind the edit is the gap in front of the next block
            have hgap : frontText P (as ++ b.chunks) = (frontText P as ++ s.before ++ s.old) ++
                (s.behind ++ (Segment.join b.2).flatten) := by
              rw [frontText_block, hbtext, s.text]
              simp only [List.append_assoc]
            obtain ⟨edits, bs', hloop, hblocks, hsplice, hsorted, hstart, hchunks⟩ :=
              ih hgap hat' hcontent' hc'
            have hedit := s.edit ((Segment.join b.2).flatten ++
              (Segment.join (Segment.join bs)).flatten)
            rw [← List.append_assoc b.1.text, ← hbtext, ← text_join_cons, ← hcontent] at hedit
            have htext' : TopBlock.text (m', b.2) =
                s.before ++ (s.new ++ (s.behind ++ (Segment.join b.2).flatten)) := by
              rw [← List.append_assoc s.new, ← List.append_assoc s.before, ← s.text']
              simp [TopBlock.text, TopBlock.chunks, Chunk.text, Chunk.lines]
            refine ⟨(⟨(frontText P as).length + s.before.length,
                (frontText P as).length + s.before.length + s.old.length⟩, s.new) :: edits,
              (m', b.2) :: bs', ?_, .cons ⟨rfl, ?_, _, hexact, ?_⟩ hblocks, ?_,
              List.pairwise_cons.mpr ⟨fun e he => ?_, hsorted⟩, List.forall_mem_cons.mpr
                ⟨Nat.le_add_right _ _, fun e he => ?_⟩, ?_⟩
            · rw [openIds_cons, if_pos hopen]
              exact consumeLoop_open hopen hedit hloop
            · rw [Chunk.level, Chunk.level, s.title]
            · rw [s.exact _ hexact, Node.consumed, if_pos (show OpenPairs
                (h.toHeadingInfo.exact content).properties from hopen)]
            · have hbetween := slice_append_three front (gap ++ s.before) (s.old ++ (s.behind ++
                ((Segment.join b.2).flatten ++ (Segment.join (Segment.join bs)).flatten)))
              have hwhole : content = front ++ (gap ++ s.before) ++ (s.old ++ (s.behind ++
                  ((Segment.join b.2).flatten ++ (Segment.join (Segment.join bs)).flatten))) := by
                rw [hcontent, text_join_cons, hbtext, s.text, hfront]
                simp only [List.append_assoc]
              have hstart : front.length + (gap ++ s.before).length =
                  (frontText P as).length + s.before.length := by
                rw [hfront, List.length_append, List.length_append]
                omega
              have hstop : (frontText P as).length + s.before.length + s.old.length =
                  (frontText P as ++ s.before ++ s.old).length := by
                rw [List.length_append, List.length_append]
              rw [← hwhole, hstart] at hbetween
              rw [splice, hbetween, hstop, hsplice, text_join_cons, htext']
              simp only [List.append_assoc]
            · have hle := hstart e he
              rw [hgap, List.length_append, List.length_append, List.length_append] at hle
              show (frontText P as).length + s.before.length ≤ e.1.start
              omega
            · have hle := hstart e he
              rw [frontText_block, List.length_append] at hle
              omega
            · have hnew := s.chunks (b.2 ++ Segment.join bs') (by
                rw [frontText_block, hbtext, List.append_assoc, List.append_assoc,
                  ← List.flatten_append, ← Segment.join_append, List.append_assoc] at hchunks
                exact hchunks)
              rw [text_join_cons, htext', Segment.join_cons]
              rw [s.text', Segment.join_append, List.flatten_append] at hnew
              simpa only [List.append_assoc] using hnew
          · have hgap : frontText P (as ++ b.chunks) = front ++ (gap ++ b.text) := by
              rw [frontText_block, hfront, List.append_assoc]
            obtain ⟨edits, bs', hloop, hblocks, hsplice, hsorted, hstart, hchunks⟩ :=
              ih hgap hat' hcontent' hc'
            refine ⟨edits, b :: bs', ?_, .cons ⟨rfl, rfl, _, hexact, ?_⟩ hblocks, ?_, hsorted, ?_, ?_⟩
            · rw [consumeLoop_skip _ hopen, openIds_cons, if_neg hopen, hloop]
            · rw [hexact, Node.consumed, if_neg (show ¬OpenPairs (h.toHeadingInfo.exact content).properties
                from hopen)]
            · rw [hsplice, text_join_cons, List.append_assoc]
            · intro e he
              have := hstart e he
              rw [frontText_block, List.length_append] at this
              omega
            · rw [text_join_cons, ← List.append_assoc, ← frontText_block, hchunks, Segment.join_cons,
                List.append_assoc]
              rfl

/-! ### Reading the result -/

theorem consumed_of_not_open {e : JournalEntry} (h : e.isOpenComment = false) : e.consumed = e := by
  rw [JournalEntry.consumed, h, if_neg Bool.false_ne_true]

/-- A consumed comment is not open. -/
theorem consumed_not_open (e : JournalEntry) : e.consumed.isOpenComment = false := by
  cases hopen : e.isOpenComment with
  | false => rw [consumed_of_not_open hopen, hopen]
  | true =>
      rw [JournalEntry.consumed, hopen, if_pos rfl, JournalEntry.isOpenComment, JournalEntry.extra?,
        find_setPair_self]
      simp

theorem ConsumedBlock.reads {declared : List Text} {display : Text} {b b' : TopBlock}
    {e : JournalEntry} (h : ConsumedBlock declared b b') (hreads : b.Reads declared display e) :
    b'.Reads declared display e.consumed := by
  obtain ⟨hbelow, -, n, hn, hn'⟩ := h
  obtain ⟨m, hm, hread⟩ := hreads
  rw [hn, Option.some.injEq] at hm
  subst hm
  refine ⟨n.consumed, hn', ?_⟩
  have hentry := readJournalEntry_eq_ok_iff.mp hread
  rw [hbelow, readJournalEntry_eq_ok_iff, Node.consumed]
  split_ifs with hopen
  · exact hentry.consumed hopen
  · rw [consumed_of_not_open (Bool.eq_false_iff.mpr (mt hentry.isOpenComment_iff.mp hopen))]
    exact hentry

theorem reads_consumed {declared : List Text} {display : Text} {bs bs' : List TopBlock}
    {entries : List JournalEntry} (h : List.Forall₂ (ConsumedBlock declared) bs bs')
    (hreads : List.Forall₂ (TopBlock.Reads declared display) bs entries) :
    List.Forall₂ (TopBlock.Reads declared display) bs' (entries.map JournalEntry.consumed) := by
  induction h generalizing entries with
  | nil =>
      cases hreads
      exact .nil
  | cons hb _ ih =>
      cases hreads with
      | cons he hreads => exact .cons (hb.reads he) (ih hreads)

/-- The chunks of the blocks, with the same levels, can be read. -/
theorem chunks_consumed {declared : List Text} {bs bs' : List TopBlock}
    (h : List.Forall₂ (ConsumedBlock declared) bs bs')
    (hnodes : ∀ c ∈ Segment.join bs, ∃ n, c.exact declared = some n) :
    (Segment.join bs').map Chunk.level = (Segment.join bs).map Chunk.level ∧
      (∀ c ∈ Segment.join bs', ∃ n, c.exact declared = some n) ∧
      ((∀ b ∈ bs, b.IsTop) → ∀ b ∈ bs', b.IsTop) := by
  induction h with
  | nil => exact ⟨rfl, hnodes, id⟩
  | @cons b b' bs bs' hb _ ih =>
      obtain ⟨hbelow, hlevel, n, -, hn'⟩ := hb
      rw [Segment.join_cons, List.forall_mem_cons, List.forall_mem_append] at hnodes
      obtain ⟨hlevels, hreadable, htop⟩ := ih hnodes.2.2
      refine ⟨?_, ?_, fun h => ?_⟩
      · rw [Segment.join_cons, Segment.join_cons, hbelow, List.map_cons, List.map_cons, hlevel,
          List.map_append, List.map_append, hlevels]
      · rw [Segment.join_cons, hbelow]
        exact List.forall_mem_cons.mpr ⟨⟨_, hn'⟩, List.forall_mem_append.mpr ⟨hnodes.2.1, hreadable⟩⟩
      · obtain ⟨⟨hroot, hdeep⟩, hbs⟩ := List.forall_mem_cons.mp h
        refine List.forall_mem_cons.mpr ⟨⟨hlevel.trans hroot, ?_⟩, htop hbs⟩
        rw [hbelow]
        exact hdeep

/-- The entries of a document by its blocks. -/
theorem readJournalEntries_of_parse {source file display : Text} {f : OrgFile}
    (hf : OrgFile.parse source file = .ok f) {P : List Text} {bs : List TopBlock}
    (hc : chunksOf source = (P, Segment.join bs)) (htop : ∀ b ∈ bs, b.IsTop)
    (entries : List JournalEntry) :
    readJournalEntries source display f.headings = .ok entries ↔
      List.Forall₂ (TopBlock.Reads f.declared display) bs entries := by
  obtain ⟨-, hat⟩ := blocksAt_of_parse hf
  rw [hc, topBlocks_join htop] at hat
  exact readJournalEntries_iff hat (flatten_of_chunksOf hc).symm

/-- The open headings are those of the open comments. -/
theorem openIds_of_entries {content display : Text} {hs : List Heading}
    {entries : List JournalEntry} (h : readJournalEntries content display hs = .ok entries) :
    openIds hs = (entries.filter JournalEntry.isOpenComment).map JournalEntry.entryId ∧
      ((∀ e ∈ entries, e.isOpenComment = false) → ∀ g ∈ hs, ¬OpenHeading g.toHeadingInfo) := by
  induction hs generalizing entries with
  | nil =>
      obtain rfl := Except.ok.inj h
      exact ⟨rfl, by simp⟩
  | cons g hs ih =>
      rw [readJournalEntries] at h
      split at h
      · cases h
      · next e hread =>
          split at h
          · cases h
          · next es hrest =>
              obtain rfl := Except.ok.inj h
              obtain ⟨hids, hclosed⟩ := ih hrest
              have hentry := readJournalEntry_eq_ok_iff.mp hread
              have hid : g.property "TX_ID".toList = some e.entryId := by
                rw [← pairValue_entries]
                exact hentry.entryId
              have hopen : e.isOpenComment = true ↔ OpenHeading g.toHeadingInfo :=
                hentry.isOpenComment_iff
              constructor
              · rw [openIds_cons, hids, hid]
                split_ifs with hg
                · rw [List.filter_cons_of_pos (hopen.mpr hg), List.map_cons, Option.getD_some]
                · rw [List.filter_cons_of_neg (mt hopen.mp hg)]
              · intro hall
                obtain ⟨he, hes⟩ := List.forall_mem_cons.mp hall
                refine List.forall_mem_cons.mpr ⟨fun hg => ?_, hclosed hes⟩
                rw [hopen.mpr hg] at he
                cases he

/-- A text of blank characters has no headings. -/
theorem not_blank_of_chunks {t : Text} {P : List Text} {cs : List Chunk}
    (hc : chunksOf t = (P, cs)) (hne : cs ≠ []) : trim t ≠ [] := by
  obtain ⟨-, -, hchunks⟩ := (chunksOf_eq_iff _ _ _).mp hc
  obtain ⟨u, hu⟩ := ink_join_pos hchunks hne
  rw [ne_eq, trim_eq_nil_iff, ← flatten_of_chunksOf hc, hu, blank_append, blank_cons]
  exact fun hblank => absurd hblank.2.1 (by decide)

/-- The result on a journal with headings, from its blocks. -/
theorem consumed_of_parse {content display : Text} {f : OrgFile} {entries : List JournalEntry}
    (hblank : trim content ≠ []) (hf : OrgFile.parse content display = .ok f)
    (hentries : readJournalEntries content display f.headings = .ok entries) :
    ∃ out, consumeOpenComments content =
        .ok (out, (entries.filter JournalEntry.isOpenComment).map JournalEntry.entryId) ∧
      parseJournal out display = .ok (entries.map JournalEntry.consumed) ∧
      consumeOpenComments out = .ok (out, []) := by
  obtain ⟨hjoin, hat⟩ := blocksAt_of_parse hf
  generalize hbs : topBlocks (chunksOf content).2 = bs at hjoin hat
  have hc : chunksOf content = ((chunksOf content).1, Segment.join bs) := by rw [← hjoin]
  have hreads := (readJournalEntries_of_parse hf hc hat.isTop entries).mp hentries
  -- the same under the name that the operation parses the journal with
  obtain ⟨g, hg⟩ := (parse_eq_ok_iff content journalFile).mpr
    ((parse_eq_ok_iff content display).mp ⟨f, hf⟩)
  have hdeclared : g.declared = f.declared := declared_of_prelude hg hf rfl
  have hentriesg : readJournalEntries content display g.headings = .ok entries :=
    (readJournalEntries_of_parse hg hc hat.isTop entries).mpr (hdeclared ▸ hreads)
  obtain ⟨-, hatg⟩ := blocksAt_of_parse hg
  rw [hbs, hdeclared] at hatg
  have hfront : frontText (chunksOf content).1 [] = (chunksOf content).1.flatten := by simp [frontText]
  obtain ⟨edits, bs', hloop, hblocks, hsplice, hsorted, -, hout⟩ := blocks_marked
    (show frontText (chunksOf content).1 [] = [] ++ (chunksOf content).1.flatten from hfront)
    (by rw [hfront]; exact hatg) (by rw [hfront]; exact (flatten_of_chunksOf hc).symm) hc
  rw [List.length_nil] at hsplice
  rw [hfront, ← hsplice, List.nil_append] at hout
  have hexacts := exacts_of_parse hf
  rw [hjoin] at hexacts
  obtain ⟨hlevels, hnodes, htop⟩ := chunks_consumed hblocks (exists_exact_of_mem hexacts)
  have htop := htop hat.isTop
  have hstepped : Outline.Stepped 0 ((Segment.join bs').map Chunk.level) := by
    obtain ⟨-, hflat, -, -⟩ := readFlat_of_parse hf
    obtain ⟨-, -, -, hstepped⟩ := (readFlat_eq_some_iff _ _ _).mp hflat
    rw [hlevels, ← hjoin]
    exact hstepped
  have hconsumed := reads_consumed hblocks hreads
  have hids := openIds_of_entries hentriesg
  have hreparse (file : Text) : ∃ f', OrgFile.parse (splice content 0 edits) file = .ok f' ∧
      readJournalEntries (splice content 0 edits) display f'.headings =
        .ok (entries.map JournalEntry.consumed) := by
    obtain ⟨f', hf', -, -, hdeclared', -⟩ := reparse_chunks file hf hout hnodes hstepped
    exact ⟨f', hf', (readJournalEntries_of_parse hf' hout htop _).mpr (hdeclared' ▸ hconsumed)⟩
  have hblank' : trim (splice content 0 edits) ≠ [] := by
    by_cases hnil : Segment.join bs' = []
    · rw [Segment.join_eq_nil_iff] at hnil
      subst hnil
      cases hblocks
      rw [show splice content 0 edits = content from hsplice.trans (flatten_of_chunksOf hc)]
      exact hblank
    · exact not_blank_of_chunks hout hnil
  refine ⟨splice content 0 edits, ?_, ?_, ?_⟩
  · have hsort : edits.mergeSort (fun a b => decide (a.1.start ≤ b.1.start)) = edits :=
      List.mergeSort_of_pairwise (hsorted.imp fun h => decide_eq_true h)
    rw [consumeOpenComments, if_neg hblank, hg]
    simp only [hloop, hsort, hids.1]
  · obtain ⟨f', hf', hread'⟩ := hreparse display
    rw [parseJournal, if_neg hblank', hf']
    exact hread'
  · obtain ⟨f', hf', hread'⟩ := hreparse journalFile
    have hclosed := (openIds_of_entries hread').2 (by
      intro e he
      obtain ⟨e, -, rfl⟩ := List.mem_map.mp he
      exact consumed_not_open e)
    rw [consumeOpenComments, if_neg hblank', hf']
    simp only [consumeLoop_closed _ hclosed, List.mergeSort_nil, splice, List.drop_zero]

/-- **Consuming the open comments of a journal** sets `CONSUMED` on exactly these and yields their
ids in file order; a second time nothing is done. -/
theorem comments_consumed {content display : Text} {entries : List JournalEntry}
    (h : parseJournal content display = .ok entries) :
    ∃ out, consumeOpenComments content =
        .ok (out, (entries.filter JournalEntry.isOpenComment).map JournalEntry.entryId) ∧
      parseJournal out display = .ok (entries.map JournalEntry.consumed) ∧
      consumeOpenComments out = .ok (out, []) := by
  rw [parseJournal] at h
  split_ifs at h with hblank
  · obtain rfl := Except.ok.inj h
    have hnone : consumeOpenComments content = .ok (content, []) := by
      rw [consumeOpenComments, if_pos hblank]
    exact ⟨content, hnone, by rw [parseJournal, if_pos hblank]; rfl, hnone⟩
  · split at h
    · cases h
    · next f hf => exact consumed_of_parse hblank hf h

/-- Two comments: text like the end of a drawer below the first, an empty value in the second. -/
def twoComments : Text :=
  ("* a comment\n:PROPERTIES:\n:TX_ID: a\n:TIME: t\n:TYPE: comment\n:ACTOR: o\n:MACHINE: m\n" ++
    ":END:\n:END:\n* b comment\n:PROPERTIES:\n:TX_ID: b\n:TIME: t\n:TYPE: comment\n" ++
    ":CONSUMED:\n:ACTOR: o\n:MACHINE: m\n  :END:").toList

theorem comments_consumed_sample : ∃ entries out,
    parseJournal twoComments [] = .ok entries ∧
      consumeOpenComments twoComments = .ok (out, ["a".toList, "b".toList]) ∧
      parseJournal out [] = .ok (entries.map JournalEntry.consumed) ∧
      consumeOpenComments out = .ok (out, []) := by
  have hparsed : (parseJournal twoComments []).toOption.map (fun entries =>
      (entries.filter JournalEntry.isOpenComment).map JournalEntry.entryId) =
        some ["a".toList, "b".toList] := by decide +kernel
  cases hentries : parseJournal twoComments [] with
  | error e =>
      rw [hentries] at hparsed
      cases hparsed
  | ok entries =>
      rw [hentries] at hparsed
      obtain ⟨out, hconsumed, hread, hagain⟩ := comments_consumed hentries
      rw [show (entries.filter JournalEntry.isOpenComment).map JournalEntry.entryId = _ from
        Option.some.inj hparsed] at hconsumed
      exact ⟨entries, out, rfl, hconsumed, hread, hagain⟩

end Orgasmic
