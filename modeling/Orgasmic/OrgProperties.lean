import Orgasmic.OrgBodies
import Orgasmic.OrgExact
import Orgasmic.TxLedger

/-! # Edits of a property drawer

`insert_property`, `set_property` and `remove_property` edit one line of a drawer.

* **Lines.** `keyLine` is a line `:KEY:` with a raw value.  `keyLine_parsed` says which part of the
  line the parser takes for the value.
* **Drawers.** `Drawer` is a document with a hole for the entry lines of one drawer.  Whatever lines
  with entries are put there, the document is the same but for these entries (`Drawer.parsed`).
* **Edits.** An edit of one line is another filling of the hole (`Drawer.At`). -/

namespace Orgasmic

open Text Forest TxEntry

/-! ### Property lines -/

/-- The line `:KEY:` with a raw value behind it. -/
def keyLine (key raw : Text) : Text := ':' :: (key ++ ':' :: (raw ++ ['\n']))

/-- What a key may be that is written to a drawer. -/
structure IsKey (key : Text) : Prop where
  ne_nil : key ≠ []
  colon : ':' ∉ key
  newline : '\n' ∉ key
  ne_end : key ≠ "END".toList

theorem isKey_of_snake {key : Text} (h : isUppercaseSnakeKey key = true)
    (hend : key ≠ "END".toList) : IsKey key := by
  have hchars (c : Char) (hc : c ∈ key) : isAsciiUppercase c = true ∨ c.isDigit = true ∨ c = '_' := by
    cases key with
    | nil => cases hc
    | cons k ks =>
        simp only [isUppercaseSnakeKey, Bool.and_eq_true, List.all_eq_true, Bool.or_eq_true,
          decide_eq_true_eq] at h
        rcases List.mem_cons.mp hc with rfl | hc
        · exact .inl h.1
        · exact or_assoc.mp (h.2 c hc)
  refine ⟨?_, fun hc => ?_, fun hc => ?_, hend⟩
  · rintro rfl
    cases h
  · rcases hchars _ hc with h | h | h <;> revert h <;> decide
  · rcases hchars _ hc with h | h | h <;> revert h <;> decide

/-- What the parser makes of a line with white space, a key between colons and a raw value: the part
of the raw value that it takes, and the white space around it.  A final line feed is behind it. -/
theorem propertyLine_parsed {key ws : Text} (hws : Blank ws) (hne : key ≠ []) (hcolon : ':' ∉ key)
    (raw : Text) : ∃ x y, raw = x ++ (trim raw ++ y) ∧ Blank x ∧ Blank y ∧
      (raw.getLast? = some '\n' → y ≠ []) ∧ ∀ s : LineSpan,
      parsePropertyLine (content (ws ++ ':' :: (key ++ ':' :: raw))) s = some ⟨key, trim raw, s.full,
        ⟨s.start + ((ws.length + (key.length + 2)) + x.length),
          s.start + ((ws.length + (key.length + 2)) + x.length) + (trim raw).length⟩⟩ := by
  -- what is left of the raw value without the end of the line
  obtain ⟨read, tail, hraw, htail, hlast, hread⟩ : ∃ read tail, raw = read ++ tail ∧ Blank tail ∧
      (raw.getLast? = some '\n' → tail ≠ []) ∧ trimEndMatches '\r'
        (content (ws ++ ':' :: (key ++ ':' :: raw))) = ws ++ ':' :: (key ++ ':' :: read) := by
    obtain ⟨v, hv, hspec⟩ := content_spec raw
    have hsplit := List.rdropWhile_append_rtakeWhile (p := (· = '\r')) (l := content raw)
    refine ⟨trimEndMatches '\r' (content raw), (content raw).rtakeWhile (· = '\r') ++ v, ?_, ?_, ?_,
      ?_⟩
    · rw [← List.append_assoc, trimEndMatches, hsplit, ← hspec]
    · refine (blank_append _ _).mpr ⟨fun c hc => ?_, hv⟩
      have hcr : c = '\r' := by simpa using List.mem_rtakeWhile_imp hc
      rw [hcr]
      decide
    · intro hfeed hnil
      obtain ⟨b, rfl⟩ := List.getLast?_eq_some_iff.mp hfeed
      rw [(List.append_eq_nil_iff.mp hnil).2, List.append_nil, content_terminated] at hspec
      have hlen := congrArg List.length hspec
      split_ifs at hlen <;> simp at hlen <;> omega
    · rw [← List.cons_append, ← List.append_assoc, content_append (by decide) (by decide),
        trimEndMatches_append (by decide), List.append_assoc, List.cons_append]
  obtain ⟨x, hx, hsplit⟩ := trimStart_spec read
  obtain ⟨y, hy, hsplit'⟩ := trimEnd_spec (trimStart read)
  have htrim : trim raw = trim read := by rw [hraw, trim_append_blank htail]
  have hlead : read.length - (trimStart read).length = x.length := by
    have hlen := congrArg List.length hsplit
    rw [List.length_append] at hlen
    omega
  refine ⟨x, y ++ tail, ?_, hx, (blank_append _ _).mpr ⟨hy, htail⟩, fun hfeed hnil =>
    hlast hfeed (List.append_eq_nil_iff.mp hnil).2, fun s => ?_⟩
  · rw [htrim, trim, ← List.append_assoc (trimEnd (trimStart read)), ← hsplit', ← List.append_assoc,
      ← hsplit, ← hraw]
  · have hstart : trimStart (ws ++ ':' :: (key ++ ':' :: read)) = ':' :: (key ++ ':' :: read) := by
      rw [trimStart_blank_append hws, trimStart_cons_of_not_ws (by decide)]
    unfold parsePropertyLine
    dsimp only
    rw [hread, hstart, List.length_append, Nat.add_sub_cancel, List.drop_left]
    simp only [splitOnce_append hcolon, if_neg hne, hlead, htrim]
    have hpos : s.start + (ws.length + 1 + key.length + 1) + x.length =
        s.start + (ws.length + (key.length + 2) + x.length) := by omega
    rw [hpos]

/-- Every property line is of this kind. -/
theorem propertyLine_shape {r : Text} {s : LineSpan} {e : PropertyEntry}
    (h : parsePropertyLine (content r) s = some e) : ∃ ws raw, Blank ws ∧
      r = ws ++ ':' :: (e.key ++ ':' :: raw) ∧ e.key ≠ [] ∧ ':' ∉ e.key := by
  dsimp only [parsePropertyLine] at h
  rw [drop_leadingWs] at h
  split at h
  · next rest hrest =>
      split at h
      · cases h
      · next key rawValue hkey =>
          split_ifs at h with hne
          obtain rfl := Option.some.inj h
          obtain ⟨w, hw⟩ := (List.rdropWhile_prefix (· = '\r') (content r)).trans (content_isPrefix r)
          obtain ⟨ws, hws, hsplit⟩ := trimStart_spec (trimEndMatches '\r' (content r))
          obtain ⟨hafter, hcolon⟩ := splitOnce_eq_some hkey
          rw [hrest, hafter] at hsplit
          refine ⟨ws, rawValue ++ w, hws, ?_, hne, hcolon⟩
          rw [← hw, ← trimEndMatches, hsplit]
          simp
  · cases h

/-- The part of a raw value that the parser takes, and the white space around it. -/
theorem keyLine_parsed {key : Text} (hkey : IsKey key) (raw : Text) : ∃ x y,
    raw = x ++ (trim raw ++ y) ∧ Blank x ∧ Blank y ∧ ∀ s : LineSpan,
      parsePropertyLine (content (keyLine key raw)) s = some ⟨key, trim raw, s.full,
        ⟨s.start + ((key.length + 2) + x.length),
          s.start + ((key.length + 2) + x.length) + (trim raw).length⟩⟩ := by
  have htrim : trim (raw ++ ['\n']) = trim raw :=
    trim_append_blank (show Blank ['\n'] by decide) raw
  obtain ⟨x, y, hsplit, hx, hy, hfeed, hparsed⟩ :=
    propertyLine_parsed blank_nil hkey.ne_nil hkey.colon (raw ++ ['\n'])
  rw [htrim] at hsplit hparsed
  obtain ⟨y, c, rfl⟩ := (List.eq_nil_or_concat' y).resolve_left (hfeed List.getLast?_concat)
  refine ⟨x, y, ?_, hx, ((blank_append _ _).mp hy).1, fun s => ?_⟩
  · rw [← List.append_assoc, ← List.append_assoc] at hsplit
    exact (List.append_inj_left' hsplit rfl).trans (List.append_assoc _ _ _)
  · have hparsed := hparsed s
    rw [List.length_nil, Nat.zero_add] at hparsed
    exact hparsed

/-- A rendered property line. -/
theorem renderPropertyLine_eq (key value : Text) (col : Option ℕ) :
    ∃ n, renderPropertyLine key value col = keyLine key (List.replicate n ' ' ++ value) := by
  cases col with
  | none => exact ⟨1, by simp [renderPropertyLine, keyLine]⟩
  | some col => exact ⟨_, by simp [renderPropertyLine, keyLine]; rfl⟩

theorem terminated_keyLine {key raw : Text} (hkey : IsKey key) (hraw : '\n' ∉ raw) :
    Terminated (keyLine key raw) := by
  refine ⟨':' :: (key ++ ':' :: raw), ?_, by simp [keyLine]⟩
  simp [hkey.newline, hraw]

/-- A property line does not end the drawer. -/
theorem trim_propertyLine_ne {key ws : Text} (hws : Blank ws) (hcolon : ':' ∉ key)
    (hend : key ≠ "END".toList) (raw : Text) :
    trim (ws ++ ':' :: (key ++ ':' :: raw)) ≠ ":END:".toList ∧
      trim (ws ++ ':' :: (key ++ ':' :: raw)) ≠ [] := by
  have hstart : trim (ws ++ ':' :: (key ++ ':' :: raw)) = trimEnd (':' :: (key ++ ':' :: raw)) := by
    rw [trim, trimStart_blank_append hws, trimStart_cons_of_not_ws (by decide)]
  obtain ⟨w, -, hw⟩ := trimEnd_spec (':' :: (key ++ ':' :: raw))
  rw [← hstart] at hw
  constructor
  · intro htrim
    rw [htrim] at hw
    have htail : key ++ ':' :: raw = "END".toList ++ ':' :: w := (List.cons.inj hw).2
    have hsplit := splitOnce_append hcolon raw
    rw [htail, splitOnce_append (by decide)] at hsplit
    simp only [Option.some.injEq, Prod.mk.injEq] at hsplit
    exact hend hsplit.1.symm
  · rw [ne_eq, trim_eq_nil_iff, blank_append, blank_cons]
    exact fun hblank => absurd hblank.2.1 (by decide)

theorem trim_keyLine_ne {key : Text} (hkey : IsKey key) (raw : Text) :
    trim (keyLine key raw) ≠ ":END:".toList ∧ trim (keyLine key raw) ≠ [] :=
  trim_propertyLine_ne blank_nil hkey.colon hkey.ne_end (raw ++ ['\n'])

/-- Another text in the place of the value of a property line. -/
theorem propertyLine_set {off : ℕ} {l : Text} {e : PropertyEntry} (hl : Terminated l)
    (hparsed : parsePropertyLine (content l) (spanAt off l) = some e) (hend : e.key ≠ "END".toList)
    {u : Text} (hu : '\n' ∉ u) : ∃ front behind e', l = front ++ (e.value ++ behind) ∧
      Terminated (front ++ (u ++ behind)) ∧ (trim (front ++ (u ++ behind)) ≠ ":END:".toList ∧
        trim (front ++ (u ++ behind)) ≠ []) ∧
      parsePropertyLine (content (front ++ (u ++ behind))) (spanAt off (front ++ (u ++ behind))) =
        some e' ∧ e'.pair = (e.key, trim u) ∧
      e.valueSpan = ⟨off + front.length, off + front.length + e.value.length⟩ := by
  obtain ⟨ws, raw, hws, rfl, hne, hcolon⟩ := propertyLine_shape hparsed
  obtain ⟨x, y, hsplit, hx, hy, hfeed, hown⟩ := propertyLine_parsed hws hne hcolon raw
  rw [hown, Option.some.injEq] at hparsed
  -- the line ends behind the value
  obtain ⟨b, hb, hb'⟩ := hl
  have hlast : raw.getLast? = some '\n' := by
    have h := congrArg List.getLast? hb'
    rw [List.getLast?_append, List.getLast?_cons, List.getLast?_append, List.getLast?_cons,
      List.getLast?_concat] at h
    cases hraw : raw.getLast? with
    | none => simp [hraw] at h
    | some c => simpa [hraw] using h
  obtain ⟨y, c, rfl⟩ := (List.eq_nil_or_concat' y).resolve_left (hfeed hlast)
  have hvalue : e.value = trim raw := by rw [← hparsed]
  have hline (v : Text) : ws ++ ':' :: (e.key ++ ':' :: (x ++ (v ++ (y ++ [c])))) =
      (ws ++ ':' :: (e.key ++ ':' :: x)) ++ (v ++ (y ++ [c])) := by
    simp
  have hsame : ws ++ ':' :: (e.key ++ ':' :: raw) =
      (ws ++ ':' :: (e.key ++ ':' :: x)) ++ (trim raw ++ (y ++ [c])) := by
    conv_lhs => rw [hsplit]
    exact hline _
  have hwhole : ((ws ++ ':' :: (e.key ++ ':' :: x)) ++ (trim raw ++ y)) ++ [c] = b ++ ['\n'] := by
    rw [← hb', hsame]
    simp
  have hfront := List.append_inj_left' hwhole rfl
  obtain rfl : c = '\n' := by simpa using List.append_inj_right' hwhole rfl
  have hfree {v w : Text} : '\n' ∉ v ++ w ↔ '\n' ∉ v ∧ '\n' ∉ w := by
    rw [List.mem_append, not_or]
  rw [← hfront, hfree] at hb
  have htrim : trim (x ++ (u ++ (y ++ ['\n']))) = trim u := by
    rw [trim_blank_append hx, trim_append_blank hy]
  obtain ⟨x', y', -, -, -, -, hparsed'⟩ :=
    propertyLine_parsed hws hne hcolon (x ++ (u ++ (y ++ ['\n'])))
  rw [htrim, hline] at hparsed'
  refine ⟨ws ++ ':' :: (e.key ++ ':' :: x), y ++ ['\n'], _, ?_,
    ⟨(ws ++ ':' :: (e.key ++ ':' :: x)) ++ (u ++ y), ?_, by simp⟩, ?_, hparsed' _, rfl, ?_⟩
  · rw [hvalue, hsame]
  · exact hfree.mpr ⟨hb.1, hfree.mpr ⟨hu, (hfree.mp hb.2).2⟩⟩
  · rw [← hline]
    exact trim_propertyLine_ne hws hcolon hend _
  · rw [hvalue, ← hparsed]
    have hlen : ws.length + (e.key.length + 2) + x.length =
        (ws ++ ':' :: (e.key ++ ':' :: x)).length := by
      simp only [List.length_append, List.length_cons]
      omega
    rw [hlen]
    rfl

/-! ### The entries of a drawer -/

/-- The entries that are read from lines of a drawer, the first one at `off`. -/
def Entries (off : ℕ) : List Text → List PropertyEntry → Prop
  | [], [] => True
  | r :: rs, e :: es => (trim r ≠ ":END:".toList ∧ trim r ≠ []) ∧
      parsePropertyLine (content r) (spanAt off r) = some e ∧ Entries (off + r.length) rs es
  | _, _ => False

theorem Entries.append {off : ℕ} {rs rs' : List Text} {es es' : List PropertyEntry}
    (h : Entries off rs es) (h' : Entries (off + rs.flatten.length) rs' es') :
    Entries off (rs ++ rs') (es ++ es') := by
  induction rs generalizing off es with
  | nil =>
      cases es with
      | nil => simpa using h'
      | cons e es => exact h.elim
  | cons r rs ih =>
      cases es with
      | nil => exact h.elim
      | cons e es =>
          obtain ⟨hr, hparsed, h⟩ := h
          refine ⟨hr, hparsed, ih h ?_⟩
          rwa [List.flatten_cons, List.length_append, ← Nat.add_assoc] at h'

theorem parsePropertyLine_span {t : Text} {s : LineSpan} {e : PropertyEntry}
    (h : parsePropertyLine t s = some e) : e.span = s.full := by
  dsimp only [parsePropertyLine] at h
  split at h
  · split at h
    · cases h
    · split_ifs at h
      cases h
      rfl
  · cases h

/-- The last entry ends where its line ends. -/
theorem Entries.stop {off : ℕ} {rs : List Text} {es : List PropertyEntry} (h : Entries off rs es) :
    ∀ e ∈ es.getLast?, e.span.stop = off + rs.flatten.length := by
  induction rs generalizing off es with
  | nil =>
      cases es with
      | nil => simp
      | cons e es => exact h.elim
  | cons r rs ih =>
      cases es with
      | nil => exact h.elim
      | cons e es =>
          obtain ⟨-, hparsed, h⟩ := h
          have ih := ih h
          cases es with
          | nil =>
              obtain rfl : rs = [] := by
                cases rs with
                | nil => rfl
                | cons r' rs => exact h.elim
              intro e' he'
              obtain rfl : e = e' := by simpa using he'
              rw [parsePropertyLine_span hparsed]
              simp [spanAt, LineSpan.full]
          | cons e' es =>
              intro last hlast
              rw [ih last (by simpa using hlast), List.flatten_cons, List.length_append, Nat.add_assoc]

/-- The lines of entries are neither heading lines nor block lines. -/
theorem Entries.quiet {off : ℕ} {rs : List Text} {es : List PropertyEntry} (h : Entries off rs es) :
    NoHead 0 rs ∧ depthAfter 0 rs = 0 := by
  induction rs generalizing off es with
  | nil => exact ⟨trivial, rfl⟩
  | cons r rs ih =>
      cases es with
      | nil => exact h.elim
      | cons e es =>
          obtain ⟨-, hparsed, h⟩ := h
          obtain ⟨u, hu⟩ := trimStart_of_property hparsed
          have hdepth : lineDepth 0 r = 0 := drawerLine_depth hu 0
          obtain ⟨hno, hdepth'⟩ := ih h
          refine ⟨⟨?_, ?_⟩, ?_⟩
          · refine isHead_eq_false_of_none ?_ 0
            rw [Option.eq_none_iff_forall_ne_some]
            intro n hn
            obtain ⟨v, -, hv⟩ := trimStart_heading hn
            rw [hu] at hv
            exact absurd (List.cons.inj hv).1 (by decide)
          · rw [hdepth]
            exact hno
          · rw [depthAfter_cons, hdepth, hdepth']

/-- **What a drawer is read from**: lines with entries and a line `:END:`. -/
theorem readDrawer_eq_some_iff {start off : ℕ} {es : List PropertyEntry} {rs : List Text}
    {d : PropertyDrawer} {b : ℕ} {body : List Text} :
    readDrawer start off es rs = some (d, b, body) ↔ ∃ ds last new, rs = ds ++ last :: body ∧
      trim last = ":END:".toList ∧ Entries off ds new ∧
      b = off + ds.flatten.length + last.length ∧ d = ⟨es ++ new, ⟨start, b⟩⟩ := by
  constructor
  · intro h
    induction rs generalizing off es with
    | nil => simp [readDrawer] at h
    | cons r rs ih =>
        simp only [readDrawer] at h
        split_ifs at h with h1 h2
        · simp only [Option.some.injEq, Prod.mk.injEq] at h
          obtain ⟨rfl, rfl, rfl⟩ := h
          exact ⟨[], r, [], rfl, by simpa using h1, trivial, by simp, by simp⟩
        · obtain ⟨e, he, h⟩ := Option.bind_eq_some_iff.mp h
          obtain ⟨ds, last, new, rfl, hend, hnew, hb, hd⟩ := ih h
          rw [trim_content] at h1 h2
          refine ⟨r :: ds, last, e :: new, rfl, hend, ⟨⟨h1, h2⟩, he, hnew⟩, ?_, ?_⟩
          · rw [hb]
            simp [Nat.add_assoc]
          · rw [hd]
            simp
  · rintro ⟨ds, last, new, rfl, hend, hnew, rfl, rfl⟩
    induction ds generalizing off es new with
    | nil =>
        cases new with
        | nil =>
            simp only [List.nil_append, readDrawer, trim_content, hend, if_true]
            simp
        | cons e new => exact hnew.elim
    | cons r ds ih =>
        cases new with
        | nil => exact hnew.elim
        | cons e new =>
            obtain ⟨⟨h1, h2⟩, he, hnew⟩ := hnew
            rw [List.cons_append, readDrawer, trim_content, if_neg h1, if_neg h2, he,
              Option.bind_some, ih new hnew]
            simp [Nat.add_assoc]

theorem readProperties_of_entries {off : ℕ} {opening last : Text} {ds : List Text}
    {es : List PropertyEntry} (hopens : trim opening = ":PROPERTIES:".toList)
    (hends : trim last = ":END:".toList) (body : List Text)
    (hes : Entries (off + opening.length) ds es) : ∃ span b,
      readProperties off (opening :: (ds ++ last :: body)) = some (some ⟨es, span⟩, b, body) := by
  have hread : readDrawer off (off + opening.length) [] (ds ++ last :: body) =
      some (⟨[] ++ es, ⟨off, off + opening.length + ds.flatten.length + last.length⟩⟩,
        off + opening.length + ds.flatten.length + last.length, body) :=
    readDrawer_eq_some_iff.mpr ⟨ds, last, es, rfl, hends, hes, rfl, rfl⟩
  rw [readProperties, trim_content, if_pos hopens]
  exact ⟨_, _, congrArg (Option.map _) hread⟩

/-! ### A document with a hole in a drawer -/

/-- A document without the entry lines of one drawer. -/
structure Drawer where
  P : List Text
  as : List Chunk
  title : Text
  opening : Text
  last : Text
  body : List Text
  bs : List Chunk
  front : Front P as
  terminated : ∀ l ∈ [title, opening], Terminated l
  head : isHead 0 title = true
  opens : trim opening = ":PROPERTIES:".toList
  ends : trim last = ":END:".toList
  rest : chunksOf (last ++ (body.flatten ++ (Segment.join bs).flatten)) = (last :: body, bs)

namespace Drawer

variable (D : Drawer)

/-- Where the entry lines start. -/
def off : ℕ := (frontText D.P D.as).length + D.title.length + D.opening.length

/-- The text with these entry lines. -/
def text (ds : List Text) : Text :=
  frontText D.P D.as ++ (D.title ++ (D.opening ++ (ds.flatten ++
    (D.last ++ (D.body.flatten ++ (Segment.join D.bs).flatten)))))

/-- The chunk of the heading with these entry lines. -/
def chunk (ds : List Text) : Chunk := (D.title, D.opening :: (ds ++ D.last :: D.body))

/-- Lines that are read as these entries. -/
structure Fits (ds : List Text) (es : List PropertyEntry) : Prop where
  terminated : ∀ l ∈ ds, Terminated l
  entries : Entries D.off ds es

variable {D} {ds ds' : List Text} {es es' : List PropertyEntry}

theorem chunksOf_text (h : D.Fits ds es) :
    chunksOf (D.text ds) = (D.P, D.as ++ D.chunk ds :: D.bs) := by
  refine D.front.chunksOf_append ?_
  obtain ⟨u, hu⟩ := trimStart_of_trim D.opens
  obtain ⟨hno, hdepth⟩ := colonLine hu
  obtain ⟨hnos, hdepths⟩ := h.entries.quiet
  have hdepth' : Segment.run lineDepth 0 [D.opening] = 0 := hdepth
  have hraw : rawLines (D.title ++ (D.opening ++ (ds.flatten ++
      (D.last ++ (D.body.flatten ++ (Segment.join D.bs).flatten))))) = D.title ::
        ((D.opening :: ds) ++ rawLines (D.last ++ (D.body.flatten ++ (Segment.join D.bs).flatten))) := by
    have hterm : ∀ l ∈ [D.title, D.opening] ++ ds, Terminated l :=
      List.forall_mem_append.mpr ⟨D.terminated, h.terminated⟩
    have hlines := rawLines_flatten_append hterm
      (D.last ++ (D.body.flatten ++ (Segment.join D.bs).flatten))
    simpa using hlines
  refine chunksOf_cons hraw D.head ?_ ?_ D.rest
  · rw [← List.singleton_append, NoHead, Segment.noHead_append, hdepth']
    exact ⟨hno, hnos⟩
  · rw [← List.singleton_append, depthAfter_append, hdepth, hdepths]

theorem readProperties_chunk (h : D.Fits ds es) : ∃ span b,
    readProperties ((frontText D.P D.as).length + D.title.length) (D.chunk ds).2 =
      some (some ⟨es, span⟩, b, D.body) :=
  readProperties_of_entries D.opens D.ends D.body h.entries

theorem exact_chunk {declared : List Text} {n : Node} (h : D.Fits ds es)
    (hn : (D.chunk ds).exact declared = some n) (h' : D.Fits ds' es') :
    (D.chunk ds').exact declared = some { n with properties := es'.map PropertyEntry.pair } := by
  obtain ⟨_, _, _, _, -, -, hr, rfl⟩ := Chunk.exact_eq_some_iff.mp hn
  obtain ⟨_, _, hread⟩ := readProperties_chunk h
  obtain ⟨_, _, hread'⟩ := readProperties_chunk h'
  rw [readPairs_of_readProperties hread, Option.some.injEq, Prod.mk.injEq] at hr
  obtain ⟨-, rfl⟩ := hr
  exact Chunk.exact_same_title (D.chunk ds') hn rfl (readPairs_of_readProperties hread')

end Drawer

/-- The lines of a chunk with a drawer up to its end are whole, and the text from there on is cut as
in the document. -/
theorem drawer_tail {t title opening last : Text} {P ds body : List Text} {as bs : List Chunk}
    (hc : chunksOf t = (P, as ++ (title, opening :: (ds ++ last :: body)) :: bs))
    (hopens : trim opening = ":PROPERTIES:".toList) {off : ℕ} {es : List PropertyEntry}
    (hes : Entries off ds es) :
    (∀ l ∈ title :: opening :: ds, Terminated l) ∧ isHead 0 title = true ∧
      chunksOf (last ++ (body.flatten ++ (Segment.join bs).flatten)) = (last :: body, bs) := by
  obtain ⟨hraw, -, hchunks⟩ := (chunksOf_eq_iff _ _ _).mp (chunksOf_tail hc)
  have hraw' : rawLines (Segment.join ((title, opening :: (ds ++ last :: body)) :: bs)).flatten =
      (title :: opening :: ds) ++ (last :: (body ++ Segment.join bs)) := by
    rw [hraw, Segment.join_cons]
    simp
  obtain ⟨-, hhead, hno, hrest⟩ := (chunks_cons_iff _ _ _).mp hchunks
  obtain ⟨u, hu⟩ := trimStart_of_trim hopens
  obtain ⟨-, hdepth⟩ := colonLine hu
  obtain ⟨-, hdepths⟩ := hes.quiet
  have hfront : depthAfter 0 (opening :: ds) = 0 := by
    rw [← List.singleton_append, depthAfter_append, hdepth, hdepths]
  refine ⟨rawLines_split hraw' (by simp), hhead, (chunksOf_eq_iff _ _ _).mpr ⟨?_, ?_, ?_⟩⟩
  · have hsuffix := rawLines_suffix hraw'
    simpa using hsuffix
  · rw [← List.cons_append, NoHead, Segment.noHead_append,
      show Segment.run lineDepth 0 (opening :: ds) = 0 from hfront] at hno
    exact hno.2
  · rw [← List.cons_append, depthAfter_append, hfront] at hrest
    exact hrest

/-- The lines that a drawer is read from. -/
theorem readProperties_drawer {off b : ℕ} {rs body : List Text} {d : PropertyDrawer}
    (h : readProperties off rs = some (some d, b, body)) : ∃ opening ds last,
      rs = opening :: (ds ++ last :: body) ∧ trim opening = ":PROPERTIES:".toList ∧
      trim last = ":END:".toList ∧ Entries (off + opening.length) ds d.entries ∧
      b = off + opening.length + ds.flatten.length + last.length := by
  cases rs with
  | nil => simp [readProperties] at h
  | cons opening rs =>
      rw [readProperties, trim_content] at h
      split_ifs at h with hopens
      · obtain ⟨⟨d', b', body'⟩, hd, h⟩ := Option.map_eq_some_iff.mp h
        simp only [Prod.mk.injEq, Option.some.injEq] at h
        obtain ⟨rfl, rfl, rfl⟩ := h
        obtain ⟨ds, last, es, rfl, hends, hes, hb, rfl⟩ := readDrawer_eq_some_iff.mp hd
        exact ⟨opening, ds, last, rfl, hopens, hends, by simpa using hes, hb⟩
      · simp at h

namespace Drawer

variable {D : Drawer} {ds ds' : List Text} {es es' : List PropertyEntry}

/-- The drawer of a heading of a document. -/
theorem exists_drawer {source display : Text} {f : OrgFile} (hf : OrgFile.parse source display = .ok f)
    {pre post : List HeadingInfo} {i : HeadingInfo} (hsplit : f.infos = pre ++ i :: post)
    (hdrawer : i.properties ≠ none) :
    ∃ (D : Drawer) (ds : List Text), source = D.text ds ∧ D.Fits ds i.propertyEntries ∧
      D.as.length = pre.length := by
  obtain ⟨P, as, c, bs, hc, has, hi, -⟩ := exists_chunk hf hsplit
  obtain ⟨level, parsed, properties, b, body, -, -, hr, rfl⟩ := readHeading_eq_some_iff.mp hi
  obtain ⟨d, rfl⟩ := Option.ne_none_iff_exists'.mp hdrawer
  obtain ⟨title, rs⟩ := c
  obtain ⟨opening, ds, last, rfl, hopens, hends, hes, -⟩ := readProperties_drawer hr
  obtain ⟨hterm, hhead, hrest⟩ := drawer_tail hc hopens hes
  have hfront : ∀ l ∈ [title, opening], Terminated l := fun l hl => hterm l (by
    rcases List.mem_pair.mp hl with rfl | rfl <;> simp)
  refine ⟨⟨P, as, title, opening, last, body, bs, front_of_chunksOf hc, hfront, hhead, hopens, hends,
    hrest⟩, ds, ?_, ⟨fun l hl => hterm l (by simp [hl]), hes⟩, ?_⟩
  · refine (text_of_chunksOf hc).trans ?_
    simp [text, Chunk.text, Chunk.lines]
  · simpa using congrArg List.length has

/-- What is read where the drawer stands. -/
theorem entries_of_parse {display : Text} {f : OrgFile} (h : D.Fits ds es)
    (hf : OrgFile.parse (D.text ds) display = .ok f) {pre post : List HeadingInfo} {i : HeadingInfo}
    (hsplit : f.infos = pre ++ i :: post) (hlen : D.as.length = pre.length) :
    (∃ span, i.properties = some ⟨es, span⟩) ∧
      (D.chunk ds).exact f.declared = some (i.exact (D.text ds)) := by
  obtain ⟨P, as, c, bs, hc, has, hi, -⟩ := exists_chunk hf hsplit
  have hlen' : as.length = pre.length := by simpa using congrArg List.length has
  have hexact := readHeading_exact ((Segment.join bs).flatten) hi
  rw [List.append_assoc, ← text_of_chunksOf hc] at hexact
  rw [chunksOf_text h, Prod.mk.injEq] at hc
  obtain ⟨rfl, hlist⟩ := hc
  obtain ⟨rfl, hrest⟩ := List.append_inj hlist (hlen.trans hlen'.symm)
  obtain ⟨rfl, -⟩ := List.cons.inj hrest
  obtain ⟨level, parsed, properties, b, body, -, -, hr, rfl⟩ := readHeading_eq_some_iff.mp hi
  obtain ⟨span, b', hread⟩ := readProperties_chunk h
  rw [show (D.chunk ds).1.length = D.title.length from rfl, hread, Option.some.injEq,
    Prod.mk.injEq] at hr
  exact ⟨⟨span, hr.1.symm⟩, hexact⟩

/-- **The document with other entries** is the document it was but for these entries. -/
theorem parsed {display : Text} {f : OrgFile} (h : D.Fits ds es)
    (hf : OrgFile.parse (D.text ds) display = .ok f) {pre post : List HeadingInfo} {i : HeadingInfo}
    (hsplit : f.infos = pre ++ i :: post) (hlen : D.as.length = pre.length) (h' : D.Fits ds' es')
    (display' : Text) :
    ∃ f' pre' i' post', OrgFile.parse (D.text ds') display' = .ok f' ∧ f'.keywords = f.keywords ∧
      f'.infos = pre' ++ i' :: post' ∧
      pre'.map (HeadingInfo.exact (D.text ds')) = pre.map (HeadingInfo.exact (D.text ds)) ∧
      i'.exact (D.text ds') =
        { i.exact (D.text ds) with properties := es'.map PropertyEntry.pair } ∧
      post'.map (HeadingInfo.exact (D.text ds')) = post.map (HeadingInfo.exact (D.text ds)) ∧
      ∃ span, i'.properties = some ⟨es', span⟩ := by
  obtain ⟨-, hchunk⟩ := entries_of_parse h hf hsplit hlen
  have hnew := exact_chunk h hchunk h'
  have hexacts := exacts_of_parse hf
  rw [chunksOf_text h, hsplit, List.map_append, List.map_append, List.map_cons,
    List.map_cons] at hexacts
  obtain ⟨has, hrest⟩ := List.append_inj hexacts (by simpa using hlen)
  obtain ⟨-, hbs⟩ := List.cons.inj hrest
  have hlevel : (D.chunk ds').level = (D.chunk ds).level := rfl
  obtain ⟨-, hflat, -, -⟩ := readFlat_of_parse hf
  obtain ⟨-, -, -, hstepped⟩ := (readFlat_eq_some_iff _ _ _).mp hflat
  rw [chunksOf_text h, List.map_append, List.map_cons, ← hlevel, ← List.map_cons,
    ← List.map_append] at hstepped
  have hchunks : chunksOf (D.text ds') =
      ((chunksOf (D.text ds)).1, D.as ++ D.chunk ds' :: D.bs) := by
    rw [chunksOf_text h', chunksOf_text h]
  obtain ⟨f', hf', hsource', hkeywords, hdeclared, hmap⟩ := reparse_chunks display' hf hchunks
    (fun c hc => by
      rcases List.mem_append.mp hc with hc | hc
      · exact exists_exact_of_mem has c hc
      · rcases List.mem_cons.mp hc with rfl | hc
        · exact ⟨_, hnew⟩
        · exact exists_exact_of_mem hbs c hc) hstepped
  rw [List.map_append, List.map_cons, has, hnew, hbs] at hmap
  obtain ⟨pre', is, hsplit', hpre', his⟩ := List.map_eq_append_iff.mp hmap.symm
  obtain ⟨i', post', rfl, hi', hpost'⟩ := List.map_eq_cons_iff.mp his
  have hlen' : D.as.length = pre'.length := by
    rw [hlen]
    simpa using (congrArg List.length hpre').symm
  obtain ⟨hentries, -⟩ := entries_of_parse h' hf' hsplit' hlen'
  exact ⟨f', pre', i', post', hf', hkeywords, hsplit', map_exact_inj hpre', Option.some.inj hi',
    map_exact_inj hpost', hentries⟩

end Drawer

/-! ### Another filling of the hole -/

/-- The text of the rewriter is the document with these entry lines, in the drawer of the heading
that is found by the id. -/
structure Drawer.At (D : Drawer) (id : Text) (r : OrgRewriter) (f : OrgFile) (g : Heading)
    (ds : List Text) : Prop where
  view : r.view = .ok f
  found : f.findById id = some g
  text : r.currentText = D.text ds
  fits : D.Fits ds g.propertyEntries
  place : ∃ pre post, Subtree f.infos pre post r.currentText.length g ∧
    (∀ i ∈ pre, i.property "ID".toList ≠ some id) ∧ D.as.length = pre.length

section
variable {id : Text} {r r' : OrgRewriter} {f : OrgFile} {g : Heading}

theorem exists_at (hf : r.view = .ok f) (hg : f.findById id = some g) :
    ∃ (D : Drawer) (ds : List Text), D.At id r f g ds := by
  obtain ⟨hid, pre, post, hsub, hpre⟩ := findById_place hf hg
  have hsplit := hsub.split
  rw [flatten_eq, List.append_assoc, List.cons_append] at hsplit
  obtain ⟨D, ds, htext, hfits, hlen⟩ := Drawer.exists_drawer hf hsplit (by
    intro hnone
    rw [HeadingInfo.property, HeadingInfo.propertyEntries, hnone] at hid
    cases hid)
  exact ⟨D, ds, hf, hg, htext, hfits, pre, post, hsub, hpre, hlen⟩

variable {D : Drawer} {ds ds' : List Text} {es' : List PropertyEntry}

/-- **Other entries with the same id**: the heading is found again, and the tree is the same but
for its properties. -/
theorem Drawer.At.moved (h : D.At id r f g ds) (htext : r'.currentText = D.text ds')
    (hfits : D.Fits ds' es')
    (hid : (es'.find? fun e => e.key = "ID".toList).map PropertyEntry.value = some id)
    {edit : Node → List (Forest.Tree Node) → List (Forest.Tree Node)}
    (hedit : ∀ cs, edit (g.exact f.source) cs =
      [.node { g.exact f.source with properties := es'.map PropertyEntry.pair } cs]) :
    ∃ f' g', D.At id r' f' g' ds' ∧ g'.propertyEntries = es' ∧ f'.keywords = f.keywords ∧
      editFirstIn (HasId id) edit f.forest = some f'.forest := by
  obtain ⟨pre, post, hsub, hpre, hlen⟩ := h.place
  have hf := h.view
  rw [OrgRewriter.view, h.text] at hf
  rw [h.text] at hsub
  have hsplit := hsub.split
  rw [flatten_eq, List.append_assoc, List.cons_append] at hsplit
  obtain ⟨f', pre', i', post', hf', hkeywords, hsplit', hpre', hi', hpost', span, hdrawer⟩ :=
    Drawer.parsed h.fits hf hsplit hlen hfits r'.fileName
  have hsource : f.source = D.text ds := (readFlat_of_parse hf).1
  have hsource' : f'.source = D.text ds' := (readFlat_of_parse hf').1
  have hentries : i'.propertyEntries = es' := by rw [HeadingInfo.propertyEntries, hdrawer]
  have hid' : i'.property "ID".toList = some id := by rw [HeadingInfo.property, hentries, hid]
  have hgid : g.property "ID".toList = some id := (findById_place h.view h.found).1
  -- levels and ids are what they were
  have hkeys : f'.infos.map HeadingInfo.key = f.infos.map HeadingInfo.key := by
    have hlevel : i'.level = g.level := congrArg Node.level hi'
    rw [hsplit, hsplit', List.map_append, List.map_append, List.map_cons, List.map_cons,
      keys_of_nodes (nodes_of_exacts hpre'), keys_of_nodes (nodes_of_exacts hpost'),
      HeadingInfo.key, HeadingInfo.key, hlevel, hid', hgid]
  have hno := no_id_of_nodes (nodes_of_exacts hpre') hpre
  obtain ⟨g', -, -, hg', -⟩ := found_again hf hf' h.found hkeys hsub hpre
  obtain rfl := found_at hf' hg' hsplit' hno hid'
  obtain ⟨-, pre₁, post₁, hsub₁, hno₁⟩ := findById_place hf' hg'
  have hsplit₁ := hsub₁.split
  rw [flatten_eq, List.append_assoc, List.cons_append, hsplit'] at hsplit₁
  obtain ⟨rfl, -⟩ := Outline.split_unique
    (p := fun j : HeadingInfo => j.property "ID".toList = some id) hsplit₁ hno hid' hno₁ hid'
  obtain ⟨ts, hts, hgraded, hflat⟩ := forest_edited hf h.found (HeadingInfo.exact f.source)
    (fun _ => rfl) (fun i => HeadingInfo.node_property f.source i _) hsub hpre edit (by
      rw [hedit]
      exact ⟨⟨rfl, graded_trees _ (fun _ => rfl) g.sections ((laid_iff g).mp hsub.laid).2.2.2⟩,
        trivial⟩)
  have hitems : flattenAll ts = f'.infos.map (HeadingInfo.exact f'.source) := by
    rw [hflat, hedit, flattenAll_singleton, Forest.Tree.flatten, flatten_trees, hsplit', hsource, hsource',
      List.map_append, List.map_cons, hpre', hi', hpost', List.map_append, List.cons_append]
  refine ⟨f', g', ⟨?_, hg', htext, hentries ▸ hfits, pre', post₁, ?_, hno, ?_⟩, hentries, hkeywords,
    ?_⟩
  · rw [OrgRewriter.view, htext]
    exact hf'
  · rw [htext]
    exact hsub₁
  · rw [hlen]
    simpa using (congrArg List.length hpre').symm
  · rw [OrgFile.forest, OrgFile.forest, hts]
    exact congrArg some (forest_eq hf' _ (fun _ => rfl) hgraded hitems)

end

/-! ### One more line -/

namespace Drawer

variable {D : Drawer} {ds : List Text} {es : List PropertyEntry} {key raw : Text}

/-- The text up to the line behind some entry lines. -/
def before (D : Drawer) (ds : List Text) : Text :=
  frontText D.P D.as ++ (D.title ++ (D.opening ++ ds.flatten))

/-- The text from `:END:` on. -/
def behind (D : Drawer) : Text := D.last ++ (D.body.flatten ++ (Segment.join D.bs).flatten)

theorem text_eq (D : Drawer) (ds : List Text) : D.text ds = D.before ds ++ D.behind := by
  simp [text, before, behind]

theorem text_concat (D : Drawer) (ds : List Text) (l : Text) :
    D.text (ds ++ [l]) = D.before ds ++ (l ++ D.behind) := by
  simp [text, before, behind]

theorem length_before (D : Drawer) (ds : List Text) :
    (D.before ds).length = D.off + ds.flatten.length := by
  simp only [before, off, List.length_append]
  omega

/-- One more property line is one more entry. -/
theorem Fits.concat (h : D.Fits ds es) (hkey : IsKey key) (hraw : '\n' ∉ raw) : ∃ x y e,
    raw = x ++ (trim raw ++ y) ∧ Blank x ∧ Blank y ∧ D.Fits (ds ++ [keyLine key raw]) (es ++ [e]) ∧
      e.pair = (key, trim raw) ∧
      e.span = ⟨(D.before ds).length, (D.before ds).length + (keyLine key raw).length⟩ ∧
      e.valueSpan = ⟨(D.before ds).length + ((key.length + 2) + x.length),
        (D.before ds).length + ((key.length + 2) + x.length) + (trim raw).length⟩ := by
  obtain ⟨x, y, hsplit, hx, hy, hparsed⟩ := keyLine_parsed hkey raw
  have hpos := length_before D ds
  rw [hpos]
  refine ⟨x, y, _, hsplit, hx, hy, ⟨?_, h.entries.append ⟨trim_keyLine_ne hkey raw,
    hparsed (spanAt (D.off + ds.flatten.length) (keyLine key raw)), trivial⟩⟩, rfl, rfl, rfl⟩
  exact List.forall_mem_append.mpr
    ⟨h.terminated, List.forall_mem_singleton.mpr (terminated_keyLine hkey hraw)⟩

/-- The line is put in front of `:END:`. -/
theorem replaceRange_insert (D : Drawer) (ds : List Text) (l : Text) :
    replaceRange (D.text ds) ⟨(D.before ds).length, (D.before ds).length⟩ l = D.text (ds ++ [l]) := by
  have h := replaceRange_append_three (D.before ds) [] D.behind l
  rw [text_eq, text_concat]
  simpa using h

/-- The line is taken away. -/
theorem replaceRange_remove (D : Drawer) (ds : List Text) (l : Text) :
    replaceRange (D.text (ds ++ [l])) ⟨(D.before ds).length, (D.before ds).length + l.length⟩ [] =
      D.text ds := by
  have h := replaceRange_append_three (D.before ds) l D.behind []
  rw [text_concat, text_eq]
  simpa using h

/-- The value in the line is replaced. -/
theorem replaceRange_value (D : Drawer) (ds : List Text) (key x v y u : Text) :
    replaceRange (D.text (ds ++ [keyLine key (x ++ (v ++ y))]))
        ⟨(D.before ds).length + ((key.length + 2) + x.length),
          (D.before ds).length + ((key.length + 2) + x.length) + v.length⟩ u =
      D.text (ds ++ [keyLine key (x ++ (u ++ y))]) := by
  have h := replaceRange_append_three (D.before ds ++ (':' :: (key ++ ':' :: x))) v
    (y ++ ['\n'] ++ D.behind) u
  have hlen : (D.before ds ++ (':' :: (key ++ ':' :: x))).length =
      (D.before ds).length + ((key.length + 2) + x.length) := by
    simp only [List.length_append, List.length_cons]
    omega
  rw [hlen] at h
  rw [text_concat, text_concat]
  simpa [keyLine] using h

end Drawer

/-! ### The operations on a drawer -/

namespace OrgRewriter

variable {id key : Text} {r : OrgRewriter} {f : OrgFile} {g : Heading}

theorem run_insertProperty (hf : r.view = .ok f) (hg : f.findById id = some g)
    {d : PropertyDrawer} (hd : g.properties = some d) {last : PropertyEntry}
    (hlast : d.entries.getLast? = some last) (key value : Text) : ∃ col,
    (insertProperty id key value).run r = .ok () (r.replaced ⟨last.span.stop, last.span.stop⟩
      (renderPropertyLine key value col)) := by
  have view : parseView.run r = .ok f r := by simp only [parseView, EStateM.run, hf]
  have find : (headingOrErr f id).run r = .ok g r := by simp only [headingOrErr, EStateM.run, hg]
  refine ⟨some (byteLen (f.slice ⟨last.span.start, last.valueSpan.start⟩)), ?_⟩
  simp only [insertProperty, EStateM.run_bind, view, find, hd, hlast, run_replaceWithView]

theorem run_setProperty (hf : r.view = .ok f) (hg : f.findById id = some g) {e : PropertyEntry}
    (he : g.propertyEntries.find? (fun e => e.key = key) = some e) (value : Text) :
    (setProperty id key value).run r = .ok () (r.replaced e.valueSpan
      (if e.valueSpan.stop ≤ e.valueSpan.start && value ≠ [] then ' ' :: value else value)) := by
  have view : parseView.run r = .ok f r := by simp only [parseView, EStateM.run, hf]
  have find : (headingOrErr f id).run r = .ok g r := by simp only [headingOrErr, EStateM.run, hg]
  have entry : (entryOrErr g id key).run r = .ok e r := by simp only [entryOrErr, EStateM.run, he]
  simp only [setProperty, EStateM.run_bind, view, find, entry]
  split_ifs <;> rfl

theorem run_removeProperty (hf : r.view = .ok f) (hg : f.findById id = some g) {e : PropertyEntry}
    (he : g.propertyEntries.find? (fun e => e.key = key) = some e) :
    (removeProperty id key).run r = .ok () (r.replaced e.span []) := by
  have view : parseView.run r = .ok f r := by simp only [parseView, EStateM.run, hf]
  have find : (headingOrErr f id).run r = .ok g r := by simp only [headingOrErr, EStateM.run, hg]
  have entry : (entryOrErr g id key).run r = .ok e r := by simp only [entryOrErr, EStateM.run, he]
  simp only [removeProperty, EStateM.run_bind, view, find, entry, run_replaceWithView]

theorem run_upsertProperty (hf : r.view = .ok f) (hg : f.findById id = some g) (value : Text) :
    (upsertProperty id key value).run r =
      if g.propertyEntries.any fun e => e.key = key then (setProperty id key value).run r
      else (insertProperty id key value).run r := by
  have view : parseView.run r = .ok f r := by simp only [parseView, EStateM.run, hf]
  have find : (headingOrErr f id).run r = .ok g r := by simp only [headingOrErr, EStateM.run, hg]
  simp only [upsertProperty, EStateM.run_bind, view, find]
  split_ifs <;> rfl

/-- The heading with one more property. -/
def addProperty (key value : Text) (n : Node) (sections : List (Forest.Tree Node)) :
    List (Forest.Tree Node) :=
  [.node { n with properties := n.properties ++ [(key, value)] } sections]

variable {D : Drawer} {ds : List Text} {raw : Text}

/-- An inserted property is one more line. -/
theorem insertProperty_line (h : D.At id r f g ds) (key : Text) {value : Text}
    (hvalue : '\n' ∉ value) : ∃ raw r', '\n' ∉ raw ∧ trim raw = trim value ∧
      (insertProperty id key value).run r = .ok () r' ∧
      r'.currentText = D.text (ds ++ [keyLine key raw]) := by
  obtain ⟨hid, -⟩ := findById_place h.view h.found
  obtain ⟨e, he, -⟩ := Option.map_eq_some_iff.mp hid
  have hne : g.propertyEntries ≠ [] := List.ne_nil_of_mem (List.mem_of_find?_eq_some he)
  cases hd : g.properties with
  | none =>
      rw [HeadingInfo.propertyEntries, hd] at hne
      exact absurd rfl hne
  | some d =>
      have hentries : g.propertyEntries = d.entries := by rw [HeadingInfo.propertyEntries, hd]
      rw [hentries] at hne
      have hlast := List.getLast?_eq_some_getLast hne
      have hread := h.fits.entries
      rw [hentries] at hread
      have hstop := hread.stop _ hlast
      rw [← Drawer.length_before] at hstop
      obtain ⟨col, hrun⟩ := run_insertProperty h.view h.found hd hlast key value
      obtain ⟨n, hline⟩ := renderPropertyLine_eq key value col
      refine ⟨List.replicate n ' ' ++ value, _, ?_, ?_, hrun, ?_⟩
      · simp [hvalue]
      · refine trim_blank_append (fun c hc => ?_) value
        rw [List.eq_of_mem_replicate hc]
        decide
      · rw [currentText_replaced, h.text, hstop, hline, Drawer.replaceRange_insert]

/-- With one more line the document has one more property, which stands where the line says. -/
theorem at_concat (h : D.At id r f g ds) (hkey : IsKey key) (habsent : g.property key = none)
    (hraw : '\n' ∉ raw) {r' : OrgRewriter}
    (htext : r'.currentText = D.text (ds ++ [keyLine key raw])) :
    ∃ f' g' x y e, D.At id r' f' g' (ds ++ [keyLine key raw]) ∧ f'.keywords = f.keywords ∧
      editFirstIn (HasId id) (addProperty key (trim raw)) f.forest = some f'.forest ∧
      raw = x ++ (trim raw ++ y) ∧ Blank x ∧ Blank y ∧
      g'.propertyEntries.find? (fun e => e.key = key) = some e ∧ e.value = trim raw ∧
      e.span = ⟨(D.before ds).length, (D.before ds).length + (keyLine key raw).length⟩ ∧
      e.valueSpan = ⟨(D.before ds).length + ((key.length + 2) + x.length),
        (D.before ds).length + ((key.length + 2) + x.length) + (trim raw).length⟩ := by
  obtain ⟨x, y, e, hsplit, hx, hy, hfits, hpair, hspan, hvalue⟩ := h.fits.concat hkey hraw
  obtain ⟨hid, -⟩ := findById_place h.view h.found
  obtain ⟨hekey, hevalue⟩ := Prod.mk.inj hpair
  obtain ⟨e₀, he₀, hid₀⟩ := Option.map_eq_some_iff.mp hid
  obtain ⟨f', g', hat, hentries, hkeywords, hforest⟩ := h.moved htext hfits
    (by rw [List.find?_append, he₀, Option.some_or, Option.map_some, hid₀])
    (fun cs => by rw [addProperty, List.map_append, List.map_singleton, hpair]; rfl :
      ∀ cs, addProperty key (trim raw) (g.exact f.source) cs = _)
  refine ⟨f', g', x, y, e, hat, hkeywords, hforest, hsplit, hx, hy, ?_, hevalue, hspan, hvalue⟩
  have hnone : g.propertyEntries.find? (fun e => e.key = key) = none :=
    Option.map_eq_none_iff.mp habsent
  rw [hentries, List.find?_append, hnone, Option.none_or, List.find?_cons_of_pos]
  simpa using hekey

/-- Another value in the added line. -/
theorem setProperty_line {f' : OrgFile} {g' : Heading} {x y : Text} {e : PropertyEntry}
    {r' : OrgRewriter} (h : D.At id r' f' g' (ds ++ [keyLine key raw]))
    (hraw : raw = x ++ (trim raw ++ y)) (hx : Blank x) (hy : Blank y)
    (he : g'.propertyEntries.find? (fun e => e.key = key) = some e)
    (hvalue : e.valueSpan = ⟨(D.before ds).length + ((key.length + 2) + x.length),
      (D.before ds).length + ((key.length + 2) + x.length) + (trim raw).length⟩)
    (hline : '\n' ∉ raw) {w : Text} (hw : '\n' ∉ w) : ∃ raw' r₂, '\n' ∉ raw' ∧ trim raw' = trim w ∧
      (setProperty id key w).run r' = .ok () r₂ ∧
      r₂.currentText = D.text (ds ++ [keyLine key raw']) := by
  -- an empty value gets a space in front of it
  obtain ⟨u, hu, htrim, hnl⟩ : ∃ u,
      (if e.valueSpan.stop ≤ e.valueSpan.start && w ≠ [] then ' ' :: w else w) = u ∧
        trim u = trim w ∧ '\n' ∉ u := by
    refine ⟨_, rfl, ?_, ?_⟩
    · split_ifs
      · exact trim_blank_append (w := [' ']) (by decide) w
      · rfl
    · split_ifs
      · simp [hw]
      · exact hw
  rw [hraw] at hline
  simp only [List.mem_append, not_or] at hline
  have hrun := run_setProperty h.view h.found he w
  rw [hu] at hrun
  refine ⟨x ++ (u ++ y), _, ?_, ?_, hrun, ?_⟩
  · simp [hline.1, hline.2.2, hnl]
  · rw [trim_blank_append hx, trim_append_blank hy, htrim]
  · have hset := Drawer.replaceRange_value D ds key x (trim raw) y u
    rw [← hraw, ← hvalue] at hset
    rw [currentText_replaced, h.text, hset]

/-- **A new property** is inserted, read back and taken away again; and upserting it twice is
upserting it once. -/
theorem property_inserted (hf : r.view = .ok f) (hg : f.findById id = some g)
    (hkey : isUppercaseSnakeKey key = true) (hend : key ≠ "END".toList)
    (habsent : g.property key = none) :
    (∀ value, '\n' ∉ value → ∃ r₁ f₁ g₁ r₂, (insertProperty id key value).run r = .ok () r₁ ∧
      r₁.view = .ok f₁ ∧ f₁.findById id = some g₁ ∧ g₁.property key = some (trim value) ∧
      f₁.keywords = f.keywords ∧
      editFirstIn (HasId id) (addProperty key (trim value)) f.forest = some f₁.forest ∧
      (removeProperty id key).run r₁ = .ok () r₂ ∧ r₂.currentText = r.currentText) ∧
    ∀ v w, '\n' ∉ v → '\n' ∉ w → ∃ r₁ r₂ r' f₂ f', (upsertProperty id key v).run r = .ok () r₁ ∧
      (upsertProperty id key w).run r₁ = .ok () r₂ ∧ (upsertProperty id key w).run r = .ok () r' ∧
      r₂.view = .ok f₂ ∧ r'.view = .ok f' ∧ f₂.keywords = f'.keywords ∧ f₂.forest = f'.forest := by
  have hkey := isKey_of_snake hkey hend
  obtain ⟨D, ds, hat⟩ := exists_at hf hg
  have hnone : g.propertyEntries.find? (fun e => e.key = key) = none :=
    Option.map_eq_none_iff.mp habsent
  have hany : g.propertyEntries.any (fun e => e.key = key) = false := by
    rw [List.any_eq_false]
    exact fun e he => List.find?_eq_none.mp hnone e he
  constructor
  · intro value hvalue
    obtain ⟨raw, r₁, hraw, htrim, hrun, htext⟩ := insertProperty_line hat key hvalue
    obtain ⟨f₁, g₁, x, y, e, hat₁, hkeywords, hforest, -, -, -, he, hevalue, hspan, -⟩ :=
      at_concat hat hkey habsent hraw htext
    refine ⟨r₁, f₁, g₁, _, hrun, hat₁.view, hat₁.found, ?_, hkeywords, htrim ▸ hforest,
      run_removeProperty hat₁.view hat₁.found he, ?_⟩
    · rw [HeadingInfo.property, he, Option.map_some, hevalue, htrim]
    · rw [currentText_replaced, htext, hspan, Drawer.replaceRange_remove, hat.text]
  · intro v w hv hw
    obtain ⟨raw, r₁, hraw, -, hrun, htext⟩ := insertProperty_line hat key hv
    obtain ⟨f₁, g₁, x, y, e, hat₁, -, -, hsplit, hx, hy, he, -, -, hspan⟩ :=
      at_concat hat hkey habsent hraw htext
    obtain ⟨raw₂, r₂, hraw₂, htrim₂, hrun₂, htext₂⟩ :=
      setProperty_line hat₁ hsplit hx hy he hspan hraw hw
    obtain ⟨f₂, _, _, _, _, hat₂, hkeywords₂, hforest₂, -⟩ := at_concat hat hkey habsent hraw₂ htext₂
    obtain ⟨raw', r', hraw', htrim', hrun', htext'⟩ := insertProperty_line hat key hw
    obtain ⟨f', _, _, _, _, hat', hkeywords', hforest', -⟩ := at_concat hat hkey habsent hraw' htext'
    have hany₁ : g₁.propertyEntries.any (fun e => e.key = key) = true :=
      List.any_eq_true.mpr ⟨e, List.mem_of_find?_eq_some he, by simpa using List.find?_some he⟩
    refine ⟨r₁, r₂, r', f₂, f', ?_, ?_, ?_, hat₂.view, hat'.view, ?_, ?_⟩
    · rw [run_upsertProperty hf hg, hany, if_neg Bool.false_ne_true, hrun]
    · rw [run_upsertProperty hat₁.view hat₁.found, hany₁, if_pos rfl, hrun₂]
    · rw [run_upsertProperty hf hg, hany, if_neg Bool.false_ne_true, hrun']
    · rw [hkeywords₂, hkeywords']
    · rw [htrim₂, ← htrim', hforest'] at hforest₂
      exact (Option.some.inj hforest₂).symm

/-- A drawer whose last entry has no value, and values with white space around them. -/
theorem property_inserted_sample : ∃ f r₁ f₁ r₂ r₃ r₄ r₅ f₄ f₅,
    OrgFile.parse "* A\n:PROPERTIES:\n:ID: a\n:B:\n:END:\ntext".toList [] = .ok f ∧
      (insertProperty "a".toList "K_1".toList " v ".toList).run (new f []) = .ok () r₁ ∧
      r₁.view = .ok f₁ ∧
      editFirstIn (HasId "a".toList) (addProperty "K_1".toList "v".toList) f.forest =
        some f₁.forest ∧
      (removeProperty "a".toList "K_1".toList).run r₁ = .ok () r₂ ∧
      r₂.currentText = (new f []).currentText ∧
      (upsertProperty "a".toList "K_1".toList []).run (new f []) = .ok () r₃ ∧
      (upsertProperty "a".toList "K_1".toList "w".toList).run r₃ = .ok () r₄ ∧
      (upsertProperty "a".toList "K_1".toList "w".toList).run (new f []) = .ok () r₅ ∧
      r₄.view = .ok f₄ ∧ r₅.view = .ok f₅ ∧ OrgFile.forest f₄ = OrgFile.forest f₅ := by
  obtain ⟨f, g, hf, hg, passed⟩ := testHeading_spec
    (fun _ g => decide (g.property "K_1".toList = none))
    "* A\n:PROPERTIES:\n:ID: a\n:B:\n:END:\ntext".toList "a".toList (by decide +kernel)
  have hview : (new f []).view = .ok f := by
    rw [OrgRewriter.view, currentText_new, (readFlat_of_parse hf).1]
    exact hf
  obtain ⟨hinsert, hupsert⟩ := property_inserted hview hg (by decide +kernel) (by decide +kernel)
    (of_decide_eq_true passed)
  obtain ⟨r₁, f₁, _, r₂, hrun₁, hview₁, -, -, -, hforest, hrun₂, htext⟩ :=
    hinsert " v ".toList (by decide +kernel)
  obtain ⟨r₃, r₄, r₅, f₄, f₅, hrun₃, hrun₄, hrun₅, hview₄, hview₅, -, hsame⟩ :=
    hupsert [] "w".toList (by decide +kernel) (by decide +kernel)
  have htrim : trim " v ".toList = "v".toList := by decide +kernel
  rw [htrim] at hforest
  exact ⟨f, r₁, f₁, r₂, r₃, r₄, r₅, f₄, f₅, hf, hrun₁, hview₁, hforest, hrun₂, htext, hrun₃, hrun₄,
    hrun₅, hview₄, hview₅, hsame⟩

end OrgRewriter

end Orgasmic
