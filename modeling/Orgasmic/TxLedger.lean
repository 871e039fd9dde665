import Orgasmic.OrgDrawers
import Orgasmic.TxWriter

/-! # Reading the ledger back

What the writer wrote is what the reader reads, in whatever ledger the rows stand.

* **One row.** `propertyText_line`: a valid property is written on a line of its own.  `entryChunk`
  is a row with the blank lines after it; its node has the properties of the row and a blank body
  (`entryChunk_node`).
* **Ledgers.** `Ledger P t entries`: the text `t` is made of the prelude lines `P`, rendered rows
  and blank lines.  `parse_ledger`: it reads as the normalized rows.
* **Runs.** Every session keeps the file a ledger (`Ledger.session`). -/

namespace Orgasmic

open Text

namespace TxEntry

/-! ### Valid properties -/

/-- A key that the drawer can carry. -/
structure Key (key : Text) : Prop where
  ne_nil : key ≠ []
  plain : ∀ c ∈ key, c ≠ ':' ∧ isWhitespace c = false
  not_end : key ≠ "END".toList

/-- A value on one line. -/
def Plain (value : Text) : Prop := '\n' ∉ value ∧ '\r' ∉ value

instance (value : Text) : Decidable (Plain value) := inferInstanceAs (Decidable (_ ∧ _))

/-- Every property of the row can be written on a line of its drawer. -/
def Valid (entry : TxEntry) : Prop := ∀ p ∈ entry.orderedProperties, Key p.1 ∧ Plain p.2

theorem validatePropertyKey_ok {key : Text} (h : validatePropertyKey key = .ok ()) : Key key := by
  unfold validatePropertyKey at h
  split_ifs at h with hnil
  cases hfind : key.find? fun c => c = ':' || isWhitespace c || isControl c with
  | some c =>
      rw [hfind] at h
      cases h
  | none =>
      rw [hfind] at h
      dsimp only at h
      split_ifs at h with hreserved hsnake hcase
      refine ⟨hnil, fun c hc => ?_, ?_⟩
      · have hc' := List.find?_eq_none.mp hfind c hc
        simp only [Bool.or_eq_true, not_or, Bool.not_eq_true, decide_eq_true_eq] at hc'
        exact hc'.1
      · rintro rfl
        exact hreserved (by decide)

theorem validatePropertyValue_ok {key value : Text}
    (h : validatePropertyValue key value = .ok ()) : Plain value := by
  induction value with
  | nil => exact ⟨by simp, by simp⟩
  | cons c cs ih =>
      unfold validatePropertyValue at h
      split_ifs at h with hline hcontrol
      rw [not_or] at hline
      obtain ⟨hn, hr⟩ := ih h
      exact ⟨by simp [Ne.symm hline.1, hn], by simp [Ne.symm hline.2, hr]⟩

theorem validateProperties_ok {properties : List (Text × Text)}
    (h : validateProperties properties = .ok ()) :
    ∀ p ∈ properties, Key p.1 ∧ Plain p.2 := by
  induction properties with
  | nil => simp
  | cons p properties ih =>
      obtain ⟨key, value⟩ := p
      unfold validateProperties at h
      cases hkey : validatePropertyKey key with
      | error e =>
          rw [hkey] at h
          cases h
      | ok u =>
          cases hvalue : validatePropertyValue key value with
          | error e =>
              rw [hkey, hvalue] at h
              cases h
          | ok u' =>
              rw [hkey, hvalue] at h
              exact List.forall_mem_cons.mpr
                ⟨⟨validatePropertyKey_ok hkey, validatePropertyValue_ok hvalue⟩, ih h⟩

theorem valid_of_validate {entry : TxEntry} (h : entry.validate = .ok ()) : entry.Valid :=
  validateProperties_ok h

/-! ### One property line -/

theorem plain_append {a b : Text} : Plain (a ++ b) ↔ Plain a ∧ Plain b := by
  simp only [Plain, List.mem_append, not_or]
  tauto

theorem Key.not_mem_colon {key : Text} (h : Key key) : ':' ∉ key :=
  fun hc => (h.plain ':' hc).1 rfl

theorem Key.is_plain {key : Text} (h : Key key) : Plain key := by
  refine ⟨fun hc => ?_, fun hc => ?_⟩ <;>
  · have := (h.plain _ hc).2
    revert this
    decide

/-- The line of a property: key and value between the colons. -/
theorem propertyText_eq (key : Text) {value : Text} (hvalue : Plain value) :
    ∃ raw, propertyText key value = ':' :: (key ++ ':' :: raw) ∧ trim raw = trim value ∧
      Plain raw := by
  unfold propertyText
  split_ifs with hblank
  · exact ⟨[], by simp, by rw [hblank]; rfl, by simp, by simp⟩
  · dsimp only
    generalize (if 2 + byteLen key < 15 then 15 - (2 + byteLen key) else 1) = pad
    have hpad : Blank (List.replicate pad ' ') := fun c hc => by
      rw [(List.mem_replicate.mp hc).2]
      decide
    refine ⟨List.replicate pad ' ' ++ value, by simp, trim_blank_append hpad value, ?_⟩
    rw [plain_append]
    refine ⟨⟨?_, ?_⟩, hvalue⟩ <;>
    · rw [List.mem_replicate]
      exact fun hc => absurd hc.2 (by decide)

theorem Plain.oneLine {value : Text} (h : Plain value) : OneLine value :=
  ⟨h.1, fun hlast => h.2 (List.mem_of_getLast? hlast)⟩

/-- A valid property is written on a line. -/
theorem propertyText_line {key value : Text} (hkey : Key key) (hvalue : Plain value) :
    PropertyLine key value (propertyText key value) := by
  obtain ⟨raw, heq, htrim, hraw⟩ := propertyText_eq key hvalue
  refine ⟨hkey.ne_nil, hkey.not_mem_colon, hkey.not_end, ⟨raw, heq, htrim⟩, ?_⟩
  have e : ':' :: (key ++ ':' :: raw) = [':'] ++ key ++ [':'] ++ raw := by simp
  rw [heq, e]
  exact Plain.oneLine (plain_append.mpr ⟨plain_append.mpr ⟨plain_append.mpr
    ⟨by decide, hkey.is_plain⟩, by decide⟩, hraw⟩)

/-! ### The lines of a row -/

/-- The value without white space around it. -/
def trimmedPair (p : Text × Text) : Text × Text := (p.1, trim p.2)

/-- The raw lines of some properties. -/
def propertyLines (properties : List (Text × Text)) : List Text :=
  properties.map fun p => propertyText p.1 p.2 ++ ['\n']

/-- A row and `n` blank lines after it. -/
def entryChunk (entry : TxEntry) (n : ℕ) : Chunk :=
  (entry.titleText ++ ['\n'], ":PROPERTIES:\n".toList ::
    (propertyLines entry.orderedProperties ++ ":END:\n".toList :: List.replicate n ['\n']))

/-- The lines of the properties, without their line feeds. -/
def propertyTexts (entry : TxEntry) : List Text :=
  entry.orderedProperties.map fun p => propertyText p.1 p.2

theorem entryChunk_eq (entry : TxEntry) (n : ℕ) :
    entryChunk entry n = drawerChunk entry.titleText entry.propertyTexts n := by
  simp only [entryChunk, drawerChunk, propertyLines, propertyTexts, List.map_map]
  rfl

theorem entryChunk_text (entry : TxEntry) (n : ℕ) :
    (entryChunk entry n).text = entry.render ++ List.replicate n '\n' := by
  rw [entryChunk_eq, drawerChunk_text]
  rfl

/-- The title line of a row. -/
theorem titleText_plain {entry : TxEntry} (h : entry.Valid) : Plain entry.titleText := by
  have hfield : ∀ p ∈ entry.orderedProperties, Plain p.2 := fun p hp => (h p hp).2
  have htime : Plain (stripBrackets entry.time) := by
    have hplain := hfield ("TIME".toList, entry.time) (by simp [orderedProperties])
    have hsub : stripBrackets entry.time ⊆ entry.time := fun c hc =>
      (List.dropWhile_suffix _).subset ((List.rdropWhile_prefix _ _).subset hc)
    exact ⟨fun hc => hplain.1 (hsub hc), fun hc => hplain.2 (hsub hc)⟩
  have hty : Plain entry.ty := hfield ("TYPE".toList, entry.ty) (by simp [orderedProperties])
  have hsummary : Plain entry.titleSummary := by
    unfold titleSummary
    split
    · next task htask => exact hfield ("TASK".toList, task) (by simp [orderedProperties, htask])
    · next project hproject _ =>
        exact hfield ("PROJECT".toList, project) (by simp [orderedProperties, hproject])
    · next target htarget _ _ =>
        exact hfield ("TARGET".toList, target) (by simp [orderedProperties, htarget])
    · decide
  unfold titleText
  simp only [plain_append]
  exact ⟨⟨⟨⟨⟨by decide, htime⟩, by decide⟩, hty⟩, by decide⟩, hsummary⟩

theorem titleText_level (entry : TxEntry) : headingLevel entry.titleText = some 1 := by
  unfold titleText
  exact headingLevel_replicate Nat.one_pos _

theorem Valid.drawn {entry : TxEntry} (h : entry.Valid) :
    Drawn 1 entry.titleText entry.orderedProperties entry.propertyTexts where
  level_eq := entry.titleText_level
  one := (titleText_plain h).oneLine
  lines := by
    rw [propertyTexts, List.forall₂_map_right_iff, List.forall₂_same]
    exact fun p hp => propertyText_line (h p hp).1 (h p hp).2

theorem Valid.isDrawn {entry : TxEntry} (h : entry.Valid) (n : ℕ) : IsDrawn (entryChunk entry n) :=
  ⟨1, entry.titleText, entry.orderedProperties, entry.propertyTexts, n, h.drawn, entryChunk_eq _ _⟩

/-- A row reads as a heading with its properties and no body. -/
theorem entryChunk_node {entry : TxEntry} (h : entry.Valid) (n : ℕ) :
    ∃ node, (entryChunk entry n).node [] = some node ∧ node.level = 1 ∧
      node.properties = entry.orderedProperties.map trimmedPair ∧ node.body = [] := by
  obtain ⟨-, u, hu⟩ := (headingLevel_eq_some_iff _ _).mp entry.titleText_level
  have hparsed : parseHeadingLine entry.titleText 1 [] = some (parseHeadingRest u []) := by
    rw [hu]
    exact parseHeadingLine_stars 1 u (by simp)
  rw [entryChunk_eq]
  exact ⟨_, h.drawn.node n hparsed, rfl, rfl, rfl⟩

/-! ### The row that is read -/

/-- The keys with a field of their own and what the fields hold. -/
def fields (entry : TxEntry) : List (Text × Option Text) :=
  [("TX_ID".toList, some entry.txId), ("TIME".toList, some entry.time),
    ("TYPE".toList, some entry.ty), ("ACTOR".toList, some entry.actor),
    ("MACHINE".toList, some entry.machine), ("PROJECT".toList, entry.project),
    ("TASK".toList, entry.task), ("TARGET".toList, entry.target),
    ("REASON".toList, entry.reason)]

/-- The row with its values trimmed and its canonical keys in their fields. -/
def normalized (entry : TxEntry) : TxEntry where
  txId := trim entry.txId
  time := trim entry.time
  ty := trim entry.ty
  actor := trim entry.actor
  machine := trim entry.machine
  project := (entry.project.or (entry.extra? "PROJECT".toList)).map trim
  task := (entry.task.or (entry.extra? "TASK".toList)).map trim
  target := (entry.target.or (entry.extra? "TARGET".toList)).map trim
  reason := (entry.reason.or (entry.extra? "REASON".toList)).map trim
  extra := (entry.extra.filter fun p => p.1 ∉ canonicalKeys).map trimmedPair

/-- The properties of fields that are set. -/
def fieldPairs (fs : List (Text × Option Text)) : List (Text × Text) :=
  fs.filterMap fun f => f.2.map fun value => (f.1, value)

theorem orderedProperties_eq (entry : TxEntry) :
    entry.orderedProperties = fieldPairs entry.fields ++ entry.extra := by
  unfold orderedProperties fieldPairs fields
  cases entry.project <;> cases entry.task <;> cases entry.target <;> cases entry.reason <;> rfl

theorem fields_keys (entry : TxEntry) : entry.fields.map Prod.fst = canonicalKeys := rfl

theorem canonicalKeys_nodup : canonicalKeys.Nodup := by decide

/-- The first property with the key of a field. -/
theorem find?_fieldPairs {fs : List (Text × Option Text)} (hnodup : (fs.map Prod.fst).Nodup)
    {key : Text} {value : Option Text} (hmem : (key, value) ∈ fs) :
    (fieldPairs fs).find? (fun p => p.1 = key) = value.map fun v => (key, v) := by
  induction fs with
  | nil => cases hmem
  | cons f fs ih =>
      obtain ⟨hf, hfs⟩ := List.nodup_cons.mp hnodup
      have hnone : ∀ key, key ∉ fs.map Prod.fst →
          (fieldPairs fs).find? (fun p => p.1 = key) = none := by
        intro key hkey
        rw [List.find?_eq_none]
        intro p hp
        obtain ⟨g, hg, hgp⟩ := List.mem_filterMap.mp hp
        obtain ⟨v, -, rfl⟩ := Option.map_eq_some_iff.mp hgp
        simp only [decide_eq_true_eq]
        rintro rfl
        exact hkey (List.mem_map_of_mem hg)
      unfold fieldPairs
      rw [List.filterMap_cons]
      rcases List.mem_cons.mp hmem with rfl | hmem'
      · cases value with
        | none => exact hnone key hf
        | some v => simp
      · have hne : f.1 ≠ key := by
          rintro rfl
          exact hf (List.mem_map.mpr ⟨_, hmem', rfl⟩)
        cases hv : f.2 with
        | none => exact ih hfs hmem'
        | some v =>
            dsimp only [Option.map_some]
            rw [List.find?_cons_of_neg (by simpa using hne)]
            exact ih hfs hmem'

/-- The value that the reader finds under the key of a field. -/
theorem find?_trimmed (entry : TxEntry) {key : Text} {value : Option Text}
    (hmem : (key, value) ∈ entry.fields) :
    ((entry.orderedProperties.map trimmedPair).find? fun p => p.1 = key).map Prod.snd =
      (value.or (entry.extra? key)).map trim := by
  have hkey : (fun p : Text × Text => decide (p.1 = key)) ∘ trimmedPair =
      fun p => decide (p.1 = key) := rfl
  rw [List.find?_map, hkey, Option.map_map, orderedProperties_eq, List.find?_append,
    find?_fieldPairs (fields_keys entry ▸ canonicalKeys_nodup) hmem]
  unfold extra?
  cases value with
  | some v => rfl
  | none =>
      rw [Option.map_none, Option.none_or, Option.none_or, Option.map_map]
      rfl

theorem filter_trimmed (entry : TxEntry) :
    (entry.orderedProperties.map trimmedPair).filter (fun p => p.1 ∉ canonicalKeys) =
      entry.normalized.extra := by
  have hfields : (fieldPairs entry.fields).filter (fun p => p.1 ∉ canonicalKeys) = [] := by
    rw [List.filter_eq_nil_iff]
    intro p hp
    obtain ⟨f, hf, hfp⟩ := List.mem_filterMap.mp hp
    obtain ⟨v, -, rfl⟩ := Option.map_eq_some_iff.mp hfp
    have hmem : f.1 ∈ canonicalKeys := fields_keys entry ▸ List.mem_map_of_mem hf
    simpa using hmem
  have hkey : (fun p : Text × Text => decide (p.1 ∉ canonicalKeys)) ∘ trimmedPair =
      fun p => decide (p.1 ∉ canonicalKeys) := rfl
  rw [List.filter_map, hkey, orderedProperties_eq, List.filter_append, hfields, List.nil_append]
  rfl

end TxEntry

/-- The row of a heading that has the properties of a row. -/
theorem readEntry_eq {h : HeadingInfo} {entry : TxEntry}
    (hproperties : h.propertyEntries.map PropertyEntry.pair =
      entry.orderedProperties.map TxEntry.trimmedPair) :
    readEntry h = .ok entry.normalized := by
  have hfind : ∀ {key : Text} {value : Option Text}, (key, value) ∈ entry.fields →
      h.property key = (value.or (entry.extra? key)).map trim := by
    intro key value hmem
    rw [← TxEntry.find?_trimmed entry hmem, ← hproperties, List.find?_map, Option.map_map]
    rfl
  have hextra : (h.propertyEntries.filter fun e => e.key ∉ TxEntry.canonicalKeys).map
      PropertyEntry.pair = entry.normalized.extra := by
    rw [← TxEntry.filter_trimmed, ← hproperties, List.filter_map]
    rfl
  have hrequired : ∀ {key value : Text}, (key, some value) ∈ entry.fields →
      h.required key = .ok (trim value) := by
    intro key value hmem
    unfold HeadingInfo.required
    rw [hfind hmem]
    rfl
  have field : ∀ {f : Text × Option Text} (i : ℕ), entry.fields[i]? = some f → f ∈ entry.fields :=
    fun i hi => List.mem_of_getElem? hi
  unfold readEntry
  rw [hrequired (field 0 rfl), hrequired (field 1 rfl), hrequired (field 2 rfl),
    hrequired (field 3 rfl), hrequired (field 4 rfl), hfind (field 5 rfl), hfind (field 6 rfl),
    hfind (field 7 rfl), hfind (field 8 rfl), hextra]
  rfl

/-! ### Ledgers -/

/-- Rows, each with the number of blank lines after it. -/
def rowChunks (rows : List (TxEntry × ℕ)) : List Chunk :=
  rows.map fun row => TxEntry.entryChunk row.1 row.2

/-- The text is a prelude and then the rows. -/
def Ledger (t : Text) (entries : List TxEntry) : Prop :=
  ∃ P rows, Prelude P ∧ (∀ row ∈ rows, TxEntry.Valid row.1) ∧
    t = P.flatten ++ (rowChunks rows).flatMap Chunk.text ∧ rows.map Prod.fst = entries

theorem Ledger.nil : Ledger [] [] := ⟨[], [], prelude_nil, by simp, rfl, rfl⟩

theorem entryChunk_succ (entry : TxEntry) (n : ℕ) :
    (TxEntry.entryChunk entry (n + 1)).text = (TxEntry.entryChunk entry n).text ++ ['\n'] := by
  rw [TxEntry.entryChunk_text, TxEntry.entryChunk_text, List.replicate_succ', List.append_assoc]

theorem Ledger.blank {t : Text} {entries : List TxEntry} (h : Ledger t entries) :
    Ledger (t ++ ['\n']) entries := by
  obtain ⟨P, rows, hP, hrows, rfl, rfl⟩ := h
  rcases List.eq_nil_or_concat rows with rfl | ⟨rows, ⟨entry, n⟩, rfl⟩
  · exact ⟨P ++ [['\n']], [], hP.blank, by simp, by simp [rowChunks], rfl⟩
  · refine ⟨P, rows ++ [(entry, n + 1)], hP, fun row hrow => ?_, ?_, by simp⟩
    · obtain hrow | hrow := List.mem_append.mp hrow
      · exact hrows row (by simp [hrow])
      · rw [List.mem_singleton.mp hrow]
        exact hrows (entry, n) (by simp)
    · simp [rowChunks, entryChunk_succ]

theorem Ledger.entry {t : Text} {entries : List TxEntry} (h : Ledger t entries) {entry : TxEntry}
    (hentry : entry.Valid) : Ledger (t ++ entry.render) (entries ++ [entry]) := by
  obtain ⟨P, rows, hP, hrows, rfl, rfl⟩ := h
  refine ⟨P, rows ++ [(entry, 0)], hP, fun row hrow => ?_, ?_, by simp⟩
  · obtain hrow | hrow := List.mem_append.mp hrow
    · exact hrows row hrow
    · rw [List.mem_singleton.mp hrow]
      exact hentry
  · simp [rowChunks, TxEntry.entryChunk_text]

theorem Ledger.chunks {P : List Text} {rows : List (TxEntry × ℕ)} (hP : Prelude P)
    (hrows : ∀ row ∈ rows, TxEntry.Valid row.1) :
    chunksOf (P.flatten ++ (rowChunks rows).flatMap Chunk.text) = (P, rowChunks rows) := by
  refine chunksOf_drawn hP fun c hc => ?_
  obtain ⟨row, hrow, rfl⟩ := List.mem_map.mp hc
  exact (hrows row hrow).isDrawn row.2

/-- Headings without sections and with blank bodies that have the properties of the rows. -/
theorem readEntries_eq {f : OrgFile} {display : Text} {hs : List Heading} {entries : List TxEntry}
    (h : List.Forall₂ (fun heading entry => Heading.sections heading = [] ∧
      (heading.node f.source).body = [] ∧ (heading.node f.source).properties =
        entry.orderedProperties.map TxEntry.trimmedPair) hs entries) :
    readEntries f display hs = .ok (entries.map TxEntry.normalized) := by
  induction h with
  | nil => rfl
  | @cons heading entry hs entries hhead _ ih =>
      obtain ⟨hsections, hbody, hproperties⟩ := hhead
      have hblank : trim (f.slice heading.body) = [] :=
        (trim_eq_nil_iff _).mpr ((trimEnd_eq_nil_iff _).mp hbody)
      unfold readEntries
      rw [hblank, hsections, if_neg (by simp), readEntry_eq hproperties, ih]
      rfl

/-- The headings of a ledger. -/
theorem headings_of_rows {source : Text} {rows : List (TxEntry × ℕ)}
    (hrows : ∀ row ∈ rows, TxEntry.Valid row.1) {hs : List Heading}
    (hnil : ∀ h ∈ hs, h.sections = [])
    (hmap : hs.map (fun h => some (h.node source)) = (rowChunks rows).map (Chunk.node [])) :
    List.Forall₂ (fun (heading : Heading) (entry : TxEntry) => heading.sections = [] ∧
      (heading.node source).body = [] ∧ (heading.node source).properties =
        entry.orderedProperties.map TxEntry.trimmedPair) hs (rows.map Prod.fst) := by
  induction rows generalizing hs with
  | nil =>
      obtain rfl := List.map_eq_nil_iff.mp hmap
      exact .nil
  | cons row rows ih =>
      obtain ⟨hrow, hrows⟩ := List.forall_mem_cons.mp hrows
      obtain ⟨heading, hs, rfl⟩ : ∃ heading hs', hs = heading :: hs' := by
        refine List.exists_cons_of_ne_nil ?_
        rintro rfl
        cases hmap
      obtain ⟨hhead, htail⟩ := List.forall_mem_cons.mp hnil
      obtain ⟨node, hnode, -, hproperties, hbody⟩ := TxEntry.entryChunk_node hrow row.2
      rw [rowChunks, List.map_cons, List.map_cons, List.map_cons, hnode, List.cons.injEq,
        Option.some.injEq] at hmap
      obtain ⟨rfl, hmap⟩ := hmap
      exact .cons ⟨hhead, hbody, hproperties⟩ (ih hrows htail hmap)

/-- **The ledger reads back.** -/
theorem Ledger.parse {t : Text} {entries : List TxEntry} (h : Ledger t entries) (display : Text) :
    parseTxFile t display = .ok (entries.map TxEntry.normalized) := by
  obtain ⟨P, rows, hP, hrows, rfl, rfl⟩ := h
  obtain ⟨keywords, hkeywords⟩ := hP.declares
  obtain ⟨f, hf, hsource, hmap, hnil⟩ := parse_top display (Ledger.chunks hP hrows) hkeywords
    (fun c hc => by
      obtain ⟨row, hrow, rfl⟩ := List.mem_map.mp hc
      obtain ⟨node, hnode, hlevel, -⟩ := TxEntry.entryChunk_node (hrows row hrow) row.2
      exact ⟨node, hnode, hlevel⟩)
  unfold parseTxFile
  rw [hf]
  refine readEntries_eq ?_
  rw [← hsource] at hmap
  exact headings_of_rows hrows hnil hmap

/-! ### What the checks let through -/

theorem ledger_render {entry : TxEntry} (h : entry.Valid) : Ledger entry.render [entry] :=
  Ledger.nil.entry h

theorem trim_of_map {o : Option Text} {v : Text} (h : o.map trim = some v) :
    trim v = v := by
  obtain ⟨u, -, rfl⟩ := Option.map_eq_some_iff.mp h
  exact trim_trim u

/-- The values of a normalized row are trimmed. -/
theorem TxEntry.trimmedPair_normalized (entry : TxEntry) :
    ∀ p ∈ entry.normalized.orderedProperties, trimmedPair p = p := by
  have hfields : ∀ f ∈ entry.normalized.fields, ∀ v, f.2 = some v → trim v = v := by
    have hset : ∀ u v : Text, some (trim u) = some v → trim v = v :=
      fun u v h => trim_of_map (o := some u) h
    simp only [fields, List.forall_mem_cons]
    exact ⟨hset _, hset _, hset _, hset _, hset _, fun _ => trim_of_map, fun _ => trim_of_map,
      fun _ => trim_of_map, fun _ => trim_of_map, by simp⟩
  intro p hp
  rw [orderedProperties_eq] at hp
  obtain hp | hp := List.mem_append.mp hp
  · obtain ⟨f, hf, hfp⟩ := List.mem_filterMap.mp hp
    obtain ⟨v, hv, rfl⟩ := Option.map_eq_some_iff.mp hfp
    exact congrArg (f.1, ·) (hfields f hf v hv)
  · obtain ⟨q, -, rfl⟩ := List.mem_map.mp hp
    exact congrArg (q.1, ·) (trim_trim q.2)

/-- A row that reads back keeps all its properties. -/
theorem TxEntry.properties_normalized {entry : TxEntry} (h : entry.validate = .ok ())
    (hround : entry.assertRoundTrip = .ok ()) :
    entry.normalized.orderedProperties.Perm (entry.orderedProperties.map trimmedPair) := by
  unfold assertRoundTrip at hround
  rw [(ledger_render (valid_of_validate h)).parse txEntryDisplay, List.map_cons,
    List.map_nil] at hround
  have heq : entry.trimmedProperties = entry.normalized.trimmedProperties := by
    by_contra hne
    dsimp only at hround
    rw [if_neg hne] at hround
    cases hround
  have hself : entry.normalized.orderedProperties.map trimmedPair =
      entry.normalized.orderedProperties := by
    conv_rhs => rw [← List.map_id entry.normalized.orderedProperties]
    exact List.map_congr_left entry.trimmedPair_normalized
  unfold trimmedProperties at heq
  have hperm := List.perm_insertionSort (fun p q => pairLe p q)
    (entry.orderedProperties.map trimmedPair)
  have hperm' := List.perm_insertionSort (fun p q => pairLe p q)
    (entry.normalized.orderedProperties.map trimmedPair)
  have hsorted : (entry.orderedProperties.map trimmedPair).insertionSort (fun p q => pairLe p q) =
      (entry.normalized.orderedProperties.map trimmedPair).insertionSort fun p q => pairLe p q :=
    heq
  rw [← hsorted, hself] at hperm'
  exact hperm'.symm.trans hperm

/-! ### Runs of the writer -/

theorem trimEndMatches_append {c x : Char} (h : x ≠ c) (a b : Text) :
    trimEndMatches c (a ++ x :: b) = a ++ x :: trimEndMatches c b := by
  induction b using List.reverseRecOn with
  | nil =>
      unfold trimEndMatches
      rw [List.rdropWhile_concat_neg _ _ _ (by simpa using h)]
      rfl
  | append_singleton b y ih =>
      have e : a ++ x :: (b ++ [y]) = (a ++ x :: b) ++ [y] := by simp
      unfold trimEndMatches at ih ⊢
      rw [e]
      by_cases hy : y = c
      · rw [List.rdropWhile_concat_pos _ _ _ (by simpa using hy),
          List.rdropWhile_concat_pos _ _ _ (by simpa using hy), ih]
      · rw [List.rdropWhile_concat_neg _ _ _ (by simpa using hy),
          List.rdropWhile_concat_neg _ _ _ (by simpa using hy), e]

/-- The directives of a fresh ledger are a prelude. -/
theorem prelude_seed {basename : Text} (h : '\n' ∉ basename) :
    Prelude ["#+title: orgasmic tx ".toList ++ basename ++ ['\n'],
      "#+orgasmic_version: 1\n".toList] := by
  have hblank : "#+title: orgasmic tx ".toList = "#+title: orgasmic tx".toList ++ [' '] := by decide
  have hcolon : "title: orgasmic tx ".toList =
      "title".toList ++ ':' :: " orgasmic tx ".toList := by decide
  have hdirective : "#+title: orgasmic tx ".toList =
      "#+".toList ++ "title: orgasmic tx ".toList := by decide
  have hhash : "#+title: orgasmic tx ".toList = '#' :: "+title: orgasmic tx ".toList := by decide
  have hcontent : content ("#+title: orgasmic tx ".toList ++ basename ++ ['\n']) =
      "#+title: orgasmic tx ".toList ++ content (basename ++ ['\n']) := by
    rw [hblank, List.append_assoc, List.append_assoc, List.singleton_append,
      content_append (by decide) (by decide), List.append_assoc, List.singleton_append]
  have hstart : trimStart ("#+title: orgasmic tx ".toList ++ content (basename ++ ['\n'])) =
      "#+title: orgasmic tx ".toList ++ content (basename ++ ['\n']) := by
    rw [hhash, List.cons_append, trimStart_cons_of_not_ws (by decide)]
  refine ⟨?_, ?_, ?_⟩
  · refine List.forall_mem_cons.mpr ⟨⟨_, ?_, rfl⟩, List.forall_mem_cons.mpr
      ⟨⟨"#+orgasmic_version: 1".toList, by decide, rfl⟩, by simp⟩⟩
    rw [List.mem_append, not_or]
    exact ⟨by decide, h⟩
  · refine List.forall_mem_cons.mpr ⟨⟨?_, ?_, ?_⟩, List.forall_mem_cons.mpr
      ⟨⟨by decide, by decide, by decide⟩, by simp⟩⟩
    · rw [hcontent, hhash]
      exact headingLevel_of_head_ne (by decide) _
    · rw [hcontent, startsBlock, hstart]
      rfl
    · rw [hcontent, endsBlock, hstart]
      rfl
  · have htitle : ∃ value, parseKeywordLine
        ("title: orgasmic tx ".toList ++ content (basename ++ ['\n'])) =
          some ("title".toList, value) := by
      have hsplit := splitOnce_append (c := ':') (a := "title".toList) (by decide)
        (trimEndMatches '\r' (" orgasmic tx ".toList ++ content (basename ++ ['\n'])))
      unfold parseKeywordLine
      rw [hcolon, List.append_assoc, List.cons_append, trimEndMatches_append (by decide), hsplit]
      exact ⟨_, rfl⟩
    obtain ⟨value, hvalue⟩ := htitle
    have hprefix : "#+".toList.isPrefixOf? ("#+title: orgasmic tx ".toList ++
        content (basename ++ ['\n'])) =
        some ("title: orgasmic tx ".toList ++ content (basename ++ ['\n'])) := by
      rw [hdirective, List.append_assoc]
      rfl
    have hfirst := readKeywords_directive (r := "#+title: orgasmic tx ".toList ++ basename ++ ['\n'])
      (by rw [hcontent, hstart, hprefix]) hvalue (if_neg (by decide)) 0 []
      ["#+orgasmic_version: 1\n".toList]
    have hsecond := readKeywords_directive (r := "#+orgasmic_version: 1\n".toList)
      (d := "orgasmic_version: 1".toList) (k := "orgasmic_version".toList) (v := "1".toList)
      (by decide) (by decide) (by decide)
    exact ⟨_, by rw [hfirst, hsecond, readKeywords]⟩

theorem Ledger.seed {basename : Text} (h : '\n' ∉ basename) : Ledger (seedText basename) [] :=
  ⟨_, [], prelude_seed h, by simp, (List.append_nil _).symm, rfl⟩

namespace TxWriter

open TxEntry

theorem compose_ok {entries : List TxEntry} {rendered : Text} (h : compose entries = .ok rendered)
    {t : Text} {written : List TxEntry} (ht : Ledger t written) :
    Ledger (t ++ rendered) (written ++ entries) ∧
      ∀ entry ∈ entries, entry.validate = .ok () ∧ entry.assertRoundTrip = .ok () := by
  induction entries generalizing t rendered written with
  | nil =>
      cases h
      exact ⟨by simpa using ht, by simp⟩
  | cons entry entries ih =>
      unfold compose at h
      cases hvalid : entry.validate with
      | error e =>
          rw [hvalid] at h
          cases h
      | ok u =>
          cases hround : entry.assertRoundTrip with
          | error e =>
              rw [hvalid, hround] at h
              cases h
          | ok u' =>
              cases hrest : compose entries with
              | error e =>
                  rw [hvalid, hround, hrest] at h
                  cases h
              | ok rest =>
                  rw [hvalid, hround, hrest] at h
                  cases h
                  obtain ⟨hledger, hall⟩ := ih hrest (ht.blank.entry (valid_of_validate hvalid))
                  refine ⟨?_, List.forall_mem_cons.mpr ⟨⟨hvalid, hround⟩, hall⟩⟩
                  simpa using hledger

/-- A group with a row that is refused. -/
theorem compose_error {entries : List TxEntry}
    (h : ∃ entry ∈ entries, entry.validate ≠ .ok () ∨ entry.assertRoundTrip ≠ .ok ()) :
    ∃ e, compose entries = .error e := by
  cases hc : compose entries with
  | error e => exact ⟨e, rfl⟩
  | ok rendered =>
      obtain ⟨entry, hmem, hrefused⟩ := h
      obtain ⟨-, hall⟩ := compose_ok hc Ledger.nil
      obtain ⟨hvalid, hround⟩ := hall entry hmem
      exact absurd hrefused (by simp [hvalid, hround])

/-- One call. -/
def call (state : TxWriter × List TxEntry) (entries : List TxEntry) : TxWriter × List TxEntry :=
  match state.1.appendMany entries with
  | (w, .ok ()) => (w, state.2 ++ entries)
  | (w, .error _) => (w, state.2)

/-- A session of a writer on the ledger, with the rows of the calls that returned `Ok` so far. -/
def session (basename : Text) (state : Text × List TxEntry) (calls : List (List TxEntry)) :
    Text × List TxEntry :=
  let (w, accepted) := calls.foldl call (openAt basename state.1, state.2)
  (w.text, accepted)

/-- The ledger after some sessions, from no file, and the rows that were accepted. -/
def run (basename : Text) (sessions : List (List (List TxEntry))) : Text × List TxEntry :=
  sessions.foldl (session basename) ([], [])

/-- The file is a ledger of the accepted rows, and these pass the checks. -/
def Accepted (file : Text) (accepted : List TxEntry) : Prop :=
  Ledger file accepted ∧
    ∀ entry ∈ accepted, entry.validate = .ok () ∧ entry.assertRoundTrip = .ok ()

theorem accepted_openAt {basename file : Text} (hb : '\n' ∉ basename) {accepted : List TxEntry}
    (h : Accepted file accepted) : Accepted (openAt basename file).text accepted := by
  unfold openAt
  split_ifs with hnil
  · obtain ⟨⟨P, rows, hP, hrows, ht, rfl⟩, -⟩ := h
    have hempty : rows = [] := by
      cases rows with
      | nil => rfl
      | cons row rows =>
          rw [hnil] at ht
          have := congrArg List.length ht
          simp [rowChunks, Chunk.text, Chunk.lines, entryChunk] at this
    subst hempty
    exact ⟨Ledger.seed hb, by simp⟩
  · exact h

theorem accepted_call {state : TxWriter × List TxEntry} (entries : List TxEntry)
    (h : Accepted state.1.text state.2) :
    Accepted (call state entries).1.text (call state entries).2 := by
  unfold call appendMany
  by_cases hnil : entries = []
  · rw [if_pos hnil, hnil]
    simpa using h
  · rw [if_neg hnil]
    cases hc : compose entries with
    | error e => exact h
    | ok rendered =>
        have hblank : Ledger (state.1.text ++ if state.1.needsLeadingBlank then ['\n'] else [])
            state.2 := by
          split_ifs
          · exact h.1.blank
          · rw [List.append_nil]
            exact h.1
        obtain ⟨hledger, hall⟩ := compose_ok hc hblank
        refine ⟨?_, fun entry hentry => ?_⟩
        · rw [List.append_assoc] at hledger
          exact hledger
        · obtain hentry | hentry := List.mem_append.mp hentry
          · exact h.2 entry hentry
          · exact hall entry hentry

theorem accepted_session {basename : Text} (hb : '\n' ∉ basename) {state : Text × List TxEntry}
    (calls : List (List TxEntry)) (h : Accepted state.1 state.2) :
    Accepted (session basename state calls).1 (session basename state calls).2 := by
  have hcalls : ∀ w : TxWriter × List TxEntry, Accepted w.1.text w.2 →
      Accepted (calls.foldl call w).1.text (calls.foldl call w).2 := by
    induction calls with
    | nil => exact fun _ hw => hw
    | cons entries calls ih => exact fun w hw => ih _ (accepted_call entries hw)
  exact hcalls (openAt basename state.1, state.2) (accepted_openAt hb h)

theorem accepted_run {basename : Text} (hb : '\n' ∉ basename)
    (sessions : List (List (List TxEntry))) :
    Accepted (run basename sessions).1 (run basename sessions).2 := by
  have hsessions : ∀ state : Text × List TxEntry, Accepted state.1 state.2 →
      Accepted (sessions.foldl (session basename) state).1
        (sessions.foldl (session basename) state).2 := by
    induction sessions with
    | nil => exact fun _ h => h
    | cons calls sessions ih => exact fun state h => ih _ (accepted_session hb calls h)
  exact hsessions ([], []) ⟨Ledger.nil, by simp⟩

/-- A group with a row that is refused writes nothing. -/
theorem appendMany_refused {w : TxWriter} {entries : List TxEntry}
    (h : ∃ entry ∈ entries, entry.validate ≠ .ok () ∨ entry.assertRoundTrip ≠ .ok ()) :
    (w.appendMany entries).1 = w ∧ ∃ e, (w.appendMany entries).2 = .error e := by
  obtain ⟨e, he⟩ := compose_error h
  obtain ⟨entry, hmem, -⟩ := h
  unfold appendMany
  rw [if_neg (List.ne_nil_of_mem hmem), he]
  exact ⟨rfl, e, rfl⟩

/-- **What the writer accepted is what the reader reads**, and nothing of a refused group is
written. -/
theorem run_reads_back (basename display : Text) (hb : '\n' ∉ basename)
    (sessions : List (List (List TxEntry))) :
    parseTxFile (run basename sessions).1 display =
        .ok ((run basename sessions).2.map normalized) ∧
      (∀ entry ∈ (run basename sessions).2, entry.normalized.orderedProperties.Perm
        (entry.orderedProperties.map trimmedPair)) ∧
      ∀ (w : TxWriter) (entries : List TxEntry),
        (∃ entry ∈ entries, entry.validate ≠ .ok () ∨ entry.assertRoundTrip ≠ .ok ()) →
        (w.appendMany entries).1 = w ∧ ∃ e, (w.appendMany entries).2 = .error e := by
  obtain ⟨hledger, hchecked⟩ := accepted_run hb sessions
  exact ⟨hledger.parse display, fun entry hentry =>
    properties_normalized (hchecked entry hentry).1 (hchecked entry hentry).2,
    fun w entries => appendMany_refused⟩

/-- A row with a canonical key among its further properties. -/
def actionRow : TxEntry :=
  { TxEntry.new "tx-1".toList "manager.action".toList "[2026-05-21 Thu 19:35:16]".toList
      "manager".toList "m1".toList with
    task := some " TASK-1".toList, extra := [("REASON".toList, "done ".toList)] }

/-- A row with two lines in a value. -/
def brickRow : TxEntry := { actionRow with extra := [("REASON".toList, "a\nb".toList)] }

/-- Two sessions; the group with the second row is refused. -/
theorem run_reads_back_sample :
    (run "2026-05".toList [[[actionRow], [actionRow, brickRow]], [[actionRow]]]).2 =
        [actionRow, actionRow] ∧
      parseTxFile (run "2026-05".toList [[[actionRow], [actionRow, brickRow]], [[actionRow]]]).1
          "2026-05.org".toList =
        .ok ((run "2026-05".toList [[[actionRow], [actionRow, brickRow]], [[actionRow]]]).2.map
          normalized) :=
  ⟨by decide +kernel, (run_reads_back "2026-05".toList "2026-05.org".toList (by decide)
    [[[actionRow], [actionRow, brickRow]], [[actionRow]]]).1⟩

end TxWriter

end Orgasmic
