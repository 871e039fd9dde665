import Orgasmic.TxLedger

/-! # Records beside a node

`node_services.rs` of the core crate: the links and the attachments of a node, which stand in
`links.org` and `attachments.org` as headings with drawers.

* **Reading.** `readLinks` and `readAttachments` take the first property of each name; a link is a
  top-level heading, its anchors are the sections.
* **Writing.** `renderLinks` writes every link with its anchors.
* **Both.** `readLinks_render`: what was rendered is read with the white space around every value
  left out.  `readLinks_stable`: what was read can be rendered, and is then read as it is. -/

namespace Orgasmic

open Text

/-! ### Data -/

structure MediaAnchor where
  attachment : Text
  revision : Text
  startMs : UInt64
  endMs : Option UInt64
  label : Text
deriving DecidableEq

structure LinkRecord where
  id : Text
  source : Text
  target : Text
  kind : Text
  revision : UInt64
  deleted : Bool
  anchors : List MediaAnchor
  actor : Text
  updatedAt : Text
deriving DecidableEq

structure AttachmentRecord where
  id : Text
  node : Text
  name : Text
  revision : Text
  size : UInt64
  mediaType : Text
  actor : Text
  createdAt : Text
  machine : Option Text
deriving DecidableEq

/-- Why records cannot be read. -/
inductive RecordError
  | org (error : OrgError)
  | message (text : Text)
  /-- The text is no `u64`. -/
  | parseInt (text : Text)
deriving DecidableEq

/-! ### Numbers -/

/-- `u64::from_str`: decimal digits after an optional plus sign. -/
def parseU64 (t : Text) : Except RecordError UInt64 :=
  let digits := match t with
    | '+' :: rest => rest
    | t => t
  let n := Nat.ofDigitChars 10 digits 0
  if digits ≠ [] ∧ digits.all Char.isDigit ∧ n < 2 ^ 64 then .ok (.ofNat n)
  else .error (.parseInt t)

/-- `value.map(str::parse).transpose()`. -/
def parseOptionalU64 : Option Text → Except RecordError (Option UInt64)
  | none => .ok none
  | some value => (parseU64 value).map some

/-- A number as it is formatted. -/
def decimal (n : UInt64) : Text := Nat.toDigits 10 n.toNat

theorem isDigit_of_mem_decimal {n : UInt64} {c : Char} (h : c ∈ decimal n) : c.isDigit :=
  Nat.isDigit_of_mem_toDigits (by omega) (by omega) h

theorem parseU64_decimal (n : UInt64) : parseU64 (decimal n) = .ok n := by
  have hdigits : (match decimal n with
      | '+' :: rest => rest
      | t => t) = decimal n := by
    split
    · next rest heq =>
        have hplus : '+' ∈ decimal n := by
          rw [heq]
          exact List.mem_cons_self
        exact absurd (isDigit_of_mem_decimal hplus) (by decide)
    · rfl
  have hvalue : Nat.ofDigitChars 10 (decimal n) 0 = n.toNat := Nat.ofDigitChars_ten_toDigits
  unfold parseU64
  rw [hdigits]
  dsimp only
  rw [hvalue, if_pos ⟨Nat.toDigits_ne_nil, List.all_eq_true.mpr fun _ => isDigit_of_mem_decimal,
    n.toNat_lt⟩, UInt64.ofNat_toNat]

theorem not_whitespace_of_isDigit {c : Char} (h : c.isDigit) : isWhitespace c = false := by
  simp only [Char.isDigit, ge_iff_le, Bool.and_eq_true, decide_eq_true_eq, UInt32.le_iff_toNat_le]
    at h
  obtain ⟨low, high⟩ := h
  have hn : c.toNat = c.val.toNat := rfl
  simp only [isWhitespace, hn, Bool.or_eq_false_iff, Bool.and_eq_false_iff, beq_eq_false_iff_ne,
    decide_eq_false_iff_not, ne_eq]
  simp at low high
  omega

/-! ### Reading -/

/-- A property that every record has. -/
def recordProperty (h : HeadingInfo) (key : Text) : Except RecordError Text :=
  match h.property key with
  | none => .error (.message ("missing ".toList ++ key ++ " in node service record".toList))
  | some value => .ok value

def readAnchor (a : HeadingInfo) : Except RecordError MediaAnchor := do
  let attachment ← recordProperty a "ATTACHMENT".toList
  let revision ← recordProperty a "REVISION".toList
  let startMs ← (recordProperty a "START_MS".toList).bind parseU64
  let endMs ← parseOptionalU64 (a.property "END_MS".toList)
  .ok ⟨attachment, revision, startMs, endMs, (a.property "LABEL".toList).getD []⟩

def readLink (h : Heading) : Except RecordError LinkRecord := do
  let schema ← recordProperty h.toHeadingInfo "SCHEMA".toList
  if schema ≠ "1".toList then .error (.message "unsupported link schema".toList)
  else
    let id ← recordProperty h.toHeadingInfo "ID".toList
    let source ← recordProperty h.toHeadingInfo "SOURCE".toList
    let target ← recordProperty h.toHeadingInfo "TARGET".toList
    let kind ← recordProperty h.toHeadingInfo "KIND".toList
    let revision ← (recordProperty h.toHeadingInfo "REVISION".toList).bind parseU64
    let deleted ← recordProperty h.toHeadingInfo "DELETED".toList
    let actor ← recordProperty h.toHeadingInfo "ACTOR".toList
    let updatedAt ← recordProperty h.toHeadingInfo "UPDATED_AT".toList
    let anchors ← h.sections.mapM fun a => readAnchor a.toHeadingInfo
    .ok ⟨id, source, target, kind, revision, deleted = "true".toList, anchors, actor, updatedAt⟩

def readLinks (source : Text) : Except RecordError (List LinkRecord) := do
  let file ← (OrgFile.parse source "links.org".toList).mapError .org
  file.headings.mapM readLink

def readAttachment (h : HeadingInfo) : Except RecordError AttachmentRecord := do
  let schema ← recordProperty h "SCHEMA".toList
  if schema ≠ "1".toList then .error (.message "unsupported attachment schema".toList)
  else
    let id ← recordProperty h "ID".toList
    let node ← recordProperty h "NODE".toList
    let name ← recordProperty h "NAME".toList
    let revision ← recordProperty h "REVISION".toList
    let size ← (recordProperty h "SIZE".toList).bind parseU64
    let mediaType ← recordProperty h "MEDIA_TYPE".toList
    let actor ← recordProperty h "ACTOR".toList
    let createdAt ← recordProperty h "CREATED_AT".toList
    .ok ⟨id, node, name, revision, size, mediaType, actor, createdAt,
      h.property "MACHINE".toList⟩

def readAttachments (source : Text) : Except RecordError (List AttachmentRecord) := do
  let file ← (OrgFile.parse source "attachments.org".toList).mapError .org
  file.headings.mapM fun h => readAttachment h.toHeadingInfo

/-! ### Rendering -/

def renderAnchor (a : MediaAnchor) : Text :=
  "** Media anchor\n:PROPERTIES:\n:ATTACHMENT: ".toList ++ a.attachment ++
    "\n:REVISION: ".toList ++ a.revision ++ "\n:START_MS: ".toList ++ decimal a.startMs ++
    "\n".toList ++
    (match a.endMs with
      | none => []
      | some stop => ":END_MS: ".toList ++ decimal stop ++ "\n".toList) ++
    (if a.label = [] then [] else ":LABEL: ".toList ++ a.label ++ "\n".toList) ++
    ":END:\n".toList

def renderLink (r : LinkRecord) : Text :=
  "* Link\n:PROPERTIES:\n:SCHEMA: 1\n:ID: ".toList ++ r.id ++ "\n:SOURCE: ".toList ++ r.source ++
    "\n:TARGET: ".toList ++ r.target ++ "\n:KIND: ".toList ++ r.kind ++
    "\n:REVISION: ".toList ++ decimal r.revision ++
    "\n:DELETED: ".toList ++ (if r.deleted then "true".toList else "false".toList) ++
    "\n:ACTOR: ".toList ++ r.actor ++ "\n:UPDATED_AT: ".toList ++ r.updatedAt ++
    "\n:END:\n".toList ++ r.anchors.flatMap renderAnchor

def renderLinks (records : List LinkRecord) : Text :=
  "#+title: Node links\n".toList ++ records.flatMap renderLink

/-! ### What is written of a record -/

/-- The line of a property. -/
def propertyRow (p : Text × Text) : Text := ":".toList ++ p.1 ++ ": ".toList ++ p.2

/-- A name that a drawer can carry. -/
def RowKey (key : Text) : Prop :=
  key ≠ [] ∧ ':' ∉ key ∧ key ≠ "END".toList ∧ '\n' ∉ key

instance (key : Text) : Decidable (RowKey key) := inferInstanceAs (Decidable (_ ∧ _))

theorem propertyRow_line {p : Text × Text} (hkey : RowKey p.1) (hvalue : OneLine p.2) :
    PropertyLine p.1 p.2 (propertyRow p) := by
  obtain ⟨hne, hcolon, hend, hline⟩ := hkey
  have hfront : OneLine (":".toList ++ p.1 ++ ": ".toList) := by
    refine ⟨?_, ?_⟩
    · rw [List.mem_append, List.mem_append, not_or, not_or]
      exact ⟨⟨by decide, hline⟩, by decide⟩
    · rw [List.getLast?_append_of_ne_nil _ (by decide)]
      decide
  refine ⟨hne, hcolon, hend, ⟨' ' :: p.2, ?_, ?_⟩, hfront.append hvalue⟩
  · simp [propertyRow]
  · exact trim_blank_append (w := [' ']) (by decide) p.2

def linkFields (r : LinkRecord) : List (Text × Option Text) :=
  [("SCHEMA".toList, some "1".toList), ("ID".toList, some r.id), ("SOURCE".toList, some r.source),
    ("TARGET".toList, some r.target), ("KIND".toList, some r.kind),
    ("REVISION".toList, some (decimal r.revision)),
    ("DELETED".toList, some (if r.deleted then "true".toList else "false".toList)),
    ("ACTOR".toList, some r.actor), ("UPDATED_AT".toList, some r.updatedAt)]

def anchorFields (a : MediaAnchor) : List (Text × Option Text) :=
  [("ATTACHMENT".toList, some a.attachment), ("REVISION".toList, some a.revision),
    ("START_MS".toList, some (decimal a.startMs)), ("END_MS".toList, a.endMs.map decimal),
    ("LABEL".toList, if a.label = [] then none else some a.label)]

theorem linkFields_nodup (r : LinkRecord) : ((linkFields r).map Prod.fst).Nodup := by
  have hkeys : (linkFields r).map Prod.fst = ["SCHEMA".toList, "ID".toList, "SOURCE".toList,
      "TARGET".toList, "KIND".toList, "REVISION".toList, "DELETED".toList, "ACTOR".toList,
      "UPDATED_AT".toList] := rfl
  rw [hkeys]
  decide

theorem anchorFields_nodup (a : MediaAnchor) : ((anchorFields a).map Prod.fst).Nodup := by
  have hkeys : (anchorFields a).map Prod.fst = ["ATTACHMENT".toList, "REVISION".toList,
      "START_MS".toList, "END_MS".toList, "LABEL".toList] := rfl
  rw [hkeys]
  decide

/-- The rows of the fields that are set. -/
def fieldRows (fs : List (Text × Option Text)) : List Text :=
  (TxEntry.fieldPairs fs).map propertyRow

def linkChunk (r : LinkRecord) : Chunk := drawerChunk "* Link".toList (fieldRows (linkFields r)) 0

def anchorChunk (a : MediaAnchor) : Chunk :=
  drawerChunk "** Media anchor".toList (fieldRows (anchorFields a)) 0

/-- The text of a heading is its lines. -/
theorem drawerChunk_rows (title : Text) (rows : List Text) :
    (drawerChunk title rows 0).text =
      title ++ "\n:PROPERTIES:\n".toList ++ rows.flatMap (· ++ ['\n']) ++ ":END:\n".toList := by
  have hopen : "\n:PROPERTIES:\n".toList = ['\n'] ++ ":PROPERTIES:".toList ++ ['\n'] := by decide
  have hclose : ":END:\n".toList = ":END:".toList ++ ['\n'] := by decide
  rw [drawerChunk_text, hopen, hclose]
  simp only [List.flatMap_cons, List.flatMap_append, List.flatMap_nil, List.replicate_zero,
    List.append_nil, List.append_assoc]

theorem renderAnchor_eq (a : MediaAnchor) : renderAnchor a = (anchorChunk a).text := by
  have hopen : "** Media anchor\n:PROPERTIES:\n:ATTACHMENT: ".toList =
      "** Media anchor".toList ++ "\n:PROPERTIES:\n".toList ++
        (":".toList ++ "ATTACHMENT".toList ++ ": ".toList) := by decide
  have hrevision : "\n:REVISION: ".toList =
      ['\n'] ++ (":".toList ++ "REVISION".toList ++ ": ".toList) := by decide
  have hstart : "\n:START_MS: ".toList =
      ['\n'] ++ (":".toList ++ "START_MS".toList ++ ": ".toList) := by decide
  have hend : ":END_MS: ".toList = ":".toList ++ "END_MS".toList ++ ": ".toList := by
    decide
  have hlabel : ":LABEL: ".toList = ":".toList ++ "LABEL".toList ++ ": ".toList := by
    decide
  have hline : "\n".toList = ['\n'] := by decide
  unfold anchorChunk renderAnchor
  simp only [drawerChunk_rows, hopen, hrevision, hstart, hend, hlabel, hline]
  unfold fieldRows TxEntry.fieldPairs anchorFields
  cases a.endMs <;> split_ifs <;>
    simp only [List.filterMap_cons, List.filterMap_nil, Option.map_some, Option.map_none,
      List.map_cons, List.map_nil, List.flatMap_cons, List.flatMap_nil, propertyRow,
      List.append_assoc, List.append_nil]

theorem renderLink_eq (r : LinkRecord) :
    renderLink r = (linkChunk r).text ++ r.anchors.flatMap fun a => (anchorChunk a).text := by
  have hanchors : r.anchors.flatMap renderAnchor =
      r.anchors.flatMap fun a => (anchorChunk a).text :=
    List.flatMap_congr fun a _ => renderAnchor_eq a
  have hopen : "* Link\n:PROPERTIES:\n:SCHEMA: 1\n:ID: ".toList =
      "* Link".toList ++ "\n:PROPERTIES:\n".toList ++
        (":".toList ++ "SCHEMA".toList ++ ": ".toList ++ "1".toList) ++ ['\n'] ++
          (":".toList ++ "ID".toList ++ ": ".toList) := by decide
  have hsource : "\n:SOURCE: ".toList =
      ['\n'] ++ (":".toList ++ "SOURCE".toList ++ ": ".toList) := by decide
  have htarget : "\n:TARGET: ".toList =
      ['\n'] ++ (":".toList ++ "TARGET".toList ++ ": ".toList) := by decide
  have hkind : "\n:KIND: ".toList =
      ['\n'] ++ (":".toList ++ "KIND".toList ++ ": ".toList) := by decide
  have hrevision : "\n:REVISION: ".toList =
      ['\n'] ++ (":".toList ++ "REVISION".toList ++ ": ".toList) := by decide
  have hdeleted : "\n:DELETED: ".toList =
      ['\n'] ++ (":".toList ++ "DELETED".toList ++ ": ".toList) := by decide
  have hactor : "\n:ACTOR: ".toList =
      ['\n'] ++ (":".toList ++ "ACTOR".toList ++ ": ".toList) := by decide
  have hupdated : "\n:UPDATED_AT: ".toList =
      ['\n'] ++ (":".toList ++ "UPDATED_AT".toList ++ ": ".toList) := by decide
  have hclose : "\n:END:\n".toList = ['\n'] ++ ":END:\n".toList := by decide
  unfold linkChunk renderLink
  simp only [drawerChunk_rows, hanchors, hopen, hsource, htarget, hkind, hrevision, hdeleted,
    hactor, hupdated, hclose]
  unfold fieldRows TxEntry.fieldPairs linkFields
  simp only [List.filterMap_cons, List.filterMap_nil, Option.map_some, List.map_cons, List.map_nil,
    List.flatMap_cons, List.flatMap_nil, propertyRow, List.append_assoc, List.append_nil]

/-! ### What fits on its line -/

structure MediaAnchor.Fits (a : MediaAnchor) : Prop where
  attachment : OneLine a.attachment
  revision : OneLine a.revision
  label : OneLine a.label

structure LinkRecord.Fits (r : LinkRecord) : Prop where
  id : OneLine r.id
  source : OneLine r.source
  target : OneLine r.target
  kind : OneLine r.kind
  actor : OneLine r.actor
  updatedAt : OneLine r.updatedAt
  anchors : ∀ a ∈ r.anchors, a.Fits

/-- The anchor with the white space around its values left out. -/
def MediaAnchor.normalized (a : MediaAnchor) : MediaAnchor :=
  { a with attachment := trim a.attachment, revision := trim a.revision, label := trim a.label }

/-- The record with the white space around its values left out. -/
def LinkRecord.normalized (r : LinkRecord) : LinkRecord :=
  { r with
    id := trim r.id
    source := trim r.source
    target := trim r.target
    kind := trim r.kind
    actor := trim r.actor
    updatedAt := trim r.updatedAt
    anchors := r.anchors.map MediaAnchor.normalized }

theorem oneLine_decimal (n : UInt64) : OneLine (decimal n) := by
  refine ⟨fun hc => absurd (isDigit_of_mem_decimal hc) (by decide), fun hlast => ?_⟩
  exact absurd (isDigit_of_mem_decimal (List.mem_of_getLast? hlast)) (by decide)

/-- A text without white space is trimmed. -/
theorem trim_of_inked {t : Text} (h : ∀ c ∈ t, isWhitespace c = false) : trim t = t := by
  have hstart : trimStart t = t := by
    unfold trimStart
    rw [List.dropWhile_eq_self_iff]
    intro hlen hfirst
    rw [h _ (List.getElem_mem hlen)] at hfirst
    cases hfirst
  rw [trim, hstart]
  unfold trimEnd
  rw [List.rdropWhile_eq_self_iff]
  intro hne hlast
  rw [h _ (List.getLast_mem hne)] at hlast
  cases hlast

theorem trim_decimal (n : UInt64) : trim (decimal n) = decimal n :=
  trim_of_inked fun _ hc => not_whitespace_of_isDigit (isDigit_of_mem_decimal hc)

/-- Fields with names that a drawer can carry and values that fit on a line. -/
theorem drawn_fields {fs : List (Text × Option Text)} {level : ℕ} {title : Text}
    (hlevel : headingLevel title = some level) (hone : OneLine title)
    (h : ∀ f ∈ fs, RowKey f.1 ∧ ∀ value, f.2 = some value → OneLine value) :
    Drawn level title (TxEntry.fieldPairs fs) (fieldRows fs) where
  level_eq := hlevel
  one := hone
  lines := by
    rw [fieldRows, List.forall₂_map_right_iff, List.forall₂_same]
    intro p hp
    obtain ⟨f, hf, hfp⟩ := List.mem_filterMap.mp hp
    obtain ⟨value, hvalue, rfl⟩ := Option.map_eq_some_iff.mp hfp
    exact propertyRow_line (h f hf).1 ((h f hf).2 value hvalue)

theorem drawn_link {r : LinkRecord} (h : r.Fits) :
    Drawn 1 "* Link".toList (TxEntry.fieldPairs (linkFields r)) (fieldRows (linkFields r)) := by
  refine drawn_fields (by decide) (by decide) ?_
  have field : ∀ {key value : Text}, RowKey key → OneLine value →
      RowKey key ∧ ∀ v, some value = some v → OneLine v := by
    intro key value hkey hvalue
    refine ⟨hkey, fun v hv => ?_⟩
    rw [← Option.some.inj hv]
    exact hvalue
  simp only [linkFields, List.forall_mem_cons]
  refine ⟨field (by decide) (by decide), field (by decide) h.id, field (by decide) h.source,
    field (by decide) h.target, field (by decide) h.kind, field (by decide) (oneLine_decimal _),
    field (by decide) ?_, field (by decide) h.actor, field (by decide) h.updatedAt, by simp⟩
  split
  · decide
  · decide

theorem drawn_anchor {a : MediaAnchor} (h : a.Fits) :
    Drawn 2 "** Media anchor".toList (TxEntry.fieldPairs (anchorFields a))
      (fieldRows (anchorFields a)) := by
  refine drawn_fields (by decide) (by decide) ?_
  simp only [anchorFields, List.forall_mem_cons]
  refine ⟨⟨by decide, ?_⟩, ⟨by decide, ?_⟩, ⟨by decide, ?_⟩, ⟨by decide, ?_⟩, ⟨by decide, ?_⟩,
    by simp⟩
  · rintro _ ⟨⟩
    exact h.attachment
  · rintro _ ⟨⟩
    exact h.revision
  · rintro _ ⟨⟩
    exact oneLine_decimal _
  · intro value hvalue
    obtain ⟨n, -, rfl⟩ := Option.map_eq_some_iff.mp hvalue
    exact oneLine_decimal n
  · intro value hvalue
    split at hvalue
    · cases hvalue
    · cases hvalue
      exact h.label

/-! ### Reading what was rendered -/

def linkNode (r : LinkRecord) : Node :=
  ⟨1, none, "Link".toList, [], (TxEntry.fieldPairs (linkFields r)).map trimmedValue, []⟩

def anchorNode (a : MediaAnchor) : Node :=
  ⟨2, none, "Media anchor".toList, [], (TxEntry.fieldPairs (anchorFields a)).map trimmedValue, []⟩

theorem linkChunk_node {r : LinkRecord} (h : r.Fits) :
    (linkChunk r).node [] = some (linkNode r) := by
  have hparsed : parseHeadingLine "* Link".toList 1 [] = some ⟨none, "Link".toList, []⟩ := by
    decide
  exact (drawn_link h).node 0 hparsed

theorem anchorChunk_node {a : MediaAnchor} (h : a.Fits) :
    (anchorChunk a).node [] = some (anchorNode a) := by
  have hparsed : parseHeadingLine "** Media anchor".toList 2 [] =
      some ⟨none, "Media anchor".toList, []⟩ := by decide
  exact (drawn_anchor h).node 0 hparsed

/-- The property that is read where these fields were written. -/
theorem property_of_fields {source : Text} {i : HeadingInfo} {fs : List (Text × Option Text)}
    (hnodup : (fs.map Prod.fst).Nodup)
    (h : (i.node source).properties = (TxEntry.fieldPairs fs).map trimmedValue)
    {key : Text} {value : Option Text} (hmem : (key, value) ∈ fs) :
    i.property key = value.map trim := by
  have hkey : (fun p : Text × Text => decide (p.1 = key)) ∘ trimmedValue =
      fun p => decide (p.1 = key) := rfl
  rw [← i.node_property source, Node.property, h, List.find?_map, hkey,
    TxEntry.find?_fieldPairs hnodup hmem, Option.map_map]
  cases value <;> rfl

theorem readAnchor_eq {source : Text} {i : HeadingInfo} {a : MediaAnchor}
    (h : i.node source = anchorNode a) : readAnchor i = .ok a.normalized := by
  have hproperty : ∀ {key : Text} {value : Option Text} (n : ℕ),
      (anchorFields a)[n]? = some (key, value) → i.property key = value.map trim :=
    fun n hn => property_of_fields (anchorFields_nodup a) (congrArg Node.properties h) (List.mem_of_getElem? hn)
  have hrequired : ∀ {key value : Text} (n : ℕ), (anchorFields a)[n]? = some (key, some value) →
      recordProperty i key = .ok (trim value) := by
    intro key value n hn
    rw [recordProperty, hproperty n hn]
    rfl
  have hend : parseOptionalU64 (i.property "END_MS".toList) = .ok a.endMs := by
    rw [hproperty 3 rfl]
    cases a.endMs with
    | none => rfl
    | some stop =>
        rw [Option.map_some, Option.map_some, trim_decimal, parseOptionalU64, parseU64_decimal]
        rfl
  have hlabel : (i.property "LABEL".toList).getD [] = trim a.label := by
    rw [hproperty 4 rfl]
    split
    · next hnil =>
        rw [hnil]
        rfl
    · rfl
  unfold readAnchor
  rw [hrequired 0 rfl, hrequired 1 rfl, hrequired 2 rfl, hend, hlabel]
  simp only [Except.bind, bind, trim_decimal, parseU64_decimal]
  rfl

theorem readAnchors_eq {source : Text} {sections : List Heading} {anchors : List MediaAnchor}
    (h : (sections.map fun s => s.node source) = anchors.map anchorNode) :
    (sections.mapM fun a => readAnchor a.toHeadingInfo) =
      .ok (anchors.map MediaAnchor.normalized) := by
  induction sections generalizing anchors with
  | nil =>
      rw [List.map_nil] at h
      rw [List.map_eq_nil_iff.mp h.symm]
      rfl
  | cons s sections ih =>
      obtain ⟨a, anchors, rfl, ha, hanchors⟩ := List.map_eq_cons_iff.mp h.symm
      rw [List.mapM_cons, readAnchor_eq ha.symm, ih hanchors.symm]
      rfl

theorem readLink_eq {source : Text} {h : Heading} {r : LinkRecord}
    (hgroup : h.groupNodes source = (linkNode r, r.anchors.map anchorNode)) :
    readLink h = .ok r.normalized := by
  obtain ⟨hnode, hsections⟩ := Prod.mk.inj hgroup
  have hrequired : ∀ {key value : Text} (n : ℕ), (linkFields r)[n]? = some (key, some value) →
      recordProperty h.toHeadingInfo key = .ok (trim value) := by
    intro key value n hn
    rw [recordProperty, property_of_fields (linkFields_nodup r)
      (congrArg Node.properties hnode) (List.mem_of_getElem? hn)]
    rfl
  have hdeleted : decide (trim (if r.deleted then "true".toList else "false".toList) =
      "true".toList) = r.deleted := by
    cases r.deleted <;> decide
  unfold readLink
  rw [hrequired 0 rfl, hrequired 1 rfl, hrequired 2 rfl, hrequired 3 rfl, hrequired 4 rfl,
    hrequired 5 rfl, hrequired 6 rfl, hrequired 7 rfl, hrequired 8 rfl,
    readAnchors_eq hsections]
  have hschema : ¬ trim "1".toList ≠ "1".toList := by decide
  simp only [Except.bind, bind, if_neg hschema, trim_decimal, parseU64_decimal, hdeleted]
  rfl

theorem prelude_links : Prelude ["#+title: Node links\n".toList] := by
  refine ⟨List.forall_mem_singleton.mpr ⟨"#+title: Node links".toList, by decide, by decide⟩,
    List.forall_mem_singleton.mpr ⟨by decide, by decide, by decide⟩, ?_⟩
  have htitle := readKeywords_directive (r := "#+title: Node links\n".toList)
    (d := "title: Node links".toList) (k := "title".toList) (v := "Node links".toList)
    (by decide) (by decide) (by decide) 0 [] []
  exact ⟨_, htitle⟩

/-- A link with its anchors. -/
def linkChunks (r : LinkRecord) : List Chunk := linkChunk r :: r.anchors.map anchorChunk

theorem renderLinks_eq (records : List LinkRecord) :
    renderLinks records = ["#+title: Node links\n".toList].flatten ++
      (records.flatMap linkChunks).flatMap Chunk.text := by
  have hlink : ∀ r, renderLink r = (linkChunks r).flatMap Chunk.text := by
    intro r
    rw [renderLink_eq, linkChunks, List.flatMap_cons, List.flatMap_map]
  have hlinks : records.flatMap renderLink = (records.flatMap linkChunks).flatMap Chunk.text := by
    rw [List.flatMap_assoc]
    exact List.flatMap_congr fun r _ => hlink r
  unfold renderLinks
  simp only [hlinks, List.flatten_cons, List.flatten_nil, List.append_nil]

/-- **What was rendered is read**, with the white space around every value left out. -/
theorem readLinks_render {records : List LinkRecord} (h : ∀ r ∈ records, r.Fits) :
    readLinks (renderLinks records) = .ok (records.map LinkRecord.normalized) := by
  have hdrawn : ∀ c ∈ records.flatMap linkChunks, IsDrawn c := by
    intro c hc
    obtain ⟨r, hr, hc⟩ := List.mem_flatMap.mp hc
    obtain rfl | hc := List.mem_cons.mp hc
    · exact ⟨1, _, _, _, 0, drawn_link (h r hr), rfl⟩
    · obtain ⟨a, ha, rfl⟩ := List.mem_map.mp hc
      exact ⟨2, _, _, _, 0, drawn_anchor ((h r hr).anchors a ha), rfl⟩
  have hchunks : chunksOf (renderLinks records) =
      (["#+title: Node links\n".toList], records.flatMap linkChunks) := by
    rw [renderLinks_eq]
    exact chunksOf_drawn prelude_links hdrawn
  have hnodes : (records.flatMap linkChunks).map (Chunk.node []) =
      (Segment.join (records.map fun r => (linkNode r, r.anchors.map anchorNode))).map some := by
    clear hchunks hdrawn
    induction records with
    | nil => rfl
    | cons r records ih =>
        obtain ⟨hr, hrecords⟩ := List.forall_mem_cons.mp h
        have hanchors : (r.anchors.map anchorChunk).map (Chunk.node []) =
            (r.anchors.map anchorNode).map some := by
          rw [List.map_map, List.map_map]
          exact List.map_congr_left fun a ha => anchorChunk_node (hr.anchors a ha)
        rw [List.flatMap_cons, List.map_append, ih hrecords, linkChunks, List.map_cons,
          linkChunk_node hr, hanchors, List.map_cons, Segment.join_cons, List.map_cons,
          List.map_append, List.cons_append]
  obtain ⟨keywords, hkeywords⟩ := prelude_links.declares
  obtain ⟨f, hf, hsource, hgroups⟩ := parse_groups "links.org".toList hchunks hkeywords hnodes
    (by
      intro g hg
      obtain ⟨r, -, rfl⟩ := List.mem_map.mp hg
      refine ⟨rfl, fun n hn => ?_⟩
      obtain ⟨a, -, rfl⟩ := List.mem_map.mp hn
      rfl)
  have hread : ∀ {hs : List Heading} {records : List LinkRecord},
      hs.map (Heading.groupNodes (renderLinks records)) =
        records.map (fun r => (linkNode r, r.anchors.map anchorNode)) →
      hs.mapM readLink = .ok (records.map LinkRecord.normalized) := by
    intro hs records heq
    generalize renderLinks records = text at heq
    induction hs generalizing records with
    | nil =>
        rw [List.map_nil] at heq
        rw [List.map_eq_nil_iff.mp heq.symm]
        rfl
    | cons heading hs ih =>
        obtain ⟨r, records, rfl, hr, hrecords⟩ := List.map_eq_cons_iff.mp heq.symm
        rw [List.mapM_cons, readLink_eq hr.symm, ih hrecords.symm]
        rfl
  unfold readLinks
  rw [hf]
  exact hread hgroups

/-- A file that is a prelude and headings with drawers is read heading by heading. -/
theorem parse_drawers {α : Type} {P : List Text} {chunk : α → Chunk}
    {fields : α → List (Text × Option Text)} {xs : List α} {source : Text} (display : Text)
    (hP : Prelude P) (htext : source = P.flatten ++ (xs.map chunk).flatMap Chunk.text)
    (hdrawn : ∀ x ∈ xs, IsDrawn (chunk x))
    (hnode : ∀ x ∈ xs, ∃ n, (chunk x).node [] = some n ∧ n.level = 1 ∧
      n.properties = (TxEntry.fieldPairs (fields x)).map trimmedValue) :
    ∃ f, OrgFile.parse source display = .ok f ∧
      List.Forall₂ (fun (heading : Heading) x => (heading.toHeadingInfo.node source).properties =
        (TxEntry.fieldPairs (fields x)).map trimmedValue) f.headings xs := by
  have hchunks := chunksOf_drawn hP (List.forall_mem_map.mpr hdrawn)
  rw [← htext] at hchunks
  obtain ⟨keywords, hkeywords⟩ := hP.declares
  obtain ⟨f, hf, -, hnodes, -⟩ := parse_top display hchunks hkeywords
    (List.forall_mem_map.mpr fun x hx => by
      obtain ⟨n, hn, hlevel, -⟩ := hnode x hx
      exact ⟨n, hn, hlevel⟩)
  refine ⟨f, hf, ?_⟩
  rw [List.map_map] at hnodes
  clear hf hchunks hdrawn htext
  generalize f.headings = headings at hnodes ⊢
  induction xs generalizing headings with
  | nil =>
      rw [List.map_nil] at hnodes
      rw [List.map_eq_nil_iff.mp hnodes]
      exact List.Forall₂.nil
  | cons x xs ih =>
      obtain ⟨heading, rest, rfl, hfirst, hrest⟩ := List.map_eq_cons_iff.mp hnodes
      obtain ⟨hx, hxs⟩ := List.forall_mem_cons.mp hnode
      obtain ⟨n, hn, -, hproperties⟩ := hx
      rw [Function.comp_apply, hn] at hfirst
      refine List.Forall₂.cons ?_ (ih hxs rest hrest)
      rw [Option.some.inj hfirst]
      exact hproperties

/-! ### What was read -/

theorem of_bind_ok {ε α β : Type} {x : Except ε α} {f : α → Except ε β} {b : β}
    (h : (x >>= f) = .ok b) : ∃ a, x = .ok a ∧ f a = .ok b := by
  cases x with
  | error e => cases h
  | ok a => exact ⟨a, rfl, h⟩

/-- Every element of the result was read from an element of the list. -/
theorem mem_of_mapM {ε α β : Type} {f : α → Except ε β} {xs : List α} {ys : List β}
    (h : xs.mapM f = .ok ys) {y : β} (hy : y ∈ ys) : ∃ x ∈ xs, f x = .ok y := by
  induction xs generalizing ys with
  | nil =>
      cases h
      cases hy
  | cons x xs ih =>
      rw [List.mapM_cons] at h
      obtain ⟨y', hx, h⟩ := of_bind_ok h
      obtain ⟨ys', hxs, h⟩ := of_bind_ok h
      cases h
      obtain rfl | hy := List.mem_cons.mp hy
      · exact ⟨x, List.mem_cons_self, hx⟩
      · obtain ⟨x', hmem, hx'⟩ := ih hxs hy
        exact ⟨x', List.mem_cons_of_mem _ hmem, hx'⟩

/-- Every element of the list was read. -/
theorem forall_of_mapM {ε α β : Type} {f : α → Except ε β} {xs : List α} {ys : List β}
    (h : xs.mapM f = .ok ys) : ∀ x ∈ xs, ∃ y, f x = .ok y := by
  induction xs generalizing ys with
  | nil => simp
  | cons x xs ih =>
      rw [List.mapM_cons] at h
      obtain ⟨y, hx, h⟩ := of_bind_ok h
      obtain ⟨ys', hxs, -⟩ := of_bind_ok h
      exact List.forall_mem_cons.mpr ⟨⟨y, hx⟩, ih hxs⟩

theorem of_mapError_ok {ε ε' α : Type} {x : Except ε α} {f : ε → ε'} {a : α}
    (h : x.mapError f = .ok a) : x = .ok a := by
  cases x with
  | error e => cases h
  | ok b =>
      cases h
      rfl

theorem recordProperty_ok {i : HeadingInfo} {key value : Text}
    (h : recordProperty i key = .ok value) : i.property key = some value := by
  unfold recordProperty at h
  split at h
  · cases h
  · next hproperty =>
      cases h
      exact hproperty

/-- The properties of the heading are values. -/
def Valued (i : HeadingInfo) : Prop := ∀ key value, i.property key = some value → IsValue value

theorem Valued.required {i : HeadingInfo} (h : Valued i) {key value : Text}
    (hread : recordProperty i key = .ok value) : IsValue value :=
  h key value (recordProperty_ok hread)

/-- The record can be rendered, and is then read as it is. -/
def LinkRecord.Stable (r : LinkRecord) : Prop := r.Fits ∧ r.normalized = r

def MediaAnchor.Stable (a : MediaAnchor) : Prop := a.Fits ∧ a.normalized = a

theorem readAnchor_stable {i : HeadingInfo} (hi : Valued i) {a : MediaAnchor}
    (h : readAnchor i = .ok a) : a.Stable := by
  unfold readAnchor at h
  obtain ⟨attachment, hattachment, h⟩ := of_bind_ok h
  obtain ⟨revision, hrevision, h⟩ := of_bind_ok h
  obtain ⟨startMs, -, h⟩ := of_bind_ok h
  obtain ⟨endMs, -, h⟩ := of_bind_ok h
  cases h
  have hlabel : IsValue ((i.property "LABEL".toList).getD []) := by
    cases hproperty : i.property "LABEL".toList with
    | none => decide
    | some label => exact hi _ label hproperty
  have ha := hi.required hattachment
  have hr := hi.required hrevision
  refine ⟨⟨ha.oneLine, hr.oneLine, hlabel.oneLine⟩, ?_⟩
  unfold MediaAnchor.normalized
  rw [ha.2, hr.2, hlabel.2]

theorem readLink_stable {h : Heading} (hi : Valued h.toHeadingInfo)
    (hs : ∀ s ∈ h.sections, Valued s.toHeadingInfo) {r : LinkRecord} (hr : readLink h = .ok r) :
    r.Stable := by
  unfold readLink at hr
  obtain ⟨schema, -, hr⟩ := of_bind_ok hr
  split_ifs at hr
  obtain ⟨id, hid, hr⟩ := of_bind_ok hr
  obtain ⟨source, hsource, hr⟩ := of_bind_ok hr
  obtain ⟨target, htarget, hr⟩ := of_bind_ok hr
  obtain ⟨kind, hkind, hr⟩ := of_bind_ok hr
  obtain ⟨revision, -, hr⟩ := of_bind_ok hr
  obtain ⟨deleted, -, hr⟩ := of_bind_ok hr
  obtain ⟨actor, hactor, hr⟩ := of_bind_ok hr
  obtain ⟨updatedAt, hupdated, hr⟩ := of_bind_ok hr
  obtain ⟨anchors, hanchors, hr⟩ := of_bind_ok hr
  cases hr
  have hstable : ∀ a ∈ anchors, a.Stable := by
    intro a ha
    obtain ⟨s, hmem, hread⟩ := mem_of_mapM hanchors ha
    exact readAnchor_stable (hs s hmem) hread
  have vid := hi.required hid
  have vsource := hi.required hsource
  have vtarget := hi.required htarget
  have vkind := hi.required hkind
  have vactor := hi.required hactor
  have vupdated := hi.required hupdated
  refine ⟨⟨vid.oneLine, vsource.oneLine, vtarget.oneLine, vkind.oneLine, vactor.oneLine,
    vupdated.oneLine, fun a ha => (hstable a ha).1⟩, ?_⟩
  have hsame : anchors.map MediaAnchor.normalized = anchors := by
    conv_rhs => rw [← List.map_id anchors]
    exact List.map_congr_left fun a ha => (hstable a ha).2
  unfold LinkRecord.normalized
  dsimp only
  rw [vid.2, vsource.2, vtarget.2, vkind.2, vactor.2, vupdated.2, hsame]

/-- **What was read can be rendered**, and is then read as it is. -/
theorem readLinks_stable {source : Text} {records : List LinkRecord}
    (h : readLinks source = .ok records) : ∀ r ∈ records, r.Stable := by
  intro r hr
  unfold readLinks at h
  cases hf : OrgFile.parse source "links.org".toList with
  | error e =>
      rw [hf] at h
      cases h
  | ok f =>
      rw [hf] at h
      obtain ⟨heading, hmem, hread⟩ := mem_of_mapM h hr
      refine readLink_stable ?_ (fun s hs => ?_) hread
      · exact fun key value => property_value hf (mem_flattenAll hmem)
      · exact fun key value => property_value hf (mem_flattenAll_section hs hmem)

/-- What an attachment is named by. -/
theorem readAttachments_values {source : Text} {records : List AttachmentRecord}
    (h : readAttachments source = .ok records) :
    ∀ r ∈ records, IsValue r.id ∧ IsValue r.revision := by
  intro r hr
  unfold readAttachments at h
  cases hf : OrgFile.parse source "attachments.org".toList with
  | error e =>
      rw [hf] at h
      cases h
  | ok f =>
      rw [hf] at h
      obtain ⟨heading, hmem, hread⟩ := mem_of_mapM h hr
      have hi : Valued heading.toHeadingInfo :=
        fun key value => property_value hf (mem_flattenAll hmem)
      unfold readAttachment at hread
      obtain ⟨schema, -, hread⟩ := of_bind_ok hread
      split_ifs at hread
      obtain ⟨id, hid, hread⟩ := of_bind_ok hread
      obtain ⟨node, -, hread⟩ := of_bind_ok hread
      obtain ⟨name, -, hread⟩ := of_bind_ok hread
      obtain ⟨revision, hrevision, hread⟩ := of_bind_ok hread
      obtain ⟨size, -, hread⟩ := of_bind_ok hread
      obtain ⟨mediaType, -, hread⟩ := of_bind_ok hread
      obtain ⟨actor, -, hread⟩ := of_bind_ok hread
      obtain ⟨createdAt, -, hread⟩ := of_bind_ok hread
      cases hread
      exact ⟨hi.required hid, hi.required hrevision⟩

end Orgasmic
