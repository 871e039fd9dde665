import Orgasmic.NodeRecords

/-! # The attachments of a node

`attachments.org` of a node has one heading for each attachment.

* **Writing.** `renderAttachments` writes the records, `readAttachments_render` reads them again.
* **Reading.** What was read can be rendered, and is then read as it is: `readAttachments_stable`. -/

namespace Orgasmic

open Text

def renderAttachment (r : AttachmentRecord) : Text :=
  "* Attachment\n:PROPERTIES:\n:SCHEMA: 1\n:ID: ".toList ++ r.id ++ "\n:NODE: ".toList ++ r.node ++
    "\n:NAME: ".toList ++ r.name ++ "\n:REVISION: ".toList ++ r.revision ++
    "\n:SIZE: ".toList ++ decimal r.size ++ "\n:MEDIA_TYPE: ".toList ++ r.mediaType ++
    "\n:ACTOR: ".toList ++ r.actor ++ "\n:CREATED_AT: ".toList ++ r.createdAt ++ "\n".toList ++
    (match r.machine with
      | none => []
      | some machine => ":MACHINE: ".toList ++ machine ++ "\n".toList) ++
    ":END:\n".toList

def renderAttachments (records : List AttachmentRecord) : Text :=
  "#+title: Node attachments\n".toList ++ records.flatMap renderAttachment

/-! ### What is written of a record -/

def attachmentFields (r : AttachmentRecord) : List (Text × Option Text) :=
  [("SCHEMA".toList, some "1".toList), ("ID".toList, some r.id), ("NODE".toList, some r.node),
    ("NAME".toList, some r.name), ("REVISION".toList, some r.revision),
    ("SIZE".toList, some (decimal r.size)), ("MEDIA_TYPE".toList, some r.mediaType),
    ("ACTOR".toList, some r.actor), ("CREATED_AT".toList, some r.createdAt),
    ("MACHINE".toList, r.machine)]

theorem attachmentFields_nodup (r : AttachmentRecord) :
    ((attachmentFields r).map Prod.fst).Nodup := by
  have keys : (attachmentFields r).map Prod.fst = ["SCHEMA".toList, "ID".toList, "NODE".toList,
      "NAME".toList, "REVISION".toList, "SIZE".toList, "MEDIA_TYPE".toList, "ACTOR".toList,
      "CREATED_AT".toList, "MACHINE".toList] := rfl
  rw [keys]
  decide

def attachmentChunk (r : AttachmentRecord) : Chunk :=
  drawerChunk "* Attachment".toList (fieldRows (attachmentFields r)) 0

theorem renderAttachment_eq (r : AttachmentRecord) :
    renderAttachment r = (attachmentChunk r).text := by
  have first : "* Attachment\n:PROPERTIES:\n:SCHEMA: 1\n:ID: ".toList =
      "* Attachment".toList ++ "\n:PROPERTIES:\n".toList ++
        (":".toList ++ "SCHEMA".toList ++ ": ".toList ++ "1".toList) ++ ['\n'] ++
          (":".toList ++ "ID".toList ++ ": ".toList) := by decide
  have node : "\n:NODE: ".toList =
      ['\n'] ++ (":".toList ++ "NODE".toList ++ ": ".toList) := by decide
  have name : "\n:NAME: ".toList =
      ['\n'] ++ (":".toList ++ "NAME".toList ++ ": ".toList) := by decide
  have revision : "\n:REVISION: ".toList =
      ['\n'] ++ (":".toList ++ "REVISION".toList ++ ": ".toList) := by decide
  have size : "\n:SIZE: ".toList =
      ['\n'] ++ (":".toList ++ "SIZE".toList ++ ": ".toList) := by decide
  have media : "\n:MEDIA_TYPE: ".toList =
      ['\n'] ++ (":".toList ++ "MEDIA_TYPE".toList ++ ": ".toList) := by decide
  have actor : "\n:ACTOR: ".toList =
      ['\n'] ++ (":".toList ++ "ACTOR".toList ++ ": ".toList) := by decide
  have created : "\n:CREATED_AT: ".toList =
      ['\n'] ++ (":".toList ++ "CREATED_AT".toList ++ ": ".toList) := by decide
  have machine : ":MACHINE: ".toList = ":".toList ++ "MACHINE".toList ++ ": ".toList := by decide
  have line : "\n".toList = ['\n'] := by decide
  unfold attachmentChunk renderAttachment
  simp only [drawerChunk_rows, first, node, name, revision, size, media, actor, created, machine,
    line]
  unfold fieldRows TxEntry.fieldPairs attachmentFields
  cases r.machine <;>
    simp only [List.filterMap_cons, List.filterMap_nil, Option.map_some, Option.map_none,
      List.map_cons, List.map_nil, List.flatMap_cons, List.flatMap_nil, propertyRow,
      List.append_assoc, List.append_nil]

/-! ### Reading what was rendered -/

structure AttachmentRecord.Fits (r : AttachmentRecord) : Prop where
  id : OneLine r.id
  node : OneLine r.node
  name : OneLine r.name
  revision : OneLine r.revision
  mediaType : OneLine r.mediaType
  actor : OneLine r.actor
  createdAt : OneLine r.createdAt
  machine : ∀ machine, r.machine = some machine → OneLine machine

/-- The record with the white space around its values left out. -/
def AttachmentRecord.normalized (r : AttachmentRecord) : AttachmentRecord :=
  { r with
    id := trim r.id
    node := trim r.node
    name := trim r.name
    revision := trim r.revision
    mediaType := trim r.mediaType
    actor := trim r.actor
    createdAt := trim r.createdAt
    machine := r.machine.map trim }

/-- The record can be rendered, and is then read as it is. -/
def AttachmentRecord.Stable (r : AttachmentRecord) : Prop := r.Fits ∧ r.normalized = r

theorem drawn_attachment {r : AttachmentRecord} (h : r.Fits) :
    Drawn 1 "* Attachment".toList (TxEntry.fieldPairs (attachmentFields r))
      (fieldRows (attachmentFields r)) := by
  refine drawn_fields (by decide) (by decide) ?_
  have field : ∀ {key value : Text}, RowKey key → OneLine value →
      RowKey key ∧ ∀ v, some value = some v → OneLine v := by
    rintro key value row one
    refine ⟨row, ?_⟩
    rintro _ ⟨⟩
    exact one
  simp only [attachmentFields, List.forall_mem_cons]
  exact ⟨field (by decide) (by decide), field (by decide) h.id, field (by decide) h.node,
    field (by decide) h.name, field (by decide) h.revision, field (by decide) (oneLine_decimal _),
    field (by decide) h.mediaType, field (by decide) h.actor, field (by decide) h.createdAt,
    ⟨by decide, h.machine⟩, by simp⟩

theorem attachmentChunk_node {r : AttachmentRecord} (h : r.Fits) :
    ∃ n, (attachmentChunk r).node [] = some n ∧ n.level = 1 ∧
      n.properties = (TxEntry.fieldPairs (attachmentFields r)).map trimmedValue := by
  have parsed : parseHeadingLine "* Attachment".toList 1 [] =
      some ⟨none, "Attachment".toList, []⟩ := by decide
  exact ⟨_, (drawn_attachment h).node 0 parsed, rfl, rfl⟩

theorem readAttachment_eq {source : Text} {i : HeadingInfo} {r : AttachmentRecord}
    (properties : (i.node source).properties =
      (TxEntry.fieldPairs (attachmentFields r)).map trimmedValue) :
    readAttachment i = .ok r.normalized := by
  have property : ∀ {key : Text} {value : Option Text} (n : ℕ),
      (attachmentFields r)[n]? = some (key, value) → i.property key = value.map trim :=
    fun n hn => property_of_fields (attachmentFields_nodup r) properties (List.mem_of_getElem? hn)
  have required : ∀ {key value : Text} (n : ℕ), (attachmentFields r)[n]? = some (key, some value) →
      recordProperty i key = .ok (trim value) := by
    intro key value n hn
    rw [recordProperty, property n hn]
    rfl
  have schema : ¬ trim "1".toList ≠ "1".toList := by decide
  unfold readAttachment
  rw [required 0 rfl, required 1 rfl, required 2 rfl, required 3 rfl, required 4 rfl,
    required 5 rfl, required 6 rfl, required 7 rfl, required 8 rfl, property 9 rfl]
  simp only [Except.bind, bind, if_neg schema, trim_decimal, parseU64_decimal]
  rfl

theorem prelude_attachments : Prelude ["#+title: Node attachments\n".toList] := by
  refine ⟨List.forall_mem_singleton.mpr ⟨"#+title: Node attachments".toList, by decide, by decide⟩,
    List.forall_mem_singleton.mpr ⟨by decide, by decide, by decide⟩, ?_⟩
  have title := readKeywords_directive (r := "#+title: Node attachments\n".toList)
    (d := "title: Node attachments".toList) (k := "title".toList) (v := "Node attachments".toList)
    (by decide) (by decide) (by decide) 0 [] []
  exact ⟨_, title⟩

/-- **What was rendered is read**, with the white space around every value left out. -/
theorem readAttachments_render {records : List AttachmentRecord} (h : ∀ r ∈ records, r.Fits) :
    readAttachments (renderAttachments records) =
      .ok (records.map AttachmentRecord.normalized) := by
  have text : renderAttachments records = ["#+title: Node attachments\n".toList].flatten ++
      (records.map attachmentChunk).flatMap Chunk.text := by
    have each : records.flatMap renderAttachment =
        (records.map attachmentChunk).flatMap Chunk.text := by
      rw [List.flatMap_map]
      exact List.flatMap_congr fun r _ => renderAttachment_eq r
    unfold renderAttachments
    simp only [each, List.flatten_cons, List.flatten_nil, List.append_nil]
  obtain ⟨f, parsed, headings⟩ :
      ∃ f, OrgFile.parse (renderAttachments records) "attachments.org".toList = .ok f ∧
        List.Forall₂ (fun (heading : Heading) r =>
          (heading.toHeadingInfo.node (renderAttachments records)).properties =
            (TxEntry.fieldPairs (attachmentFields r)).map trimmedValue) f.headings records :=
    parse_drawers "attachments.org".toList prelude_attachments text
      (fun r mem => ⟨1, _, _, _, 0, drawn_attachment (h r mem), rfl⟩)
      fun r mem => attachmentChunk_node (h r mem)
  unfold readAttachments
  rw [parsed]
  change f.headings.mapM (fun h => readAttachment h.toHeadingInfo) = _
  clear parsed text h
  generalize renderAttachments records = source at headings
  generalize f.headings = list at headings ⊢
  induction headings with
  | nil => rfl
  | cons properties _ ih =>
      rw [List.mapM_cons, readAttachment_eq properties, ih]
      rfl

theorem readAttachments_render_stable {records : List AttachmentRecord}
    (h : ∀ r ∈ records, r.Stable) : readAttachments (renderAttachments records) = .ok records := by
  have same : records.map AttachmentRecord.normalized = records := by
    conv_rhs => rw [← List.map_id records]
    exact List.map_congr_left fun r mem => (h r mem).2
  rw [readAttachments_render fun r mem => (h r mem).1, same]

/-! ### What was read -/

theorem readAttachment_stable {i : HeadingInfo} (valued : Valued i) {r : AttachmentRecord}
    (h : readAttachment i = .ok r) : r.Stable := by
  unfold readAttachment at h
  obtain ⟨schema, -, h⟩ := of_bind_ok h
  split_ifs at h
  obtain ⟨id, hid, h⟩ := of_bind_ok h
  obtain ⟨node, hnode, h⟩ := of_bind_ok h
  obtain ⟨name, hname, h⟩ := of_bind_ok h
  obtain ⟨revision, hrevision, h⟩ := of_bind_ok h
  obtain ⟨size, -, h⟩ := of_bind_ok h
  obtain ⟨mediaType, hmedia, h⟩ := of_bind_ok h
  obtain ⟨actor, hactor, h⟩ := of_bind_ok h
  obtain ⟨createdAt, hcreated, h⟩ := of_bind_ok h
  cases h
  have vid := valued.required hid
  have vnode := valued.required hnode
  have vname := valued.required hname
  have vrevision := valued.required hrevision
  have vmedia := valued.required hmedia
  have vactor := valued.required hactor
  have vcreated := valued.required hcreated
  have vmachine : ∀ machine, i.property "MACHINE".toList = some machine → IsValue machine :=
    valued "MACHINE".toList
  refine ⟨⟨vid.oneLine, vnode.oneLine, vname.oneLine, vrevision.oneLine, vmedia.oneLine,
    vactor.oneLine, vcreated.oneLine, fun machine read => (vmachine machine read).oneLine⟩, ?_⟩
  have machine : (i.property "MACHINE".toList).map trim = i.property "MACHINE".toList := by
    cases read : i.property "MACHINE".toList with
    | none => rfl
    | some machine => rw [Option.map_some, (vmachine machine read).2]
  unfold AttachmentRecord.normalized
  dsimp only
  rw [vid.2, vnode.2, vname.2, vrevision.2, vmedia.2, vactor.2, vcreated.2, machine]

/-- **What was read can be rendered**, and is then read as it is. -/
theorem readAttachments_stable {source : Text} {records : List AttachmentRecord}
    (h : readAttachments source = .ok records) : ∀ r ∈ records, r.Stable := by
  intro r mem
  unfold readAttachments at h
  cases parsed : OrgFile.parse source "attachments.org".toList with
  | error e =>
      rw [parsed] at h
      cases h
  | ok f =>
      rw [parsed] at h
      obtain ⟨heading, inside, read⟩ := mem_of_mapM h mem
      exact readAttachment_stable
        (fun key value => property_value parsed (mem_flattenAll inside)) read

end Orgasmic
