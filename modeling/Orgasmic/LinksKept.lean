import Orgasmic.LinkWrites
import Mathlib.Data.List.Nodup

/-! # What a write does to the links

* **Records.** The ids of the records on file are distinct.  A write of a request (`Wrote`) leaves
  all records but the one of its pair as they are, in their order, and raises the revision of that
  one by one.
* **Transforms.** `postTransform_wrote` and `appendTransform_wrote`: what the writer does to the
  text is such a write, seen through `readLinks`.
* **Runs.** `LinksInv` holds in every state; `HistoryInv` says of every request how far it has come
  and what it has written (`links_kept`). -/

namespace Orgasmic

open Text Interleaving

/-! ### Lists of records -/

/-- The records with other ids. -/
def others (id : Text) (links : List LinkRecord) : List LinkRecord :=
  links.filter fun r => r.id ≠ id

/-- The records with the id. -/
def own (id : Text) (links : List LinkRecord) : List LinkRecord :=
  links.filter fun r => r.id = id

section

variable {id : Text} {links : List LinkRecord} {r : LinkRecord}

@[simp]
theorem others_append (as bs : List LinkRecord) :
    others id (as ++ bs) = others id as ++ others id bs := List.filter_append ..

@[simp]
theorem own_append (as bs : List LinkRecord) : own id (as ++ bs) = own id as ++ own id bs :=
  List.filter_append ..

theorem others_cons_own (h : r.id = id) : others id (r :: links) = others id links := by
  simp [others, h]

theorem own_cons_own (h : r.id = id) : own id (r :: links) = r :: own id links := by
  simp [own, h]

@[simp]
theorem others_others : others id (others id links) = others id links := by
  simp [others]

@[simp]
theorem own_others : own id (others id links) = [] := by
  simp [own, others]

theorem own_eq_nil (h : ∀ r ∈ links, r.id ≠ id) : own id links = [] := by
  unfold own
  rw [List.filter_eq_nil_iff]
  simpa using h

theorem editLive_eq_some {f : LinkRecord → LinkRecord} {links' : List LinkRecord}
    (h : editLive id f links = some links') : ∃ pre r post, links = pre ++ r :: post ∧
      links' = pre ++ f r :: post ∧ r.id = id ∧ r.deleted = false := by
  induction links generalizing links' with
  | nil => cases h
  | cons r links ih =>
      unfold editLive at h
      split_ifs at h with live
      · obtain rfl := Option.some.inj h
        simp only [Bool.and_eq_true, decide_eq_true_eq, Bool.not_eq_true'] at live
        exact ⟨[], r, links, rfl, rfl, live.1, live.2⟩
      · obtain ⟨rest, hrest, rfl⟩ := Option.map_eq_some_iff.mp h
        obtain ⟨pre, q, post, rfl, rfl, hid, hdeleted⟩ := ih hrest
        exact ⟨r :: pre, q, post, rfl, rfl, hid, hdeleted⟩

end

/-! ### Anchors -/

section

variable {onFile fresh anchors : List MediaAnchor}

/-- The anchors that are pushed, and those that are there already. -/
theorem pushAnchors_spec (onFile fresh : List MediaAnchor) :
    ∃ added, pushAnchors onFile fresh = onFile ++ added ∧ added ⊆ fresh ∧
      (∀ a ∈ fresh, ∃ b ∈ onFile ++ added, b.same a) ∧
      (∀ b ∈ onFile, ∀ a ∈ added, ¬ b.same a) ∧ added.Pairwise fun b a => ¬ b.same a := by
  induction fresh using List.reverseRecOn with
  | nil => exact ⟨[], by simp [pushAnchors], by simp, by simp, by simp, .nil⟩
  | append_singleton fresh a ih =>
      obtain ⟨added, eq, sub, there, apart, distinct⟩ := ih
      have push : pushAnchors onFile (fresh ++ [a]) =
          if (onFile ++ added).any (fun b => b.same a) then onFile ++ added
          else onFile ++ added ++ [a] := by
        unfold pushAnchors at eq ⊢
        rw [List.foldl_append, eq]
        rfl
      have sub' : added ⊆ fresh ++ [a] := List.Subset.trans sub (List.subset_append_left _ _)
      split_ifs at push with known
      · refine ⟨added, push, sub', ?_, apart, distinct⟩
        intro c hc
        obtain hc | hc := List.mem_append.mp hc
        · exact there c hc
        · rw [List.mem_singleton.mp hc]
          exact List.any_eq_true.mp known
      · have new : ∀ b ∈ onFile ++ added, ¬ b.same a := by
          intro b hb same
          exact known (List.any_eq_true.mpr ⟨b, hb, same⟩)
        refine ⟨added ++ [a], by rw [push, List.append_assoc], ?_, ?_, ?_, ?_⟩
        · exact List.append_subset.mpr ⟨sub', List.subset_append_right _ _⟩
        · intro c hc
          obtain hc | hc := List.mem_append.mp hc
          · obtain ⟨b, hb, same⟩ := there c hc
            refine ⟨b, ?_, same⟩
            rw [← List.append_assoc]
            exact List.mem_append_left _ hb
          · rw [List.mem_singleton.mp hc]
            refine ⟨a, by simp, ?_⟩
            simp [MediaAnchor.same]
        · intro b hb c hc
          obtain hc | hc := List.mem_append.mp hc
          · exact apart b hb c hc
          · rw [List.mem_singleton.mp hc]
            exact new b (List.mem_append_left _ hb)
        · refine List.pairwise_append.mpr ⟨distinct, List.pairwise_singleton _ _, ?_⟩
          intro b hb c hc
          rw [List.mem_singleton.mp hc]
          exact new b (List.mem_append_right _ hb)

theorem freshAnchors_concat (onFile anchors : List MediaAnchor) (a : MediaAnchor) :
    freshAnchors onFile (anchors ++ [a]) =
      if (onFile ++ freshAnchors onFile anchors).any (fun b => b.same a) then
        freshAnchors onFile anchors
      else freshAnchors onFile anchors ++ [a] := by
  unfold freshAnchors
  rw [List.foldl_append]
  rfl

theorem freshAnchors_subset (onFile anchors : List MediaAnchor) :
    freshAnchors onFile anchors ⊆ anchors := by
  induction anchors using List.reverseRecOn with
  | nil => exact List.Subset.refl _
  | append_singleton anchors a ih =>
      rw [freshAnchors_concat]
      have sub := List.Subset.trans ih (List.subset_append_left anchors [a])
      split_ifs
      · exact sub
      · exact List.append_subset.mpr ⟨sub, List.subset_append_right _ _⟩

/-- Where nothing is fresh, everything is on file. -/
theorem onFile_of_freshAnchors (h : freshAnchors onFile anchors = []) :
    ∀ a ∈ anchors, ∃ b ∈ onFile, b.same a := by
  induction anchors using List.reverseRecOn with
  | nil => simp
  | append_singleton anchors a ih =>
      rw [freshAnchors_concat] at h
      split_ifs at h with known
      · rw [h, List.append_nil] at known
        intro c hc
        obtain hc | hc := List.mem_append.mp hc
        · exact ih h c hc
        · rw [List.mem_singleton.mp hc]
          exact List.any_eq_true.mp known
      · exact absurd h (by simp)

end

/-! ### One write -/

/-- What a `post_link` writes. -/
structure PostWrote (id : Text) (req : LinkWrite) (links links' : List LinkRecord) : Prop where
  /-- The base is the revision of the record. -/
  base : currentRevision links id = req.baseRevision
  others : others id links' = others id links
  own : ∃ new, own id links' = [new] ∧ new.revision.toNat = req.baseRevision.toNat + 1 ∧
    new.source = req.source ∧ new.target = req.target ∧ new.kind = req.kind ∧
    new.deleted = req.deleted ∧ new.anchors = req.anchors.map MediaAnchor.normalized

/-- What an append writes. -/
structure AppendWrote (id : Text) (anchors : List MediaAnchor) (links links' : List LinkRecord) :
    Prop where
  others : others id links' = others id links
  own : ∃ old new, own id links = [old] ∧ own id links' = [new] ∧ old.deleted = false ∧
    (old.revision.toNat + 1 < 2 ^ 64 → new.revision.toNat = old.revision.toNat + 1) ∧
    new.source = old.source ∧ new.target = old.target ∧ new.kind = old.kind ∧
    new.deleted = false ∧
    ∃ added, new.anchors = old.anchors ++ added ∧ added ⊆ anchors ∧
      (∀ b ∈ old.anchors, ∀ a ∈ added, ¬ b.same a) ∧ added.Pairwise fun b a => ¬ b.same a

/-- The record that a request is about. -/
def LinkRequest.id (digest : Bytes → Digest) : LinkRequest → Text
  | .post req => linkId digest req.source req.target
  | .append source target _ => linkId digest source target

/-- What a request writes. -/
def LinkRequest.Wrote (digest : Bytes → Digest) (req : LinkRequest)
    (links links' : List LinkRecord) : Prop :=
  match req with
  | .post write => PostWrote (req.id digest) write links links'
  | .append _ _ anchors => AppendWrote (req.id digest) anchors links links'

/-- The file can be read, and no two records have the same id. -/
def Readable (file : Text) (links : List LinkRecord) : Prop :=
  readLinks file = .ok links ∧ (links.map LinkRecord.id).Nodup

theorem map_normalized {links : List LinkRecord} (h : ∀ r ∈ links, r.Stable) :
    links.map LinkRecord.normalized = links := by
  conv_rhs => rw [← List.map_id links]
  exact List.map_congr_left fun r hr => (h r hr).2

/-- The record is the one that the request waits to write. -/
structure ReadyFor (digest : Bytes → Digest) (req : LinkWrite) (next : LinkRecord) : Prop where
  fits : next.Fits
  id : next.id = linkId digest req.source req.target
  source : next.source = req.source ∧ trim req.source = req.source
  target : next.target = req.target ∧ trim req.target = req.target
  kind : next.kind = req.kind ∧ trim req.kind = req.kind
  deleted : next.deleted = req.deleted
  anchors : next.anchors = req.anchors
  revision : next.revision.toNat = req.baseRevision.toNat + 1

theorem isValue_digest (d : Digest) : IsValue d.val := by
  obtain ⟨t, -, hex⟩ := d
  have plain : ∀ c ∈ t, isWhitespace c = false := by
    intro c hc
    have inked : ("0123456789abcdef".toList.all fun c => !isWhitespace c) = true := by decide
    simpa using List.all_eq_true.mp inked c (hex c hc)
  exact ⟨fun hc => absurd (plain _ hc) (by decide), trim_of_inked plain⟩

/-- The id of a node that was found is a value. -/
theorem isValue_of_nodeFound {id source : Text} (h : nodeFound id source = true) : IsValue id := by
  unfold nodeFound at h
  split at h
  · next f hf =>
      obtain ⟨-, -, -, hlaid⟩ := readFlat_of_parse hf
      have spec := findByIdIn_spec id f.headings hlaid
      obtain ⟨g, hg⟩ := Option.isSome_iff_exists.mp h
      rw [OrgFile.findById] at hg
      rw [hg] at spec
      obtain ⟨-, hid, pre, post, sub, -⟩ := spec
      refine property_value hf (i := g.toHeadingInfo) ?_ hid
      rw [OrgFile.infos, sub.split, flatten_eq]
      simp
  · cases h

theorem oneLine_of_no_control {t : Text} (h : t.any isControl = false) : OneLine t := by
  rw [List.any_eq_false] at h
  exact ⟨fun hc => h _ hc (by decide), fun hlast => h _ (List.mem_of_getLast? hlast) (by decide)⟩

theorem owned_values {assets : List AttachmentRecord} {attachment revision : Text}
    (values : ∀ a ∈ assets, IsValue a.id ∧ IsValue a.revision)
    (h : mediaRevisionOwned assets attachment revision = true) :
    IsValue attachment ∧ IsValue revision := by
  obtain ⟨a, ha, owned⟩ := List.any_eq_true.mp h
  simp only [Bool.and_eq_true, decide_eq_true_eq] at owned
  obtain ⟨⟨rfl, rfl⟩, -⟩ := owned
  exact values a ha

theorem checkAnchor_fits {assets : List AttachmentRecord} {anchor : MediaAnchor}
    (values : ∀ a ∈ assets, IsValue a.id ∧ IsValue a.revision)
    (h : checkAnchor assets anchor = .ok ()) : anchor.Fits := by
  unfold checkAnchor at h
  split_ifs at h with label range owned
  simp only [singleLine, Bool.not_not, Bool.or_eq_true, not_or, Bool.not_eq_true] at label
  simp only [Bool.not_eq_true', Bool.not_eq_false] at owned
  obtain ⟨attachment, revision⟩ := owned_values values owned
  exact ⟨attachment.oneLine, revision.oneLine, oneLine_of_no_control label.2⟩

theorem nextRevision_eq {base revision : UInt64} (h : nextRevision base = some revision) :
    revision.toNat = base.toNat + 1 := by
  unfold nextRevision at h
  split_ifs at h with below
  obtain rfl := Option.some.inj h
  rw [UInt64.toNat_add]
  exact Nat.mod_eq_of_lt below

theorem checkShape_kind {req : LinkWrite} (h : req.checkShape.isOk) : IsValue req.kind := by
  unfold LinkWrite.checkShape at h
  split_ifs at h with bad
  · cases h
  · simp only [not_or, not_not] at bad
    obtain ⟨-, kind, -⟩ := bad
    simp only [List.mem_cons, List.not_mem_nil, or_false] at kind
    obtain kind | kind := kind <;>
    · rw [kind]
      decide

/-- What passes the checks can be written. -/
theorem LinkWrite.next_ready {digest : Bytes → Digest} {req : LinkWrite} {next : LinkRecord}
    {sourceNode sourceAttachments targetAttachments : Text} {actor now : Stamp}
    (target : IsValue req.target) (kind : IsValue req.kind)
    (h : req.next digest sourceNode sourceAttachments targetAttachments actor now = .ok next) :
    ReadyFor digest req next := by
  unfold LinkWrite.next at h
  split_ifs at h with missing
  obtain ⟨assets, hassets, h⟩ := of_bind_ok h
  obtain ⟨more, hmore, h⟩ := of_bind_ok h
  obtain ⟨checked, hchecked, h⟩ := of_bind_ok h
  simp only [Bool.not_eq_true', Bool.not_eq_false] at missing
  have source := isValue_of_nodeFound missing
  have values : ∀ a ∈ assets ++ more, IsValue a.id ∧ IsValue a.revision := by
    intro a ha
    obtain ha | ha := List.mem_append.mp ha
    · exact readAttachments_values (of_mapError_ok hassets) a ha
    · exact readAttachments_values (of_mapError_ok hmore) a ha
  split at h
  · cases h
  · next revision hrevision =>
      cases h
      refine ⟨⟨(isValue_digest _).oneLine, source.oneLine, target.oneLine, kind.oneLine,
        actor.property, now.property, fun a ha => ?_⟩, rfl, ⟨rfl, source.2⟩, ⟨rfl, target.2⟩,
        ⟨rfl, kind.2⟩, rfl, rfl, nextRevision_eq hrevision⟩
      obtain ⟨u, hu⟩ := forall_of_mapM hchecked a ha
      exact checkAnchor_fits values hu

/-! ### The transforms -/

section

variable {digest : Bytes → Digest} {file text : Text} {links : List LinkRecord}

/-- What is rendered of a list that differs from the one on file in one record. -/
theorem readable_render {links' : List LinkRecord} (fits : ∀ r ∈ links', r.Fits)
    (distinct : ((links'.map LinkRecord.normalized).map LinkRecord.id).Nodup) :
    Readable (renderLinks links') (links'.map LinkRecord.normalized) :=
  ⟨readLinks_render fits, distinct⟩

/-- **The transform of a `post_link`** replaces the record of the pair. -/
theorem postTransform_wrote {req : LinkWrite} {next : LinkRecord}
    (ready : ReadyFor digest req next) (onFile : Readable file links)
    (h : postTransform next req.baseRevision file = .ok text) :
    ∃ links', Readable text links' ∧
      PostWrote (linkId digest req.source req.target) req links links' := by
  obtain ⟨read, distinct⟩ := onFile
  unfold postTransform at h
  rw [read] at h
  change (if currentRevision links next.id ≠ req.baseRevision then _ else _) = _ at h
  split_ifs at h with base
  cases h
  rw [not_not] at base
  have stable := readLinks_stable read
  have stableOthers : ∀ r ∈ others next.id links, r.Stable :=
    fun r hr => stable r (List.mem_filter.mp hr).1
  have id : next.normalized.id = next.id := by
    show trim next.id = next.id
    rw [ready.id]
    exact (isValue_digest _).2
  have written : (others next.id links ++ [next]).map LinkRecord.normalized =
      others next.id links ++ [next.normalized] := by
    rw [List.map_append, map_normalized stableOthers]
    rfl
  have readable : Readable (renderLinks (others next.id links ++ [next]))
      ((others next.id links ++ [next]).map LinkRecord.normalized) := by
    refine readable_render (fun r hr => ?_) ?_
    · obtain hr | hr := List.mem_append.mp hr
      · exact (stableOthers r hr).1
      · rw [List.mem_singleton.mp hr]
        exact ready.fits
    · rw [written, List.map_append, List.nodup_append]
      refine ⟨distinct.sublist (List.filter_sublist.map _), by simp, ?_⟩
      rintro _ ha b hb rfl
      obtain ⟨r, hr, rfl⟩ := List.mem_map.mp ha
      rw [List.map_singleton, List.mem_singleton, id] at hb
      exact of_decide_eq_true (List.mem_filter.mp hr).2 hb
  rw [written] at readable
  refine ⟨others next.id links ++ [next.normalized], readable, ?_⟩
  · rw [← ready.id]
    refine ⟨base, ?_, next.normalized, ?_, ?_⟩
    · rw [others_append, others_others, others_cons_own id]
      exact List.append_nil _
    · rw [own_append, own_others, own_cons_own id]
      rfl
    · refine ⟨ready.revision, ?_, ?_, ?_, ready.deleted, ?_⟩
      · show trim next.source = req.source
        rw [ready.source.1, ready.source.2]
      · show trim next.target = req.target
        rw [ready.target.1, ready.target.2]
      · show trim next.kind = req.kind
        rw [ready.kind.1, ready.kind.2]
      · show next.anchors.map MediaAnchor.normalized = _
        rw [ready.anchors]

theorem Stable.anchors {r : LinkRecord} (h : r.Stable) : ∀ a ∈ r.anchors, a.Stable := by
  intro a ha
  have same : r.anchors.map MediaAnchor.normalized = r.anchors.map id := by
    rw [List.map_id]
    exact congrArg LinkRecord.anchors h.2
  exact ⟨h.1.anchors a ha, List.map_inj_left.mp same a ha⟩

/-- The record that is read after an append. -/
theorem appended_normalized {old : LinkRecord} {fresh : List MediaAnchor} (actor now : Text)
    (stable : old.Stable) (pushed : ∀ a ∈ pushAnchors old.anchors fresh, a.Stable) :
    (old.appended fresh actor now).normalized = old.appended fresh (trim actor) (trim now) := by
  have id : trim old.id = old.id := congrArg LinkRecord.id stable.2
  have source : trim old.source = old.source := congrArg LinkRecord.source stable.2
  have target : trim old.target = old.target := congrArg LinkRecord.target stable.2
  have kind : trim old.kind = old.kind := congrArg LinkRecord.kind stable.2
  have anchors : (pushAnchors old.anchors fresh).map MediaAnchor.normalized =
      pushAnchors old.anchors fresh := by
    conv_rhs => rw [← List.map_id (pushAnchors old.anchors fresh)]
    exact List.map_congr_left fun a ha => (pushed a ha).2
  unfold LinkRecord.normalized LinkRecord.appended
  dsimp only
  rw [id, source, target, kind, anchors]

/-- What an append finds on its copy. -/
theorem lookAnchors_ok {id : Text} {anchors fresh : List MediaAnchor} (onFile : Readable file links)
    (h : lookAnchors id anchors file = .ok fresh) :
    ∃ link, liveLink links id = some link ∧ fresh = freshAnchors link.anchors anchors := by
  unfold lookAnchors at h
  obtain ⟨records, read, h⟩ := of_bind_ok h
  obtain rfl : records = links := Except.ok.inj ((of_mapError_ok read).symm.trans onFile.1)
  split at h
  · cases h
  · next link live => exact ⟨link, live, (Except.ok.inj h).symm⟩

/-- **The transform of an append** edits the live record of the pair. -/
theorem appendTransform_wrote {id : Text} {fresh anchors : List MediaAnchor} {actor now : Stamp}
    (stableFresh : ∀ a ∈ fresh, a.Stable) (sub : fresh ⊆ anchors) (onFile : Readable file links)
    (h : appendTransform id fresh actor.val now.val file = .ok text) :
    ∃ links', Readable text links' ∧ AppendWrote id anchors links links' := by
  obtain ⟨read, distinct⟩ := onFile
  unfold appendTransform at h
  obtain ⟨records, hrecords, h⟩ := of_bind_ok h
  obtain rfl : records = links := Except.ok.inj ((of_mapError_ok hrecords).symm.trans read)
  split at h
  · cases h
  · next edited hedited =>
      cases h
      obtain ⟨pre, old, post, rfl, rfl, hid, live⟩ := editLive_eq_some hedited
      have stable := readLinks_stable read
      have oldStable := stable old (by simp)
      obtain ⟨added, pushed, subAdded, -, apart, different⟩ := pushAnchors_spec old.anchors fresh
      have pushedStable : ∀ a ∈ pushAnchors old.anchors fresh, a.Stable := by
        rw [pushed]
        intro a ha
        obtain ha | ha := List.mem_append.mp ha
        · exact Stable.anchors oldStable a ha
        · exact stableFresh a (subAdded ha)
      let new := old.appended fresh (trim actor.val) (trim now.val)
      have written : (pre ++ old.appended fresh actor.val now.val :: post).map
          LinkRecord.normalized = pre ++ new :: post := by
        rw [List.map_append, List.map_cons, appended_normalized _ _ oldStable pushedStable,
          map_normalized fun r hr => stable r (by simp [hr]),
          map_normalized fun r hr => stable r (by simp [hr])]
      have readable : Readable (renderLinks (pre ++ old.appended fresh actor.val now.val :: post))
          ((pre ++ old.appended fresh actor.val now.val :: post).map LinkRecord.normalized) := by
        refine readable_render (fun r hr => ?_) ?_
        · obtain hr | hr := List.mem_append.mp hr
          · exact (stable r (by simp [hr])).1
          · obtain rfl | hr := List.mem_cons.mp hr
            · exact ⟨oldStable.1.id, oldStable.1.source, oldStable.1.target, oldStable.1.kind,
                actor.property, now.property, fun a ha => (pushedStable a ha).1⟩
            · exact (stable r (by simp [hr])).1
        · rw [written]
          simpa [new, LinkRecord.appended] using distinct
      rw [written] at readable
      -- no other record has the id of the one that is edited
      have apartIds : ∀ r ∈ pre ++ post, r.id ≠ id := by
        rw [List.map_append, List.map_cons, List.nodup_middle, ← List.map_append] at distinct
        intro r hr same
        refine (List.nodup_cons.mp distinct).1 ?_
        rw [hid, ← same]
        exact List.mem_map_of_mem hr
      have ownPre : own id pre = [] := own_eq_nil fun r hr => apartIds r (by simp [hr])
      have ownPost : own id post = [] := own_eq_nil fun r hr => apartIds r (by simp [hr])
      have newId : new.id = id := hid
      refine ⟨pre ++ new :: post, readable, ?_, old, new, ?_, ?_, live, ?_, rfl, rfl, rfl, live,
        added, pushed, List.Subset.trans subAdded sub, apart, different⟩
      · rw [others_append, others_append, others_cons_own hid, others_cons_own newId]
      · rw [own_append, own_cons_own hid, ownPre, ownPost]
        rfl
      · rw [own_append, own_cons_own newId, ownPre, ownPost]
        rfl
      · intro below
        show (old.revision + 1).toNat = old.revision.toNat + 1
        rw [UInt64.toNat_add]
        exact Nat.mod_eq_of_lt below

end

/-! ### Requests -/

/-- What is known of a request from its phase. -/
structure LinkCall.Sound (digest : Bytes → Digest) (call : LinkCall) : Prop where
  resolved : ∀ req, call = ⟨.post req, .resolved⟩ → IsValue req.target ∧ IsValue req.kind
  ready : ∀ req next, call = ⟨.post req, .ready next⟩ → ReadyFor digest req next
  anchors : ∀ source target anchors, call.req = .append source target anchors →
    ∀ a ∈ anchors, a.Stable
  fresh : ∀ source target anchors fresh,
    call = ⟨.append source target anchors, .fresh fresh⟩ → fresh ⊆ anchors

/-- Anchors that were recorded carry a label without line breaks. -/
theorem recordedAnchors_stable {scope message attachments : Text} {chips : List ContextChip} :
    ∀ a ∈ recordedAnchors scope chips message attachments, a.Stable := by
  intro a ha
  obtain ⟨mem, owned⟩ := List.mem_filter.mp ha
  have values : IsValue a.attachment ∧ IsValue a.revision := by
    refine owned_values ?_ owned
    split
    · next assets hassets => exact readAttachments_values hassets
    · simp
  have words : '\n' ∉ [' '].intercalate (splitWhitespace message) := by
    intro hc
    obtain hc | ⟨word, mem, hc⟩ := mem_intercalate hc
    · exact absurd hc (by decide)
    · exact absurd (splitWhitespace_inked message word mem _ hc) (by decide)
  have label : IsValue a.label := by
    obtain ⟨chip, -, hchip⟩ := List.mem_filterMap.mp mem
    split at hchip
    · split_ifs at hchip
      obtain rfl := Option.some.inj hchip
      exact isValue_trim fun hc => words (List.mem_of_mem_take hc)
    · cases hchip
  refine ⟨⟨values.1.oneLine, values.2.oneLine, label.oneLine⟩, ?_⟩
  unfold MediaAnchor.normalized
  rw [values.1.2, values.2.2, label.2]

/-- A phase that carries nothing. -/
theorem LinkCall.Sound.move {digest : Bytes → Digest} {req : LinkRequest} {phase phase' : LinkPhase}
    (sound : LinkCall.Sound digest ⟨req, phase⟩) (resolved : phase' ≠ .resolved)
    (ready : ∀ next, phase' ≠ .ready next) (fresh : ∀ anchors, phase' ≠ .fresh anchors) :
    LinkCall.Sound digest ⟨req, phase'⟩ where
  resolved _ eq := absurd (congrArg LinkCall.phase eq) resolved
  ready _ next eq := absurd (congrArg LinkCall.phase eq) (ready next)
  anchors := sound.anchors
  fresh _ _ _ anchors eq := absurd (congrArg LinkCall.phase eq) (fresh anchors)

namespace LinksState

/-- What holds in every state. -/
structure LinksInv (digest : Bytes → Digest) (s : LinksState) : Prop where
  readable : ∃ links, Readable s.file links
  sound : ∀ i call, s.calls i = some call → call.Sound digest

variable {digest : Bytes → Digest} {s t : LinksState} {i : ℕ} {call : LinkCall}

theorem LinksInv.setCall (inv : LinksInv digest s) {req : LinkRequest} {phase : LinkPhase}
    (sound : LinkCall.Sound digest ⟨req, phase⟩) : LinksInv digest (s.setCall i req phase) where
  readable := inv.readable
  sound j other hj := by
    by_cases same : j = i
    · subst same
      have eq : some (⟨req, phase⟩ : LinkCall) = some other := by
        rw [← hj]
        simp [LinksState.setCall]
      obtain rfl := Option.some.inj eq
      exact sound
    · refine inv.sound j other ?_
      rw [← hj]
      simp [LinksState.setCall, Function.update_of_ne same]

/-! ### What happened -/

abbrev LinkHistory := List (LinksState × LinkAction)

/-- The step leaves the records as they are, or is the write of a request. -/
def Kept (digest : Bytes → Digest) (u : LinksState) (a : LinkAction) : Prop :=
  ∃ v links links', u.step digest a = some v ∧ Readable u.file links ∧ Readable v.file links' ∧
    (links' = links ∨ ∃ i actor now call, a = .commit i actor now ∧ u.calls i = some call ∧
      call.req.Wrote digest links links')

/-- At this moment the writer came to the request. -/
def Commits (past : LinkHistory) (i m : ℕ) : Prop :=
  ∃ u actor now, past[m]? = some (u, .commit i actor now)

/-- At this moment the writer came to the request and wrote what it asks for. -/
def WroteAt (digest : Bytes → Digest) (past : LinkHistory) (i : ℕ) (req : LinkRequest) (m : ℕ) :
    Prop :=
  ∃ u actor now phase v links links', past[m]? = some (u, .commit i actor now) ∧
    u.calls i = some ⟨req, phase⟩ ∧ u.step digest (.commit i actor now) = some v ∧
    Readable u.file links ∧ Readable v.file links' ∧ req.Wrote digest links links'

/-- The writer remembers the request: from before, or because it has written it. -/
def Remembered (digest : Bytes → Digest) (start : LinksState) (past : LinkHistory)
    (req : LinkWrite) : Prop :=
  start.replays req.requestId = some req ∨ ∃ j m, WroteAt digest past j (.post req) m

/-- The request is a retry of one that the writer remembers. -/
def Replayed (digest : Bytes → Digest) (start : LinksState) (past : LinkHistory)
    (req : LinkRequest) : Prop :=
  ∃ write, req = .post write ∧ Remembered digest start past write

/-- The request is an append that found all its anchors on the live record. -/
def NothingFresh (digest : Bytes → Digest) (past : LinkHistory) (i : ℕ) (req : LinkRequest) :
    Prop :=
  ∃ (source target : Text) (anchors : List MediaAnchor) (m : ℕ) (u : LinksState)
    (links : List LinkRecord) (link : LinkRecord), req = .append source target anchors ∧
    past[m]? = some (u, .look i) ∧ Readable u.file links ∧
    liveLink links (req.id digest) = some link ∧ ∀ a ∈ anchors, ∃ b ∈ link.anchors, b.same a

/-- What must have happened for a request to come this far. -/
def Accounted (digest : Bytes → Digest) (start : LinksState) (past : LinkHistory) (i : ℕ)
    (req : LinkRequest) : LinkPhase → Prop
  | .written => ∃ m, WroteAt digest past i req m
  | .replayed => Replayed digest start past req
  | .answered answer => answer.succeeded →
      (∃ m, WroteAt digest past i req m) ∨ Replayed digest start past req ∨
        NothingFresh digest past i req
  | _ => True

/-- The writer has not come to the request. -/
def waiting : LinkPhase → Prop
  | .written | .replayed | .answered _ => False
  | _ => True

section

variable {start : LinksState} {past : LinkHistory} {x : LinksState × LinkAction}
  {req : LinkRequest} {m : ℕ}

theorem WroteAt.commits (h : WroteAt digest past i req m) : Commits past i m := by
  obtain ⟨u, actor, now, -, -, -, -, there, -⟩ := h
  exact ⟨u, actor, now, there⟩

theorem WroteAt.later (h : WroteAt digest past i req m) : WroteAt digest (past ++ [x]) i req m := by
  obtain ⟨u, actor, now, phase, v, links, links', there, rest⟩ := h
  exact ⟨u, actor, now, phase, v, links, links', at_append there, rest⟩

theorem Remembered.later {write : LinkWrite} (h : Remembered digest start past write) :
    Remembered digest start (past ++ [x]) write :=
  h.imp_right fun ⟨j, m, wrote⟩ => ⟨j, m, wrote.later⟩

theorem Replayed.later (h : Replayed digest start past req) :
    Replayed digest start (past ++ [x]) req := by
  obtain ⟨write, eq, remembered⟩ := h
  exact ⟨write, eq, remembered.later⟩

theorem NothingFresh.later (h : NothingFresh digest past i req) :
    NothingFresh digest (past ++ [x]) i req := by
  obtain ⟨source, target, anchors, m, u, links, link, eq, there, rest⟩ := h
  exact ⟨source, target, anchors, m, u, links, link, eq, at_append there, rest⟩

theorem Accounted.later {phase : LinkPhase} (h : Accounted digest start past i req phase) :
    Accounted digest start (past ++ [x]) i req phase := by
  cases phase with
  | written =>
      obtain ⟨m, wrote⟩ := h
      exact ⟨m, wrote.later⟩
  | replayed => exact Replayed.later h
  | answered answer =>
      intro succeeded
      obtain ⟨m, wrote⟩ | replayed | fresh := h succeeded
      · exact .inl ⟨m, wrote.later⟩
      · exact .inr (.inl replayed.later)
      · exact .inr (.inr fresh.later)
  | received => trivial
  | resolved => trivial
  | ready next => trivial
  | fresh anchors => trivial

end

/-- What holds along every run. -/
structure HistoryInv (digest : Bytes → Digest) (start : LinksState)
    (r : Recorded LinksState LinkAction) : Prop where
  current : LinksInv digest r.current
  kept : ∀ (m : ℕ) (u : LinksState) (a : LinkAction), r.past[m]? = some (u, a) → Kept digest u a
  once : ∀ i m m', Commits r.past i m → Commits r.past i m' → m = m'
  idle : ∀ i, (∀ call, r.current.calls i = some call → waiting call.phase) →
    ∀ m, ¬ Commits r.past i m
  accounts : ∀ i req phase, r.current.calls i = some ⟨req, phase⟩ →
    Accounted digest start r.past i req phase
  memory : ∀ id write, r.current.replays id = some write →
    id = write.requestId ∧ Remembered digest start r.past write

variable {start : LinksState} {r r' : Recorded LinksState LinkAction} {a : LinkAction}
  {req : LinkRequest} {phase : LinkPhase}

theorem kept_later (inv : HistoryInv digest start r)
    (past : r'.past = r.past ++ [(r.current, a)]) (now : Kept digest r.current a) :
    ∀ (m : ℕ) (u : LinksState) (a : LinkAction), r'.past[m]? = some (u, a) → Kept digest u a := by
  intro m u b there
  rw [past, at_append_iff] at there
  obtain there | ⟨-, eq⟩ := there
  · exact inv.kept m u b there
  · obtain ⟨rfl, rfl⟩ := Prod.mk.inj eq
    exact now

theorem setCall_calls (s : LinksState) (j : ℕ) :
    (s.setCall i req phase).calls j = if j = i then some ⟨req, phase⟩ else s.calls j := by
  unfold LinksState.setCall
  dsimp only
  rw [Function.update_apply]

/-- Other actions are no turns of the writer. -/
theorem commits_other (past : r'.past = r.past ++ [(r.current, a)])
    (other : ∀ j actor now, a ≠ .commit j actor now) {j m : ℕ} (h : Commits r'.past j m) :
    Commits r.past j m := by
  obtain ⟨u, actor, now, there⟩ := h
  rw [past, at_append_iff] at there
  obtain there | ⟨-, same⟩ := there
  · exact ⟨u, actor, now, there⟩
  · exact absurd (congrArg Prod.snd same) (other j actor now)

/-- The writer forgets a request. -/
theorem HistoryInv.forget (inv : HistoryInv digest start r) {id : Text}
    (past : r'.past = r.past ++ [(r.current, .forget id)])
    (next : r.current.step digest (.forget id) = some r'.current)
    (eq : r'.current = { r.current with replays := Function.update r.current.replays id none }) :
    HistoryInv digest start r' := by
  have calls : r'.current.calls = r.current.calls := by rw [eq]
  have file : r'.current.file = r.current.file := by rw [eq]
  have commits : ∀ {j m}, Commits r'.past j m → Commits r.past j m :=
    commits_other past (by simp)
  obtain ⟨links, readable⟩ := inv.current.readable
  have readable' : Readable r'.current.file links := by
    rw [file]
    exact readable
  refine ⟨⟨⟨links, readable'⟩, ?_⟩, ?_, ?_, ?_, ?_, ?_⟩
  · rw [calls]
    exact inv.current.sound
  · exact kept_later inv past ⟨r'.current, links, links, next, readable, readable', .inl rfl⟩
  · exact fun j m m' h h' => inv.once j m m' (commits h) (commits h')
  · rw [calls]
    exact fun j idle m h => inv.idle j idle m (commits h)
  · intro j req phase hc
    rw [calls] at hc
    rw [past]
    exact (inv.accounts j req phase hc).later
  · intro other write known
    rw [eq] at known
    change Function.update r.current.replays id none other = _ at known
    rw [Function.update_apply] at known
    split_ifs at known
    obtain ⟨own, remembered⟩ := inv.memory other write known
    rw [past]
    exact ⟨own, remembered.later⟩

/-- A step of request `i` outside of the writer. -/
theorem HistoryInv.move (inv : HistoryInv digest start r)
    (past : r'.past = r.past ++ [(r.current, a)])
    (next : r.current.step digest a = some r'.current)
    (eq : r'.current = r.current.setCall i req phase)
    (other : ∀ j actor now, a ≠ .commit j actor now)
    (sound : LinkCall.Sound digest ⟨req, phase⟩)
    (stays : waiting phase → ∀ call, r.current.calls i = some call → waiting call.phase)
    (accounted : Accounted digest start r'.past i req phase) :
    HistoryInv digest start r' := by
  have commits : ∀ j m, Commits r'.past j m → Commits r.past j m :=
    fun _ _ => commits_other past other
  refine ⟨?_, ?_, ?_, ?_, ?_, ?_⟩
  · rw [eq]
    exact inv.current.setCall sound
  · refine kept_later inv past ?_
    obtain ⟨links, readable⟩ := inv.current.readable
    refine ⟨r'.current, links, links, next, readable, ?_, .inl rfl⟩
    rw [eq]
    exact readable
  · exact fun j m m' h h' => inv.once j m m' (commits j m h) (commits j m' h')
  · intro j idle m h
    refine inv.idle j ?_ m (commits j m h)
    intro call hc
    by_cases same : j = i
    · subst same
      refine stays (idle ⟨req, phase⟩ ?_) call hc
      rw [eq, setCall_calls, if_pos rfl]
    · refine idle call ?_
      rw [eq, setCall_calls, if_neg same]
      exact hc
  · intro j req' phase' hc
    rw [eq, setCall_calls] at hc
    split_ifs at hc with same
    · obtain ⟨rfl, rfl⟩ := LinkCall.mk.inj (Option.some.inj hc)
      rw [same]
      exact accounted
    · rw [past]
      exact (inv.accounts j req' phase' hc).later
  · intro id write known
    rw [eq] at known
    obtain ⟨own, remembered⟩ := inv.memory id write known
    rw [past]
    exact ⟨own, remembered.later⟩

/-- The writer's turn of request `i`. -/
theorem HistoryInv.turn (inv : HistoryInv digest start r) {actor now : Stamp}
    {phase₀ : LinkPhase} (past : r'.past = r.past ++ [(r.current, .commit i actor now)])
    (next : r.current.step digest (.commit i actor now) = some r'.current)
    (prior : r.current.calls i = some ⟨req, phase₀⟩) (waits : waiting phase₀)
    (eq : ∀ j, r'.current.calls j = if j = i then some ⟨req, phase⟩ else r.current.calls j)
    (settled : ¬ waiting phase) (sound : LinkCall.Sound digest ⟨req, phase⟩)
    (effect : ∃ links links', Readable r.current.file links ∧ Readable r'.current.file links' ∧
      (links' = links ∨ req.Wrote digest links links'))
    (accounted : Accounted digest start r'.past i req phase)
    (memory : ∀ id write, r'.current.replays id = some write →
      r.current.replays id = some write ∨
        id = write.requestId ∧ req = .post write ∧ phase = .written) :
    HistoryInv digest start r' := by
  have commits : ∀ j m, Commits r'.past j m → Commits r.past j m ∨ (j = i ∧ m = r.past.length) := by
    rintro j m ⟨u, actor', now', there⟩
    rw [past, at_append_iff] at there
    obtain there | ⟨last, same⟩ := there
    · exact .inl ⟨u, actor', now', there⟩
    · obtain ⟨rfl, -, -⟩ := LinkAction.commit.inj (congrArg Prod.snd same)
      exact .inr ⟨rfl, last⟩
  have none : ∀ m, ¬ Commits r.past i m := by
    refine inv.idle i fun call hc => ?_
    rw [prior] at hc
    obtain rfl := Option.some.inj hc
    exact waits
  obtain ⟨links, links', readable, readable', wrote⟩ := effect
  refine ⟨⟨⟨links', readable'⟩, ?_⟩, ?_, ?_, ?_, ?_, ?_⟩
  · intro j call hc
    rw [eq] at hc
    split_ifs at hc
    · obtain rfl := Option.some.inj hc
      exact sound
    · exact inv.current.sound j call hc
  · refine kept_later inv past ⟨r'.current, links, links', next, readable, readable', ?_⟩
    exact wrote.imp_right fun wrote => ⟨i, actor, now, ⟨req, phase₀⟩, rfl, prior, wrote⟩
  · intro j m m' h h'
    obtain h | ⟨rfl, rfl⟩ := commits j m h
    · obtain h' | ⟨rfl, rfl⟩ := commits j m' h'
      · exact inv.once j m m' h h'
      · exact absurd h (none m)
    · obtain h' | ⟨-, rfl⟩ := commits j m' h'
      · exact absurd h' (none m')
      · rfl
  · intro j idle m h
    obtain h | ⟨rfl, -⟩ := commits j m h
    · by_cases same : j = i
      · subst same
        exact none m h
      · refine inv.idle j (fun call hc => idle call ?_) m h
        rw [eq, if_neg same]
        exact hc
    · refine settled (idle ⟨req, phase⟩ ?_)
      rw [eq, if_pos rfl]
  · intro j req' phase' hc
    rw [eq] at hc
    split_ifs at hc with same
    · obtain ⟨rfl, rfl⟩ := LinkCall.mk.inj (Option.some.inj hc)
      rw [same]
      exact accounted
    · rw [past]
      exact (inv.accounts j req' phase' hc).later
  · intro id write known
    obtain known | ⟨own, rfl, rfl⟩ := memory id write known
    · obtain ⟨own, remembered⟩ := inv.memory id write known
      rw [past]
      exact ⟨own, remembered.later⟩
    · obtain ⟨m, wrote⟩ := accounted
      exact ⟨own, .inr ⟨i, m, wrote⟩⟩

/-- A write of the writer, as it stands in the history. -/
theorem wroteAt_now {actor now : Stamp} {phase₀ : LinkPhase} {links links' : List LinkRecord}
    (past : r'.past = r.past ++ [(r.current, .commit i actor now)])
    (next : r.current.step digest (.commit i actor now) = some r'.current)
    (prior : r.current.calls i = some ⟨req, phase₀⟩) (readable : Readable r.current.file links)
    (readable' : Readable r'.current.file links') (wrote : req.Wrote digest links links') :
    WroteAt digest r'.past i req r.past.length := by
  refine ⟨r.current, actor, now, phase₀, r'.current, links, links', ?_, prior, next, readable,
    readable', wrote⟩
  rw [past]
  exact at_now

/-- The writer's turn, case by case. -/
theorem HistoryInv.commit (inv : HistoryInv digest start r) {actor now : Stamp}
    (past : r'.past = r.past ++ [(r.current, .commit i actor now)])
    (next : r.current.step digest (.commit i actor now) = some r'.current) :
    HistoryInv digest start r' := by
  have h := next
  obtain ⟨links, readable⟩ := inv.current.readable
  simp only [LinksState.step] at h
  split at h
  · next call prior =>
      obtain ⟨req, phase₀⟩ := call
      have sound := inv.current.sound i _ prior
      have moved : ∀ {phase : LinkPhase}, ¬ waiting phase →
          LinkCall.Sound digest ⟨req, phase⟩ := by
        intro phase settled
        refine LinkCall.Sound.move sound ?_ ?_ ?_
        · rintro rfl
          exact settled trivial
        · rintro _ rfl
          exact settled trivial
        · rintro _ rfl
          exact settled trivial
      have settled : ¬ waiting .written := id
      have quiet : ∀ {phase : LinkPhase}, waiting phase₀ → ¬ waiting phase →
          Accounted digest start r'.past i req phase →
          r'.current = r.current.setCall i req phase → HistoryInv digest start r' := by
        intro phase waits settled accounted eq
        refine inv.turn past next prior waits ?_ settled (moved settled)
          ⟨links, links, readable, ?_, .inl rfl⟩ accounted ?_
        · intro j
          rw [eq, setCall_calls]
        · rw [eq]
          exact readable
        · intro id write known
          rw [eq] at known
          exact .inl known
      have failed : waiting phase₀ →
          r'.current = r.current.setCall i req (.answered .failed) → HistoryInv digest start r' :=
        fun waits => quiet waits id fun succeeded => absurd succeeded (by decide)
      unfold commitCall at h
      dsimp only at h
      split at h
      · next write waitingNext =>
          split at h
          · next known remembered =>
              split_ifs at h with same
              · subst same
                obtain ⟨-, remembered⟩ := inv.memory _ _ remembered
                refine quiet trivial id ?_ (Option.some.inj h).symm
                rw [past]
                exact ⟨known, rfl, remembered.later⟩
              · exact failed trivial (Option.some.inj h).symm
          · split at h
            · exact failed trivial (Option.some.inj h).symm
            · next text transform =>
                have eq := (Option.some.inj h).symm
                obtain ⟨links', readable', wrote⟩ :=
                  postTransform_wrote (sound.ready write waitingNext rfl) readable transform
                have now : Readable r'.current.file links' := by
                  rw [eq]
                  exact readable'
                refine inv.turn past next prior trivial ?_ settled (moved settled)
                  ⟨links, links', readable, now, .inr wrote⟩
                  ⟨_, wroteAt_now past next prior readable now wrote⟩ ?_
                · intro j
                  rw [eq, setCall_calls]
                · intro id known held
                  rw [eq] at held
                  change Function.update r.current.replays write.requestId (some write) id = _
                    at held
                  rw [Function.update_apply] at held
                  split_ifs at held with same
                  · obtain rfl := Option.some.inj held
                    exact .inr ⟨same, rfl, rfl⟩
                  · exact .inl held
      · next source target anchors fresh =>
          split at h
          · exact failed trivial (Option.some.inj h).symm
          · next text transform =>
              have eq := (Option.some.inj h).symm
              have sub := sound.fresh source target anchors fresh rfl
              have stable : ∀ a ∈ fresh, a.Stable :=
                fun a ha => sound.anchors source target anchors rfl a (sub ha)
              obtain ⟨links', readable', wrote⟩ :=
                appendTransform_wrote stable sub readable transform
              have now : Readable r'.current.file links' := by
                rw [eq]
                exact readable'
              refine inv.turn past next prior trivial ?_ settled (moved settled)
                ⟨links, links', readable, now, .inr wrote⟩
                ⟨_, wroteAt_now past next prior readable now wrote⟩ ?_
              · intro j
                rw [eq, setCall_calls]
              · intro id known held
                rw [eq] at held
                exact .inl held
      · cases h
  · cases h

theorem waits_of {phase₀ : LinkPhase} {s : LinksState} (prior : s.calls i = some ⟨req, phase₀⟩)
    (waits : waiting phase₀) : ∀ call, s.calls i = some call → waiting call.phase := by
  intro call hc
  rw [prior] at hc
  obtain rfl := Option.some.inj hc
  exact waits

/-- A request fails outside of the writer. -/
theorem HistoryInv.fails (inv : HistoryInv digest start r) {phase₀ : LinkPhase}
    (past : r'.past = r.past ++ [(r.current, a)])
    (next : r.current.step digest a = some r'.current)
    (other : ∀ j actor now, a ≠ .commit j actor now)
    (prior : r.current.calls i = some ⟨req, phase₀⟩)
    (eq : r'.current = r.current.setCall i req (.answered .failed)) :
    HistoryInv digest start r' := by
  refine inv.move past next eq other ?_ (fun waits => waits.elim) ?_
  · exact (inv.current.sound i _ prior).move (by simp) (by simp) (by simp)
  · exact fun succeeded => absurd succeeded (by decide)

/-- **One step** keeps the history sound. -/
theorem HistoryInv.step (inv : HistoryInv digest start r)
    (h : recordStep (LinksState.step digest) r a = some r') : HistoryInv digest start r' := by
  obtain ⟨next, past⟩ := recordStep_eq_some h
  have eq := next
  cases a with
  | post i write =>
      simp only [LinksState.step] at eq
      split_ifs at eq with new
      refine inv.move past next (Option.some.inj eq).symm (by simp) ⟨?_, ?_, ?_, ?_⟩ ?_ trivial
      · rintro _ ⟨⟩
      · rintro _ _ ⟨⟩
      · rintro _ _ _ ⟨⟩
      · rintro _ _ _ _ ⟨⟩
      · intro _ call hc
        rw [hc] at new
        cases new
  | record i conversation scope chips message attachments =>
      simp only [LinksState.step] at eq
      split_ifs at eq with new
      refine inv.move past next (Option.some.inj eq).symm (by simp) ⟨?_, ?_, ?_, ?_⟩ ?_ trivial
      · rintro _ ⟨⟩
      · rintro _ _ ⟨⟩
      · rintro _ _ _ ⟨⟩
        exact recordedAnchors_stable
      · rintro _ _ _ _ ⟨⟩
      · intro _ call hc
        rw [hc] at new
        cases new.1
  | resolve i sourceNode targetNode =>
      simp only [LinksState.step] at eq
      split at eq
      · next write prior =>
          have sound := inv.current.sound i _ prior
          split_ifs at eq with ok
          · simp only [Bool.and_eq_true] at ok
            obtain ⟨⟨-, target⟩, shape⟩ := ok
            refine inv.move past next (Option.some.inj eq).symm (by simp) ⟨?_, ?_, ?_, ?_⟩
              (fun _ => waits_of prior trivial) trivial
            · rintro _ ⟨⟩
              exact ⟨isValue_of_nodeFound target, checkShape_kind shape⟩
            · rintro _ _ ⟨⟩
            · exact sound.anchors
            · rintro _ _ _ _ ⟨⟩
          · exact inv.fails past next (by simp) prior (Option.some.inj eq).symm
      · cases eq
  | check i sourceNode sourceAttachments targetAttachments actor now =>
      simp only [LinksState.step] at eq
      split at eq
      · next write prior =>
          have sound := inv.current.sound i _ prior
          split at eq
          · next record checked =>
              obtain ⟨target, kind⟩ := sound.resolved write rfl
              refine inv.move past next (Option.some.inj eq).symm (by simp) ⟨?_, ?_, ?_, ?_⟩
                (fun _ => waits_of prior trivial) trivial
              · rintro _ ⟨⟩
              · rintro _ _ ⟨⟩
                exact LinkWrite.next_ready target kind checked
              · exact sound.anchors
              · rintro _ _ _ _ ⟨⟩
          · exact inv.fails past next (by simp) prior (Option.some.inj eq).symm
      · cases eq
  | look i =>
      simp only [LinksState.step] at eq
      split at eq
      · next source target anchors prior =>
          have sound := inv.current.sound i _ prior
          split at eq
          · exact inv.fails past next (by simp) prior (Option.some.inj eq).symm
          · next looked =>
              refine inv.move past next (Option.some.inj eq).symm (by simp)
                (sound.move (by simp) (by simp) (by simp)) (fun waits => waits.elim) ?_
              obtain ⟨links, readable⟩ := inv.current.readable
              obtain ⟨link, live, fresh⟩ := lookAnchors_ok readable looked
              refine fun _ => .inr (.inr ⟨source, target, anchors, r.past.length, r.current,
                links, link, rfl, ?_, readable, live, onFile_of_freshAnchors fresh.symm⟩)
              rw [past]
              exact at_now
          · next fresh _ looked =>
              refine inv.move past next (Option.some.inj eq).symm (by simp) ⟨?_, ?_, ?_, ?_⟩
                (fun _ => waits_of prior trivial) trivial
              · rintro _ ⟨⟩
              · rintro _ _ ⟨⟩
              · exact sound.anchors
              · rintro _ _ _ _ ⟨⟩
                obtain ⟨links, readable⟩ := inv.current.readable
                obtain ⟨link, -, rfl⟩ := lookAnchors_ok readable looked
                exact freshAnchors_subset _ _
      · cases eq
  | commit i actor now => exact inv.commit past next
  | reply i =>
      simp only [LinksState.step] at eq
      split at eq
      · next req prior =>
          refine inv.move past next (Option.some.inj eq).symm (by simp)
            ((inv.current.sound i _ prior).move (by simp) (by simp) (by simp))
            (fun waits => waits.elim) fun _ => .inl ?_
          rw [past]
          exact (inv.accounts i req .written prior).later
      · next req prior =>
          refine inv.move past next (Option.some.inj eq).symm (by simp)
            ((inv.current.sound i _ prior).move (by simp) (by simp) (by simp))
            (fun waits => waits.elim) fun _ => .inr (.inl ?_)
          rw [past]
          exact Replayed.later (inv.accounts i req .replayed prior)
      · cases eq
  | fail i =>
      simp only [LinksState.step] at eq
      split at eq
      · cases eq
      · next req phase₀ _ prior =>
          exact inv.fails past next (by simp) prior (Option.some.inj eq).symm
      · cases eq
  | forget requestId =>
      have eq := (Option.some.inj eq).symm
      exact inv.forget past next eq

/-! ### Whole runs -/

namespace RetriedPost

theorem hexDigits :
    "76fe3925c7167317f2df68454339f5ec3650e4062178b4f2be219b105a507907".toList.length = 64 ∧
      ("76fe3925c7167317f2df68454339f5ec3650e4062178b4f2be219b105a507907".toList.all fun c =>
        "0123456789abcdef".toList.contains c) = true := by
  decide +kernel

/-- The digest of the pair below. -/
def pairDigest : Digest :=
  ⟨"76fe3925c7167317f2df68454339f5ec3650e4062178b4f2be219b105a507907".toList, hexDigits.1,
    fun c hc => List.mem_of_elem_eq_true (List.all_eq_true.mp hexDigits.2 c hc)⟩

def hash : Bytes → Digest := fun _ => pairDigest

def stamp : Stamp := ⟨"ada".toList, by decide⟩

def write : LinkWrite :=
  ⟨"p".toList, "A".toList, "B".toList, "PRODUCES".toList, [], 0, false, "r".toList⟩

def nodeText (id : Text) : Text := "* n\n:PROPERTIES:\n:ID: ".toList ++ id ++ "\n:END:\n".toList

def next : LinkRecord :=
  ⟨pairDigest.val, "A".toList, "B".toList, "PRODUCES".toList, 1, false, [], "ada".toList,
    "ada".toList⟩

theorem found : nodeFound write.source (nodeText "A".toList) = true ∧
    nodeFound write.target (nodeText "B".toList) = true ∧ write.checkShape.isOk = true ∧
    write.next hash (nodeText "A".toList) [] [] stamp stamp = .ok next ∧
    readLinks [] = .ok [] := by
  decide +kernel

/-- Nothing on file. -/
def empty : LinksState := ⟨[], fun _ => none, fun _ => none⟩

/-- The state with request `i` in a phase. -/
def at_ (s : LinksState) (i : ℕ) (phase : LinkPhase) : LinksState := s.setCall i (.post write) phase

/-- Request `i` waits for the writer. -/
def waits (s : LinksState) (i : ℕ) : LinksState :=
  at_ (at_ (at_ s i .received) i .resolved) i (.ready next)

/-- What request `i` does before the writer comes to it. -/
def arrival (s : LinksState) (i : ℕ) : LinkHistory :=
  [(s, .post i write),
    (at_ s i .received, .resolve i (nodeText "A".toList) (nodeText "B".toList)),
    (at_ (at_ s i .received) i .resolved, .check i (nodeText "A".toList) [] [] stamp stamp)]

/-- The writer has written the record of request 0. -/
def written : LinksState :=
  at_ { waits empty 0 with
    file := renderLinks [next]
    replays := Function.update (waits empty 0).replays write.requestId (some write) } 0 .written

def answer : LinkAnswer := .posted (linkId hash write.source write.target)

/-- Request 0 is answered. -/
def posted : LinksState := at_ written 0 (.answered answer)

/-- The writer remembers request 1. -/
def replayed : LinksState := at_ (waits posted 1) 1 .replayed

/-- Request 1 is answered. -/
def retried : LinksState := at_ replayed 1 (.answered answer)

def firstHistory : LinkHistory :=
  arrival empty 0 ++ [(waits empty 0, .commit 0 stamp stamp)] ++ [(written, .reply 0)]

def history : LinkHistory :=
  firstHistory ++ arrival posted 1 ++ [(waits posted 1, .commit 1 stamp stamp)] ++
    [(replayed, .reply 1)]

end RetriedPost

end LinksState

end Orgasmic
