import Orgasmic.ConsumedComments

/-! # Upserting a property

`upsert_property` replaces the value of a property that a heading has, and inserts one line
otherwise.

* **Lines.** `Entries.set`: a text in the place of a value makes another value of the same key.
* **Documents.** `upsert_line`: either way the drawer has the entries that `setPair` describes.
  `upsertProperty_spec`: a heading with an id accepts every key and every value of one line, and the
  document is the same but for this property. -/

namespace Orgasmic

open Text Forest

/-! ### Lines -/

theorem setPair_of_absent {key value : Text} {ps : List (Text × Text)}
    (h : ∀ p ∈ ps, p.1 ≠ key) : setPair key value ps = ps ++ [(key, value)] := by
  induction ps with
  | nil => rfl
  | cons p ps ih =>
      obtain ⟨hp, hps⟩ := List.forall_mem_cons.mp h
      rw [setPair, if_neg hp, ih hps, List.cons_append]

/-- **Another value** for a key of a drawer: the text around it, the lines and what is read of
them. -/
theorem Entries.set {key : Text} (hend : key ≠ "END".toList) {u : Text} (hu : '\n' ∉ u) {off : ℕ}
    {ds : List Text} {es : List PropertyEntry} (hes : Entries off ds es)
    (hterm : ∀ l ∈ ds, Terminated l) {e : PropertyEntry}
    (he : es.find? (fun e => e.key = key) = some e) :
    ∃ front behind ds' es', ds.flatten = front ++ (e.value ++ behind) ∧
      ds'.flatten = front ++ (u ++ behind) ∧ (∀ l ∈ ds', Terminated l) ∧ Entries off ds' es' ∧
      es'.map PropertyEntry.pair = setPair key (trim u) (es.map PropertyEntry.pair) ∧
      e.valueSpan = ⟨off + front.length, off + front.length + e.value.length⟩ := by
  induction ds generalizing off es with
  | nil =>
      cases es with
      | nil => cases he
      | cons e' es => exact hes.elim
  | cons l ds ih =>
      cases es with
      | nil => exact hes.elim
      | cons e' es =>
          obtain ⟨hl, hparsed, hes⟩ := hes
          obtain ⟨htermL, htermD⟩ := List.forall_mem_cons.mp hterm
          by_cases hkey : e'.key = key
          · rw [List.find?_cons_of_pos (by simpa using hkey), Option.some.injEq] at he
            subst he
            obtain ⟨front, behind, e₁, rfl, hterm₁, hne, hparsed₁, hpair, hspan⟩ :=
              propertyLine_set htermL hparsed (hkey ▸ hend) hu
            obtain ⟨es₁, hes₁, hpairs⟩ := hes.shift (off + (front ++ (u ++ behind)).length)
            have hfirst : (PropertyEntry.pair e').1 = key := hkey
            refine ⟨front, behind ++ ds.flatten, (front ++ (u ++ behind)) :: ds, e₁ :: es₁, by simp,
              by simp, List.forall_mem_cons.mpr ⟨hterm₁, htermD⟩, ⟨hne, hparsed₁, hes₁⟩, ?_, hspan⟩
            rw [List.map_cons, List.map_cons, setPair, if_pos hfirst, hpairs, hpair, hkey]
          · rw [List.find?_cons_of_neg (by simpa using hkey)] at he
            obtain ⟨front, behind, ds', es', hds, hds', hterm', hes', hpairs, hspan⟩ := ih hes htermD he
            have hother : ¬(PropertyEntry.pair e').1 = key := hkey
            refine ⟨l ++ front, behind, l :: ds', e' :: es', by simp [hds], by simp [hds'],
              List.forall_mem_cons.mpr ⟨htermL, hterm'⟩, ⟨hl, hparsed, hes'⟩, ?_, ?_⟩
            · rw [List.map_cons, hpairs, List.map_cons, setPair, if_neg hother]
            · rw [List.length_append, ← Nat.add_assoc]
              exact hspan

/-! ### Documents -/

/-- The heading with a property set. -/
def setProp (key value : Text) (n : Node) (sections : List (Forest.Tree Node)) :
    List (Forest.Tree Node) :=
  [.node { n with properties := setPair key value n.properties } sections]

namespace Drawer

variable {D : Drawer} {ds : List Text} {es : List PropertyEntry}

/-- The text of a value is replaced. -/
theorem replaceRange_entries (D : Drawer) {ds ds' : List Text} {front old w u : Text}
    (h : ds.flatten = front ++ (old ++ w)) (h' : ds'.flatten = front ++ (u ++ w)) :
    replaceRange (D.text ds) ⟨D.off + front.length, D.off + front.length + old.length⟩ u =
      D.text ds' := by
  have hthree := replaceRange_append_three (frontText D.P D.as ++ (D.title ++ (D.opening ++ front)))
    old (w ++ D.behind) u
  have hlen : (frontText D.P D.as ++ (D.title ++ (D.opening ++ front))).length =
      D.off + front.length := by
    simp only [List.length_append, off]
    omega
  rw [hlen] at hthree
  rw [text, text, h, h']
  simpa [Drawer.behind] using hthree

/-- The lines of a drawer open no block. -/
theorem depth_text (h : D.Fits ds es) :
    depthAfter 0 (rawLines (D.text ds)) = depthAfter 0 (D.last :: (D.body ++ Segment.join D.bs)) := by
  obtain ⟨hraw, -, -⟩ := (chunksOf_eq_iff _ _ _).mp (chunksOf_text h)
  obtain ⟨u, hu⟩ := trimStart_of_trim D.opens
  obtain ⟨-, hopening⟩ := colonLine hu
  obtain ⟨-, hds⟩ := h.entries.quiet
  have hlines : D.P ++ Segment.join (D.as ++ D.chunk ds :: D.bs) =
      (D.P ++ Segment.join D.as) ++ (D.title :: ([D.opening] ++
        (ds ++ (D.last :: (D.body ++ Segment.join D.bs))))) := by
    simp [chunk]
  rw [hraw, hlines, depthAfter_append, D.front.depth, depthAfter_cons, (isHead_zero D.head).2.1,
    depthAfter_append, hopening, depthAfter_append, hds]

end Drawer

namespace OrgRewriter

variable {id key value : Text} {r r' : OrgRewriter} {f : OrgFile} {g : Heading} {D : Drawer}
  {ds : List Text}

/-- Upserting a property leaves the name of the file. -/
theorem fileName_upserted (hf : r.view = .ok f) (hg : f.findById id = some g)
    (h : (upsertProperty id key value).run r = .ok () r') : r'.fileName = r.fileName := by
  have view : parseView.run r = .ok f r := by simp only [parseView, EStateM.run, hf]
  have find : (headingOrErr f id).run r = .ok g r := by simp only [headingOrErr, EStateM.run, hg]
  rw [run_upsertProperty hf hg] at h
  split_ifs at h with hany
  · obtain ⟨e, he⟩ := Option.isSome_iff_exists.mp (List.find?_isSome.mpr (List.any_eq_true.mp hany))
    rw [run_setProperty hf hg he] at h
    cases h
    rfl
  · simp only [insertProperty, EStateM.run_bind, view, find] at h
    cases hd : g.properties with
    | none =>
        rw [hd] at h
        cases h
    | some d =>
        rw [hd] at h
        cases h
        rfl

/-- **Upserting a property** in a drawer: the lines that are written and what is read of them. -/
theorem upsert_line (h : D.At id r f g ds) (hkey : IsKey key) (hvalue : '\n' ∉ value) :
    ∃ r' ds' es', (upsertProperty id key value).run r = .ok () r' ∧ r'.currentText = D.text ds' ∧
      D.Fits ds' es' ∧ es'.map PropertyEntry.pair =
        setPair key (trim value) (g.propertyEntries.map PropertyEntry.pair) := by
  rw [run_upsertProperty h.view h.found]
  cases he : g.propertyEntries.find? fun e => e.key = key with
  | some e =>
      have hany : g.propertyEntries.any (fun e => e.key = key) = true :=
        List.any_eq_true.mpr ⟨e, List.mem_of_find?_eq_some he, by simpa using List.find?_some he⟩
      -- an empty value gets a space in front of it
      obtain ⟨u, hu, htrim, hnl⟩ : ∃ u,
          (if e.valueSpan.stop ≤ e.valueSpan.start && value ≠ [] then ' ' :: value else value) = u ∧
            trim u = trim value ∧ '\n' ∉ u := by
        refine ⟨_, rfl, ?_, ?_⟩
        · split_ifs
          · exact trim_blank_append (w := [' ']) (by decide) value
          · rfl
        · split_ifs
          · simp [hvalue]
          · exact hvalue
      obtain ⟨front, behind, ds', es', hds, hds', hterm, hes', hpairs, hspan⟩ :=
        h.fits.entries.set hkey.ne_end hnl h.fits.terminated he
      rw [if_pos hany, run_setProperty h.view h.found he, hu]
      refine ⟨_, ds', es', rfl, ?_, ⟨hterm, hes'⟩, htrim ▸ hpairs⟩
      rw [currentText_replaced, h.text, hspan, D.replaceRange_entries hds hds']
  | none =>
      have habsent := List.find?_eq_none.mp he
      have hany : ¬g.propertyEntries.any (fun e => e.key = key) = true := by
        rw [List.any_eq_true]
        exact fun ⟨e, hmem, hk⟩ => habsent e hmem hk
      obtain ⟨raw, r', hraw, htrim, hrun, htext⟩ := insertProperty_line h key hvalue
      obtain ⟨-, -, e, -, -, -, hfits, hpair, -, -⟩ := h.fits.concat hkey hraw
      rw [if_neg hany]
      refine ⟨r', _, _, hrun, htext, hfits, ?_⟩
      rw [setPair_of_absent, List.map_append, List.map_singleton, hpair, htrim]
      intro p hp
      obtain ⟨e', hmem, rfl⟩ := List.mem_map.mp hp
      simpa [PropertyEntry.pair] using habsent e' hmem

/-- **Upserting a property of a heading with an id** works, and the document is the same but for
the property. -/
theorem upsertProperty_spec (hf : r.view = .ok f) (hg : f.findById id = some g) (hkey : IsKey key)
    (hne : key ≠ "ID".toList) (hvalue : '\n' ∉ value) :
    ∃ r' f' g', (upsertProperty id key value).run r = .ok () r' ∧ r'.view = .ok f' ∧
      f'.findById id = some g' ∧ r'.fileName = r.fileName ∧ f'.keywords = f.keywords ∧
      editFirstIn (HasId id) (setProp key (trim value)) f.forest = some f'.forest ∧
      depthAfter 0 (rawLines r'.currentText) = depthAfter 0 (rawLines r.currentText) := by
  obtain ⟨D, ds, hat⟩ := exists_at hf hg
  obtain ⟨r', ds', es', hrun, htext, hfits, hpairs⟩ := upsert_line hat hkey hvalue
  have hid := (findById_place hf hg).1
  have hfound (es : List PropertyEntry) : (es.find? fun e => e.key = "ID".toList).map
      PropertyEntry.value = ((es.map PropertyEntry.pair).find? fun p => p.1 = "ID".toList).map
        Prod.snd := by
    rw [List.find?_map, Option.map_map]
    rfl
  obtain ⟨f', g', hat', -, hkeywords, hforest⟩ := hat.moved htext hfits
    (by rw [hfound, hpairs, find_setPair_of_ne hne.symm, ← hfound]; exact hid)
    (fun cs => by rw [hpairs]; rfl : ∀ cs, setProp key (trim value) (g.exact f.source) cs = _)
  refine ⟨r', f', g', hrun, hat'.view, hat'.found, fileName_upserted hf hg hrun, hkeywords, hforest,
    ?_⟩
  rw [htext, hat.text, Drawer.depth_text hfits, Drawer.depth_text hat.fits]

end OrgRewriter

end Orgasmic
