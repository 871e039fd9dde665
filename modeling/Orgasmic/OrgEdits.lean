import Orgasmic.OrgGuards

/-! # What a guarded edit owes

* **The edits.** `GuardedEdit` lists the operations that check what they wrote.
* **The promise.** `GuardedEdit.Done`: the target reads back as what was submitted, and every
  other heading is the node it was (`Replaces`), or for `appendSection` every heading but the
  new one.
* **The condition.** `GuardedEdit.Safe`: what an edit that passed its guards needs to have kept
  that promise.  The bodies need nothing (`setNodeBody_done`, `setSectionBody_done`). -/

namespace Orgasmic

open Text

inductive GuardedEdit where
  | setNodeBody (headingId content : Text)
  | setSectionBody (headingId sectionTitle newBody : Text)
  | appendSection (headingId title body : Text)
  | editHeadingLine (headingId : Text) (edit : HeadingLineEdit)

def GuardedEdit.run : GuardedEdit → Rewrite Unit
  | .setNodeBody headingId content => OrgRewriter.setNodeBody headingId content
  | .setSectionBody headingId sectionTitle newBody =>
      OrgRewriter.setSectionBody headingId sectionTitle newBody
  | .appendSection headingId title body => OrgRewriter.appendSection headingId title body
  | .editHeadingLine headingId edit => OrgRewriter.editHeadingLine headingId edit

/-- `f'` has the headings of `f`, with `i'` in the place of `i`. -/
def Replaces (f f' : OrgFile) (i i' : HeadingInfo) : Prop :=
  ∃ pre post pre' post', f.infos = pre ++ i :: post ∧ f'.infos = pre' ++ i' :: post' ∧
    pre'.map (HeadingInfo.node f'.source) = pre.map (HeadingInfo.node f.source) ∧
    post'.map (HeadingInfo.node f'.source) = post.map (HeadingInfo.node f.source)

/-- The edit did what it was asked for, and nothing else. -/
def GuardedEdit.Done (f f' : OrgFile) : GuardedEdit → Prop
  | .setNodeBody headingId content =>
      ∃ g g', f.findById headingId = some g ∧ f'.findById headingId = some g' ∧
        Replaces f f' g.toHeadingInfo g'.toHeadingInfo ∧
        (g'.node f'.source).withoutBody = (g.node f.source).withoutBody ∧
        trim (f'.slice g'.body) = trim content
  | .setSectionBody headingId sectionTitle newBody =>
      ∃ g s g' s', f.findById headingId = some g ∧ g.section? sectionTitle = some s ∧
        f'.findById headingId = some g' ∧ g'.section? sectionTitle = some s' ∧
        Replaces f f' s.toHeadingInfo s'.toHeadingInfo ∧
        (s'.node f'.source).withoutBody = (s.node f.source).withoutBody ∧
        trim (f'.slice s'.body) = trim newBody
  | .appendSection headingId title body =>
      ∃ g g' s', f.findById headingId = some g ∧ f'.findById headingId = some g' ∧
        g'.node f'.source = g.node f.source ∧
        g'.sections.getLast? = some s' ∧ s'.sections = [] ∧ s'.title = title ∧
        trim (f'.slice s'.body) = trim body ∧
        ∃ pre post, f'.infos = pre ++ s'.toHeadingInfo :: post ∧
          (pre ++ post).map (HeadingInfo.node f'.source) = f.nodes
  | .editHeadingLine headingId edit =>
      ∃ g g', f.findById headingId = some g ∧ f'.findById headingId = some g' ∧
        Replaces f f' g.toHeadingInfo g'.toHeadingInfo ∧
        g'.node f'.source = { g.node f.source with
          title := (edit.title.map trim).getD g.title, tags := edit.tags.getD g.tags }

/-- What an edit that passed its guards needs to be done.  A body needs nothing.  A title that is
not named is written without the white space in front of it.  A section can be lost in an open
block or take a heading line of bare stars apart; its title can be read as something else, and its
body can start with a drawer. -/
def GuardedEdit.Safe (f : OrgFile) : GuardedEdit → Prop
  | .setNodeBody _ _ => True
  | .setSectionBody _ _ _ => True
  | .appendSection headingId title body => ∀ g, f.findById headingId = some g →
      depthAfter 0 (rawLines (f.slice g.span)) = 0 ∧
      (∀ i, g.flatten.getLast? = some i →
        trimEnd (f.slice ⟨i.titleLine.start, i.body.stop⟩) ≠ List.replicate i.level '*') ∧
      (parseHeadingLine (stars (g.level + 1) title) (g.level + 1) f.declared).map
        ParsedHeadingLine.title = some title ∧
      ∀ l ∈ (rawLines (trimEnd body)).head?, trim l ≠ ":PROPERTIES:".toList
  | .editHeadingLine headingId edit => ∀ g, f.findById headingId = some g →
      edit.title = none → trim g.title = g.title

/-! ### Bodies -/

theorem ink_nodeBodyReplacement (body content : Text) :
    ink (OrgRewriter.nodeBodyReplacement body content) = ink content := by
  have hlead := (take_trimStart body).ink_eq
  have htail := (drop_trimEnd body).1.ink_eq
  have hnl : ink ['\n'] = 0 := by decide
  have hnl' : ink ['\n', '\n'] = 0 := by decide
  have hcontent : trimEnd content = [] → ink content = 0 := fun h =>
    (ink_eq_zero_iff content).mpr ((trimEnd_eq_nil_iff content).mp h)
  have hbody : trim body = [] → ink body = 0 := fun h =>
    (ink_eq_zero_iff body).mpr ((trim_eq_nil_iff body).mp h)
  simp only [OrgRewriter.nodeBodyReplacement]
  split_ifs with h1 h2 h2
  · rw [hbody h2, hcontent h1]
  · rw [htail, hcontent h1]
  · rw [ink_append, ink_append, hnl, hnl', ink_trimEnd]
    omega
  · rw [ink_append, ink_append, hlead, htail, ink_trimEnd]
    omega

/-- Keys that agree, place by place. -/
theorem keys_split {infos infos' pre post pre' post' : List HeadingInfo} {i i' : HeadingInfo}
    (hkeys : infos'.map HeadingInfo.key = infos.map HeadingInfo.key)
    (h : infos = pre ++ i :: post) (h' : infos' = pre' ++ i' :: post')
    (hlen : pre'.length = pre.length) :
    i'.key = i.key ∧ post'.map HeadingInfo.key = post.map HeadingInfo.key := by
  rw [h, h', List.map_append, List.map_append, List.map_cons, List.map_cons] at hkeys
  exact List.cons.inj (List.append_inj_right hkeys (by simpa using hlen))

/-- What holds of the nodes of some headings holds of headings with the same nodes. -/
theorem forall_node {s s' : Text} {is is' : List HeadingInfo}
    (h : is'.map (HeadingInfo.node s') = is.map (HeadingInfo.node s)) {p : Node → Prop}
    (hp : ∀ i ∈ is, p (i.node s)) : ∀ i ∈ is', p (i.node s') := by
  have hp : ∀ n ∈ is'.map (HeadingInfo.node s'), p n := by
    rw [h]
    exact List.forall_mem_map.mpr hp
  exact List.forall_mem_map.mp hp

theorem keys_of_nodes {s s' : Text} {is is' : List HeadingInfo}
    (h : is'.map (HeadingInfo.node s') = is.map (HeadingInfo.node s)) :
    is'.map HeadingInfo.key = is.map HeadingInfo.key := by
  have := congrArg (List.map Node.key) h
  simpa [List.map_map, Function.comp_def, HeadingInfo.node_key] using this

theorem no_id_of_nodes {s s' id : Text} {is is' : List HeadingInfo}
    (h : is'.map (HeadingInfo.node s') = is.map (HeadingInfo.node s))
    (hp : ∀ i ∈ is, i.property "ID".toList ≠ some id) :
    ∀ i ∈ is', i.property "ID".toList ≠ some id := by
  have := forall_node h (p := fun n => n.property "ID".toList ≠ some id) fun i hi => by
    rw [HeadingInfo.node_property]
    exact hp i hi
  intro i hi
  rw [← HeadingInfo.node_property s']
  exact this i hi

/-- A lookup by id finds the heading in the place where it was. -/
theorem found_at {source display id : Text} {f' : OrgFile}
    (h' : OrgFile.parse source display = .ok f') {g' : Heading} (hg' : f'.findById id = some g')
    {pre' post' : List HeadingInfo} {i' : HeadingInfo} (hsplit : f'.infos = pre' ++ i' :: post')
    (hpre : ∀ i ∈ pre', i.property "ID".toList ≠ some id)
    (hi : i'.property "ID".toList = some id) : g'.toHeadingInfo = i' := by
  obtain ⟨hid, pre, post, hsub, hno⟩ := findById_place h' hg'
  have hsplit' := hsub.split
  rw [flatten_eq, List.append_assoc, List.cons_append, hsplit] at hsplit'
  exact (Outline.split_unique (p := fun j : HeadingInfo => j.property "ID".toList = some id)
    hsplit' hpre hi hno hid).2.1.symm

theorem setNodeBody_done {id content : Text} {r r₁ : OrgRewriter} {f : OrgFile}
    (hf : r.view = .ok f) (h : (OrgRewriter.setNodeBody id content).run r = .ok () r₁) :
    ∃ f', r₁.view = .ok f' ∧ GuardedEdit.Done f f' (.setNodeBody id content) := by
  obtain ⟨f₁, g, f', g', hv, hg, hv', htext, hkeys, hg', hread⟩ := OrgRewriter.setNodeBody_ok h
  obtain rfl : f₁ = f := by
    rw [hf, Except.ok.injEq] at hv
    exact hv.symm
  obtain ⟨hid, pre, post, hsub, hpre⟩ := findById_place hf hg
  have hsplit := hsub.split
  rw [flatten_eq, List.append_assoc, List.cons_append] at hsplit
  obtain ⟨pre₁, i, post₁, hsplit₁, hpre₁, -, hsame⟩ := body_edit hf hsplit htext hv'
    (by simpa using congrArg List.length hkeys)
  obtain ⟨hkey, -⟩ := keys_split hkeys hsplit hsplit₁
    (by simpa using congrArg List.length hpre₁)
  obtain rfl := found_at hv' hg' hsplit₁ (no_id_of_nodes hpre₁ hpre)
    ((congrArg Prod.snd hkey).trans hid)
  have hsource := (readFlat_of_parse hf).1
  have hsource' := (readFlat_of_parse hv').1
  obtain ⟨hpost₁, hnode⟩ := hsame (by
    rw [ink_nodeBodyReplacement, ← hsource']
    exact ink_eq_of_trim_eq hread)
  rw [← hsource, ← hsource'] at hpre₁ hpost₁ hnode
  exact ⟨f', hv', g, g', hg, hg', ⟨_, _, _, _, hsplit, hsplit₁, hpre₁, hpost₁⟩, hnode, hread⟩

theorem setSectionBody_done {id title body : Text} {r r₁ : OrgRewriter} {f : OrgFile}
    (hf : r.view = .ok f) (h : (OrgRewriter.setSectionBody id title body).run r = .ok () r₁) :
    ∃ f', r₁.view = .ok f' ∧ GuardedEdit.Done f f' (.setSectionBody id title body) := by
  obtain ⟨f₁, g, s, f', g', s', hv, hg, hs, hv', htext, hkeys, hg', hs', hread⟩ :=
    OrgRewriter.setSectionBody_ok h
  obtain rfl : f₁ = f := by
    rw [hf, Except.ok.injEq] at hv
    exact hv.symm
  obtain ⟨hid, pre, post, hsub, hpre⟩ := findById_place hf hg
  obtain ⟨hid', pre', post', hsub', hpre'⟩ := findById_place hv' hg'
  obtain ⟨⟨hlevel, htitle⟩, ps, qs, hsubs, hps⟩ := section_place hsub hs
  have hsplit := hsub.split
  rw [flatten_eq, hsubs.split, flatten_eq] at hsplit
  have hsplit₀ : f₁.infos = (pre ++ g.toHeadingInfo :: ps) ++ s.toHeadingInfo ::
      (Heading.flattenAll s.sections ++ qs ++ post) := by
    rw [hsplit]
    simp
  obtain ⟨pre₁, i, post₁, hsplit₁, hpre₁, hopen, hsame⟩ := body_edit hf hsplit₀ htext hv'
    (by simpa using congrArg List.length hkeys)
  obtain ⟨hkey, -⟩ := keys_split hkeys hsplit₀ hsplit₁
    (by simpa using congrArg List.length hpre₁)
  -- the headings before the section are those before `g`, `g` itself and those between
  rw [List.map_append, List.map_cons] at hpre₁
  obtain ⟨pre₂, ps₀, rfl, hpre₂, hps₀⟩ := List.map_eq_append_iff.mp hpre₁
  obtain ⟨g₂, ps₂, rfl, hg₂, hps₂⟩ := List.map_eq_cons_iff.mp hps₀
  have hsplit' := hsub'.split
  rw [flatten_eq, List.append_assoc, List.cons_append] at hsplit'
  have hid₂ : g₂.property "ID".toList = some id := by
    rw [← HeadingInfo.node_property r₁.currentText, hg₂, HeadingInfo.node_property]
    exact hid
  have hsplit₂ : f'.infos = pre₂ ++ g₂ :: (ps₂ ++ i :: post₁) := by
    rw [hsplit₁]
    simp
  obtain ⟨rfl, rfl, hrest⟩ := Outline.split_unique
    (p := fun j : HeadingInfo => j.property "ID".toList = some id)
    (hsplit₂.symm.trans hsplit') (no_id_of_nodes hpre₂ hpre) hid₂ hpre' hid'
  have hglevel : g'.level = g.level := congrArg Node.level hg₂
  have hi : s'.toHeadingInfo = i := by
    refine section_of_candidate hsub' hs' hrest.symm ?_ ?_
    · rw [hglevel]
      exact forall_node hps₂ (p := fun n => ¬ (n.level = g.level + 1 ∧ n.title = title)) hps
    · refine hopen.imp_left fun ht => ⟨?_, ht.trans htitle⟩
      rw [hglevel, ← hlevel]
      exact congrArg Prod.fst hkey
  subst hi
  have hsource := (readFlat_of_parse hf).1
  have hsource' := (readFlat_of_parse hv').1
  obtain ⟨hpost₁, hnode⟩ := hsame (by
    rw [← hsource']
    exact ink_eq_of_trim_eq hread)
  rw [← hsource, ← hsource'] at hpre₁ hpost₁ hnode
  exact ⟨f', hv', g, s, g', s', hg, hs, hg', hs',
    ⟨_, _, _, _, hsplit₀, hsplit₁, by simpa using hpre₁, hpost₁⟩, hnode, hread⟩

end Orgasmic
