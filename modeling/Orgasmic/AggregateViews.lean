import Orgasmic.ClaimHistory
import Orgasmic.NodeRecords
import Orgasmic.OrgUpsert

/-! # Aggregate views

The task board, the glossary and the decisions are rendered on demand from the node files of a
collection: each node is sliced out of its file, and the slices are put behind a header.

* **Rendering.** `renderView` finds the view and folds the claims; `renderNode` reads one file, and
  `insertClaim` upserts the properties of its claim; `renderCollection` sorts the nodes of the tasks
  by their stage.
* **Claims.** `readClaims_lines`: what a claim says fits on one line.  `upsertAll_spec`: its
  properties are set on the heading with the id.
* **Nodes.** `Written`: a text is the headings of one tree.  `renderNode_spec`: what is rendered of a
  file is the tree of the file with the properties of its claim. -/

namespace Orgasmic

open Text Forest Std Registers

/-! ### Stages -/

inductive LifecycleStage where
  | backlog
  | todo
  | inProgress
  | inReview
  | done
  | cancelled
deriving DecidableEq, Repr

/-- `LifecycleStage::from_str`. -/
def LifecycleStage.fromStr (s : Text) : Option LifecycleStage :=
  let s := toAsciiLowercase s
  if s = "backlog".toList then some .backlog
  else if s = "todo".toList then some .todo
  else if s = "in_progress".toList then some .inProgress
  else if s = "in_review".toList then some .inReview
  else if s = "done".toList then some .done
  else if s = "cancelled".toList then some .cancelled
  else none

/-- The derived order of `Option<LifecycleStage>`, as a number. -/
def stageRank : Option LifecycleStage → ℕ
  | none => 0
  | some .backlog => 1
  | some .todo => 2
  | some .inProgress => 3
  | some .inReview => 4
  | some .done => 5
  | some .cancelled => 6

/-! ### Rendering -/

/-- A node file: its path and its text. -/
structure NodeSource where
  path : Text
  source : Text

/-- What a project directory holds for the views: the node files of a collection in the order of
their paths, and the claim logs. -/
structure ViewProject where
  nodeFiles : Text → List NodeSource
  claimFiles : List ClaimFile

inductive ViewError where
  | unknownView (file : Text)
  | claims (error : ReadClaimsError)
  | parse (path : Text) (error : OrgError)
  | headings (path : Text)
  | taskState (path : Text)
  | rewrite (error : OrgError)
  /-- `headings[0]` of a file without headings. -/
  | noHeading (path : Text)
deriving DecidableEq, Repr

structure View where
  collection : Text
  file : Text
  header : Text
deriving DecidableEq, Repr

def VIEWS : List View :=
  [⟨"tasks".toList, "board.org".toList,
      "#+title: orgasmic task board\n#+orgasmic_version: 2\n\n".toList⟩,
    ⟨"glossary".toList, "glossary.org".toList,
      "#+title: orgasmic project glossary\n#+orgasmic_version: 2\n\n".toList⟩,
    ⟨"decisions".toList, "decisions.org".toList,
      "#+title: orgasmic project decisions\n#+orgasmic_version: 2\n\n".toList⟩]

def findView (file : Text) : Option View := VIEWS.find? fun view => view.file = file

/-- The claim's properties are upserted one by one. -/
def insertClaim (id : Text) (claim : TaskClaim) : Rewrite Unit := do
  OrgRewriter.upsertProperty id "CLAIM_HOLDER".toList claim.holder
  match claim.writeScope with
  | some scope => OrgRewriter.upsertProperty id "CLAIM_WRITE_SCOPE".toList scope
  | none => pure ()
  if claim.contenders.length > 1 then
    OrgRewriter.upsertProperty id "DOUBLE_CLAIM".toList ([' '].intercalate claim.contenders)
  else pure ()

/-- The text of a claimed node. -/
def claimedText (org : OrgFile) (path id : Text) (claim : TaskClaim) : Except ViewError Text :=
  match (insertClaim id claim).run (OrgRewriter.new org path) with
  | .error e _ => .error (.rewrite e)
  | .ok () rewriter =>
      match OrgFile.parse rewriter.finish path with
      | .error e => .error (.rewrite e)
      | .ok rendered =>
          match rendered.headings with
          | [] => .error (.noHeading path)
          | heading :: _ => .ok (rendered.slice heading.span)

def nodeStage (collection path : Text) (heading : HeadingInfo) :
    Except ViewError (Option LifecycleStage) :=
  if collection = "tasks".toList then
    match LifecycleStage.fromStr (heading.todo.getD []) with
    | some stage => .ok (some stage)
    | none => .error (.taskState path)
  else .ok none

/-- The claim of the task with this id. -/
def claimOfTask (collection : Text) (claims : TreeMap Text TaskClaim) (id : Option Text) :
    Option (Text × TaskClaim) :=
  if collection = "tasks".toList then id.bind fun id => claims[id]?.map fun claim => (id, claim)
  else none

def nodeText (collection : Text) (claims : TreeMap Text TaskClaim) (org : OrgFile) (path : Text)
    (heading : Heading) : Except ViewError Text :=
  match claimOfTask collection claims (heading.property "ID".toList) with
  | none => .ok (org.slice heading.span)
  | some (id, claim) => claimedText org path id claim

/-- One turn of the loop over the node files. -/
def renderNode (collection : Text) (claims : TreeMap Text TaskClaim) (file : NodeSource) :
    Except ViewError (Option LifecycleStage × Text) :=
  match OrgFile.parse file.source file.path with
  | .error e => .error (.parse file.path e)
  | .ok org =>
      match org.headings with
      | [heading] => do
          let stage ← nodeStage collection file.path heading.toHeadingInfo
          let node ← nodeText collection claims org file.path heading
          .ok (stage, node)
      | _ => .error (.headings file.path)

def renderNodes (collection : Text) (claims : TreeMap Text TaskClaim) :
    List NodeSource → Except ViewError (List (Option LifecycleStage × Text))
  | [] => .ok []
  | file :: files => do
      let node ← renderNode collection claims file
      let nodes ← renderNodes collection claims files
      .ok (node :: nodes)

/-- A node with the line breaks that are put behind it. -/
def spaced (node : Text) : Text :=
  node ++ (if ['\n'] <:+ node then [] else ['\n']) ++ if ['\n', '\n'] <:+ node then [] else ['\n']

def renderCollection (files : List NodeSource) (collection header : Text)
    (claims : TreeMap Text TaskClaim) : Except ViewError Text := do
  let nodes ← renderNodes collection claims files
  let sorted := nodes.mergeSort fun a b => decide (stageRank a.1 ≤ stageRank b.1)
  .ok (header ++ sorted.flatMap fun node => spaced node.2)

/-- `render_view`. -/
def renderView (project : ViewProject) (file : Text) : Except ViewError Text :=
  match findView file with
  | none => .error (.unknownView file)
  | some view =>
      match readClaims project.claimFiles with
      | .error e => .error (.claims e)
      | .ok claims =>
          renderCollection (project.nodeFiles view.collection) view.collection view.header claims

/-! ### What a view shows -/

/-- The properties that a claim adds to its task. -/
def claimProperties (claim : TaskClaim) : List (Text × Text) :=
  ("CLAIM_HOLDER".toList, claim.holder) ::
    ((claim.writeScope.map fun scope => ("CLAIM_WRITE_SCOPE".toList, scope)).toList ++
      if claim.contenders.length > 1 then
        [("DOUBLE_CLAIM".toList, [' '].intercalate claim.contenders)]
      else [])

/-- Properties set one after the other; the white space around a value is left out. -/
def setPairs (ps pairs : List (Text × Text)) : List (Text × Text) :=
  ps.foldl (fun pairs p => setPair p.1 (trim p.2) pairs) pairs

/-- The heading with the properties of its claim. -/
def Node.claimed (n : Node) (claim : Option (Text × TaskClaim)) : Node :=
  match claim with
  | none => n
  | some (_, claim) => { n with properties := setPairs (claimProperties claim) n.properties }

/-- The tree that is to be shown of a node file: its own one, with the properties of the claim at
the root. -/
def ShownAs (collection : Text) (claims : TreeMap Text TaskClaim) (file : NodeSource)
    (tree : Forest.Tree Node) : Prop :=
  ∃ f n cs, OrgFile.parse file.source file.path = .ok f ∧ f.trimmedForest = [.node n cs] ∧
    tree = .node (n.claimed (claimOfTask collection claims (n.property "ID".toList))) cs

def fileStage (collection : Text) (file : NodeSource) : Option LifecycleStage :=
  if collection = "tasks".toList then
    match OrgFile.parse file.source file.path with
    | .ok org => org.headings.head?.bind fun h => LifecycleStage.fromStr (h.todo.getD [])
    | .error _ => none
  else none

/-- The files of a view: tasks by their stage, and otherwise in the order of the files. -/
def inOrder (collection : Text) (files : List NodeSource) : List NodeSource :=
  files.mergeSort fun a b =>
    decide (stageRank (fileStage collection a) ≤ stageRank (fileStage collection b))

theorem inOrder_of_ne {collection : Text} (h : collection ≠ "tasks".toList) (files : List NodeSource) :
    inOrder collection files = files := by
  refine List.mergeSort_of_pairwise ?_
  rw [List.pairwise_iff_forall_sublist]
  intro a b _
  rw [fileStage, fileStage, if_neg h, if_neg h]
  exact decide_eq_true (Nat.le_refl _)

theorem ShownAs.unique {collection : Text} {claims : TreeMap Text TaskClaim} {file : NodeSource}
    {t t' : Forest.Tree Node} (h : ShownAs collection claims file t)
    (h' : ShownAs collection claims file t') : t = t' := by
  obtain ⟨f, n, cs, hf, hforest, rfl⟩ := h
  obtain ⟨f', n', cs', hf', hforest', rfl⟩ := h'
  obtain rfl := Except.ok.inj (hf.symm.trans hf')
  rw [hforest, List.cons.injEq, Forest.Tree.node.injEq] at hforest'
  obtain ⟨⟨rfl, rfl⟩, -⟩ := hforest'
  rfl

/-! ### Claims -/

/-- The values that a claim is made of are one line each. -/
def OneLined (entry : TxEntry) : Prop :=
  '\n' ∉ entry.machine ∧ ∀ p ∈ entry.extra, '\n' ∉ p.2

theorem readEntry_lines {h : HeadingInfo} {entry : TxEntry} (hread : readEntry h = .ok entry)
    (hvalues : ∀ e ∈ h.propertyEntries, '\n' ∉ e.value) : OneLined entry := by
  obtain ⟨txId, -, hread⟩ := of_bind_ok hread
  obtain ⟨time, -, hread⟩ := of_bind_ok hread
  obtain ⟨ty, -, hread⟩ := of_bind_ok hread
  obtain ⟨actor, -, hread⟩ := of_bind_ok hread
  obtain ⟨machine, hmachine, hread⟩ := of_bind_ok hread
  obtain rfl := Except.ok.inj hread
  refine ⟨?_, fun p hp => ?_⟩
  · rw [HeadingInfo.required] at hmachine
    split at hmachine
    · next value hvalue =>
        obtain ⟨e, he, rfl⟩ := Option.map_eq_some_iff.mp hvalue
        obtain rfl := Except.ok.inj hmachine
        exact hvalues e (List.mem_of_find?_eq_some he)
    · cases hmachine
  · obtain ⟨e, he, rfl⟩ := List.mem_map.mp hp
    exact hvalues e (List.mem_filter.mp he).1

theorem readEntries_lines {file : OrgFile} {display : Text} {headings : List Heading}
    {entries : List TxEntry} (h : readEntries file display headings = .ok entries)
    (hvalues : ∀ g ∈ headings, ∀ e ∈ g.propertyEntries, '\n' ∉ e.value) :
    ∀ entry ∈ entries, OneLined entry := by
  induction headings generalizing entries with
  | nil =>
      cases h
      simp
  | cons g headings ih =>
      obtain ⟨hg, hrest⟩ := List.forall_mem_cons.mp hvalues
      rw [readEntries] at h
      split_ifs at h
      obtain ⟨entry, hentry, h⟩ := of_bind_ok h
      obtain ⟨rest, hread, h⟩ := of_bind_ok h
      obtain rfl := Except.ok.inj h
      exact List.forall_mem_cons.mpr ⟨readEntry_lines hentry hg, ih hread hrest⟩

theorem readClaimLogs_lines {files : List ClaimFile} {entries : List TxEntry}
    (h : readClaimLogs files = .ok entries) : ∀ entry ∈ entries, OneLined entry := by
  induction files generalizing entries with
  | nil =>
      cases h
      simp
  | cons file files ih =>
      obtain ⟨parsed, hlog, h⟩ := of_bind_ok h
      obtain ⟨rest, hrest, h⟩ := of_bind_ok h
      obtain rfl := Except.ok.inj h
      refine List.forall_mem_append.mpr ⟨?_, ih hrest⟩
      unfold readClaimLog parseTxFile at hlog
      cases hparse : OrgFile.parse file.source file.path with
      | error e =>
          rw [hparse] at hlog
          cases hlog
      | ok org =>
          rw [hparse] at hlog
          dsimp only at hlog
          split at hlog
          · cases hlog
          · next entries hentries =>
              split at hlog
              · cases hlog
              · obtain rfl := Except.ok.inj hlog
                exact readEntries_lines hentries fun g hg e he =>
                  (propertyEntries_values hparse (mem_flattenAll hg) e he).1

/-- A claim is made of an entry that was read. -/
theorem mem_of_claimant {entries : List TxEntry} {task : Text} {entry : TxEntry}
    (h : entry ∈ sortBy claimCmp (claimants (activeClaims entries) task)) : entry ∈ entries := by
  rw [mem_sortBy, mem_claimants, getElem?_activeClaims, Option.filter_eq_some_iff] at h
  have hmem := (last_eq_some_mem claimKey h.1).1
  rw [mem_sortBy, List.mem_filter] at hmem
  exact hmem.1

/-- **What a claim says** fits on one line. -/
theorem readClaims_lines {files : List ClaimFile} {claims : TreeMap Text TaskClaim}
    (h : readClaims files = .ok claims) {id : Text} {claim : TaskClaim}
    (hclaim : claims[id]? = some claim) : ∀ p ∈ claimProperties claim, '\n' ∉ p.2 := by
  obtain ⟨entries, hentries, h⟩ := of_bind_ok h
  obtain rfl := Except.ok.inj h
  have hlines := readClaimLogs_lines hentries
  rw [getElem?_foldClaims, taskClaim_eq] at hclaim
  obtain ⟨winner, hwinner, rfl⟩ := Option.map_eq_some_iff.mp hclaim
  have hown := hlines winner (mem_of_claimant (List.mem_of_head? hwinner))
  refine List.forall_mem_cons.mpr ⟨hown.1, List.forall_mem_append.mpr ⟨fun p hp => ?_, fun p hp => ?_⟩⟩
  · obtain ⟨scope, hscope, rfl⟩ := Option.map_eq_some_iff.mp (Option.mem_toList.mp hp)
    obtain ⟨hextra, -⟩ := Option.filter_eq_some_iff.mp hscope
    obtain ⟨q, hq, rfl⟩ := Option.map_eq_some_iff.mp hextra
    exact hown.2 q (List.mem_of_find?_eq_some hq)
  · split_ifs at hp
    · rw [List.mem_singleton.mp hp]
      intro hmem
      obtain hsep | ⟨word, hword, hc⟩ := mem_intercalate hmem
      · exact absurd hsep (by decide)
      · obtain ⟨entry, hentry, rfl⟩ := List.mem_map.mp hword
        exact (hlines entry (mem_of_claimant hentry)).1 hc
    · cases hp

/-- Properties upserted one after the other. -/
def upsertAll (id : Text) : List (Text × Text) → Rewrite Unit
  | [] => pure ()
  | p :: ps => do
      OrgRewriter.upsertProperty id p.1 p.2
      upsertAll id ps

theorem insertClaim_eq (id : Text) (claim : TaskClaim) :
    insertClaim id claim = upsertAll id (claimProperties claim) := by
  unfold insertClaim claimProperties
  rw [upsertAll]
  congr 1
  funext _
  cases claim.writeScope <;> split_ifs <;> simp [upsertAll]

theorem claimProperties_keys (claim : TaskClaim) :
    ∀ p ∈ claimProperties claim, IsKey p.1 ∧ p.1 ≠ "ID".toList := by
  have hkeys : ∀ p ∈ claimProperties claim, p.1 ∈ ["CLAIM_HOLDER".toList,
      "CLAIM_WRITE_SCOPE".toList, "DOUBLE_CLAIM".toList] := by
    unfold claimProperties
    cases claim.writeScope <;> split_ifs <;> simp
  intro p hp
  have hkey := hkeys p hp
  simp only [List.mem_cons, List.not_mem_nil, or_false] at hkey
  obtain h | h | h := hkey <;> rw [h]
  · exact ⟨isKey_of_snake (by decide) (by decide), by decide⟩
  · exact ⟨isKey_of_snake (by decide) (by decide), by decide⟩
  · exact ⟨isKey_of_snake (by decide) (by decide), by decide⟩

theorem setPairs_cons (p : Text × Text) (ps pairs : List (Text × Text)) :
    setPairs (p :: ps) pairs = setPairs ps (setPair p.1 (trim p.2) pairs) := rfl

/-- **Upserting properties** of the only top-level heading. -/
theorem upsertAll_spec {id : Text} {ps : List (Text × Text)}
    (hps : ∀ p ∈ ps, (IsKey p.1 ∧ p.1 ≠ "ID".toList) ∧ '\n' ∉ p.2) {r : OrgRewriter} {f : OrgFile}
    {g : Heading} {a : Node} {cs : List (Forest.Tree Node)} (hf : r.view = .ok f)
    (hg : f.findById id = some g) (hroot : f.forest = [.node a cs]) (hid : HasId id a) :
    ∃ r' f', (upsertAll id ps).run r = .ok () r' ∧ r'.view = .ok f' ∧ r'.fileName = r.fileName ∧
      f'.keywords = f.keywords ∧
      f'.forest = [.node { a with properties := setPairs ps a.properties } cs] ∧
      depthAfter 0 (rawLines r'.currentText) = depthAfter 0 (rawLines r.currentText) := by
  induction ps generalizing r f g a with
  | nil => exact ⟨r, f, rfl, hf, rfl, rfl, hroot, rfl⟩
  | cons p ps ih =>
      obtain ⟨⟨⟨hkey, hne⟩, hline⟩, hps⟩ := List.forall_mem_cons.mp hps
      obtain ⟨r₁, f₁, g₁, hrun, hf₁, hg₁, hname, hkeywords, hforest, hdepth⟩ :=
        OrgRewriter.upsertProperty_spec hf hg hkey hne hline
      rw [hroot, editFirstIn, Forest.Tree.editFirst, if_pos hid] at hforest
      obtain ⟨r', f', hrun', hf', hname', hkeywords', hforest', hdepth'⟩ :=
        ih hps hf₁ hg₁ (Option.some.inj hforest).symm
          (show HasId id { a with properties := _ } by
            rw [HasId, Node.property, find_setPair_of_ne hne.symm]
            exact hid)
      refine ⟨r', f', ?_, hf', hname'.trans hname, hkeywords'.trans hkeywords, ?_,
        hdepth'.trans hdepth⟩
      · simp only [upsertAll, EStateM.run_bind, hrun]
        exact hrun'
      · rw [hforest', setPairs_cons]

/-! ### Nodes -/

/-- The text is the headings of the tree, read with these further TODO keywords. -/
structure Written (declared : List Text) (t : Text) (tree : Forest.Tree Node) : Prop where
  chunks : ∃ cs, chunksOf t = ([], cs) ∧ cs.map (Chunk.node declared) = tree.flatten.map some
  graded : Forest.Tree.Graded Node.level 1 tree

/-- **A document with one top-level heading** without its prelude. -/
theorem written_of_parse {source display : Text} {f : OrgFile}
    (h : OrgFile.parse source display = .ok f) {g : Heading} (hg : f.headings = [g]) :
    Written f.declared (f.slice g.span) (g.tree (HeadingInfo.node f.source)) ∧
      depthAfter 0 (rawLines (f.slice g.span)) = depthAfter 0 (rawLines source) := by
  obtain ⟨hsource, -, -, hlaid⟩ := readFlat_of_parse h
  rw [hg] at hlaid
  obtain ⟨P, cs, hc⟩ : ∃ P cs, chunksOf source = (P, cs) := ⟨_, _, rfl⟩
  rw [hc] at hlaid
  obtain ⟨hraw, hP, hchunks⟩ := (chunksOf_eq_iff _ _ _).mp hc
  obtain ⟨hown, hstop⟩ := hlaid
  obtain ⟨-, -, hstart, -⟩ := (laid_iff g).mp hown
  have htext := flatten_of_chunksOf hc
  have hslice : f.slice g.span = (Segment.join cs).flatten := by
    have hspan : g.span = ⟨P.flatten.length, P.flatten.length + (Segment.join cs).flatten.length⟩ := by
      have hlen : source.length = P.flatten.length + (Segment.join cs).flatten.length := by
        rw [← htext, List.length_append]
      rw [← hlen, ← show g.span.stop = source.length from hstop, ← hstart]
    have hthree := slice_append_three P.flatten (Segment.join cs).flatten []
    rw [List.append_nil, htext] at hthree
    rw [OrgFile.slice, hsource, hspan, hthree]
  have hnodes := nodes_of_parse h
  have hinfos : f.infos = g.flatten := by
    rw [OrgFile.infos, hg, Heading.flattenAll, Heading.flattenAll, List.append_nil]
  rw [hc, hinfos] at hnodes
  have hjoin := chunksOf_join hc
  refine ⟨⟨⟨cs, by rw [hslice, hjoin], ?_⟩, graded_tree _ (fun _ => rfl) g hown⟩, ?_⟩
  · rw [hnodes, flatten_tree, List.map_map, hsource]
    rfl
  · rw [hslice, hraw, depthAfter_append]
    have hne : cs ≠ [] := by
      rintro rfl
      rw [flatten_eq] at hnodes
      cases hnodes
    obtain ⟨c, cs, rfl⟩ := List.exists_cons_of_ne_nil hne
    rw [hchunks.depth_eq, ((chunksOf_eq_iff _ _ _).mp hjoin).1]
    rfl

/-- The trees of a document with one top-level heading. -/
theorem trimmedForest_single {f : OrgFile} {g : Heading} (hg : f.headings = [g]) :
    f.trimmedForest = [g.tree (HeadingInfo.node f.source)] := by
  rw [OrgFile.trimmedForest, hg, Heading.trees, Heading.trees]

/-- Other properties at the root make no other difference. -/
theorem trimmedForest_edited {source display source' display' : Text} {f f' : OrgFile}
    (h : OrgFile.parse source display = .ok f) (h' : OrgFile.parse source' display' = .ok f')
    {a n : Node} {cs ds : List (Forest.Tree Node)} (hforest : f.forest = [.node a cs])
    (htrimmed : f.trimmedForest = [.node n ds]) {ps : List (Text × Text)}
    (hforest' : f'.forest = [.node { a with properties := ps } cs]) :
    f'.trimmedForest = [.node { n with properties := ps } ds] := by
  -- the trees have the same headings, but for the root
  have hflat {f : OrgFile} {ts us : List (Forest.Tree Node)} (ht : f.forest = ts) (hu : f.trimmedForest = us) :
      flattenAll us = (flattenAll ts).map fun m : Node => { m with body := trimEnd m.body } := by
    rw [← ht, ← hu, OrgFile.forest, OrgFile.trimmedForest, flatten_trees, flatten_trees, List.map_map]
    rfl
  have hown := hflat hforest htrimmed
  have hown' := hflat hforest' rfl
  rw [flattenAll_singleton, flattenAll_singleton, Forest.Tree.flatten, Forest.Tree.flatten, List.map_cons,
    List.cons.injEq] at hown
  obtain ⟨rfl, hds⟩ := hown
  obtain ⟨-, -, -, hlaid⟩ := readFlat_of_parse h
  have hgraded := graded_trees (HeadingInfo.node f.source) (fun _ => rfl) f.headings hlaid
  rw [show Heading.trees (HeadingInfo.node f.source) f.headings = _ from htrimmed] at hgraded
  obtain ⟨⟨hlevel, hbelow⟩, -⟩ := hgraded
  have hnew : GradedAll Node.level 1
      [.node { ({ a with body := trimEnd a.body } : Node) with properties := ps } ds] :=
    ⟨⟨hlevel, hbelow⟩, trivial⟩
  refine (forest_eq h' (HeadingInfo.node f'.source) (fun _ => rfl) hnew ?_).symm
  rw [flattenAll_singleton, Forest.Tree.flatten, hds]
  rw [flattenAll_singleton, Forest.Tree.flatten, List.map_cons, OrgFile.trimmedForest, flatten_trees] at hown'
  exact hown'.symm

section node
variable {collection : Text} {claims : TreeMap Text TaskClaim} {file : NodeSource}

/-- The TODO keywords that are to be shown are those of the file. -/
theorem ShownAs.todos {tree : Forest.Tree Node} (h : ShownAs collection claims file tree) {f : OrgFile}
    (hf : OrgFile.parse file.source file.path = .ok f) :
    tree.flatten.map Node.todo = f.infos.map fun i => i.todo := by
  obtain ⟨f', n, cs, hf', hforest, rfl⟩ := h
  obtain rfl := Except.ok.inj (hf.symm.trans hf')
  have hflat : flattenAll f.trimmedForest = f.infos.map (HeadingInfo.node f.source) :=
    flatten_trees _ _
  rw [hforest, flattenAll_singleton, Forest.Tree.flatten] at hflat
  have htodos := congrArg (List.map Node.todo) hflat
  rw [List.map_map] at htodos
  refine Eq.trans ?_ htodos
  cases claimOfTask collection claims (n.property "ID".toList) <;> rfl

theorem nodeStage_eq_ok {g : Heading} {f : OrgFile} (hf : OrgFile.parse file.source file.path = .ok f)
    (hg : f.headings = [g]) {stage : Option LifecycleStage}
    (h : nodeStage collection file.path g.toHeadingInfo = .ok stage) :
    stage = fileStage collection file := by
  unfold nodeStage at h
  unfold fileStage
  split_ifs at h ⊢
  · rw [hf]
    dsimp only
    rw [hg, List.head?_cons, Option.bind_some]
    split at h
    · next s hs => rw [hs, Except.ok.inj h]
    · cases h
  · exact (Except.ok.inj h).symm

/-- A claimed node is shown with the properties of its claim. -/
theorem claimedText_spec {claimFiles : List ClaimFile} (hclaims : readClaims claimFiles = .ok claims)
    {f : OrgFile} (hf : OrgFile.parse file.source file.path = .ok f) {g : Heading}
    (hg : f.headings = [g]) {id : Text} {claim : TaskClaim} (hid : g.property "ID".toList = some id)
    (hclaim : claims[id]? = some claim) {t : Text} (h : claimedText f file.path id claim = .ok t) :
    ∃ tree n cs, f.trimmedForest = [.node n cs] ∧ tree = .node (n.claimed (some (id, claim))) cs ∧
      Written f.declared t tree ∧
      depthAfter 0 (rawLines t) = depthAfter 0 (rawLines file.source) := by
  have hsource := (readFlat_of_parse hf).1
  have hview : (OrgRewriter.new f file.path).view = .ok f := by
    rw [OrgRewriter.view, OrgRewriter.currentText_new, hsource]
    exact hf
  have hfound : f.findById id = some g := by
    rw [OrgFile.findById, hg, Heading.findByIdIn]
    obtain ⟨info, span, sections⟩ := g
    rw [Heading.findById, if_pos hid, Option.some_or]
  have hforest : f.forest = [g.tree (HeadingInfo.exact f.source)] := by
    rw [OrgFile.forest, hg, Heading.trees, Heading.trees]
  rw [tree_eq] at hforest
  have htrimmed := trimmedForest_single hg
  rw [tree_eq] at htrimmed
  obtain ⟨r', f', hrun, hf', hname, hkeywords, hforest', hdepth⟩ := upsertAll_spec
    (fun p hp => ⟨claimProperties_keys claim p hp, readClaims_lines hclaims hclaim p hp⟩) hview hfound
    hforest (show HasId id (g.exact f.source) from (HeadingInfo.node_property f.source _ _).trans hid)
  have hparse : OrgFile.parse r'.currentText file.path = .ok f' := by
    rw [OrgRewriter.view, hname] at hf'
    exact hf'
  have hedited := trimmedForest_edited hf hparse hforest htrimmed hforest'
  obtain ⟨g', hg'⟩ : ∃ g', f'.headings = [g'] := by
    rw [OrgFile.forest, trees_eq_map] at hforest'
    obtain ⟨g', hg', -⟩ := List.map_eq_singleton_iff.mp hforest'
    exact ⟨g', hg'⟩
  unfold claimedText at h
  rw [insertClaim_eq, hrun] at h
  dsimp only at h
  rw [show r'.finish = r'.currentText from rfl, hparse] at h
  dsimp only at h
  rw [hg'] at h
  dsimp only at h
  obtain rfl := Except.ok.inj h
  obtain ⟨hwritten, hend⟩ := written_of_parse hparse hg'
  have hdeclared : f'.declared = f.declared := by rw [OrgFile.declared, hkeywords, OrgFile.declared]
  rw [trimmedForest_single hg', List.cons.injEq] at hedited
  rw [hedited.1, hdeclared] at hwritten
  refine ⟨_, _, _, htrimmed, rfl, hwritten, ?_⟩
  rw [hend, hdepth, OrgRewriter.currentText_new, hsource]

/-- **What is rendered of a node file.** -/
theorem renderNode_spec {claimFiles : List ClaimFile} (hclaims : readClaims claimFiles = .ok claims)
    {stage : Option LifecycleStage} {t : Text}
    (h : renderNode collection claims file = .ok (stage, t)) :
    stage = fileStage collection file ∧ ∃ f tree, OrgFile.parse file.source file.path = .ok f ∧
      ShownAs collection claims file tree ∧ Written f.declared t tree ∧
      depthAfter 0 (rawLines t) = depthAfter 0 (rawLines file.source) := by
  unfold renderNode at h
  split at h
  · cases h
  · next f hf =>
      split at h
      · next g hg =>
          obtain ⟨stage', hstage, h⟩ := of_bind_ok h
          obtain ⟨t', ht, h⟩ := of_bind_ok h
          obtain ⟨rfl, rfl⟩ := Prod.mk.inj (Except.ok.inj h)
          refine ⟨nodeStage_eq_ok hf hg hstage, f, ?_⟩
          have htrimmed := trimmedForest_single hg
          rw [tree_eq] at htrimmed
          have hproperty : (g.toHeadingInfo.node f.source).property "ID".toList =
              g.property "ID".toList := HeadingInfo.node_property f.source _ _
          unfold nodeText at ht
          split at ht
          · next hnone =>
              obtain rfl := Except.ok.inj ht
              obtain ⟨hwritten, hdepth⟩ := written_of_parse hf hg
              refine ⟨_, hf, ⟨f, _, _, hf, htrimmed, ?_⟩, hwritten, hdepth⟩
              rw [hproperty, hnone, tree_eq]
              rfl
          · next id claim hsome =>
              have hfull := hsome
              unfold claimOfTask at hsome
              split_ifs at hsome
              obtain ⟨id', hid, hsome⟩ := Option.bind_eq_some_iff.mp hsome
              obtain ⟨claim', hclaim, hpair⟩ := Option.map_eq_some_iff.mp hsome
              obtain ⟨rfl, rfl⟩ := Prod.mk.inj hpair
              obtain ⟨tree, n, cs, hforest, rfl, hwritten, hdepth⟩ :=
                claimedText_spec hclaims hf hg hid hclaim ht
              refine ⟨_, hf, ⟨f, n, cs, hf, hforest, ?_⟩, hwritten, hdepth⟩
              rw [htrimmed, List.cons.injEq, Forest.Tree.node.injEq] at hforest
              rw [← hforest.1.1, hproperty, hfull]
      · cases h

end node

end Orgasmic
