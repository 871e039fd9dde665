import Orgasmic.ClaimStore
import Orgasmic.NodeRecords
import Mathlib.Data.List.Find

/-! # The members of a home

`members.org` has one heading for each member, with the hash of the token and the grants as
`project=role` words.  Every call reads the whole file, and writes it anew if something changed.

* **Validators** (`validateMemberName`, `validateGrants`, `validateActions`) look at the arguments.
* **The file** is written by `renderMembers` and read by `parseMembers`; what is read of a member is
  its `reread`, and that is the member itself if no project has an equals sign.
* **Runs.**  `StoreFollows` compares the file after every call with the list of members that the calls
  are about. -/

namespace Orgasmic

open Text

structure MemberEntry where
  name : Text
  tokenHash : Text
  /-- `(project-or-*, role)` pairs, in file order. -/
  grants : List (Text × Text)
  actions : List Text
deriving DecidableEq, Repr

inductive MemberError
  | message (text : Text)
  | org (error : OrgError)
deriving DecidableEq, Repr

/-! ### The file -/

/-- The member that a heading with a name is read as. -/
def readMember (h : HeadingInfo) : Option MemberEntry :=
  (h.property "NAME".toList).map fun name =>
    { name
      tokenHash := (h.property "TOKEN_HASH".toList).getD []
      grants := (splitWhitespace ((h.property "GRANTS".toList).getD [])).filterMap (splitOnce '=')
      actions := splitWhitespace ((h.property "ACTIONS".toList).getD []) }

def parseMembers (source : Text) : Except MemberError (List MemberEntry) :=
  if trim source = [] then .ok []
  else ((OrgFile.parse source "members.org".toList).mapError .org).map fun file =>
    file.headings.filterMap fun h => readMember h.toHeadingInfo

def renderGrant (grant : Text × Text) : Text := grant.1 ++ '=' :: grant.2

/-- `join` with a space. -/
def joinWords (words : List Text) : Text := [' '].intercalate words

def renderMember (e : MemberEntry) : Text :=
  "* MEMBER ".toList ++ e.name ++ "\n:PROPERTIES:\n:NAME:        ".toList ++ e.name ++
    "\n:TOKEN_HASH:  ".toList ++ e.tokenHash ++ "\n:GRANTS:      ".toList ++
    joinWords (e.grants.map renderGrant) ++ "\n".toList ++
    (if e.actions = [] then [] else ":ACTIONS:     ".toList ++ joinWords e.actions ++ "\n".toList) ++
    ":END:\n\n".toList

def renderMembers (entries : List MemberEntry) : Text :=
  "#+title: orgasmic members\n#+orgasmic_version: 1\n\n".toList ++ entries.flatMap renderMember

/-! ### The validators -/

def bail (text : Text) : Except MemberError Unit := .error (.message text)

def validateSingleLine (s field : Text) (max : ℕ) : Except MemberError Unit :=
  if s = [] ∨ max < byteLen s then
    bail (field ++ " must be 1-".toList ++ (toString max).toList ++ " chars".toList)
  else if s.any isControl then
    bail (field ++ " must not contain newlines or control characters".toList)
  else .ok ()

def isMemberNameChar (c : Char) : Bool := c.isAlphanum || c = '_' || c = '.' || c = '-'

def validateMemberName (name : Text) : Except MemberError Unit :=
  if 64 < byteLen name then bail "member name must be 1-64 chars".toList
  else if !name.all isMemberNameChar || name = [] then
    bail "member name must match [A-Za-z0-9_.-] and be non-empty".toList
  else .ok ()

def validateGrant (grant : Text × Text) : Except MemberError Unit := do
  if grant.1 ≠ "*".toList then validateSingleLine grant.1 "grant project".toList 64
  validateSingleLine grant.2 "grant role".toList 64
  if grant.2.any isWhitespace || grant.1.any isWhitespace then
    bail "grant entries must not contain whitespace".toList

def validateGrants (grants : List (Text × Text)) : Except MemberError Unit :=
  if grants = [] then bail "at least one grant is required".toList
  else grants.forM validateGrant

def isActionChar (c : Char) : Bool := c.isLower || c.isDigit || c = '.' || c = '_'

def validateAction (action : Text) : Except MemberError Unit := do
  validateSingleLine action "action".toList 64
  if !action.all isActionChar then
    bail ("action names match [a-z0-9_.]; got `".toList ++ action ++ "`".toList)

def validateActions (actions : List Text) : Except MemberError Unit := actions.forM validateAction

/-! ### The calls -/

/-- The file at `members_path`, if it is there. -/
abbrev MembersFile := Option Text

def readMembers (file : MembersFile) : Except MemberError (List MemberEntry) :=
  match file with
  | none => .ok []
  | some source => parseMembers source

/-- What a call answers: the token, or whether something changed. -/
inductive MemberReply
  | token (token : Text)
  | changed (changed : Bool)
deriving DecidableEq, Repr

abbrev MemberResult := Except MemberError MemberReply × MembersFile

/-- The new text is in the file before it is parsed again. -/
def writeMembers (entries : List MemberEntry) (reply : MemberReply) : MemberResult :=
  match OrgFile.parse (renderMembers entries) "members.org".toList with
  | .error e => (.error (.org e), some (renderMembers entries))
  | .ok _ => (.ok reply, some (renderMembers entries))

section

-- SHA-256
variable (sha256 : Bytes → Bytes)

def sha256Hex (bytes : Bytes) : Text := hexText (sha256 bytes)

def addMemberLocked (source name : Text) (grants : List (Text × Text)) (actions : List Text)
    (token : Text) : MemberResult :=
  match parseMembers source with
  | .error e => (.error e, some source)
  | .ok existing =>
      if existing.any (·.name = name) then
        (.error (.message ("member ".toList ++ name ++
          " already exists; revoke first to re-mint".toList)), some source)
      else writeMembers (existing ++ [⟨name, sha256Hex sha256 (utf8 token), grants, actions⟩])
        (.token token)

/-- `random` are the 32 bytes of `mint_token`. -/
def addMemberWithActions (file : MembersFile) (name : Text) (grants : List (Text × Text))
    (actions : List Text) (random : Bytes) : MemberResult :=
  match (do validateMemberName name; validateGrants grants; validateActions actions :
      Except MemberError Unit) with
  | .error e => (.error e, file)
  -- the file is created if it is not there
  | .ok () => addMemberLocked sha256 (file.getD []) name grants actions (hexText random)

/-- Replace the actions of the first member with the name. -/
def replaceActions (name : Text) (actions : List Text) : List MemberEntry → List MemberEntry
  | [] => []
  | e :: entries =>
      if e.name = name then { e with actions } :: entries else e :: replaceActions name actions entries

def rewriteMembersLocked (source : Text) (transform : List MemberEntry → Option (List MemberEntry)) :
    MemberResult :=
  match parseMembers source with
  | .error e => (.error e, some source)
  | .ok existing =>
      match transform existing with
      | none => (.ok (.changed false), some source)
      | some entries => writeMembers entries (.changed true)

def setMemberActions (file : MembersFile) (name : Text) (actions : List Text) : MemberResult :=
  match validateActions actions with
  | .error e => (.error e, file)
  | .ok () =>
      match file with
      | none => (.ok (.changed false), none)
      | some source => rewriteMembersLocked source fun entries =>
          if entries.any (·.name = name) then some (replaceActions name actions entries) else none

def revokeMember (file : MembersFile) (name : Text) : MemberResult :=
  match file with
  | none => (.ok (.changed false), none)
  | some source => rewriteMembersLocked source fun entries =>
      if (entries.filter (·.name ≠ name)).length = entries.length then none
      else some (entries.filter (·.name ≠ name))

def findMemberByToken (file : MembersFile) (token : Text) : Except MemberError (Option MemberEntry) :=
  (readMembers file).map fun entries =>
    entries.find? (·.tokenHash = sha256Hex sha256 (utf8 (trim token)))

inductive MemberCall
  | add (name : Text) (grants : List (Text × Text)) (actions : List Text) (random : Bytes)
  | setActions (name : Text) (actions : List Text)
  | revoke (name : Text)
deriving DecidableEq

def MemberCall.run (file : MembersFile) : MemberCall → MemberResult
  | .add name grants actions random => addMemberWithActions sha256 file name grants actions random
  | .setActions name actions => setMemberActions file name actions
  | .revoke name => revokeMember file name

end

/-! ### Words -/

/-- The text has no white space. -/
def Inked (t : Text) : Prop := ∀ c ∈ t, isWhitespace c = false

theorem Inked.append {a b : Text} (ha : Inked a) (hb : Inked b) : Inked (a ++ b) :=
  List.forall_mem_append.mpr ⟨ha, hb⟩

theorem Inked.oneLine {t : Text} (h : Inked t) : OneLine t := by
  refine ⟨fun mem => absurd (h _ mem) (by decide), fun last => ?_⟩
  exact absurd (h _ (List.mem_of_getLast? last)) (by decide)

theorem splitWhitespace_append_cons (a b : Text) {c : Char} (blank : isWhitespace c = true) :
    splitWhitespace (a ++ c :: b) = splitWhitespace a ++ splitWhitespace b := by
  rw [splitWhitespace, List.splitOnP_append_cons a b blank, List.filter_append]
  rfl

theorem splitWhitespace_nil : splitWhitespace [] = [] := rfl

theorem splitWhitespace_word {t : Text} (h : Inked t) (ne : t ≠ []) : splitWhitespace t = [t] := by
  rw [splitWhitespace, List.splitOnP_eq_singleton h, List.filter_cons_of_pos (by simpa using ne),
    List.filter_nil]

/-- White space in front and behind makes no words. -/
theorem splitWhitespace_trim (t : Text) : splitWhitespace (trim t) = splitWhitespace t := by
  have front : ∀ {w : Text} (t : Text), Blank w → splitWhitespace (w ++ t) = splitWhitespace t := by
    intro w t
    induction w with
    | nil => exact fun _ => rfl
    | cons c w ih =>
        intro blank
        obtain ⟨hc, hw⟩ := List.forall_mem_cons.mp blank
        have cut := splitWhitespace_append_cons [] (w ++ t) hc
        rw [List.nil_append, splitWhitespace_nil, List.nil_append] at cut
        rw [List.cons_append, cut, ih hw]
  have behind : ∀ {w : Text} (t : Text), Blank w → splitWhitespace (t ++ w) = splitWhitespace t := by
    intro w t blank
    cases w with
    | nil => rw [List.append_nil]
    | cons c w =>
        obtain ⟨hc, hw⟩ := List.forall_mem_cons.mp blank
        have none_left := front [] hw
        rw [List.append_nil, splitWhitespace_nil] at none_left
        rw [splitWhitespace_append_cons t w hc, none_left, List.append_nil]
  obtain ⟨w, w', hw, hw', eq⟩ := trim_spec t
  conv_rhs => rw [eq]
  rw [behind _ hw', front _ hw]

/-- Words that are joined are split again. -/
theorem splitWhitespace_joinWords {words : List Text} (h : ∀ word ∈ words, Inked word ∧ word ≠ []) :
    splitWhitespace (joinWords words) = words := by
  induction words with
  | nil => rfl
  | cons word words ih =>
      obtain ⟨⟨inked, ne⟩, rest⟩ := List.forall_mem_cons.mp h
      cases words with
      | nil => rw [joinWords, List.intercalate_singleton, splitWhitespace_word inked ne]
      | cons next words =>
          have cut := splitWhitespace_append_cons word (joinWords (next :: words))
            (show isWhitespace ' ' = true by decide)
          rw [splitWhitespace_word inked ne, ih rest] at cut
          rw [joinWords, List.intercalate_cons_cons, List.append_assoc]
          exact cut

theorem oneLine_joinWords {words : List Text} (h : ∀ word ∈ words, Inked word ∧ word ≠ []) :
    OneLine (joinWords words) := by
  have no_break : ∀ c ∈ joinWords words, c ≠ '\n' ∧ c ≠ '\r' := by
    intro c mem
    obtain sep | ⟨word, hword, hc⟩ := mem_intercalate mem
    · rw [List.mem_singleton.mp sep]
      decide
    · have inked := (h word hword).1 c hc
      constructor <;> rintro rfl <;> exact absurd inked (by decide)
  exact ⟨fun mem => (no_break _ mem).1 rfl,
    fun last => (no_break _ (List.mem_of_getLast? last)).2 rfl⟩

/-! ### What is read of a member -/

/-- What a member needs to be written on its lines. -/
structure MemberEntry.Valid (e : MemberEntry) : Prop where
  name : Inked e.name
  tokenHash : Inked e.tokenHash
  grants : ∀ grant ∈ e.grants, Inked (renderGrant grant)
  actions : ∀ action ∈ e.actions, Inked action ∧ action ≠ []

/-- The grant that its word is read as: cut at the first equals sign. -/
def resplit (grant : Text × Text) : Text × Text := ((splitOnce '=' (renderGrant grant)).getD grant)

/-- What is read of a member that was written. -/
def MemberEntry.reread (e : MemberEntry) : MemberEntry := { e with grants := e.grants.map resplit }

theorem splitOnce_renderGrant (grant : Text × Text) :
    splitOnce '=' (renderGrant grant) = some (resplit grant) := by
  rw [resplit]
  cases cut : splitOnce '=' (renderGrant grant) with
  | some parts => rfl
  | none =>
      have absent : ∀ (a b : Text), splitOnce '=' (a ++ '=' :: b) ≠ none := by
        intro a b
        induction a with
        | nil => simp [splitOnce]
        | cons x a ih =>
            rw [List.cons_append, splitOnce]
            split
            · exact Option.some_ne_none _
            · rw [Ne, Option.map_eq_none_iff]
              exact ih
      exact absurd cut (absent grant.1 grant.2)

/-- A grant is read as it is exactly if its project has no equals sign. -/
theorem resplit_eq_self {grant : Text × Text} : resplit grant = grant ↔ '=' ∉ grant.1 := by
  constructor
  · intro same
    have cut := splitOnce_renderGrant grant
    rw [same] at cut
    exact (splitOnce_eq_some cut).2
  · intro free
    have cut := splitOnce_append free grant.2
    rw [← renderGrant, splitOnce_renderGrant] at cut
    exact Option.some.inj cut

theorem reread_eq_self {e : MemberEntry} :
    e.reread = e ↔ ∀ grant ∈ e.grants, '=' ∉ grant.1 := by
  have fields : e.reread = e ↔ e.grants.map resplit = e.grants := by
    constructor
    · exact fun same => congrArg MemberEntry.grants same
    · intro same
      rw [MemberEntry.reread, same]
  rw [fields]
  conv_lhs => rhs; rw [← List.map_id e.grants]
  rw [List.map_eq_map_iff]
  exact forall₂_congr fun grant _ => resplit_eq_self

/-! ### The text of a member -/

def memberFields (e : MemberEntry) : List (Text × Option Text) :=
  [("NAME".toList, some ("       ".toList ++ e.name)),
    ("TOKEN_HASH".toList, some (" ".toList ++ e.tokenHash)),
    ("GRANTS".toList, some ("     ".toList ++ joinWords (e.grants.map renderGrant))),
    ("ACTIONS".toList, if e.actions = [] then none else some ("    ".toList ++ joinWords e.actions))]

theorem memberFields_nodup (e : MemberEntry) : ((memberFields e).map Prod.fst).Nodup := by
  have keys : (memberFields e).map Prod.fst =
      ["NAME".toList, "TOKEN_HASH".toList, "GRANTS".toList, "ACTIONS".toList] := rfl
  rw [keys]
  decide

def memberTitle (e : MemberEntry) : Text := "* MEMBER ".toList ++ e.name

def memberChunk (e : MemberEntry) : Chunk := drawerChunk (memberTitle e) (fieldRows (memberFields e)) 1

theorem renderMember_eq (e : MemberEntry) : renderMember e = (memberChunk e).text := by
  have name : "\n:PROPERTIES:\n:NAME:        ".toList = ['\n'] ++ ":PROPERTIES:".toList ++ ['\n'] ++
      (":".toList ++ "NAME".toList ++ ": ".toList ++ "       ".toList) := by decide
  have hash : "\n:TOKEN_HASH:  ".toList =
      ['\n'] ++ (":".toList ++ "TOKEN_HASH".toList ++ ": ".toList ++ " ".toList) := by decide
  have grants : "\n:GRANTS:      ".toList =
      ['\n'] ++ (":".toList ++ "GRANTS".toList ++ ": ".toList ++ "     ".toList) := by decide
  have actions : ":ACTIONS:     ".toList =
      ":".toList ++ "ACTIONS".toList ++ ": ".toList ++ "    ".toList := by decide
  have close : ":END:\n\n".toList = ":END:".toList ++ ['\n'] ++ ['\n'] := by decide
  have line : "\n".toList = ['\n'] := by decide
  unfold renderMember memberChunk memberTitle
  simp only [drawerChunk_text, name, hash, grants, actions, close, line]
  unfold fieldRows TxEntry.fieldPairs memberFields
  split_ifs <;>
    simp only [List.filterMap_cons, List.filterMap_nil, Option.map_some, Option.map_none,
      List.map_cons, List.map_nil, List.flatMap_cons, List.flatMap_nil, propertyRow,
      List.append_assoc, List.append_nil, List.cons_append, List.nil_append,
      List.replicate_succ, List.replicate_zero]

theorem drawn_member {e : MemberEntry} (h : e.Valid) :
    Drawn 1 (memberTitle e) (TxEntry.fieldPairs (memberFields e)) (fieldRows (memberFields e)) := by
  have words : ∀ word ∈ e.grants.map renderGrant, Inked word ∧ word ≠ [] := by
    refine List.forall_mem_map.mpr fun grant mem => ⟨h.grants grant mem, ?_⟩
    exact List.append_ne_nil_of_right_ne_nil _ (List.cons_ne_nil _ _)
  have spaces : ∀ {pad value : Text}, OneLine pad → OneLine value →
      ∀ v, some (pad ++ value) = some v → OneLine v := by
    rintro pad value hpad hvalue _ ⟨⟩
    exact hpad.append hvalue
  refine drawn_fields ?_ ((by decide : OneLine "* MEMBER ".toList).append h.name.oneLine) ?_
  · exact (headingLevel_eq_some_iff _ _).mpr ⟨by decide, "MEMBER ".toList ++ e.name, rfl⟩
  · simp only [memberFields, List.forall_mem_cons]
    refine ⟨⟨by decide, spaces (by decide) h.name.oneLine⟩,
      ⟨by decide, spaces (by decide) h.tokenHash.oneLine⟩,
      ⟨by decide, spaces (by decide) (oneLine_joinWords words)⟩, ⟨by decide, ?_⟩, by simp⟩
    split
    · exact nofun
    · exact spaces (by decide) (oneLine_joinWords h.actions)

/-- The text of a member reads as a heading with these properties. -/
theorem memberChunk_node {e : MemberEntry} (h : e.Valid) :
    ∃ n, (memberChunk e).node [] = some n ∧ n.level = 1 ∧
      n.properties = (TxEntry.fieldPairs (memberFields e)).map trimmedValue := by
  have parsed : parseHeadingLine (memberTitle e) 1 [] =
      some (parseHeadingRest ("MEMBER ".toList ++ e.name) []) :=
    parseHeadingLine_stars 1 _ (by simp)
  exact ⟨_, (drawn_member h).node 1 parsed, rfl, rfl⟩

/-- What is read of a heading with these properties. -/
theorem readMember_eq {source : Text} {i : HeadingInfo} {e : MemberEntry} (h : e.Valid)
    (properties : (i.node source).properties =
      (TxEntry.fieldPairs (memberFields e)).map trimmedValue) :
    readMember i = some e.reread := by
  have property : ∀ {key : Text} {value : Option Text} (n : ℕ),
      (memberFields e)[n]? = some (key, value) → i.property key = value.map trim :=
    fun n hn => property_of_fields (memberFields_nodup e) properties (List.mem_of_getElem? hn)
  have words : ∀ word ∈ e.grants.map renderGrant, Inked word ∧ word ≠ [] := by
    refine List.forall_mem_map.mpr fun grant mem => ⟨h.grants grant mem, ?_⟩
    exact List.append_ne_nil_of_right_ne_nil _ (List.cons_ne_nil _ _)
  have name : i.property "NAME".toList = some e.name := by
    rw [property 0 rfl, Option.map_some, trim_blank_append (by decide), trim_of_inked h.name]
  have hash : (i.property "TOKEN_HASH".toList).getD [] = e.tokenHash := by
    rw [property 1 rfl, Option.map_some, Option.getD_some, trim_blank_append (by decide),
      trim_of_inked h.tokenHash]
  have grants : splitWhitespace ((i.property "GRANTS".toList).getD []) = e.grants.map renderGrant := by
    rw [property 2 rfl, Option.map_some, Option.getD_some, trim_blank_append (by decide),
      splitWhitespace_trim, splitWhitespace_joinWords words]
  have actions : splitWhitespace ((i.property "ACTIONS".toList).getD []) = e.actions := by
    rw [property 3 rfl]
    split
    · next none_set => rw [none_set]; rfl
    · rw [Option.map_some, Option.getD_some, trim_blank_append (by decide), splitWhitespace_trim,
        splitWhitespace_joinWords h.actions]
  have cut : (e.grants.map renderGrant).filterMap (splitOnce '=') = e.grants.map resplit := by
    rw [List.filterMap_map]
    induction e.grants with
    | nil => rfl
    | cons grant rest ih =>
        rw [List.filterMap_cons, Function.comp_apply, splitOnce_renderGrant, ih]
        rfl
  rw [readMember, name, Option.map_some, hash, grants, actions, cut]
  rfl

theorem prelude_members : Prelude (["#+title: orgasmic members\n".toList,
    "#+orgasmic_version: 1\n".toList] ++ [['\n']]) := by
  refine Prelude.blank ⟨?_, ?_, ?_⟩
  · exact List.forall_mem_cons.mpr ⟨⟨"#+title: orgasmic members".toList, by decide, by decide⟩,
      List.forall_mem_singleton.mpr ⟨"#+orgasmic_version: 1".toList, by decide, by decide⟩⟩
  · exact List.forall_mem_cons.mpr ⟨⟨by decide, by decide, by decide⟩,
      List.forall_mem_singleton.mpr ⟨by decide, by decide, by decide⟩⟩
  · have first := readKeywords_directive (r := "#+title: orgasmic members\n".toList)
      (d := "title: orgasmic members".toList) (k := "title".toList)
      (v := "orgasmic members".toList) (by decide) (by decide) (by decide) 0 []
      ["#+orgasmic_version: 1\n".toList]
    have second := readKeywords_directive (r := "#+orgasmic_version: 1\n".toList)
      (d := "orgasmic_version: 1".toList) (k := "orgasmic_version".toList) (v := "1".toList)
      (by decide) (by decide) (by decide)
    exact ⟨_, by rw [first, second, readKeywords]⟩

theorem renderMembers_front (entries : List MemberEntry) : renderMembers entries =
    "#+title: orgasmic members\n".toList ++ "#+orgasmic_version: 1\n".toList ++ ['\n'] ++
      entries.flatMap renderMember := rfl

/-- **What was rendered is read**, with the grants cut at their first equals sign. -/
theorem parse_renderMembers {entries : List MemberEntry} (h : ∀ e ∈ entries, e.Valid) :
    ∃ f, OrgFile.parse (renderMembers entries) "members.org".toList = .ok f ∧
      f.headings.filterMap (fun heading => readMember heading.toHeadingInfo) =
        entries.map MemberEntry.reread := by
  have text : renderMembers entries = (["#+title: orgasmic members\n".toList,
      "#+orgasmic_version: 1\n".toList] ++ [['\n']]).flatten ++
        (entries.map memberChunk).flatMap Chunk.text := by
    rw [renderMembers_front, List.flatMap_map, List.flatten_append, List.flatten_cons,
      List.flatten_singleton, List.flatten_singleton]
    rw [List.flatMap_congr fun e _ => renderMember_eq e]
  obtain ⟨f, parsed, headings⟩ :
      ∃ f, OrgFile.parse (renderMembers entries) "members.org".toList = .ok f ∧
        List.Forall₂ (fun (heading : Heading) e =>
          (heading.toHeadingInfo.node (renderMembers entries)).properties =
            (TxEntry.fieldPairs (memberFields e)).map trimmedValue) f.headings entries :=
    parse_drawers "members.org".toList prelude_members text
      (fun e mem => ⟨1, _, _, _, 1, drawn_member (h e mem), rfl⟩)
      fun e mem => memberChunk_node (h e mem)
  refine ⟨f, parsed, ?_⟩
  clear parsed text
  generalize renderMembers entries = source at headings
  generalize f.headings = list at headings ⊢
  induction headings with
  | nil => rfl
  | cons properties _ ih =>
      obtain ⟨valid, valid_rest⟩ := List.forall_mem_cons.mp h
      rw [List.filterMap_cons, readMember_eq valid properties, ih valid_rest]
      rfl

theorem readMembers_render {entries : List MemberEntry} (h : ∀ e ∈ entries, e.Valid) :
    readMembers (some (renderMembers entries)) = .ok (entries.map MemberEntry.reread) := by
  obtain ⟨f, parsed, read⟩ := parse_renderMembers h
  have ink : trim (renderMembers entries) ≠ [] := by
    rw [Ne, trim_eq_nil_iff]
    intro blank
    have hash : '#' ∈ renderMembers entries :=
      List.mem_append_left _ (by decide)
    exact absurd (blank _ hash) (by decide)
  rw [readMembers, parseMembers, if_neg ink, parsed]
  exact congrArg Except.ok read

theorem writeMembers_eq {entries : List MemberEntry} (h : ∀ e ∈ entries, e.Valid)
    (reply : MemberReply) : writeMembers entries reply = (.ok reply, some (renderMembers entries)) := by
  obtain ⟨f, parsed, -⟩ := parse_renderMembers h
  rw [writeMembers, parsed]

/-! ### What the validators accept -/

/-- A text whose characters are no lower than an exclamation mark and no higher than a tilde. -/
theorem inked_of_ascii {t : Text} (h : ∀ c ∈ t, 0x21 ≤ c.toNat ∧ c.toNat ≤ 0x7E) : Inked t := by
  intro c mem
  obtain ⟨low, high⟩ := h c mem
  simp only [isWhitespace, Bool.or_eq_false_iff, Bool.and_eq_false_iff, decide_eq_false_iff_not,
    beq_eq_false_iff_ne]
  omega

theorem forM_ok_iff {α : Type} {check : α → Except MemberError Unit} {xs : List α} :
    xs.forM check = .ok () ↔ ∀ x ∈ xs, check x = .ok () := by
  induction xs with
  | nil => exact ⟨fun _ => by simp, fun _ => rfl⟩
  | cons x xs ih =>
      rw [List.forall_mem_cons, ← ih, List.forM]
      cases check x with
      | error e => exact ⟨nofun, fun both => nomatch both.1⟩
      | ok unit => exact ⟨fun rest => ⟨rfl, rest⟩, fun both => both.2⟩

theorem ascii_of_isMemberNameChar {c : Char} (h : isMemberNameChar c = true) :
    0x21 ≤ c.toNat ∧ c.toNat ≤ 0x7E := by
  simp only [isMemberNameChar, Bool.or_eq_true, decide_eq_true_eq] at h
  obtain (((alphanum | rfl) | rfl) | rfl) := h
  · obtain ⟨_, _⟩ | ⟨_, _⟩ | ⟨_, _⟩ := alphanum_range alphanum <;> omega
  all_goals decide

theorem inked_of_validateMemberName {name : Text} (h : validateMemberName name = .ok ()) :
    Inked name := by
  unfold validateMemberName at h
  split at h
  · cases h
  split at h
  · cases h
  next legal =>
    rw [Bool.or_eq_true, not_or, Bool.not_eq_true', Bool.not_eq_false, List.all_eq_true] at legal
    exact inked_of_ascii fun c mem => ascii_of_isMemberNameChar (legal.1 c mem)

/-- What stands behind a check that passed. -/
theorem bind_ok {check : Except MemberError Unit} {next : Unit → Except MemberError Unit}
    (h : (check >>= next) = .ok ()) : check = .ok () ∧ next () = .ok () := by
  cases check with
  | error e => exact nomatch h
  | ok unit => exact ⟨rfl, h⟩

theorem inked_of_validateGrant {grant : Text × Text} (h : validateGrant grant = .ok ()) :
    Inked (renderGrant grant) := by
  -- the project `*` has no check of its own
  have rest : (do
      validateSingleLine grant.2 "grant role".toList 64
      if grant.2.any isWhitespace || grant.1.any isWhitespace then
        bail "grant entries must not contain whitespace".toList :
      Except MemberError Unit) = .ok () := by
    unfold validateGrant at h
    by_cases star : grant.1 ≠ "*".toList
    · simp only [if_pos star] at h
      exact (bind_ok h).2
    · simp only [if_neg star] at h
      exact h
  obtain ⟨-, words⟩ := bind_ok rest
  split at words
  · cases words
  next inked =>
    rw [Bool.or_eq_true, not_or, List.any_eq_true, List.any_eq_true] at inked
    refine Inked.append (fun c mem => ?_) (List.forall_mem_cons.mpr ⟨by decide, fun c mem => ?_⟩)
    · exact Bool.eq_false_iff.mpr fun blank => inked.2 ⟨c, mem, blank⟩
    · exact Bool.eq_false_iff.mpr fun blank => inked.1 ⟨c, mem, blank⟩

theorem inked_of_validateAction {action : Text} (h : validateAction action = .ok ()) :
    Inked action ∧ action ≠ [] := by
  obtain ⟨line, chars⟩ := bind_ok h
  constructor
  · split at chars
    · cases chars
    next legal =>
      rw [Bool.not_eq_true', Bool.not_eq_false, List.all_eq_true] at legal
      refine inked_of_ascii fun c mem => ascii_of_isMemberNameChar ?_
      have allowed := legal c mem
      have alphanum : c.isAlphanum = ((c.isUpper || c.isLower) || c.isDigit) := rfl
      simp only [isActionChar, isMemberNameChar, alphanum, Bool.or_eq_true, decide_eq_true_eq] at allowed ⊢
      tauto
  · rintro rfl
    unfold validateSingleLine at line
    rw [if_pos (Or.inl rfl)] at line
    cases line

theorem digitChar_injective : ∀ a < 16, ∀ b < 16, Nat.digitChar a = Nat.digitChar b → a = b := by
  decide

theorem hexText_injective : Function.Injective hexText := by
  intro as
  induction as with
  | nil =>
      intro bs same
      cases bs with
      | nil => rfl
      | cons b bs => exact nomatch same
  | cons a as ih =>
      intro bs same
      cases bs with
      | nil => exact nomatch same
      | cons b bs =>
          have split : Nat.digitChar (a.toNat / 16) :: Nat.digitChar (a.toNat % 16) :: hexText as =
              Nat.digitChar (b.toNat / 16) :: Nat.digitChar (b.toNat % 16) :: hexText bs := same
          obtain ⟨high, low, rest⟩ : _ ∧ _ ∧ _ := by simpa only [List.cons.injEq] using split
          have ha := a.toNat_lt
          have hb := b.toNat_lt
          have quot := digitChar_injective _ (by omega) _ (by omega) high
          have mod := digitChar_injective _ (by omega) _ (by omega) low
          have byte : a = b := UInt8.toNat_inj.mp (by omega)
          rw [byte, ih rest]

theorem inked_hexText (bytes : Bytes) : Inked (hexText bytes) := by
  have digit : ∀ n < 16, 0x21 ≤ (Nat.digitChar n).toNat ∧ (Nat.digitChar n).toNat ≤ 0x7E := by decide
  refine inked_of_ascii fun c mem => ?_
  obtain ⟨b, -, hc⟩ := List.mem_flatMap.mp mem
  have hb := b.toNat_lt
  rw [hexByte, List.mem_cons, List.mem_singleton] at hc
  obtain rfl | rfl := hc
  · exact digit _ (by omega)
  · exact digit _ (by omega)

/-! ### The members that the calls are about -/

/-- A member with the token that was minted for it. -/
structure Membership where
  name : Text
  token : Text
  grants : List (Text × Text)
  actions : List Text
deriving DecidableEq

/-- What the validators say of the arguments. -/
def MemberCall.check : MemberCall → Except MemberError Unit
  | .add name grants actions _ => do
      validateMemberName name
      validateGrants grants
      validateActions actions
  | .setActions _ actions => validateActions actions
  | .revoke _ => .ok ()

/-- The validators reject the arguments, the name is taken, or there is no member with it. -/
def MemberCall.refused (members : List Membership) : MemberCall → Bool
  | .add name grants actions random =>
      !(MemberCall.add name grants actions random).check.isOk || members.any (·.name = name)
  | .setActions name actions =>
      !(MemberCall.setActions name actions).check.isOk || !members.any (·.name = name)
  | .revoke name => !members.any (·.name = name)

def MemberCall.apply (members : List Membership) : MemberCall → List Membership
  | .add name grants actions random => members ++ [⟨name, hexText random, grants, actions⟩]
  | .setActions name actions => members.map fun m => if m.name = name then { m with actions } else m
  | .revoke name => members.filter (·.name ≠ name)

/-- What the call makes of the members. -/
def MemberCall.spec (members : List Membership) (call : MemberCall) : List Membership :=
  if call.refused members then members else call.apply members

/-- What a call that is not refused answers. -/
def MemberCall.reply : MemberCall → MemberReply
  | .add _ _ _ random => .token (hexText random)
  | _ => .changed true

/-- The call failed, or answered that nothing changed. -/
def isRefusal : Except MemberError MemberReply → Bool
  | .error _ => true
  | .ok (.changed changed) => !changed
  | .ok (.token _) => false

/-- The tokens that the call mints. -/
def MemberCall.tokens : MemberCall → List Text
  | .add _ _ _ random => [hexText random]
  | _ => []

def mintedTokens (calls : List MemberCall) : List Text := calls.flatMap MemberCall.tokens

/-- The projects that the call grants something on. -/
def MemberCall.projects : MemberCall → List Text
  | .add _ grants _ _ => grants.map Prod.fst
  | _ => []

/-- No call that is carried out names a project with an equals sign. -/
def Splittable : List Membership → List MemberCall → Prop
  | _, [] => True
  | members, call :: calls =>
      (call.refused members = false → ∀ project ∈ call.projects, '=' ∉ project) ∧
        Splittable (call.spec members) calls

section

variable (sha256 : Bytes → Bytes) (tokens : List Text)

def Membership.entry (m : Membership) : MemberEntry :=
  ⟨m.name, sha256Hex sha256 (utf8 m.token), m.grants, m.actions⟩

/-- What the file says is what the list says, also about every token that was minted. -/
structure StoreAgrees (file : MembersFile) (members : List Membership) : Prop where
  read : readMembers file = .ok (members.map (Membership.entry sha256))
  names : (members.map Membership.name).Nodup
  found : ∀ token ∈ tokens, findMemberByToken sha256 file token =
    .ok ((members.find? (·.token = token)).map (Membership.entry sha256))

/-- A call is refused as it should be and then leaves the file as it was. -/
structure CallAnswered (file : MembersFile) (members : List Membership) (call : MemberCall) :
    Prop where
  refused : isRefusal (call.run sha256 file).1 = call.refused members
  kept : call.refused members = true → (call.run sha256 file).2 = file
  reply : call.refused members = false → (call.run sha256 file).1 = .ok call.reply

/-- The file agrees with the list after every call. -/
def StoreFollows : MembersFile → List Membership → List MemberCall → Prop
  | file, members, [] => StoreAgrees sha256 tokens file members
  | file, members, call :: calls => StoreAgrees sha256 tokens file members ∧
      CallAnswered sha256 file members call ∧
        StoreFollows (call.run sha256 file).2 (call.spec members) calls

/-- The file was written for these members. -/
structure WrittenFor (file : MembersFile) (members : List Membership) : Prop where
  file : file = none ∧ members = [] ∨
    file = some (renderMembers (members.map (Membership.entry sha256)))
  valid : ∀ m ∈ members, (m.entry sha256).Valid
  names : (members.map Membership.name).Nodup
  minted : ∀ m ∈ members, m.token ∈ tokens

end

/-- No project of a grant has an equals sign. -/
def PlainGrants (members : List Membership) : Prop :=
  ∀ m ∈ members, ∀ grant ∈ m.grants, '=' ∉ grant.1

/-! ### One call -/

section

variable {sha256 : Bytes → Bytes} {tokens : List Text} {file : MembersFile}
  {members : List Membership} {call : MemberCall} {name source : Text}
  {grants : List (Text × Text)} {actions : List Text} {random : Bytes}

theorem isOk_iff {check : Except MemberError Unit} : check.isOk = true ↔ check = .ok () := by
  cases check with
  | error e => exact ⟨nofun, nofun⟩
  | ok unit => exact ⟨fun _ => rfl, fun _ => rfl⟩

theorem map_reread_eq {entries : List MemberEntry} :
    entries.map MemberEntry.reread = entries ↔ ∀ e ∈ entries, ∀ grant ∈ e.grants, '=' ∉ grant.1 := by
  conv_lhs => rhs; rw [← List.map_id entries]
  rw [List.map_eq_map_iff]
  exact forall₂_congr fun e _ => reread_eq_self

theorem WrittenFor.valid_entries (h : WrittenFor sha256 tokens file members) :
    ∀ e ∈ members.map (Membership.entry sha256), e.Valid := List.forall_mem_map.mpr h.valid

/-- The file is read as the members exactly if no project has an equals sign. -/
theorem WrittenFor.read_iff (h : WrittenFor sha256 tokens file members) :
    readMembers file = .ok (members.map (Membership.entry sha256)) ↔ PlainGrants members := by
  obtain ⟨rfl, rfl⟩ | rfl := h.file
  · exact ⟨fun _ => nofun, fun _ => rfl⟩
  · rw [readMembers_render h.valid_entries, Except.ok.injEq, map_reread_eq, List.forall_mem_map]
    rfl

theorem parseMembers_getD : parseMembers (file.getD []) = readMembers file := by
  cases file with
  | none => rw [Option.getD_none, parseMembers, if_pos (by decide)]; rfl
  | some source => rfl

/-- **What the file answers** about a token that was minted. -/
theorem findMemberByToken_eq (read : readMembers file = .ok (members.map (Membership.entry sha256)))
    {token : Text} (inked : Inked token)
    (injective : ∀ m ∈ members, sha256 (utf8 m.token) = sha256 (utf8 token) → m.token = token) :
    findMemberByToken sha256 file token =
      .ok ((members.find? (·.token = token)).map (Membership.entry sha256)) := by
  have same : ∀ m ∈ members,
      decide ((m.entry sha256).tokenHash = sha256Hex sha256 (utf8 token)) =
        decide (m.token = token) := by
    intro m mem
    refine decide_eq_decide.mpr ⟨fun hash => injective m mem (hexText_injective hash), fun eq => ?_⟩
    rw [← eq]
    rfl
  rw [findMemberByToken, read, trim_of_inked inked]
  refine congrArg Except.ok (List.find?_map.trans ?_)
  exact congrArg _ (List.find?_congr same)

theorem WrittenFor.agrees_iff (h : WrittenFor sha256 tokens file members)
    (inked : ∀ token ∈ tokens, Inked token)
    (injective : ∀ t ∈ tokens, ∀ t' ∈ tokens, sha256 (utf8 t) = sha256 (utf8 t') → t = t') :
    StoreAgrees sha256 tokens file members ↔ PlainGrants members := by
  rw [← h.read_iff]
  refine ⟨StoreAgrees.read, fun read => ⟨read, h.names, fun token mem => ?_⟩⟩
  exact findMemberByToken_eq read (inked token mem)
    fun m hm => injective m.token (h.minted m hm) token mem

/-- The entries have the names of the members. -/
theorem any_entry (name : Text) : (members.map (Membership.entry sha256)).any (·.name = name) =
    members.any (·.name = name) := by
  rw [List.any_map]
  rfl

/-- The first member with the name is the only one. -/
theorem replaceActions_entry (names : (members.map Membership.name).Nodup) (name : Text)
    (actions : List Text) :
    replaceActions name actions (members.map (Membership.entry sha256)) =
      (members.map fun m => if m.name = name then { m with actions } else m).map
        (Membership.entry sha256) := by
  induction members with
  | nil => rfl
  | cons m members ih =>
      rw [List.map_cons, List.nodup_cons] at names
      rw [List.map_cons, replaceActions, List.map_cons, List.map_cons]
      by_cases named : m.name = name
      · have others : ∀ m' ∈ members, (if m'.name = name then { m' with actions } else m') = m' := by
          intro m' mem
          refine if_neg fun named' => names.1 (List.mem_map.mpr ⟨m', mem, ?_⟩)
          rw [named', named]
        rw [if_pos (show (m.entry sha256).name = name from named), if_pos named,
          List.map_congr_left others, List.map_id']
        rfl
      · rw [if_neg (show ¬(m.entry sha256).name = name from named), if_neg named, ih names.2]

theorem filter_entry (name : Text) :
    (members.map (Membership.entry sha256)).filter (·.name ≠ name) =
      (members.filter (·.name ≠ name)).map (Membership.entry sha256) := by
  rw [List.filter_map]
  rfl

theorem filter_length_eq_iff (name : Text) :
    (members.filter (·.name ≠ name)).length = members.length ↔ members.any (·.name = name) = false := by
  rw [List.length_filter_eq_length_iff, List.any_eq_false]
  simp only [decide_eq_true_eq, ne_eq]

/-- If there are members, then there is a file. -/
theorem file_of_member (read : readMembers file = .ok (members.map (Membership.entry sha256)))
    {name : Text} (named : members.any (·.name = name) = true) : ∃ source, file = some source := by
  cases file with
  | some source => exact ⟨source, rfl⟩
  | none =>
      have empty : members = [] := List.map_eq_nil_iff.mp (Except.ok.inj read).symm
      rw [empty] at named
      exact nomatch named

/-- A call whose arguments the validators reject. -/
theorem run_rejected {e : MemberError} (h : call.check = .error e) :
    call.run sha256 file = (.error e, file) := by
  cases call with
  | add name grants actions random =>
      rw [MemberCall.check] at h
      rw [MemberCall.run, addMemberWithActions, h]
  | setActions name actions =>
      rw [MemberCall.check] at h
      rw [MemberCall.run]
      unfold setMemberActions
      rw [h]
  | revoke name => exact nomatch h

theorem run_add (h : (MemberCall.add name grants actions random).check = .ok ())
    (read : readMembers file = .ok (members.map (Membership.entry sha256))) :
    (MemberCall.add name grants actions random).run sha256 file =
      if members.any (·.name = name) then
        (.error (.message ("member ".toList ++ name ++
          " already exists; revoke first to re-mint".toList)), some (file.getD []))
      else writeMembers (((MemberCall.add name grants actions random).apply members).map
        (Membership.entry sha256)) (.token (hexText random)) := by
  rw [MemberCall.check] at h
  rw [MemberCall.run, addMemberWithActions, h]
  simp only [addMemberLocked, parseMembers_getD, read, any_entry, MemberCall.apply, List.map_append,
    List.map_cons, List.map_nil]
  rfl

theorem run_setActions (h : (MemberCall.setActions name actions).check = .ok ())
    (read : readMembers (some source) = .ok (members.map (Membership.entry sha256)))
    (names : (members.map Membership.name).Nodup) :
    (MemberCall.setActions name actions).run sha256 (some source) =
      if members.any (·.name = name) then
        writeMembers (((MemberCall.setActions name actions).apply members).map
          (Membership.entry sha256)) (.changed true)
      else (.ok (.changed false), some source) := by
  rw [MemberCall.check] at h
  rw [readMembers] at read
  rw [MemberCall.run]
  unfold setMemberActions
  rw [h]
  simp only [rewriteMembersLocked, read, any_entry, replaceActions_entry names]
  split_ifs <;> rfl

theorem run_revoke (read : readMembers (some source) = .ok (members.map (Membership.entry sha256))) :
    (MemberCall.revoke name).run sha256 (some source) =
      if members.any (·.name = name) then
        writeMembers (((MemberCall.revoke name).apply members).map (Membership.entry sha256))
          (.changed true)
      else (.ok (.changed false), some source) := by
  rw [readMembers] at read
  rw [MemberCall.run, revokeMember]
  simp only [rewriteMembersLocked, read, filter_entry, List.length_map]
  by_cases there : members.any (·.name = name) = true
  · have fewer : ¬(members.filter (·.name ≠ name)).length = members.length := by
      rw [filter_length_eq_iff, there]
      exact nofun
    rw [if_neg fewer, if_pos there]
    rfl
  · rw [if_pos ((filter_length_eq_iff name).mpr (Bool.eq_false_iff.mpr there)), if_neg there]

/-- **A refused call** leaves the file as it was. -/
theorem run_refused (read : readMembers file = .ok (members.map (Membership.entry sha256)))
    (names : (members.map Membership.name).Nodup) (h : call.refused members = true) :
    isRefusal (call.run sha256 file).1 = true ∧ (call.run sha256 file).2 = file := by
  cases checked : call.check with
  | error e =>
      rw [run_rejected checked]
      exact ⟨rfl, rfl⟩
  | ok unit =>
      have passed : call.check.isOk = true := isOk_iff.mpr checked
      cases call with
      | add name grants actions random =>
          have taken : members.any (·.name = name) = true := by
            simpa only [MemberCall.refused, passed, Bool.not_true, Bool.false_or] using h
          obtain ⟨source, rfl⟩ := file_of_member read taken
          rw [run_add checked read, if_pos taken]
          exact ⟨rfl, rfl⟩
      | setActions name actions =>
          have absent : ¬members.any (·.name = name) = true := by
            simpa only [MemberCall.refused, passed, Bool.not_true, Bool.false_or,
              Bool.not_eq_true', Bool.not_eq_true] using h
          cases file with
          | none =>
              rw [MemberCall.check] at checked
              rw [MemberCall.run]
              unfold setMemberActions
              rw [checked]
              exact ⟨rfl, rfl⟩
          | some source =>
              rw [run_setActions checked read names, if_neg absent]
              exact ⟨rfl, rfl⟩
      | revoke name =>
          have absent : ¬members.any (·.name = name) = true := by
            simpa only [MemberCall.refused, Bool.not_eq_true', Bool.not_eq_true] using h
          cases file with
          | none => exact ⟨rfl, rfl⟩
          | some source =>
              rw [run_revoke read, if_neg absent]
              exact ⟨rfl, rfl⟩

/-- **A call that is carried out** writes what it makes of the members. -/
theorem run_carried (read : readMembers file = .ok (members.map (Membership.entry sha256)))
    (names : (members.map Membership.name).Nodup)
    (valid : ∀ m ∈ call.apply members, (m.entry sha256).Valid)
    (h : call.refused members = false) :
    call.run sha256 file =
      (.ok call.reply, some (renderMembers ((call.apply members).map (Membership.entry sha256)))) := by
  have written := writeMembers_eq (List.forall_mem_map.mpr valid) call.reply
  rw [← written]
  cases call with
  | add name grants actions random =>
      obtain ⟨passed, free⟩ : (MemberCall.add name grants actions random).check.isOk = true ∧
          ¬members.any (·.name = name) = true := by
        simpa only [MemberCall.refused, Bool.or_eq_false_iff, Bool.not_eq_false', Bool.not_eq_true]
          using h
      rw [run_add (isOk_iff.mp passed) read, if_neg free]
      rfl
  | setActions name actions =>
      obtain ⟨passed, there⟩ : (MemberCall.setActions name actions).check.isOk = true ∧
          members.any (·.name = name) = true := by
        simpa only [MemberCall.refused, Bool.or_eq_false_iff, Bool.not_eq_false'] using h
      obtain ⟨source, rfl⟩ := file_of_member read there
      rw [run_setActions (isOk_iff.mp passed) read names, if_pos there]
      rfl
  | revoke name =>
      have there : members.any (·.name = name) = true := by
        simpa only [MemberCall.refused, Bool.not_eq_false'] using h
      obtain ⟨source, rfl⟩ := file_of_member read there
      rw [run_revoke read, if_pos there]
      rfl

/-! ### What a call makes of the members -/

theorem check_of_carried (h : call.refused members = false) : call.check = .ok () := by
  rw [← isOk_iff]
  cases call with
  | add name grants actions random =>
      rw [MemberCall.refused, Bool.or_eq_false_iff, Bool.not_eq_false'] at h
      exact h.1
  | setActions name actions =>
      rw [MemberCall.refused, Bool.or_eq_false_iff, Bool.not_eq_false'] at h
      exact h.1
  | revoke name => rfl

theorem inked_of_validateGrants (h : validateGrants grants = .ok ()) :
    ∀ grant ∈ grants, Inked (renderGrant grant) := by
  unfold validateGrants at h
  split at h
  · cases h
  · exact fun grant mem => inked_of_validateGrant (forM_ok_iff.mp h grant mem)

theorem inked_of_validateActions (h : validateActions actions = .ok ()) :
    ∀ action ∈ actions, Inked action ∧ action ≠ [] :=
  fun action mem => inked_of_validateAction (forM_ok_iff.mp h action mem)

theorem valid_apply (valid : ∀ m ∈ members, (m.entry sha256).Valid) (h : call.check = .ok ()) :
    ∀ m ∈ call.apply members, (m.entry sha256).Valid := by
  cases call with
  | add name grants actions random =>
      obtain ⟨name_ok, rest⟩ := bind_ok h
      obtain ⟨grants_ok, actions_ok⟩ := bind_ok rest
      refine List.forall_mem_append.mpr ⟨valid, List.forall_mem_singleton.mpr ?_⟩
      exact ⟨inked_of_validateMemberName name_ok, inked_hexText _,
        inked_of_validateGrants grants_ok, inked_of_validateActions actions_ok⟩
  | setActions name actions =>
      refine List.forall_mem_map.mpr fun m mem => ?_
      have old := valid m mem
      split
      · exact ⟨old.name, old.tokenHash, old.grants, inked_of_validateActions h⟩
      · exact old
  | revoke name => exact fun m mem => valid m (List.mem_filter.mp mem).1

theorem names_apply (names : (members.map Membership.name).Nodup)
    (h : call.refused members = false) : ((call.apply members).map Membership.name).Nodup := by
  cases call with
  | add name grants actions random =>
      rw [MemberCall.refused, Bool.or_eq_false_iff, List.any_eq_false] at h
      rw [MemberCall.apply, List.map_append, List.map_singleton, ← List.concat_eq_append,
        List.nodup_concat]
      refine ⟨fun mem => ?_, names⟩
      obtain ⟨m, hm, named⟩ := List.mem_map.mp mem
      exact h.2 m hm (decide_eq_true named)
  | setActions name actions =>
      have same : ((MemberCall.setActions name actions).apply members).map Membership.name =
          members.map Membership.name := by
        rw [MemberCall.apply, List.map_map]
        refine List.map_congr_left fun m _ => ?_
        rw [Function.comp_apply]
        split <;> rfl
      rw [same]
      exact names
  | revoke name => exact names.sublist (List.filter_sublist.map _)

theorem minted_apply (minted : ∀ m ∈ members, m.token ∈ tokens)
    (h : ∀ token ∈ call.tokens, token ∈ tokens) : ∀ m ∈ call.apply members, m.token ∈ tokens := by
  cases call with
  | add name grants actions random =>
      refine List.forall_mem_append.mpr ⟨minted, List.forall_mem_singleton.mpr ?_⟩
      exact h _ (List.mem_singleton_self _)
  | setActions name actions =>
      refine List.forall_mem_map.mpr fun m mem => ?_
      split <;> exact minted m mem
  | revoke name => exact fun m mem => minted m (List.mem_filter.mp mem).1

theorem plainGrants_apply (plain : PlainGrants members) :
    PlainGrants (call.apply members) ↔ ∀ project ∈ call.projects, '=' ∉ project := by
  cases call with
  | add name grants actions random =>
      rw [PlainGrants, MemberCall.apply, List.forall_mem_append, List.forall_mem_singleton,
        MemberCall.projects, List.forall_mem_map]
      exact ⟨And.right, fun fresh => ⟨plain, fresh⟩⟩
  | setActions name actions =>
      refine ⟨fun _ => nofun, fun _ => List.forall_mem_map.mpr fun m mem => ?_⟩
      split <;> exact plain m mem
  | revoke name => exact ⟨fun _ => nofun, fun _ m mem => plain m (List.mem_filter.mp mem).1⟩

theorem plainGrants_spec (plain : PlainGrants members) : PlainGrants (call.spec members) ↔
    (call.refused members = false → ∀ project ∈ call.projects, '=' ∉ project) := by
  rw [MemberCall.spec]
  split
  · next refused =>
      exact ⟨fun _ carried => absurd (refused.symm.trans carried) nofun, fun _ => plain⟩
  · next carried =>
      rw [plainGrants_apply plain]
      exact ⟨fun h _ => h, fun h => h (Bool.eq_false_iff.mpr carried)⟩

/-- **One call.**  It is answered as it should be, and what it wrote is there for its members. -/
theorem WrittenFor.step (w : WrittenFor sha256 tokens file members) (plain : PlainGrants members)
    (minted : ∀ token ∈ call.tokens, token ∈ tokens) :
    CallAnswered sha256 file members call ∧
      WrittenFor sha256 tokens (call.run sha256 file).2 (call.spec members) := by
  have read := w.read_iff.mpr plain
  cases verdict : call.refused members with
  | true =>
      obtain ⟨refusal, kept⟩ := run_refused read w.names verdict
      have same : call.spec members = members := if_pos verdict
      rw [same, kept]
      refine ⟨⟨refusal.trans verdict.symm, fun _ => kept, fun carried => ?_⟩, w⟩
      exact absurd (verdict.symm.trans carried) nofun
  | false =>
      have valid := valid_apply w.valid (check_of_carried verdict)
      have run := run_carried read w.names valid verdict
      have made : call.spec members = call.apply members := if_neg (by rw [verdict]; exact nofun)
      rw [made]
      refine ⟨⟨?_, fun refused => absurd (verdict.symm.trans refused) nofun, fun _ => ?_⟩, ?_⟩
      · rw [run, verdict]
        cases call <;> rfl
      · rw [run]
      · refine ⟨Or.inr (by rw [run]), valid, names_apply w.names verdict, ?_⟩
        exact minted_apply w.minted minted

/-! ### Runs -/

theorem storeFollows_iff {calls : List MemberCall} (w : WrittenFor sha256 tokens file members)
    (plain : PlainGrants members) (inked : ∀ token ∈ tokens, Inked token)
    (injective : ∀ t ∈ tokens, ∀ t' ∈ tokens, sha256 (utf8 t) = sha256 (utf8 t') → t = t')
    (minted : ∀ token ∈ mintedTokens calls, token ∈ tokens) :
    StoreFollows sha256 tokens file members calls ↔ Splittable members calls := by
  have agrees := (w.agrees_iff inked injective).mpr plain
  induction calls generalizing file members with
  | nil => exact ⟨fun _ => trivial, fun _ => agrees⟩
  | cons call calls ih =>
      obtain ⟨here, later⟩ : (∀ token ∈ call.tokens, token ∈ tokens) ∧
          ∀ token ∈ mintedTokens calls, token ∈ tokens := by
        rwa [mintedTokens, List.flatMap_cons, List.forall_mem_append] at minted
      obtain ⟨answered, written⟩ := w.step plain here
      rw [StoreFollows, Splittable, ← plainGrants_spec plain]
      constructor
      · rintro ⟨-, -, rest⟩
        have next : PlainGrants (call.spec members) := by
          rw [← written.agrees_iff inked injective]
          cases calls with
          | nil => exact rest
          | cons _ _ => exact rest.1
        exact ⟨next, (ih written next later ((written.agrees_iff inked injective).mpr next)).mp rest⟩
      · rintro ⟨next, rest⟩
        exact ⟨agrees, answered,
          (ih written next later ((written.agrees_iff inked injective).mpr next)).mpr rest⟩

theorem writtenFor_none : WrittenFor sha256 tokens none [] :=
  ⟨Or.inl ⟨rfl, rfl⟩, nofun, List.nodup_nil, nofun⟩

theorem inked_mintedTokens {calls : List MemberCall} :
    ∀ token ∈ mintedTokens calls, Inked token := by
  intro token mem
  obtain ⟨call, -, minted⟩ := List.mem_flatMap.mp mem
  cases call with
  | add name grants actions random =>
      rw [List.mem_singleton.mp minted]
      exact inked_hexText random
  | setActions name actions => exact nomatch minted
  | revoke name => exact nomatch minted

/-- **The member store is the list of its members** over every sequence of calls exactly if no call
that is carried out names a project with an equals sign. -/
theorem member_store_follows_iff (sha256 : Bytes → Bytes) (calls : List MemberCall)
    (injective : ∀ t ∈ mintedTokens calls, ∀ t' ∈ mintedTokens calls,
      sha256 (utf8 t) = sha256 (utf8 t') → t = t') :
    StoreFollows sha256 (mintedTokens calls) none [] calls ↔ Splittable [] calls := by
  exact storeFollows_iff writtenFor_none nofun inked_mintedTokens injective fun _ mem => mem

end

namespace Members

/-- The bytes behind a token. -/
def random (byte : UInt8) : Bytes := List.replicate 32 byte

def alice : Bytes :=
  [88, 186, 221, 155, 69, 81, 69, 180, 135, 173, 36, 199, 242, 89, 204, 67, 124, 196, 255, 208,
    120, 71, 22, 132, 82, 73, 50, 31, 181, 150, 28, 252]

def bob : Bytes :=
  [116, 159, 26, 151, 255, 108, 208, 14, 164, 108, 203, 58, 71, 187, 18, 50, 131, 254, 86, 200,
    250, 50, 75, 234, 41, 93, 146, 143, 85, 129, 97, 223]

/-- SHA-256 on the tokens of `random 1` and `random 2`. -/
def sha256 (bytes : Bytes) : Bytes := if bytes = utf8 (hexText (random 1)) then alice else bob

def calls : List MemberCall :=
  [.add "alice".toList [("demo".toList, "viewer".toList)] ["tasks.read".toList] (random 1),
    .add "bob".toList [("*".toList, "a=b".toList), ("demo".toList, "editor".toList)] [] (random 2),
    .setActions "alice".toList ["tasks.write".toList, "runs.read".toList],
    .revoke "bob".toList]

/-- A grant whose project has an equals sign. -/
def mixed : MemberCall := .add "alice".toList [("a=b".toList, "viewer".toList)] [] (random 1)

end Members

theorem member_store_follows_sample :
    StoreFollows Members.sha256 (mintedTokens Members.calls) none [] Members.calls := by
  have minted : mintedTokens Members.calls =
      [hexText (Members.random 1), hexText (Members.random 2)] := rfl
  have first : Members.sha256 (utf8 (hexText (Members.random 1))) = Members.alice := if_pos rfl
  have second : Members.sha256 (utf8 (hexText (Members.random 2))) = Members.bob :=
    if_neg (by decide)
  have apart : Members.alice ≠ Members.bob := by decide
  refine (member_store_follows_iff Members.sha256 Members.calls ?_).mpr ?_
  · rw [minted]
    simp only [List.forall_mem_cons, first, second, apart, apart.symm]
    simp
  · exact ⟨fun _ => by decide, fun _ => by decide, fun _ => nofun, fun _ => nofun, trivial⟩

/-- The validators accept the grant on `a=b`, and the file has one on `a`. -/
theorem member_store_splits_grant :
    Members.mixed.check = .ok () ∧
      ¬StoreFollows Members.sha256 (mintedTokens [Members.mixed]) none [] [Members.mixed] ∧
      resplit ("a=b".toList, "viewer".toList) = ("a".toList, "b=viewer".toList) := by
  refine ⟨rfl, fun follows => ?_, by decide⟩
  have one : mintedTokens [Members.mixed] = [hexText (Members.random 1)] := rfl
  have splittable := (storeFollows_iff writtenFor_none nofun inked_mintedTokens (by
    rw [one]
    simp) fun _ mem => mem).mp follows
  exact absurd (splittable.1 rfl "a=b".toList (List.mem_singleton_self _)) (by decide)

end Orgasmic
