import Orgasmic.OrgTitle

/-! # Rendered title lines

`HeadingLine.of` takes the white space off a title and `render` joins the fields with spaces; the
reader of a title line knows nothing of either.

* **Runs of tags.** What `splitTrailingTags` does depends on the run at the end of the line and on
  the one character in front of it (`splitTrailingTags_eq`).
* **Storable lines.** A line with something on it, whose title does not start with a keyword unless
  it has one, and does not end in tags unless it has some. Exactly these are read back from what
  they are rendered as (`readLine_render`). -/

namespace Orgasmic

open Text

/-! ### Runs of tags -/

/-- The characters of a run of tags. -/
def isRunChar (c : Char) : Bool := c = ':' || isTagChar c

/-- A run that holds tags. -/
structure IsRun (run : Text) : Prop where
  first : run.head? = some ':'
  last : run.getLast? = some ':'
  long : 3 ≤ run.length
  inked : [] ∉ (trimMatches ':' run).splitOn ':'

instance (run : Text) : Decidable (IsRun run) :=
  decidable_of_iff (run.head? = some ':' ∧ run.getLast? = some ':' ∧ 3 ≤ run.length ∧
      [] ∉ (trimMatches ':' run).splitOn ':')
    ⟨fun ⟨first, last, long, inked⟩ => ⟨first, last, long, inked⟩,
      fun ⟨first, last, long, inked⟩ => ⟨first, last, long, inked⟩⟩

theorem length_le_byteLen (t : Text) : t.length ≤ byteLen t := by
  induction t with
  | nil => exact Nat.le_refl 0
  | cons c t ih =>
      have := c.utf8Size_pos
      simp only [byteLen, List.foldr_cons, List.length_cons] at ih ⊢
      omega

/-- The last maximal stretch of a text. -/
theorem rdropWhile_append_of_maximal {p : Char → Bool} {before run : Text} (hrun : ∀ c ∈ run, p c)
    (hbefore : ∀ c ∈ before.getLast?, p c = false) :
    (before ++ run).rdropWhile p = before ∧ (before ++ run).rtakeWhile p = run := by
  have hreverse : ∀ c ∈ run.reverse, p c := fun c hc => hrun c (List.mem_reverse.mp hc)
  have hstop : before.reverse.dropWhile p = before.reverse ∧ before.reverse.takeWhile p = [] := by
    obtain rfl | ⟨front, c, rfl⟩ := List.eq_nil_or_concat before
    · exact ⟨rfl, rfl⟩
    · have hc : p c = false := hbefore c (by rw [List.concat_eq_append, List.getLast?_concat]; rfl)
      rw [List.concat_eq_append, List.reverse_append, List.reverse_singleton, List.singleton_append,
        List.dropWhile_cons_of_neg (by rw [hc]; exact Bool.false_ne_true),
        List.takeWhile_cons_of_neg (by rw [hc]; exact Bool.false_ne_true)]
      exact ⟨rfl, rfl⟩
  constructor
  · rw [List.rdropWhile, List.reverse_append, List.dropWhile_append_of_pos hreverse, hstop.1,
      List.reverse_reverse]
  · rw [List.rtakeWhile, List.reverse_append, List.takeWhile_append_of_pos hreverse, hstop.2,
      List.append_nil, List.reverse_reverse]

/-- The tags of a line are those of the last run, if white space precedes it. -/
theorem splitTrailingTags_eq {u before run : Text} (h : trimEnd u = before ++ run)
    (hrun : ∀ c ∈ run, isRunChar c = true) (hbefore : ∀ c ∈ before.getLast?, isRunChar c = false) :
    splitTrailingTags u =
      if (before.getLast? = some ' ' ∨ before.getLast? = some '\t') ∧ IsRun run then
        (trimEnd before, (trimMatches ':' run).splitOn ':')
      else (u, []) := by
  obtain ⟨hb, hr⟩ := rdropWhile_append_of_maximal hrun hbefore
  rw [← h] at hb hr
  have hb : (trimEnd u).rdropWhile (fun c => c = ':' || isTagChar c) = before := hb
  have hr : (trimEnd u).rtakeWhile (fun c => c = ':' || isTagChar c) = run := hr
  simp only [splitTrailingTags, hb, hr]
  by_cases short : (trimEnd u).getLast? ≠ some ':' ∨ byteLen (trimEnd u) < 3
  · rw [if_pos short, if_neg]
    rintro ⟨-, tags⟩
    obtain last | few := short
    · have ne : run ≠ [] := by
        rintro rfl
        exact absurd tags.long (by decide)
      rw [h, List.getLast?_append_of_ne_nil _ ne] at last
      exact last tags.last
    · have := length_le_byteLen (trimEnd u)
      have long := tags.long
      rw [h, List.length_append] at this
      rw [h] at few
      omega
  · rw [if_neg short]
    cases prev : before.getLast? with
    | none =>
        refine (if_neg ?_).symm
        rintro ⟨space | tab, -⟩
        · cases space
        · cases tab
    | some c =>
        simp only [Option.some.injEq]
        by_cases other : c ≠ ' ' ∧ c ≠ '\t'
        · rw [if_pos other, if_neg]
          rintro ⟨rfl | rfl, -⟩
          · exact other.1 rfl
          · exact other.2 rfl
        · rw [if_neg other]
          have space : c = ' ' ∨ c = '\t' := by
            by_cases c = ' '
            · exact .inl ‹_›
            · exact .inr (by_contra fun tab => other ⟨‹_›, tab⟩)
          by_cases ends : run.head? ≠ some ':' ∨ run.getLast? ≠ some ':' ∨ run.length < 3
          · rw [if_pos ends, if_neg]
            rintro ⟨-, tags⟩
            obtain first | last | few := ends
            · exact first tags.first
            · exact last tags.last
            · exact absurd tags.long (Nat.not_le.mpr few)
          · rw [if_neg ends]
            simp only [not_or, ne_eq, not_not, Nat.not_lt] at ends
            by_cases empty : (trimMatches ':' run).splitOn ':' = [] ∨
                [] ∈ (trimMatches ':' run).splitOn ':'
            · rw [if_pos empty, if_neg]
              rintro ⟨-, tags⟩
              exact empty.elim (List.splitOn_ne_nil ':' _) tags.inked
            · rw [if_neg empty, if_pos]
              exact ⟨space, ends.1, ends.2.1, ends.2.2, fun mem => empty (.inr mem)⟩

/-- Every line has such a run. -/
theorem exists_run (u : Text) : ∃ before run, u = before ++ run ∧
    (∀ c ∈ run, isRunChar c = true) ∧ ∀ c ∈ before.getLast?, isRunChar c = false := by
  refine ⟨u.rdropWhile isRunChar, u.rtakeWhile isRunChar,
    List.rdropWhile_append_rtakeWhile.symm, fun c hc => List.mem_rtakeWhile_imp hc, ?_⟩
  intro c hc
  obtain ⟨front, eq⟩ := List.getLast?_eq_some_iff.mp hc
  have ne : u.rdropWhile isRunChar ≠ [] := by
    rw [eq]
    exact List.append_ne_nil_of_right_ne_nil _ (List.cons_ne_nil _ _)
  have last := List.rdropWhile_last_not isRunChar u ne
  have same : (u.rdropWhile isRunChar).getLast ne = c := by
    rw [List.getLast?_eq_getLast_of_ne_nil ne] at hc
    exact Option.some.inj hc
  rw [same] at last
  exact Bool.eq_false_iff.mpr last

/-- A tag: characters of the tag alphabet. -/
def IsTag (tag : Text) : Prop := tag ≠ [] ∧ ∀ c ∈ tag, isTagChar c = true

theorem mem_splitOn {sep : Char} {t piece : Text} (h : piece ∈ t.splitOn sep) :
    ∀ c ∈ piece, c ∈ t ∧ c ≠ sep := by
  induction t generalizing piece with
  | nil =>
      obtain rfl : piece = [] := by simpa using h
      exact fun c hc => absurd hc List.not_mem_nil
  | cons x t ih =>
      rw [List.splitOn_cons_eq_if_modifyHead] at h
      split_ifs at h with same
      · obtain rfl | h := List.mem_cons.mp h
        · exact fun c hc => absurd hc List.not_mem_nil
        · exact fun c hc => ⟨List.mem_cons_of_mem x (ih h c hc).1, (ih h c hc).2⟩
      · obtain ⟨first, rest, split⟩ := List.exists_cons_of_ne_nil (List.splitOn_ne_nil sep t)
        rw [split, List.modifyHead_cons] at h
        rw [split] at ih
        obtain rfl | h := List.mem_cons.mp h
        · intro c hc
          obtain rfl | hc := List.mem_cons.mp hc
          · exact ⟨List.mem_cons_self, by simpa using same⟩
          · have inner := ih List.mem_cons_self c hc
            exact ⟨List.mem_cons_of_mem x inner.1, inner.2⟩
        · have inner := ih (List.mem_cons_of_mem _ h)
          exact fun c hc => ⟨List.mem_cons_of_mem x (inner c hc).1, (inner c hc).2⟩

theorem mem_of_mem_trimMatches {c d : Char} {t : Text} (h : d ∈ trimMatches c t) : d ∈ t :=
  (List.dropWhile_sublist _).subset ((List.rdropWhile_prefix _ _).subset h)

theorem isTag_of_splitTrailingTags (u : Text) : ∀ tag ∈ (splitTrailingTags u).2, IsTag tag := by
  obtain ⟨before, run, h, hrun, hbefore⟩ := exists_run (trimEnd u)
  rw [splitTrailingTags_eq h hrun hbefore]
  split_ifs with tags
  · intro tag mem
    refine ⟨?_, fun c hc => ?_⟩
    · rintro rfl
      exact tags.2.inked mem
    · obtain ⟨inside, other⟩ := mem_splitOn mem c hc
      have := hrun c (mem_of_mem_trimMatches inside)
      simpa [isRunChar, other] using this
  · exact fun tag mem => absurd mem List.not_mem_nil

theorem trimMatches_wrap {c : Char} {t : Text} (head : t.head? ≠ some c) (last : t.getLast? ≠ some c)
    (ne : t ≠ []) : trimMatches c (c :: (t ++ [c])) = t := by
  obtain ⟨d, u, rfl⟩ := List.exists_cons_of_ne_nil ne
  have other : d ≠ c := fun same => head (congrArg some same)
  rw [trimMatches, List.dropWhile_cons_of_pos (by simp), List.cons_append,
    List.dropWhile_cons_of_neg (by simpa using other), ← List.cons_append,
    List.rdropWhile_concat_pos _ _ _ (by simp), List.rdropWhile_eq_self_iff]
  intro hl same
  rw [List.getLast?_eq_getLast_of_ne_nil hl] at last
  exact last (congrArg some (of_decide_eq_true same))

theorem IsTag.ne_colon {tag : Text} (h : IsTag tag) {c : Char} (hc : c ∈ tag) : c ≠ ':' := by
  rintro rfl
  exact absurd (h.2 _ hc) (by decide)

/-- Tags with colons between them start and end with a character of a tag. -/
theorem ends_of_tags {tags : List Text} (ne : tags ≠ []) (words : ∀ tag ∈ tags, IsTag tag) :
    [':'].intercalate tags ≠ [] ∧ ([':'].intercalate tags).head? ≠ some ':' ∧
      ([':'].intercalate tags).getLast? ≠ some ':' := by
  induction tags with
  | nil => exact absurd rfl ne
  | cons tag tags ih =>
      obtain ⟨first, rest⟩ := List.forall_mem_cons.mp words
      have head : tag.head? ≠ some ':' := fun hc => first.ne_colon (List.mem_of_head? hc) rfl
      obtain ⟨c, u, shape⟩ := List.exists_cons_of_ne_nil first.1
      cases tags with
      | nil =>
          rw [List.intercalate_singleton]
          exact ⟨first.1, head, fun hc => first.ne_colon (List.mem_of_getLast? hc) rfl⟩
      | cons next tags =>
          obtain ⟨inner, -, last⟩ := ih (List.cons_ne_nil _ _) rest
          rw [List.intercalate_cons_cons]
          refine ⟨?_, ?_, ?_⟩
          · rw [shape]
            exact List.cons_ne_nil _ _
          · rw [shape] at head ⊢
            exact head
          · rwa [List.getLast?_append_of_ne_nil _ inner]

/-- A run of tags is read as these tags. -/
theorem splitTrailingTags_tags {before : Text} {tags : List Text}
    (space : before.getLast? = some ' ') (ne : tags ≠ []) (words : ∀ tag ∈ tags, IsTag tag) :
    splitTrailingTags (before ++ ':' :: ([':'].intercalate tags ++ [':'])) =
      (trimEnd before, tags) := by
  obtain ⟨inner, head, last⟩ := ends_of_tags ne words
  have middle := trimMatches_wrap head last inner
  have pieces : ([':'].intercalate tags).splitOn ':' = tags :=
    List.splitOn_intercalate ':' (fun tag mem hc => (words tag mem).ne_colon hc rfl) ne
  have run : IsRun (':' :: ([':'].intercalate tags ++ [':'])) := by
    refine ⟨rfl, ?_, ?_, ?_⟩
    · rw [← List.cons_append, List.getLast?_concat]
    · have := List.length_pos_of_ne_nil inner
      rw [List.length_cons, List.length_append, List.length_singleton]
      omega
    · rw [middle, pieces]
      exact fun mem => (words [] mem).1 rfl
  have trimmed : trimEnd (before ++ ':' :: ([':'].intercalate tags ++ [':'])) =
      before ++ ':' :: ([':'].intercalate tags ++ [':']) := by
    rw [← List.cons_append, ← List.append_assoc]
    exact trimEnd_concat_of_not_ws (by decide) _
  rw [splitTrailingTags_eq trimmed, if_pos ⟨.inl space, run⟩, middle, pieces]
  · intro c hc
    have runChar : c = ':' ∨ isTagChar c = true := by
      obtain rfl | hc := List.mem_cons.mp hc
      · exact .inl rfl
      · obtain hc | hc := List.mem_append.mp hc
        · obtain hc | ⟨tag, mem, hc⟩ := mem_intercalate hc
          · exact .inl (List.mem_singleton.mp hc)
          · exact .inr ((words tag mem).2 c hc)
        · exact .inl (List.mem_singleton.mp hc)
    rw [isRunChar, Bool.or_eq_true, decide_eq_true_eq]
    exact runChar
  · rw [space]
    rintro c ⟨⟩
    decide

/-- What stands in front of a space makes no difference to the tags. -/
theorem splitTrailingTags_space (a : Text) {t : Text} (ink : ¬ Blank t) :
    (splitTrailingTags (a ++ ' ' :: t)).2 = (splitTrailingTags (' ' :: t)).2 := by
  obtain ⟨before, run, h, hrun, hbefore⟩ := exists_run (trimEnd t)
  have shape : ∀ a : Text, trimEnd (a ++ ' ' :: t) = (a ++ ' ' :: before) ++ run := by
    intro a
    rw [← List.singleton_append, ← List.append_assoc, trimEnd_append ink, h]
    simp only [List.append_assoc, List.cons_append, List.nil_append]
  have last : ∀ a : Text, (a ++ ' ' :: before).getLast? = (' ' :: before).getLast? := fun a =>
    List.getLast?_append_of_ne_nil _ (List.cons_ne_nil _ _)
  have stop : ∀ c ∈ (' ' :: before).getLast?, isRunChar c = false := by
    cases hlast : before.getLast? with
    | none =>
        rw [List.getLast?_eq_none_iff] at hlast
        subst hlast
        rintro c ⟨⟩
        decide
    | some d =>
        rw [List.getLast?_cons, hlast]
        rintro c ⟨⟩
        exact hbefore d hlast
  have read : trimEnd (' ' :: t) = (' ' :: before) ++ run := shape []
  rw [splitTrailingTags_eq (shape a) hrun (by rw [last a]; exact stop),
    splitTrailingTags_eq read hrun stop, last a]
  split_ifs <;> rfl

/-- A word has no tags. -/
theorem splitTrailingTags_word {u : Text} (word : ∀ c ∈ u, isWhitespace c = false) :
    splitTrailingTags u = (u, []) := by
  obtain ⟨before, run, h, hrun, hbefore⟩ := exists_run (trimEnd u)
  rw [splitTrailingTags_eq h hrun hbefore, if_neg]
  rintro ⟨space, -⟩
  have inside : ∀ c ∈ before.getLast?, isWhitespace c = false := fun c hc =>
    word c ((List.rdropWhile_prefix _ _).subset (by
      rw [show u.rdropWhile isWhitespace = before ++ run from h]
      exact List.mem_append_left _ (List.mem_of_getLast? hc)))
  obtain space | tab := space
  · exact absurd (inside ' ' space) (by decide)
  · exact absurd (inside '\t' tab) (by decide)

/-! ### Keywords -/

/-- The word is a TODO keyword of the document. -/
def isKeyword (declared : List Text) (word : Text) : Bool :=
  isTodoKeyword word || decide (word ∈ declared)

/-- The text up to the first space. -/
def firstWord (text : Text) : Text := ((splitOnce ' ' text).map Prod.fst).getD text

/-- Declared keywords are words. -/
def Words (declared : List Text) : Prop :=
  ∀ word ∈ declared, word ≠ [] ∧ ∀ c ∈ word, isWhitespace c = false

theorem keyword_word {declared : List Text} (words : Words declared) {word : Text}
    (h : isKeyword declared word = true) : word ≠ [] ∧ ∀ c ∈ word, isWhitespace c = false := by
  rw [isKeyword, Bool.or_eq_true, decide_eq_true_eq] at h
  obtain builtin | own := h
  · have all : todoKeywords.all fun word => !word.isEmpty && word.all fun c => !isWhitespace c := by
      decide +kernel
    simpa [List.isEmpty_iff] using List.all_eq_true.mp all word (of_decide_eq_true builtin)
  · exact words word own

theorem space_notMem {word : Text} (h : ∀ c ∈ word, isWhitespace c = false) : ' ' ∉ word :=
  fun mem => absurd (h ' ' mem) (by decide)

theorem splitOnce_eq_none {c : Char} {t : Text} (h : c ∉ t) : splitOnce c t = none := by
  induction t with
  | nil => rfl
  | cons x t ih =>
      obtain ⟨other, rest⟩ := not_or.mp (mt List.mem_cons.mpr h)
      rw [splitOnce, if_neg (Ne.symm other), ih rest]
      rfl

/-- The reader of a title line, past its tags. -/
theorem parseHeadingRest_eq {declared : List Text} (words : Words declared) (rest : Text) :
    parseHeadingRest rest declared =
      if isKeyword declared (firstWord (trimEnd (splitTrailingTags rest).1)) = true then
        ⟨some (firstWord (trimEnd (splitTrailingTags rest).1)),
          ((splitOnce ' ' (trimEnd (splitTrailingTags rest).1)).map
            fun cut => trimStart cut.2).getD [], (splitTrailingTags rest).2⟩
      else ⟨none, trimEnd (splitTrailingTags rest).1, (splitTrailingTags rest).2⟩ := by
  generalize hbody : trimEnd (splitTrailingTags rest).1 = body
  have hkeyword : ∀ word, (isTodoKeyword word || decide (word ∈ declared)) = isKeyword declared word :=
    fun _ => rfl
  cases cut : splitOnce ' ' body with
  | none => simp only [parseHeadingRest, firstWord, hbody, hkeyword, cut, Option.map_none,
      Option.getD_none]
  | some parts =>
      obtain ⟨first, remainder⟩ := parts
      simp only [parseHeadingRest, firstWord, hbody, hkeyword, cut, Option.map_some,
        Option.getD_some]
      by_cases key : isKeyword declared first = true
      · rw [if_pos key, if_pos key]
      · rw [if_neg key, if_neg key, if_neg]
        intro whole
        obtain ⟨eq, -⟩ := splitOnce_eq_some cut
        refine space_notMem (keyword_word words whole).2 ?_
        rw [eq]
        exact List.mem_append_right _ List.mem_cons_self

/-! ### Lines that can be stored -/

namespace HeadingLine

/-- What is known of a line that was read: keyword, tags and a title without white space around. -/
structure Read (declared : List Text) (l : HeadingLine) : Prop where
  keyword : ∀ word ∈ l.todo, isKeyword declared word = true
  title : trim l.title = l.title
  tags : ∀ tag ∈ l.tags, IsTag tag

/-- Something stands on the line, and the title does not look like a keyword that is not there, nor
like tags that are not there. -/
structure Storable (declared : List Text) (l : HeadingLine) : Prop where
  inked : l.todo = none → l.title = [] → l.tags ≠ []
  keyword : l.todo = none → isKeyword declared (firstWord l.title) = false
  tags : l.tags = [] →
    (splitTrailingTags (if l.todo = none then l.title else ' ' :: l.title)).2 = []

instance (declared : List Text) (l : HeadingLine) : Decidable (l.Storable declared) :=
  decidable_of_iff ((l.todo = none → l.title = [] → l.tags ≠ []) ∧
      (l.todo = none → isKeyword declared (firstWord l.title) = false) ∧
      (l.tags = [] →
        (splitTrailingTags (if l.todo = none then l.title else ' ' :: l.title)).2 = []))
    ⟨fun ⟨inked, keyword, tags⟩ => ⟨inked, keyword, tags⟩,
      fun ⟨inked, keyword, tags⟩ => ⟨inked, keyword, tags⟩⟩

/-- The keyword and the title. -/
def text (l : HeadingLine) : Text :=
  match l.todo with
  | none => l.title
  | some word => if l.title = [] then word else word ++ ' ' :: l.title

end HeadingLine

/-- A rendered line, read as a heading of a document. -/
def readLine (declared : List Text) (line : Text) : Option HeadingLine := do
  let level ← headingLevel line
  let parsed ← parseHeadingLine line level declared
  return ⟨level, parsed.todo, trim parsed.title, parsed.tags⟩

theorem Words.nil_notMem {declared : List Text} (words : Words declared) : [] ∉ declared :=
  fun mem => (words [] mem).1 rfl

theorem readLine_stars {declared : List Text} (words : Words declared) {n : ℕ} (pos : 0 < n)
    (rest : Text) : readLine declared (stars n rest) =
      some ⟨n, (parseHeadingRest rest declared).todo, trim (parseHeadingRest rest declared).title,
        (parseHeadingRest rest declared).tags⟩ := by
  simp only [readLine, headingLevel_stars pos, parseHeadingLine_stars n rest words.nil_notMem,
    Option.bind_eq_bind, Option.bind_some, Option.pure_def]

namespace HeadingLine

variable {declared : List Text} {l : HeadingLine}

theorem tokens_eq (words : Words declared) (h : l.Read declared) :
    (([l.todo, some l.title].filterMap id).filter (· ≠ [])).flatMap (' ' :: ·) =
      if l.text = [] then [] else ' ' :: l.text := by
  rw [text]
  cases own : l.todo with
  | none => by_cases empty : l.title = [] <;> simp [empty]
  | some word =>
      have ne := (keyword_word words (h.keyword word own)).1
      by_cases empty : l.title = [] <;> simp [empty, ne]

theorem trimEnd_text (words : Words declared) (h : l.Read declared) : trimEnd l.text = l.text := by
  have title : trimEnd l.title = l.title := by
    rw [← h.title, trim, trimEnd_trimEnd]
  rw [text]
  cases own : l.todo with
  | none => exact title
  | some word =>
      simp only
      split_ifs with empty
      · have inked := (keyword_word words (h.keyword word own)).2
        rw [trimEnd, List.rdropWhile_eq_self_iff]
        intro ne space
        rw [inked _ (List.getLast_mem ne)] at space
        cases space
      · have ink : ¬ Blank l.title := by
          intro blank
          exact empty (h.title.symm.trans blank.trim_eq)
        rw [← List.singleton_append, ← List.append_assoc, trimEnd_append ink, title]

theorem render_without_tags (words : Words declared) (h : l.Read declared) (none : l.tags = []) :
    l.render = if l.text = [] then List.replicate l.level '*' else stars l.level l.text := by
  rw [render]
  simp only [none, if_true, tokens_eq words h]
  split_ifs
  · rw [List.append_nil]
  · rfl

theorem render_with_tags (words : Words declared) (h : l.Read declared) (some : l.tags ≠ []) :
    ∃ before, l.render = stars l.level (before ++ ':' :: ([':'].intercalate l.tags ++ [':'])) ∧
      before.getLast? = Option.some ' ' ∧ trimEnd before = l.text := by
  rw [render]
  simp only [if_neg some, tokens_eq words h]
  by_cases empty : l.text = []
  · refine ⟨"   ".toList, ?_, by decide, by rw [empty]; decide⟩
    rw [if_pos empty, List.append_nil, stars]
    simp only [String.reduceToList, List.append_assoc, List.cons_append, List.nil_append]
  · refine ⟨l.text ++ "    ".toList, ?_, ?_, ?_⟩
    · rw [if_neg empty, stars]
      simp only [String.reduceToList, List.append_assoc, List.cons_append, List.nil_append]
    · rw [List.getLast?_append_of_ne_nil _ (by decide)]
      decide
    · rw [trimEnd_append_blank (by decide), trimEnd_text words h]

/-- Once the tags are off, only a missing keyword can be read wrong. -/
theorem read_iff (words : Words declared) (h : l.Read declared) {rest body : Text}
    {tags : List Text} (cut : splitTrailingTags rest = (body, tags)) (same : trimEnd body = l.text) :
    ((parseHeadingRest rest declared).todo = l.todo ∧
        trim (parseHeadingRest rest declared).title = l.title ∧
        (parseHeadingRest rest declared).tags = tags) ↔
      (l.todo = none → isKeyword declared (firstWord l.title) = false) := by
  rw [parseHeadingRest_eq words rest, cut]
  simp only [same, text]
  cases own : l.todo with
  | none =>
      simp only [forall_const]
      by_cases key : isKeyword declared (firstWord l.title) = true
      · simp only [key, if_true, reduceCtorEq, false_and]
      · simp only [key, Bool.false_eq_true, if_false, h.title, and_self]
  | some word =>
      have key := h.keyword word own
      have spaceless := space_notMem (keyword_word words key).2
      refine iff_of_true ?_ (fun absent => by cases absent)
      by_cases empty : l.title = []
      · have first : firstWord word = word := by
          rw [firstWord, splitOnce_eq_none spaceless]
          rfl
        simp only [empty, if_true, first, key, splitOnce_eq_none spaceless, Option.map_none,
          Option.getD_none, true_and, and_true]
        rfl
      · have first : firstWord (word ++ ' ' :: l.title) = word := by
          rw [firstWord, splitOnce_append spaceless]
          rfl
        simp only [empty, if_false, first, key, if_true, splitOnce_append spaceless,
          Option.map_some, Option.getD_some, trimStart_of_trim_eq h.title, h.title, and_self]

/-- The tags of a line that has none, by its title. -/
theorem no_tags_iff (words : Words declared) (h : l.Read declared) :
    (splitTrailingTags l.text).2 = [] ↔
      (splitTrailingTags (if l.todo = none then l.title else ' ' :: l.title)).2 = [] := by
  rw [text]
  cases own : l.todo with
  | none => simp only [if_true]
  | some word =>
      simp only [reduceCtorEq, if_false]
      by_cases empty : l.title = []
      · rw [if_pos empty, empty, splitTrailingTags_word (keyword_word words (h.keyword word own)).2]
        exact iff_of_true rfl (by decide)
      · have ink : ¬ Blank l.title := by
          intro blank
          exact empty (h.title.symm.trans blank.trim_eq)
        rw [if_neg empty, splitTrailingTags_space word ink]

theorem text_eq_nil_iff (words : Words declared) (h : l.Read declared) :
    l.text = [] ↔ l.todo = none ∧ l.title = [] := by
  rw [text]
  cases own : l.todo with
  | none => simp only [true_and]
  | some word =>
      have ne := (keyword_word words (h.keyword word own)).1
      simp only [reduceCtorEq, false_and, iff_false]
      split_ifs
      · exact ne
      · exact List.append_ne_nil_of_left_ne_nil ne _

/-- **A rendered line reads back exactly if it is storable.** -/
theorem readLine_render (words : Words declared) (h : l.Read declared) (pos : 0 < l.level) :
    readLine declared l.render = some l ↔ l.Storable declared := by
  have fields : ∀ rest : Text, readLine declared (stars l.level rest) = some l ↔
      (parseHeadingRest rest declared).todo = l.todo ∧
        trim (parseHeadingRest rest declared).title = l.title ∧
        (parseHeadingRest rest declared).tags = l.tags := by
    intro rest
    obtain ⟨level, todo, title, tags⟩ := l
    rw [readLine_stars words pos, Option.some.injEq, HeadingLine.mk.injEq]
    simp only [true_and]
  by_cases none : l.tags = []
  · rw [render_without_tags words h none]
    by_cases empty : l.text = []
    · rw [if_pos empty]
      obtain ⟨todo, title⟩ := (text_eq_nil_iff words h).mp empty
      refine iff_of_false ?_ fun storable => storable.inked todo title none
      have bare : headingLevel (List.replicate l.level '*') = Option.none := by
        simp only [headingLevel, List.takeWhile_replicate, decide_true, if_true,
          List.length_replicate, List.drop_replicate, Nat.sub_self, List.replicate_zero, ite_self]
      simp only [readLine, bare, Option.bind_eq_bind, Option.bind_none, reduceCtorEq,
        not_false_eq_true]
    · rw [if_neg empty, fields]
      obtain cut | ⟨before, run, tags, -, cut, ne, -⟩ := splitTrailingTags_cases l.text
      · have known := read_iff words h cut (trimEnd_text words h)
        rw [none, known]
        refine ⟨fun keyword => ⟨?_, keyword, fun _ => (no_tags_iff words h).mp (by rw [cut])⟩,
          Storable.keyword⟩
        intro todo title
        exact absurd ((text_eq_nil_iff words h).mpr ⟨todo, title⟩) empty
      · have some : (splitTrailingTags l.text).2 ≠ [] := by
          rw [cut]
          exact ne
        refine iff_of_false ?_ fun storable =>
          some ((no_tags_iff words h).mpr (storable.tags none))
        rintro ⟨-, -, same⟩
        rw [none, parseHeadingRest_eq words] at same
        split_ifs at same
        · exact some same
        · exact some same
  · obtain ⟨before, eq, space, same⟩ := render_with_tags words h none
    rw [eq, fields, read_iff words h (splitTrailingTags_tags space none h.tags)
      (by rw [trimEnd_trimEnd, same])]
    exact ⟨fun keyword => ⟨fun _ _ => none, keyword, fun empty => absurd empty none⟩,
      Storable.keyword⟩

theorem newline_notMem_render (words : Words declared) (h : l.Read declared)
    (title : '\n' ∉ l.title) : '\n' ∉ l.render := by
  have text : '\n' ∉ l.text := by
    rw [HeadingLine.text]
    cases own : l.todo with
    | none => exact title
    | some word =>
        have inked : '\n' ∉ word := fun mem =>
          absurd ((keyword_word words (h.keyword word own)).2 _ mem) (by decide)
        simp only
        split_ifs
        · exact inked
        · rw [List.mem_append, List.mem_cons, not_or, not_or]
          exact ⟨inked, by decide, title⟩
  have tags : '\n' ∉ [':'].intercalate l.tags := by
    intro mem
    obtain colon | ⟨tag, own, mem⟩ := mem_intercalate mem
    · exact absurd colon (by decide)
    · exact absurd ((h.tags tag own).2 _ mem) (by decide)
  have stars : '\n' ∉ List.replicate l.level '*' := fun mem =>
    absurd (List.eq_of_mem_replicate mem) (by decide)
  rw [render]
  simp only [tokens_eq words h]
  split_ifs <;>
    simp [stars, text, tags]

end HeadingLine

end Orgasmic
