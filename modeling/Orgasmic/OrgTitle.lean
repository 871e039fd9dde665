import Orgasmic.OrgLines

/-! # Title lines

What the reader of a title line depends on, and what it keeps.

* **Stars.** A heading line is a run of stars, a space and a rest (`isHead_zero_iff_stars`).
* **Trailing white space** after the rest makes no difference (`parseHeadingRest_congr`).
* **Ink.** The keyword, the title and the tags that are read have no more ink than the rest they
  are read from (`parseHeadingRest_ink`), while a rendered line has exactly theirs (`ink_render`).
  So a rendered line of which a part reads back as the whole has nothing else in it. -/

namespace Orgasmic

open Text

/-- A heading line: `n` stars, a space and the rest. -/
def stars (n : ℕ) (rest : Text) : Text := List.replicate n '*' ++ ' ' :: rest

theorem content_stars (n : ℕ) (rest : Text) : content (stars n rest) = stars n (content rest) :=
  content_append (by decide) (by decide) rest

theorem headingLevel_stars {n : ℕ} (hn : 0 < n) (rest : Text) :
    headingLevel (stars n rest) = some n := headingLevel_replicate hn rest

theorem isHead_stars {n : ℕ} (hn : 0 < n) (rest : Text) : isHead 0 (stars n rest) = true := by
  rw [isHead_zero_iff]
  exact ⟨n, by rw [content_stars, headingLevel_stars hn]⟩

theorem isHead_zero_iff_stars (r : Text) :
    isHead 0 r = true ↔ ∃ n rest, 0 < n ∧ r = stars n rest := by
  constructor
  · intro h
    obtain ⟨n, hn⟩ := (isHead_zero_iff r).mp h
    obtain ⟨hpos, u, hu⟩ := (headingLevel_eq_some_iff _ _).mp hn
    obtain ⟨w, hw⟩ := content_isPrefix r
    exact ⟨n, u ++ w, hpos, by rw [← hw, hu]; simp [stars]⟩
  · rintro ⟨n, rest, hn, rfl⟩
    exact isHead_stars hn rest

theorem trimEnd_stars (n : ℕ) {rest : Text} (h : ¬ Blank rest) :
    trimEnd (stars n rest) = stars n (trimEnd rest) := by
  have e : stars n rest = (List.replicate n '*' ++ [' ']) ++ rest := by simp [stars]
  rw [e, trimEnd_append h]
  simp [stars]

theorem trimEnd_stars_blank {n : ℕ} {rest : Text} (h : Blank rest) :
    trimEnd (stars n rest) = List.replicate n '*' := by
  have hw : Blank (' ' :: rest) := by simpa using ⟨by decide, h⟩
  rw [stars, trimEnd_append_blank hw]
  cases n with
  | zero => rfl
  | succ n =>
      rw [List.replicate_succ']
      exact trimEnd_concat_of_not_ws (by decide) _

theorem takeWhile_stars (n : ℕ) (rest : Text) :
    (stars n rest).takeWhile (· = '*') = List.replicate n '*' ∧
      (stars n rest).dropWhile (· = '*') = ' ' :: rest := by
  constructor
  · rw [stars, List.takeWhile_append_of_pos (by simp)]
    simp
  · rw [stars, List.dropWhile_append_of_pos (by simp)]
    simp

/-! ### Trailing white space -/

theorem splitTrailingTags_congr {a b : Text} (h : trimEnd a = trimEnd b) :
    (splitTrailingTags a).2 = (splitTrailingTags b).2 ∧
      trimEnd (splitTrailingTags a).1 = trimEnd (splitTrailingTags b).1 := by
  have hfail : (a, ([] : List Text)).2 = (b, ([] : List Text)).2 ∧
      trimEnd (a, ([] : List Text)).1 = trimEnd (b, ([] : List Text)).1 := ⟨rfl, h⟩
  simp only [splitTrailingTags, h]
  by_cases h0 : (trimEnd b).getLast? ≠ some ':' ∨ byteLen (trimEnd b) < 3
  · rw [if_pos h0, if_pos h0]
    exact hfail
  · rw [if_neg h0, if_neg h0]
    cases ((trimEnd b).rdropWhile fun c => c = ':' || isTagChar c).getLast? with
    | none => exact hfail
    | some prev =>
        dsimp only
        split_ifs
        · exact hfail
        · exact hfail
        · exact hfail
        · exact ⟨rfl, rfl⟩

theorem parseHeadingRest_congr {a b : Text} (h : trimEnd a = trimEnd b) (declared : List Text) :
    parseHeadingRest a declared = parseHeadingRest b declared := by
  obtain ⟨h1, h2⟩ := splitTrailingTags_congr h
  simp only [parseHeadingRest, h1, h2]

theorem trimEnd_trimEndMatches (u : Text) : trimEnd (trimEndMatches '\r' u) = trimEnd u := by
  have hspec : u = trimEndMatches '\r' u ++ u.rtakeWhile (· = '\r') :=
    List.rdropWhile_append_rtakeWhile.symm
  have hb : Blank (u.rtakeWhile (· = '\r')) := by
    intro c hc
    have : c = '\r' := by simpa using List.mem_rtakeWhile_imp hc
    rw [this]
    decide
  conv_rhs => rw [hspec, trimEnd_append_blank hb]

theorem parseHeadingRest_nil {declared : List Text} (h : [] ∉ declared) :
    parseHeadingRest [] declared = ⟨none, [], []⟩ := by
  have h1 : isTodoKeyword [] = false := by decide
  have h2 : splitTrailingTags [] = ([], []) := by decide
  simp [parseHeadingRest, h1, h2, splitOnce, h]

/-- The reader of a title line sees the rest only. -/
theorem parseHeadingLine_stars (n : ℕ) (rest : Text) {declared : List Text} (h : [] ∉ declared) :
    parseHeadingLine (stars n rest) n declared = some (parseHeadingRest rest declared) := by
  obtain ⟨h1, h2⟩ := takeWhile_stars n rest
  have h3 := parseHeadingRest_congr (trimEnd_trimEndMatches rest) declared
  simp only [parseHeadingLine, h1, h2, List.length_replicate, ne_eq, not_true_eq_false, if_false]
  split_ifs with h0
  · rw [h0, parseHeadingRest_nil h] at h3
    rw [← h3]
  · rw [h3]

/-- A heading line is read the same whatever white space is at its end. -/
theorem parseHeadingLine_congr {n m : ℕ} {r s : Text} (h : trimEnd r = trimEnd s)
    (hr : headingLevel (content r) = some n) (hs : headingLevel (content s) = some m)
    {declared : List Text} (hd : [] ∉ declared) :
    n = m ∧ parseHeadingLine (content r) n declared = parseHeadingLine (content s) m declared := by
  obtain ⟨hn, u, hu⟩ := (headingLevel_eq_some_iff _ _).mp hr
  obtain ⟨hm, v, hv⟩ := (headingLevel_eq_some_iff _ _).mp hs
  have hu : content r = stars n u := hu
  have hv : content s = stars m v := hv
  rw [← trimEnd_content r, ← trimEnd_content s, hu, hv] at h
  have hsame : n = m ∧ trimEnd u = trimEnd v := by
    by_cases hbu : Blank u
    · rw [trimEnd_stars_blank hbu] at h
      by_cases hbv : Blank v
      · rw [trimEnd_stars_blank hbv] at h
        have := congrArg List.length h
        exact ⟨by simpa using this, by rw [(trimEnd_eq_nil_iff u).mpr hbu,
          (trimEnd_eq_nil_iff v).mpr hbv]⟩
      · rw [trimEnd_stars m hbv] at h
        have := congrArg (List.dropWhile (· = '*')) h
        rw [(takeWhile_stars m _).2] at this
        simp at this
    · rw [trimEnd_stars n hbu] at h
      by_cases hbv : Blank v
      · rw [trimEnd_stars_blank hbv] at h
        have := congrArg (List.dropWhile (· = '*')) h
        rw [(takeWhile_stars n _).2] at this
        simp at this
      · rw [trimEnd_stars m hbv] at h
        have h1 := congrArg (List.takeWhile (· = '*')) h
        have h2 := congrArg (List.dropWhile (· = '*')) h
        rw [(takeWhile_stars n _).1, (takeWhile_stars m _).1] at h1
        rw [(takeWhile_stars n _).2, (takeWhile_stars m _).2] at h2
        exact ⟨by simpa using congrArg List.length h1, (List.cons.inj h2).2⟩
  obtain ⟨rfl, huv⟩ := hsame
  rw [hu, hv, parseHeadingLine_stars n u hd, parseHeadingLine_stars n v hd,
    parseHeadingRest_congr huv]
  exact ⟨rfl, rfl⟩

/-! ### What is read from the rest -/

/-- The ink of a run of tags, colons included. -/
def tagsInk (tags : List Text) : ℕ :=
  if tags = [] then 0 else (tags.map ink).sum + tags.length + 1

theorem ink_intercalate {tags : List Text} (h : tags ≠ []) :
    ink ([':'].intercalate tags) + 1 = (tags.map ink).sum + tags.length := by
  induction tags with
  | nil => exact absurd rfl h
  | cons t ts ih =>
      cases ts with
      | nil => simp [List.intercalate]
      | cons t' ts =>
          have e : [':'].intercalate (t :: t' :: ts) = t ++ ':' :: [':'].intercalate (t' :: ts) := by
            simp [List.intercalate, List.intersperse]
          have ih := ih (by simp)
          rw [e, ink_append, ink_cons_of_not_ws (by decide)]
          simp only [List.map_cons, List.sum_cons, List.length_cons] at ih ⊢
          omega

theorem trimMatches_ink {c : Char} (hc : isWhitespace c = false) {run : Text}
    (hfirst : run.head? = some c) (hlast : run.getLast? = some c) (hmid : trimMatches c run ≠ []) :
    ink (trimMatches c run) + 2 ≤ ink run := by
  obtain ⟨run', rfl⟩ : ∃ run', run = c :: run' := by
    cases run with
    | nil => cases hfirst
    | cons x xs => exact ⟨xs, by simpa using hfirst⟩
  have hdrop : (c :: run').dropWhile (· = c) = run'.dropWhile (· = c) := by simp
  have hne : run'.dropWhile (· = c) ≠ [] := by
    intro h
    rw [trimMatches, hdrop, h] at hmid
    exact hmid rfl
  obtain ⟨a, x, hax⟩ : ∃ a x, run'.dropWhile (· = c) = a ++ [x] :=
    ⟨_, _, (List.dropLast_append_getLast hne).symm⟩
  have hrun : run' = run'.takeWhile (· = c) ++ (a ++ [x]) := by
    rw [← hax, List.takeWhile_append_dropWhile]
  have hx : x = c := by
    rw [hrun] at hlast
    simpa [List.getLast?_cons, List.getLast?_append] using hlast
  have hpre : trimMatches c (c :: run') <+: a := by
    rw [trimMatches, hdrop, hax, hx, List.rdropWhile_concat_pos _ _ _ (by simp)]
    exact List.rdropWhile_prefix _ _
  obtain ⟨w, hw⟩ := hpre
  rw [ink_cons_of_not_ws hc]
  conv_rhs => rw [hrun, ← hw, hx]
  simp only [ink_append, ink_cons_of_not_ws hc, ink_nil]
  omega

theorem splitTrailingTags_cases (u : Text) :
    splitTrailingTags u = (u, []) ∨ ∃ before run tags, trimEnd u = before ++ run ∧
      splitTrailingTags u = (trimEnd before, tags) ∧ tags ≠ [] ∧ tagsInk tags ≤ ink run := by
  simp only [splitTrailingTags]
  by_cases h0 : (trimEnd u).getLast? ≠ some ':' ∨ byteLen (trimEnd u) < 3
  · rw [if_pos h0]
    exact .inl rfl
  · rw [if_neg h0]
    have hsplit : trimEnd u = (trimEnd u).rdropWhile (fun c => c = ':' || isTagChar c) ++
        (trimEnd u).rtakeWhile (fun c => c = ':' || isTagChar c) :=
      List.rdropWhile_append_rtakeWhile.symm
    generalize (trimEnd u).rdropWhile (fun c => c = ':' || isTagChar c) = before at hsplit
    generalize (trimEnd u).rtakeWhile (fun c => c = ':' || isTagChar c) = run at hsplit
    cases before.getLast? with
    | none => exact .inl rfl
    | some prev =>
        dsimp only
        split_ifs with h1 h2 h3
        · exact .inl rfl
        · exact .inl rfl
        · exact .inl rfl
        · rw [not_or] at h3
          refine .inr ⟨before, run, _, hsplit, rfl, h3.1, ?_⟩
          rw [not_or, not_or, not_not, not_not] at h2
          have hmid : trimMatches ':' run ≠ [] := by
            intro h
            rw [h] at h3
            exact h3.2 (by simp)
          have hink := trimMatches_ink (by decide) h2.1 h2.2.1 hmid
          have hjoin := ink_intercalate h3.1
          rw [List.intercalate_splitOn] at hjoin
          rw [tagsInk, if_neg h3.1]
          omega

/-- The keyword and the title are cut from the front of the rest. -/
theorem parseHeadingRest_cases (u : Text) (declared : List Text) :
    ∃ body, trimEnd body = body ∧ body <+: u ∧
      ink body + tagsInk (parseHeadingRest u declared).tags ≤ ink u ∧
      ((parseHeadingRest u declared).tags = [] → body = trimEnd u) ∧
      ((parseHeadingRest u declared).todo = none ∧ (parseHeadingRest u declared).title = body ∨
        (parseHeadingRest u declared).todo = some body ∧ (parseHeadingRest u declared).title = [] ∨
        ∃ first remainder, body = first ++ ' ' :: remainder ∧
          (parseHeadingRest u declared).todo = some first ∧
          (parseHeadingRest u declared).title = trimStart remainder) := by
  have htags : (parseHeadingRest u declared).tags = (splitTrailingTags u).2 := by
    simp only [parseHeadingRest]
    split
    · split_ifs <;> rfl
    · split_ifs <;> rfl
  refine ⟨trimEnd (splitTrailingTags u).1, trimEnd_trimEnd _, ?_, ?_, ?_, ?_⟩
  · refine (List.rdropWhile_prefix _ _).trans ?_
    rcases splitTrailingTags_cases u with h | ⟨before, run, tags, hu, h, -, -⟩
    · rw [h]
    · rw [h]
      have hbefore : before <+: trimEnd u := ⟨run, hu.symm⟩
      exact ((List.rdropWhile_prefix _ _).trans hbefore).trans (List.rdropWhile_prefix _ _)
  · rw [htags]
    rcases splitTrailingTags_cases u with h | ⟨before, run, tags, hu, h, -, hink⟩
    · rw [h]
      simp [tagsInk, ink_trimEnd]
    · rw [h]
      have := congrArg ink hu
      rw [ink_trimEnd, ink_append] at this
      simp only [ink_trimEnd]
      omega
  · intro h0
    rw [htags] at h0
    rcases splitTrailingTags_cases u with h | ⟨before, run, tags, -, h, hne, -⟩
    · rw [h]
    · rw [h] at h0
      exact absurd h0 hne
  · simp only [parseHeadingRest]
    split
    · next first remainder hsplit =>
        obtain ⟨hbody, -⟩ := splitOnce_eq_some hsplit
        split_ifs
        · exact .inr (.inr ⟨first, remainder, hbody, rfl, rfl⟩)
        · exact .inr (.inl ⟨rfl, rfl⟩)
        · exact .inl ⟨rfl, rfl⟩
    · split_ifs
      · exact .inr (.inl ⟨rfl, rfl⟩)
      · exact .inl ⟨rfl, rfl⟩

/-- **Nothing is read that is not there.** -/
theorem parseHeadingRest_ink (u : Text) (declared : List Text) :
    ((parseHeadingRest u declared).todo.map ink).getD 0 + ink (parseHeadingRest u declared).title +
      tagsInk (parseHeadingRest u declared).tags ≤ ink u := by
  obtain ⟨body, -, -, hink, -, h | h | ⟨first, remainder, hbody, h⟩⟩ :=
    parseHeadingRest_cases u declared
  · rw [h.1, h.2]
    simpa using hink
  · rw [h.1, h.2]
    simpa using hink
  · rw [h.1, h.2]
    obtain ⟨w, -, hw⟩ := trimStart_spec remainder
    have h1 := congrArg ink hw
    have h2 := congrArg ink hbody
    have e : first ++ ' ' :: remainder = first ++ ([' '] ++ remainder) := rfl
    rw [e, ink_append, ink_append] at h2
    rw [ink_append] at h1
    simp only [Option.map_some, Option.getD_some]
    omega

/-- A title that is read has no trailing white space. -/
theorem trimEnd_title (u : Text) (declared : List Text) :
    trimEnd (parseHeadingRest u declared).title = (parseHeadingRest u declared).title := by
  obtain ⟨body, hbody, -, -, -, h | h | ⟨first, remainder, hsplit, h⟩⟩ :=
    parseHeadingRest_cases u declared
  · rw [h.2, hbody]
  · rw [h.2]
    rfl
  · rw [h.2]
    by_cases hb : Blank remainder
    · rw [(trimStart_eq_nil_iff _).mpr hb]
      rfl
    · have e : first ++ ' ' :: remainder = (first ++ [' ']) ++ remainder := by simp
      rw [hsplit, e, trimEnd_append hb] at hbody
      have hr : trimEnd remainder = remainder := List.append_cancel_left hbody
      show trim remainder = trimStart remainder
      rw [← trimStart_of_trimEnd, hr]

/-- A title has no white space in front unless the rest starts with it. -/
theorem trim_title {u : Text} {declared : List Text}
    (hu : (parseHeadingRest u declared).todo = none → ∀ c ∈ u.head?, isWhitespace c = false) :
    trim (parseHeadingRest u declared).title = (parseHeadingRest u declared).title := by
  have hstart : trimStart (parseHeadingRest u declared).title =
      (parseHeadingRest u declared).title := by
    obtain ⟨body, -, hpre, -, -, h | h | ⟨first, remainder, -, h⟩⟩ :=
      parseHeadingRest_cases u declared
    · rw [h.2]
      obtain ⟨w, rfl⟩ := hpre
      cases body with
      | nil => rfl
      | cons c body => exact trimStart_cons_of_not_ws (hu h.1 c rfl) body
    · rw [h.2]
      rfl
    · rw [h.2]
      exact List.dropWhile_idempotent _ _
  rw [trim, hstart, trimEnd_title]

theorem mem_of_mem_title {u : Text} {declared : List Text} {c : Char}
    (hc : c ∈ (parseHeadingRest u declared).title) : c ∈ u := by
  obtain ⟨body, -, hsub, -, -, h | h | ⟨first, remainder, hsplit, h⟩⟩ :=
    parseHeadingRest_cases u declared
  · rw [h.2] at hc
    exact hsub.subset hc
  · rw [h.2] at hc
    cases hc
  · rw [h.2] at hc
    refine hsub.subset ?_
    rw [hsplit]
    exact List.mem_append_right _ (List.mem_cons_of_mem _ ((List.dropWhile_sublist _).subset hc))

theorem mem_of_mem_todo {u t : Text} {declared : List Text} {c : Char}
    (ht : (parseHeadingRest u declared).todo = some t) (hc : c ∈ t) : c ∈ u := by
  obtain ⟨body, -, hsub, -, -, h | h | ⟨first, remainder, hsplit, h⟩⟩ :=
    parseHeadingRest_cases u declared
  · rw [h.1] at ht
    cases ht
  · rw [h.1, Option.some.injEq] at ht
    exact hsub.subset (ht ▸ hc)
  · rw [h.1, Option.some.injEq] at ht
    refine hsub.subset ?_
    rw [hsplit, ht]
    exact List.mem_append_left _ hc

/-! ### Rendered lines -/

theorem ink_replicate_star (n : ℕ) : ink (List.replicate n '*') = n := by
  induction n with
  | zero => rfl
  | succ n ih => rw [List.replicate_succ, ink_cons_of_not_ws (by decide), ih]

theorem ink_flatMap_space (tokens : List Text) :
    ink (tokens.flatMap (' ' :: ·)) = (tokens.map ink).sum := by
  induction tokens with
  | nil => rfl
  | cons t ts ih =>
      have e : ink (' ' :: t) = ink t := by simp [ink, isWhitespace]
      rw [List.flatMap_cons, ink_append, ih, e, List.map_cons, List.sum_cons]

theorem sum_ink_filter (tokens : List Text) :
    ((tokens.filter (· ≠ [])).map ink).sum = (tokens.map ink).sum := by
  induction tokens with
  | nil => rfl
  | cons t ts ih =>
      rw [List.filter_cons]
      split_ifs with h
      · rw [List.map_cons, List.sum_cons, ih, List.map_cons, List.sum_cons]
      · have : t = [] := by simpa using h
        rw [ih, this, List.map_cons, List.sum_cons, ink_nil, Nat.zero_add]

/-- **A rendered line has the ink of its fields.** -/
theorem ink_render (l : HeadingLine) :
    ink l.render = l.level + (l.todo.map ink).getD 0 + ink l.title + tagsInk l.tags := by
  have htokens : (([l.todo, some l.title].filterMap id).map ink).sum =
      (l.todo.map ink).getD 0 + ink l.title := by
    cases l.todo <;> simp
  unfold HeadingLine.render
  dsimp only
  split_ifs with h
  · rw [ink_append, ink_replicate_star, ink_flatMap_space, sum_ink_filter, htokens, tagsInk,
      if_pos h]
    omega
  · have h1 : ink "    :".toList = 1 := by decide
    have h2 : ink ":".toList = 1 := by decide
    have h3 := ink_intercalate h
    rw [ink_append, ink_append, ink_append, ink_append, ink_replicate_star, ink_flatMap_space,
      sum_ink_filter, htokens, tagsInk, if_neg h, h1, h2]
    omega

end Orgasmic
