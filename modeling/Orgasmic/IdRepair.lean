import Orgasmic.Pattern
import Orgasmic.Text

/-! # Rewriting a duplicate id

The rewrite of `id_repair.rs`: an id is replaced where its neighbours are id boundaries.

* **The scan.** `replaceIdToken` looks for the next match in the rest of the line and takes the left
  neighbour from this rest.  `linePieces` is the line with the matches marked that it replaces.
* **The file.** `rewriteFile` rewrites the lines and joins them with line feeds.
* **Exactness.** `ReplacesExactly`: the text with exactly the occurrences replaced that are bounded
  in the text.  `rewriteFile_exact_iff` says for which texts this is what the rewrite yields. -/

namespace Orgasmic

open Text Pattern

/-! ### The rewrite -/

/-- `is_boundary_char`. -/
def isBoundaryChar (c : Char) (before : Bool) : Bool :=
  if before then !c.isAlphanum && c != '-' && c != '_' else !c.isAlphanum && c != '-'

/-- The last character in front of a match is a boundary. -/
def leftOk (before : Text) : Bool :=
  (before.getLast?.map fun c => isBoundaryChar c true).getD true

/-- The text behind a match begins with a boundary; a dot is one unless a digit follows it. -/
def rightOk : Text → Bool
  | [] => true
  | '.' :: cs => !(cs.head?.any Char.isDigit)
  | c :: _ => isBoundaryChar c false

/-- The loop of `replace_id_token`; `none` if it is still running when the fuel is used up. -/
def replaceLoop (old new : Text) : ℕ → Text → ℕ → Text → Option (Text × ℕ)
  | 0, _, _, _ => none
  | fuel + 1, out, count, rest =>
      match cutAt old rest with
      | none => some (out ++ rest, count)
      | some (before, after) =>
          if leftOk before && rightOk after then
            replaceLoop old new fuel (out ++ before ++ new) (count + 1) after
          else replaceLoop old new fuel (out ++ before ++ old) count after

/-- `replace_id_token`. -/
def replaceIdToken (text old new : Text) : Option (Text × ℕ) :=
  replaceLoop old new (text.length + 1) [] 0 text

/-- `rewrite_text`, the longest ids first. -/
def rewriteText (text : Text) (mappings : List (Text × Text)) : Option (Text × ℕ) :=
  (mappings.mergeSort fun p q => decide (q.1.length ≤ p.1.length)).foldlM
    (fun x p => (replaceIdToken x.1 p.1 p.2).map fun r => (r.1, x.2 + r.2)) (text, 0)

/-- `rewrite_file` on the text of a file: whether it is written, and the text it has then. -/
def rewriteFile (original : Text) (mappings : List (Text × Text)) : Option (Bool × Text) :=
  (original.lines.mapM fun line => rewriteText line mappings).map fun results =>
    if results.any fun r => 0 < r.2 then
      (true, List.intercalate ['\n'] (results.map Prod.fst) ++
        if original.getLast? = some '\n' then ['\n'] else [])
    else (false, original)

/-! ### What it is for -/

/-- What an id of a node is: a value of a drawer. -/
structure IsNodeId (id : Text) : Prop where
  ne_nil : id ≠ []
  trimmed : trim id = id
  newline : '\n' ∉ id

/-- The text with exactly the occurrences replaced whose neighbours in the text are boundaries. -/
def ReplacesExactly (old new text out : Text) : Prop :=
  ∃ ps, restore old ps = text ∧ restore new ps = out ∧ ∀ pre suf, text = pre ++ (old ++ suf) →
    (leftOk pre = true ∧ rightOk suf = true ↔ MarkedAt old ps pre)

/-! ### The scan of a line -/

/-- The scan of the text looks for the next match behind `p`: `p` is empty, or a match ends it. -/
inductive Restarts (old text : Text) : Text → Prop
  | start : Restarts old text []
  | next {p rest before after : Text} (h : Restarts old text p) (hrest : text = p ++ rest)
      (hcut : cutAt old rest = some (before, after)) : Restarts old text (p ++ (before ++ old))

/-- The rest of a line with the matches marked that are replaced. -/
def restPieces (old : Text) : ℕ → Text → List (Option Char)
  | 0, rest => rest.map some
  | fuel + 1, rest =>
      match cutAt old rest with
      | none => rest.map some
      | some (before, after) =>
          before.map some ++ ((if leftOk before && rightOk after then [none] else old.map some) ++
            restPieces old fuel after)

def linePieces (old text : Text) : List (Option Char) := restPieces old (text.length + 1) text

theorem restPieces_cut {old rest before after : Text} (h : cutAt old rest = some (before, after))
    (fuel : ℕ) : restPieces old (fuel + 1) rest =
      before.map some ++ ((if leftOk before && rightOk after then [none] else old.map some) ++
        restPieces old fuel after) := by
  rw [restPieces, h]

theorem restPieces_none {old rest : Text} (h : cutAt old rest = none) (fuel : ℕ) :
    restPieces old fuel rest = rest.map some := by
  cases fuel with
  | zero => rfl
  | succ fuel => rw [restPieces, h]

theorem length_after {old rest before after : Text} (hne : old ≠ [])
    (h : cutAt old rest = some (before, after)) : after.length < rest.length := by
  obtain ⟨hsplit, -⟩ := cutAt_eq_some_iff.mp h
  have hold := List.length_pos_iff.mpr hne
  rw [hsplit, List.length_append, List.length_append]
  omega

section scan
variable {old new : Text} (hne : old ≠ [])

include hne in
/-- **What the loop returns.** -/
theorem replaceLoop_eq {fuel : ℕ} (out : Text) (count : ℕ) {rest : Text} (h : rest.length < fuel) :
    replaceLoop old new fuel out count rest =
      some (out ++ restore new (restPieces old fuel rest),
        count + (restPieces old fuel rest).count none) := by
  induction fuel generalizing out count rest with
  | zero => omega
  | succ fuel ih =>
      rw [replaceLoop]
      cases hcut : cutAt old rest with
      | none =>
          rw [restPieces_none hcut, restore_map_some,
            List.count_eq_zero.mpr (none_notMem_map_some rest)]
          rfl
      | some x =>
          obtain ⟨before, after⟩ := x
          have hlen : after.length < fuel := by
            have := length_after hne hcut
            omega
          have hzero (as : Text) : (as.map some).count none = 0 :=
            List.count_eq_zero.mpr (none_notMem_map_some as)
          rw [restPieces_cut hcut]
          dsimp only
          split_ifs with hok
          · rw [ih _ _ hlen]
            simp [hzero, Nat.add_assoc, Nat.add_comm 1]
          · rw [ih _ _ hlen]
            simp [hzero]

theorem restore_restPieces (old : Text) (fuel : ℕ) (rest : Text) :
    restore old (restPieces old fuel rest) = rest := by
  induction fuel generalizing rest with
  | zero => rw [restPieces, restore_map_some]
  | succ fuel ih =>
      cases hcut : cutAt old rest with
      | none => rw [restPieces_none hcut, restore_map_some]
      | some x =>
          obtain ⟨before, after⟩ := x
          obtain ⟨hsplit, -⟩ := cutAt_eq_some_iff.mp hcut
          rw [restPieces_cut hcut, restore_append, restore_append, restore_map_some, ih, hsplit]
          split_ifs
          · rw [restore_none, restore_nil, List.append_nil]
          · rw [restore_map_some]

/-- The match behind `pre` is replaced. -/
def Replaced (old text pre : Text) : Prop :=
  ∃ p rest before after, Restarts old text p ∧ text = p ++ rest ∧
    cutAt old rest = some (before, after) ∧ leftOk before = true ∧ rightOk after = true ∧
      pre = p ++ before

/-- A mark stands at a match that is replaced. -/
theorem replaced_of_mark {text p rest : Text} {fuel : ℕ} {qs rs : List (Option Char)}
    (hp : Restarts old text p) (htext : text = p ++ rest)
    (h : restPieces old fuel rest = qs ++ none :: rs) : Replaced old text (p ++ restore old qs) := by
  induction fuel generalizing p rest qs with
  | zero =>
      have hmem : none ∈ rest.map some := by
        rw [show rest.map some = qs ++ none :: rs from h]
        simp
      exact absurd hmem (none_notMem_map_some rest)
  | succ fuel ih =>
      cases hcut : cutAt old rest with
      | none =>
          rw [restPieces_none hcut] at h
          have hmem : none ∈ rest.map some := by
            rw [h]
            simp
          exact absurd hmem (none_notMem_map_some rest)
      | some x =>
          obtain ⟨before, after⟩ := x
          obtain ⟨hsplit, -⟩ := cutAt_eq_some_iff.mp hcut
          rw [restPieces_cut hcut] at h
          obtain ⟨us, rfl, hmarks⟩ := eq_append_of_map_some h
          have hnext := hp.next htext hcut
          have htext' : text = p ++ (before ++ old) ++ after := by
            rw [htext, hsplit]
            simp
          rw [restore_append, restore_map_some]
          split_ifs at hmarks with hok
          · cases us with
            | nil =>
                rw [Bool.and_eq_true] at hok
                exact ⟨p, rest, before, after, hp, htext, hcut, hok.1, hok.2, by simp⟩
            | cons u us =>
                rw [List.singleton_append, List.cons_append, List.cons.injEq] at hmarks
                obtain ⟨rfl, hmarks⟩ := hmarks
                have := ih hnext htext' hmarks
                rw [restore_none]
                simpa using this
          · obtain ⟨vs, rfl, hrest⟩ := eq_append_of_map_some hmarks
            have := ih hnext htext' hrest
            rw [restore_append, restore_map_some]
            simpa using this

include hne in
/-- The scan comes by every place where it restarts. -/
theorem restart_pieces {text p : Text} (h : Restarts old text p) :
    ∀ rest, text = p ++ rest → ∃ qs fuel, linePieces old text = qs ++ restPieces old fuel rest ∧
      restore old qs = p ∧ rest.length < fuel := by
  induction h with
  | start =>
      rintro rest rfl
      exact ⟨[], _, rfl, rfl, Nat.lt_succ_self _⟩
  | @next p rest before after h htext hcut ih =>
      intro rest' htext'
      obtain ⟨qs, fuel, hpieces, hqs, hfuel⟩ := ih rest htext
      obtain ⟨hsplit, -⟩ := cutAt_eq_some_iff.mp hcut
      obtain rfl : after = rest' := by
        rw [htext, hsplit] at htext'
        simpa using htext'
      have hlen := length_after hne hcut
      obtain ⟨fuel, rfl⟩ : ∃ n, fuel = n + 1 := ⟨fuel - 1, by omega⟩
      rw [restPieces_cut hcut, ← List.append_assoc, ← List.append_assoc] at hpieces
      refine ⟨_, fuel, hpieces, ?_, by omega⟩
      rw [restore_append, restore_append, restore_map_some, hqs, List.append_assoc]
      split_ifs
      · simp
      · rw [restore_map_some]

include hne in
/-- **The marks of a line** stand at the matches that are replaced. -/
theorem mark_iff {text pre : Text} :
    MarkedAt old (linePieces old text) pre ↔ Replaced old text pre := by
  constructor
  · rintro ⟨qs, rs, h, rfl⟩
    exact replaced_of_mark .start rfl h
  · rintro ⟨p, rest, before, after, hp, htext, hcut, hleft, hright, rfl⟩
    obtain ⟨qs, fuel, hpieces, hqs, hfuel⟩ := restart_pieces hne hp rest htext
    obtain ⟨fuel, rfl⟩ : ∃ n, fuel = n + 1 := ⟨fuel - 1, by omega⟩
    rw [restPieces_cut hcut, hleft, hright] at hpieces
    refine ⟨qs ++ before.map some, restPieces old fuel after, ?_, ?_⟩
    · rw [hpieces]
      simp
    · rw [restore_append, restore_map_some, hqs]

end scan

/-! ### What the scan cannot see -/

theorem leftOk_append {before : Text} (h : before ≠ []) (p : Text) :
    leftOk (p ++ before) = leftOk before := by
  obtain ⟨c, hc⟩ := List.getLast?_isSome.mpr h |> Option.isSome_iff_exists.mp
  rw [leftOk, leftOk, List.getLast?_append, hc]
  rfl

/-- The scan sees the boundaries of the line as they are. -/
structure Unconfused (old line : Text) : Prop where
  /-- A match with a boundary behind it that stands directly behind another match has one in front
  of it as well. -/
  apart : ∀ p suf, Restarts old line p → p ≠ [] → line = p ++ (old ++ suf) → rightOk suf = true →
    leftOk p = true
  /-- An occurrence between boundaries is a match of the scan. -/
  found : ∀ pre suf, line = pre ++ (old ++ suf) → leftOk pre = true → rightOk suf = true →
    ∃ p before, Restarts old line p ∧ pre = p ++ before ∧
      cutAt old (before ++ (old ++ suf)) = some (before, suf)

/-- **In a line the occurrences between boundaries are replaced exactly if the scan sees them.** -/
theorem replaced_iff_unconfused {old line : Text} :
    (∀ pre suf, line = pre ++ (old ++ suf) →
      (leftOk pre = true ∧ rightOk suf = true ↔ Replaced old line pre)) ↔ Unconfused old line := by
  constructor
  · intro h
    refine ⟨fun p suf hp hne hline hright => ?_, fun pre suf hline hleft hright => ?_⟩
    · have hcut : cutAt old (old ++ suf) = some ([], suf) :=
        cutAt_eq_some_iff.mpr ⟨rfl, fun _ _ _ => Nat.zero_le _⟩
      exact ((h p suf hline).mpr
        ⟨p, old ++ suf, [], suf, hp, hline, hcut, rfl, hright, (List.append_nil p).symm⟩).1
    · obtain ⟨p, rest, before, after, hp, hrest, hcut, -, -, rfl⟩ :=
        (h pre suf hline).mp ⟨hleft, hright⟩
      obtain ⟨rfl, -⟩ := cutAt_eq_some_iff.mp hcut
      obtain rfl : after = suf := by
        rw [hrest] at hline
        simpa using hline
      exact ⟨p, before, hp, rfl, hcut⟩
  · rintro ⟨hapart, hfound⟩ pre suf hline
    constructor
    · rintro ⟨hleft, hright⟩
      obtain ⟨p, before, hp, rfl, hcut⟩ := hfound pre suf hline hleft hright
      refine ⟨p, _, before, suf, hp, by rw [hline, List.append_assoc], hcut, ?_, hright, rfl⟩
      by_cases hnil : before = []
      · rw [hnil]
        rfl
      · rw [← leftOk_append hnil p]
        exact hleft
    · rintro ⟨p, rest, before, after, hp, hrest, hcut, hleft, hright, rfl⟩
      obtain ⟨rfl, -⟩ := cutAt_eq_some_iff.mp hcut
      obtain rfl : after = suf := by
        rw [hrest] at hline
        simpa using hline
      refine ⟨?_, hright⟩
      by_cases hnil : before = []
      · subst hnil
        rw [List.append_nil] at hline ⊢
        by_cases hp' : p = []
        · rw [hp']
          rfl
        · exact hapart p after hp hp' hline hright
      · rw [leftOk_append hnil]
        exact hleft

/-! ### Lines of a file -/

/-- What ends a line. -/
def terminator (r : Text) : Text := r.drop (content r).length

theorem terminator_spec (r : Text) : content r ++ terminator r = r ∧
    (terminator r = [] ∨ terminator r = ['\n'] ∨ terminator r = ['\r', '\n']) := by
  obtain ⟨w, hsplit, hw⟩ := content_cases r
  have hterm : terminator r = w := by
    have hdrop : (content r ++ w).drop (content r).length = w := List.drop_left
    rw [← hsplit] at hdrop
    exact hdrop
  exact ⟨by rw [hterm, ← hsplit], hterm ▸ hw⟩

/-- A line end is a boundary. -/
theorem rightOk_append (a : Text) {c : Char} (hc : c = '\n' ∨ c = '\r') (u : Text) :
    rightOk (a ++ c :: u) = rightOk a := by
  match a with
  | [] => rcases hc with rfl | rfl <;> rfl
  | ['.'] => rcases hc with rfl | rfl <;> rfl
  | '.' :: d :: a => rfl
  | b :: a =>
      by_cases hb : b = '.'
      · subst hb
        cases a with
        | nil => rcases hc with rfl | rfl <;> rfl
        | cons d a => rfl
      · simp [rightOk, hb]

theorem leftOk_closed {a : Text} (ha : Closed a) (b : Text) : leftOk (a ++ b) = leftOk b := by
  by_cases hb : b = []
  · subst hb
    rw [List.append_nil]
    rcases ha with rfl | ⟨u, rfl⟩
    · rfl
    · rw [leftOk, List.getLast?_concat]
      rfl
  · exact leftOk_append hb a

theorem IsNodeId.last_ne {id : Text} (h : IsNodeId id) : id.getLast? ≠ some '\r' := by
  intro hlast
  obtain ⟨u, rfl⟩ := List.getLast?_eq_some_iff.mp hlast
  have htrim := h.trimmed
  rw [trim_append_blank (show Blank ['\r'] by decide)] at htrim
  obtain ⟨w, w', -, -, hsplit⟩ := trim_spec u
  have hlen := congrArg List.length hsplit
  rw [htrim] at hlen
  simp only [List.length_append, List.length_singleton] at hlen
  omega

/-- The line in which an id stands behind text without line feeds, and the text after it. -/
theorem line_around {old : Text} (hold : IsNodeId old) {b : Text} (hb : '\n' ∉ b) (suf : Text) :
    ∃ r rs suf', rawLines (b ++ (old ++ suf)) = r :: rs ∧ content r = b ++ (old ++ suf') ∧
      rightOk suf = rightOk suf' := by
  have hnl {s : Text} (hs : '\n' ∉ s) : '\n' ∉ b ++ (old ++ s) := by
    simp only [List.mem_append, not_or]
    exact ⟨hb, hold.newline, hs⟩
  by_cases hsuf : '\n' ∈ suf
  · obtain ⟨s, t, rfl, hs⟩ := List.eq_append_cons_of_mem hsuf
    have hraw : rawLines (b ++ (old ++ (s ++ '\n' :: t))) =
        (b ++ (old ++ s) ++ ['\n']) :: rawLines t := by
      rw [← rawLines_line_append (hnl hs) t]
      simp
    rcases List.eq_nil_or_concat' s with rfl | ⟨s, c, rfl⟩
    · refine ⟨_, _, [], hraw, ?_, rightOk_append [] (.inl rfl) t⟩
      rw [content_terminated, List.append_nil, if_neg]
      rw [List.getLast?_append_of_ne_nil b hold.ne_nil]
      exact hold.last_ne
    · have hlast : (b ++ (old ++ (s ++ [c]))).getLast? = some c := by
        rw [← List.append_assoc, ← List.append_assoc, List.getLast?_concat]
      rw [show b ++ (old ++ (s ++ [c])) ++ ['\n'] = b ++ (old ++ (s ++ [c])) ++ ['\n'] from rfl] at hraw
      by_cases hc : c = '\r'
      · subst hc
        refine ⟨_, _, s, hraw, ?_, ?_⟩
        · rw [content_terminated, if_pos hlast, ← List.append_assoc, ← List.append_assoc,
            List.dropLast_concat, List.append_assoc]
        · rw [List.append_assoc]
          exact rightOk_append s (.inr rfl) _
      · refine ⟨_, _, s ++ [c], hraw, ?_, rightOk_append _ (.inl rfl) t⟩
        rw [content_terminated, if_neg]
        rw [hlast]
        simpa using hc
  · have hne : b ++ (old ++ suf) ≠ [] := by simp [hold.ne_nil]
    refine ⟨_, [], suf, rawLines_of_no_newline (hnl hsuf) hne, ?_, rfl⟩
    rw [content, if_neg]
    intro hlast
    exact hnl hsuf (List.mem_of_getLast? hlast)

/-- **An occurrence of an id stands in one line**, between the same boundaries. -/
theorem occurrence_line {old : Text} (hold : IsNodeId old) {text pre suf : Text}
    (h : text = pre ++ (old ++ suf)) : ∃ rs r rs' pre' suf', rawLines text = rs ++ r :: rs' ∧
      content r = pre' ++ (old ++ suf') ∧ pre = rs.flatten ++ pre' ∧
      leftOk pre = leftOk pre' ∧ rightOk suf = rightOk suf' := by
  obtain ⟨a, b, rfl, ha, hb⟩ := exists_last_line pre
  obtain ⟨r, rs', suf', hraw, hcontent, hright⟩ := line_around hold hb suf
  refine ⟨rawLines a, r, rs', b, suf', ?_, hcontent, ?_, leftOk_closed ha b, hright⟩
  · rw [h, List.append_assoc, rawLines_append ha, hraw]
  · rw [rawLines_flatten]

/-- An occurrence in a line is one in the text. -/
theorem line_occurrence {text r : Text} {rs rs' : List Text} (hraw : rawLines text = rs ++ r :: rs')
    {old pre suf : Text} (h : content r = pre ++ (old ++ suf)) :
    ∃ suf', text = rs.flatten ++ pre ++ (old ++ suf') ∧ leftOk (rs.flatten ++ pre) = leftOk pre ∧
      rightOk suf' = rightOk suf := by
  obtain ⟨hsplit, hcases⟩ := terminator_spec r
  have htext : text = rs.flatten ++ pre ++ (old ++ (suf ++ (terminator r ++ rs'.flatten))) := by
    rw [← rawLines_flatten text, hraw, List.flatten_append, List.flatten_cons]
    conv_lhs => rw [← hsplit, h]
    simp
  refine ⟨_, htext, leftOk_closed (closed_flatten (rawLines_split hraw (by simp))) pre, ?_⟩
  rcases hcases with hnil | hlf | hcrlf
  · -- only the last line has no end
    have hrs' : rs' = [] := by
      by_contra hne
      obtain ⟨b, -, hb⟩ := rawLines_split (show rawLines text = (rs ++ [r]) ++ rs' by
        rw [hraw]; simp) hne r (by simp)
      rw [hnil, List.append_nil, hb, content_terminated] at hsplit
      have hlen := congrArg List.length hsplit
      split_ifs at hlen <;> simp at hlen <;> omega
    rw [hnil, hrs']
    simp
  · rw [hlf]
    exact rightOk_append suf (.inl rfl) _
  · rw [hcrlf]
    exact rightOk_append suf (.inr rfl) _

/-! ### The file -/

/-- A file with the matches marked that are replaced. -/
def filePieces (old text : Text) : List (Option Char) :=
  (rawLines text).flatMap fun r => linePieces old (content r) ++ (terminator r).map some

/-- A line end as `rewrite_file` writes it. -/
def lineFeed (r : Text) : Text := if r.getLast? = some '\n' then ['\n'] else []

theorem join_lines (g : Text → Text) (text : Text) :
    List.intercalate ['\n'] (text.lines.map g) ++
        (if text.getLast? = some '\n' then ['\n'] else []) =
      (rawLines text).flatMap fun r => g (content r) ++ lineFeed r := by
  -- by induction on the number of lines
  obtain ⟨k, hk⟩ : ∃ k, text.length ≤ k := ⟨_, Nat.le_refl _⟩
  induction k generalizing text with
  | zero =>
      obtain rfl := List.length_eq_zero_iff.mp (Nat.le_zero.mp hk)
      rfl
  | succ k ih =>
      by_cases hnl : '\n' ∈ text
      · obtain ⟨b, t, rfl, hb⟩ := List.eq_append_cons_of_mem hnl
        have hlen : t.length ≤ k := by
          simp only [List.length_append, List.length_cons] at hk
          omega
        have ih := ih t hlen
        have hfeed : lineFeed (b ++ ['\n']) = ['\n'] := by simp [lineFeed]
        rw [lines, rawLines_line_append hb, List.map_cons, List.map_cons, List.flatMap_cons, ← ih,
          hfeed]
        by_cases ht : t = []
        · subst ht
          simp [lines, rawLines]
        · obtain ⟨l, ls, hls⟩ := List.exists_cons_of_ne_nil (mt (rawLines_eq_nil_iff t).mp ht)
          have hlast : (b ++ '\n' :: t).getLast? = t.getLast? := by
            rw [List.append_cons, List.getLast?_append_of_ne_nil _ ht]
          rw [hlast, lines, hls]
          simp [List.intercalate, List.intersperse]
      · by_cases ht : text = []
        · subst ht
          rfl
        · have hlast : text.getLast? ≠ some '\n' := fun h => hnl (List.mem_of_getLast? h)
          rw [lines, rawLines_of_no_newline hnl ht]
          simp [hlast, lineFeed]

theorem mapM_some {β : Type} (f : Text → β) (ls : List Text) :
    (ls.mapM fun l => some (f l)) = some (ls.map f) := by
  induction ls with
  | nil => rfl
  | cons l ls ih => simp [List.mapM_cons, ih]

/-- **What the rewrite of a file returns.** -/
theorem rewriteFile_eq {old : Text} (hne : old ≠ []) (new text : Text) :
    rewriteFile text [(old, new)] = some (if none ∈ filePieces old text then
      (true, (rawLines text).flatMap fun r => restore new (linePieces old (content r)) ++ lineFeed r)
      else (false, text)) := by
  have hline (line : Text) : rewriteText line [(old, new)] =
      some (restore new (linePieces old line), (linePieces old line).count none) := by
    have hloop : replaceLoop old new (line.length + 1) [] 0 line = some
        ([] ++ restore new (linePieces old line), 0 + (linePieces old line).count none) :=
      replaceLoop_eq hne [] 0 (Nat.lt_succ_self line.length)
    simp [rewriteText, replaceIdToken, hloop]
  have hany : ((text.lines.map fun line => (restore new (linePieces old line),
      (linePieces old line).count none)).any fun r => 0 < r.2) = true ↔ none ∈ filePieces old text := by
    rw [filePieces, List.mem_flatMap, lines, List.map_map, List.any_map, List.any_eq_true]
    refine exists_congr fun r => and_congr_right fun _ => ?_
    rw [List.mem_append, or_iff_left (none_notMem_map_some _)]
    simp [List.count_pos_iff]
  rw [rewriteFile, funext hline, mapM_some, Option.map_some]
  refine congrArg some (if_congr hany ?_ rfl)
  rw [List.map_map, Function.comp_def, join_lines]

theorem restore_filePieces (old text : Text) : restore old (filePieces old text) = text := by
  rw [filePieces]
  conv_rhs => rw [← rawLines_flatten text]
  induction rawLines text with
  | nil => rfl
  | cons r rs ih =>
      rw [List.flatMap_cons, restore_append, restore_append, restore_map_some, linePieces,
        restore_restPieces, (terminator_spec r).1, ih, List.flatten_cons]

/-- The marks of a file are those of its lines. -/
theorem fileMark_iff {old : Text} (hne : old ≠ []) {text pre : Text} :
    MarkedAt old (filePieces old text) pre ↔ ∃ rs r rs' pre', rawLines text = rs ++ r :: rs' ∧
      Replaced old (content r) pre' ∧ pre = rs.flatten ++ pre' := by
  rw [filePieces]
  generalize rawLines text = ls
  induction ls generalizing pre with
  | nil =>
      rw [List.flatMap_nil]
      refine ⟨fun h => absurd h (markedAt_nil _ _), ?_⟩
      rintro ⟨rs, r, rs', pre', h, -⟩
      simp at h
  | cons l ls ih =>
      have hend (b : Text) : ¬MarkedAt old ((terminator l).map some) b :=
        not_markedAt_of_no_mark (none_notMem_map_some _) b
      have hline : restore old (linePieces old (content l) ++ (terminator l).map some) = l := by
        rw [restore_append, restore_map_some, linePieces, restore_restPieces, (terminator_spec l).1]
      rw [List.flatMap_cons, markedAt_append, markedAt_append, hline, mark_iff hne]
      constructor
      · rintro ((h | ⟨b, h, -⟩) | ⟨b, h, rfl⟩)
        · exact ⟨[], l, ls, pre, rfl, h, rfl⟩
        · exact absurd h (hend b)
        · obtain ⟨rs, r, rs', pre', rfl, hrep, rfl⟩ := ih.mp h
          exact ⟨l :: rs, r, rs', pre', rfl, hrep, by simp⟩
      · rintro ⟨rs, r, rs', pre', h, hrep, rfl⟩
        cases rs with
        | nil =>
            obtain ⟨rfl, rfl⟩ := List.cons.inj h
            exact .inl (.inl hrep)
        | cons q rs =>
            obtain ⟨rfl, rfl⟩ := List.cons.inj h
            exact .inr ⟨_, ih.mpr ⟨rs, r, rs', pre', rfl, hrep, rfl⟩, by simp⟩

/-- A file in which the scan sees every boundary, and in which nothing is replaced if a line ends
with a carriage return. -/
structure RepairExact (old text : Text) : Prop where
  unconfused : ∀ line ∈ text.lines, Unconfused old line
  terminators : ∀ pre suf, text = pre ++ (old ++ suf) → leftOk pre = true → rightOk suf = true →
    ∀ r ∈ rawLines text, terminator r ≠ ['\r', '\n']

/-- The place of an occurrence in a line decides the line. -/
theorem line_unique {text r r' b b' : Text} {rs rs' qs qs' : List Text}
    (h : rawLines text = rs ++ r :: rs') (h' : rawLines text = qs ++ r' :: qs') (hb : '\n' ∉ b)
    (hb' : '\n' ∉ b') (hsame : rs.flatten ++ b = qs.flatten ++ b') : r = r' ∧ b = b' := by
  have hend {x : Text} (hx : Terminated x) : '\n' ∈ x := by
    obtain ⟨u, -, rfl⟩ := hx
    simp
  have hterm := rawLines_split h (by simp)
  have hterm' := rawLines_split h' (by simp)
  rcases List.append_eq_append_iff.mp (h.symm.trans h') with ⟨us, rfl, hus⟩ | ⟨us, rfl, hus⟩
  · cases us with
    | nil =>
        rw [List.append_nil] at hsame
        exact ⟨(List.cons.inj hus).1, List.append_cancel_left hsame⟩
    | cons u us =>
        rw [List.flatten_append, List.append_assoc, List.flatten_cons, List.append_assoc] at hsame
        refine absurd ?_ hb
        rw [List.append_cancel_left hsame]
        exact List.mem_append_left _ (hend (hterm' u (by simp)))
  · cases us with
    | nil =>
        rw [List.append_nil] at hsame
        exact ⟨(List.cons.inj hus).1.symm, List.append_cancel_left hsame⟩
    | cons u us =>
        rw [List.flatten_append, List.append_assoc, List.flatten_cons, List.append_assoc] at hsame
        refine absurd ?_ hb'
        rw [← List.append_cancel_left hsame]
        exact List.mem_append_left _ (hend (hterm u (by simp)))

/-- A mark of the file at a place in a line. -/
theorem fileMark_line {old : Text} (hne : old ≠ []) {text r pre : Text} {rs rs' : List Text}
    (hraw : rawLines text = rs ++ r :: rs') (hpre : '\n' ∉ pre) :
    MarkedAt old (filePieces old text) (rs.flatten ++ pre) ↔ Replaced old (content r) pre := by
  rw [fileMark_iff hne]
  constructor
  · rintro ⟨qs, q, qs', pre', hraw', hrep, hsame⟩
    have hnl : '\n' ∉ pre' := by
      obtain ⟨p, rest, before, after, -, hp, hcut, -, -, rfl⟩ := id hrep
      obtain ⟨rfl, -⟩ := cutAt_eq_some_iff.mp hcut
      have hq : '\n' ∉ content q := no_newline_content (t := text) (by rw [hraw']; simp)
      rw [hp] at hq
      intro hmem
      rw [← List.append_assoc] at hq
      exact hq (List.mem_append_left _ hmem)
    obtain ⟨rfl, rfl⟩ := line_unique hraw hraw' hpre hnl hsame
    exact hrep
  · exact fun hrep => ⟨rs, r, rs', pre, hraw, hrep, rfl⟩

theorem no_newline_before {text r pre rest : Text} {rs rs' : List Text}
    (hraw : rawLines text = rs ++ r :: rs') (h : content r = pre ++ rest) : '\n' ∉ pre := by
  have hr : '\n' ∉ content r := no_newline_content (t := text) (by rw [hraw]; simp)
  rw [h] at hr
  exact fun hmem => hr (List.mem_append_left _ hmem)

/-- **In a file the occurrences between boundaries are replaced exactly if the scan sees them in
every line.** -/
theorem marks_iff_unconfused {old : Text} (hold : IsNodeId old) (text : Text) :
    (∀ pre suf, text = pre ++ (old ++ suf) →
      (leftOk pre = true ∧ rightOk suf = true ↔ MarkedAt old (filePieces old text) pre)) ↔
      ∀ line ∈ text.lines, Unconfused old line := by
  constructor
  · intro h line hline
    obtain ⟨r, hr, rfl⟩ := List.mem_map.mp hline
    obtain ⟨rs, rs', hraw⟩ := List.append_of_mem hr
    refine replaced_iff_unconfused.mp fun pre suf hcontent => ?_
    obtain ⟨suf', htext, hleft, hright⟩ := line_occurrence hraw hcontent
    rw [← hleft, ← hright, h _ _ htext, fileMark_line hold.ne_nil hraw
      (no_newline_before hraw hcontent)]
  · intro h pre suf htext
    obtain ⟨rs, r, rs', pre', suf', hraw, hcontent, rfl, hleft, hright⟩ := occurrence_line hold htext
    have hr : content r ∈ text.lines := List.mem_map_of_mem (by rw [hraw]; simp)
    have hline := replaced_iff_unconfused.mpr (h _ hr)
    rw [hleft, hright, hline pre' suf' hcontent, fileMark_line hold.ne_nil hraw
      (no_newline_before hraw hcontent)]

theorem lineFeed_spec (r : Text) : (lineFeed r).length ≤ (terminator r).length ∧
    (terminator r ≠ ['\r', '\n'] → lineFeed r = terminator r) ∧
    (terminator r = ['\r', '\n'] → (lineFeed r).length < (terminator r).length) := by
  obtain ⟨hsplit, hcases⟩ := terminator_spec r
  rcases hcases with hnil | hlf | hcrlf
  · have hlast : r.getLast? ≠ some '\n' := by
      intro hlast
      obtain ⟨b, hb⟩ := List.getLast?_eq_some_iff.mp hlast
      rw [hnil, List.append_nil, hb, content_terminated] at hsplit
      have hlen := congrArg List.length hsplit
      split_ifs at hlen <;> simp at hlen <;> omega
    rw [lineFeed, if_neg hlast, hnil]
    simp
  · have hlast : r.getLast? = some '\n' := by
      rw [← hsplit, hlf, List.getLast?_concat]
    rw [lineFeed, if_pos hlast, hlf]
    simp
  · have hlast : r.getLast? = some '\n' := by
      rw [← hsplit, hcrlf, List.append_cons, List.getLast?_concat]
    rw [lineFeed, if_pos hlast, hcrlf]
    simp

/-- Only a carriage return is lost at the end of a line. -/
theorem terminators_of_joined (ls : List Text) (h : ((ls.flatMap fun r => content r ++ lineFeed r)).length =
    ls.flatten.length) : ∀ r ∈ ls, terminator r ≠ ['\r', '\n'] := by
  have hle (ls : List Text) : (ls.flatMap fun r => content r ++ lineFeed r).length ≤
      ls.flatten.length := by
    induction ls with
    | nil => simp
    | cons r ls ih =>
        have hr := congrArg List.length (terminator_spec r).1
        have hfeed := (lineFeed_spec r).1
        simp only [List.flatMap_cons, List.flatten_cons, List.length_append] at hr ih ⊢
        omega
  induction ls with
  | nil => simp
  | cons r ls ih =>
      have hr := congrArg List.length (terminator_spec r).1
      have hfeed := (lineFeed_spec r).1
      have hrest := hle ls
      simp only [List.flatMap_cons, List.flatten_cons, List.length_append] at h hr hrest ih
      refine List.forall_mem_cons.mpr ⟨fun hcrlf => ?_, ih (by omega)⟩
      have := (lineFeed_spec r).2.2 hcrlf
      omega

theorem joined_eq {old : Text} (new : Text) {text : Text}
    (h : ∀ r ∈ rawLines text, terminator r ≠ ['\r', '\n']) :
    ((rawLines text).flatMap fun r => restore new (linePieces old (content r)) ++ lineFeed r) =
      restore new (filePieces old text) := by
  rw [filePieces]
  generalize rawLines text = ls at h ⊢
  induction ls with
  | nil => rfl
  | cons r rs ih =>
      obtain ⟨hr, hrs⟩ := List.forall_mem_cons.mp h
      rw [List.flatMap_cons, List.flatMap_cons, restore_append, restore_append, restore_map_some,
        ih hrs, (lineFeed_spec r).2.1 hr]

/-- A character that an id does not begin with is one itself. -/
theorem exists_other_id (c : Char) : ∃ d, c ≠ d ∧ IsNodeId [d] := by
  by_cases hc : c = 'A'
  · exact ⟨'B', by rw [hc]; decide, by decide, by decide, by decide⟩
  · exact ⟨'A', hc, by decide, by decide, by decide⟩

/-- **The rewrite replaces exactly the occurrences between boundaries, whatever the new id is, if
and only if** the scan sees the boundaries of every line as they are, and no line of a text with such
an occurrence ends with a carriage return. -/
theorem rewriteFile_exact_iff {old : Text} (hold : IsNodeId old) (text : Text) :
    (∀ new, IsNodeId new → ∃ changed out, rewriteFile text [(old, new)] = some (changed, out) ∧
      ReplacesExactly old new text out) ↔ RepairExact old text := by
  constructor
  · intro h
    have hout (new : Text) (hnew : IsNodeId new) : ReplacesExactly old new text
        (if none ∈ filePieces old text then
          (rawLines text).flatMap fun r => restore new (linePieces old (content r)) ++ lineFeed r
        else text) := by
      obtain ⟨changed, out, hrewrite, hexact⟩ := h new hnew
      rw [rewriteFile_eq hold.ne_nil, Option.some.injEq] at hrewrite
      split_ifs at hrewrite ⊢
      · obtain ⟨-, rfl⟩ := Prod.mk.inj hrewrite
        exact hexact
      · obtain ⟨-, rfl⟩ := Prod.mk.inj hrewrite
        exact hexact
    -- an id put in its own place leaves the text as it is
    have hcrlf (hmark : none ∈ filePieces old text) :
        ∀ r ∈ rawLines text, terminator r ≠ ['\r', '\n'] := by
      obtain ⟨ps, htext, hsame, -⟩ := hout old hold
      rw [if_pos hmark, htext] at hsame
      refine terminators_of_joined _ ?_
      rw [rawLines_flatten]
      conv_rhs => rw [hsame]
      simp only [linePieces, restore_restPieces]
    obtain ⟨c, cs, rfl⟩ := List.exists_cons_of_ne_nil hold.ne_nil
    obtain ⟨d, hd, hid⟩ := exists_other_id c
    obtain ⟨ps, htext, hnew, hmarks⟩ := hout [d] hid
    have hpieces : ps = filePieces (c :: cs) text := by
      refine marks_unique hd (htext.trans (restore_filePieces _ text).symm) (hnew.trans ?_)
      split_ifs with hmark
      · exact joined_eq [d] (hcrlf hmark)
      · conv_lhs => rw [← restore_filePieces (c :: cs) text]
        exact restore_of_no_mark hmark _ _
    subst hpieces
    refine ⟨(marks_iff_unconfused hold text).mp hmarks, fun pre suf hsplit hleft hright => ?_⟩
    obtain ⟨qs, rs, hmark, -⟩ := (hmarks pre suf hsplit).mp ⟨hleft, hright⟩
    exact hcrlf (by rw [hmark]; simp)
  · rintro ⟨hunconfused, hterm⟩ new -
    have hmarks := (marks_iff_unconfused hold text).mpr hunconfused
    rw [rewriteFile_eq hold.ne_nil]
    by_cases hmark : none ∈ filePieces old text
    · rw [if_pos hmark]
      refine ⟨_, _, rfl, filePieces old text, restore_filePieces old text, ?_, hmarks⟩
      obtain ⟨pre, qs, rs, hsplit, hpre⟩ := exists_markedAt old hmark
      have htext : text = pre ++ (old ++ restore old rs) := by
        conv_lhs => rw [← restore_filePieces old text, hsplit, restore_append, restore_none, hpre]
      obtain ⟨hleft, hright⟩ := (hmarks pre _ htext).mpr ⟨qs, rs, hsplit, hpre⟩
      exact (joined_eq new (hterm pre _ htext hleft hright)).symm
    · rw [if_neg hmark]
      refine ⟨_, _, rfl, filePieces old text, restore_filePieces old text, ?_, hmarks⟩
      rw [restore_of_no_mark hmark new old, restore_filePieces]

/-- The occurrences in a text are at its positions. -/
theorem forall_occurrences {old text : Text} {p : Text → Text → Prop}
    (h : ∀ k ≤ text.length, old <+: text.drop k → p (text.take k) (text.drop (k + old.length))) :
    ∀ pre suf, text = pre ++ (old ++ suf) → p pre suf := by
  rintro pre suf rfl
  have hk := h pre.length (by simp) (by simp)
  rw [List.take_left, ← List.drop_drop, List.drop_left, List.drop_left] at hk
  exact hk

/-- A sentence with one reference and plain line ends. -/
theorem rewriteFile_exact_sample : ∃ changed out,
    rewriteFile "blocks TASK-AAAAA.\nTASK-AAAAA.1\n".toList
        [("TASK-AAAAA".toList, "TASK-BBBBB".toList)] = some (changed, out) ∧
      ReplacesExactly "TASK-AAAAA".toList "TASK-BBBBB".toList
        "blocks TASK-AAAAA.\nTASK-AAAAA.1\n".toList out := by
  have hold : IsNodeId "TASK-AAAAA".toList := ⟨by decide, by decide, by decide⟩
  refine (rewriteFile_exact_iff hold _).mpr ⟨(marks_iff_unconfused hold _).mp ?_, ?_⟩ _
    ⟨by decide, by decide, by decide⟩
  · exact forall_occurrences (by decide +kernel)
  · intro pre suf _ _ _
    decide +kernel

/-- **Two ids side by side**: the second one has no boundary in front of it, and is replaced. -/
theorem rewriteFile_not_exact : ¬∀ old new text changed out, IsNodeId old → IsNodeId new →
    rewriteFile text [(old, new)] = some (changed, out) → ReplacesExactly old new text out := by
  intro h
  obtain ⟨ps, htext, hout, hmarks⟩ := h "TASK-AAAAA".toList "TASK-BBBBB".toList
    "TASK-AAAAATASK-AAAAA".toList true "TASK-AAAAATASK-BBBBB".toList ⟨by decide, by decide, by decide⟩
    ⟨by decide, by decide, by decide⟩ (by decide +kernel)
  have hnone : ∀ pre suf, "TASK-AAAAATASK-AAAAA".toList = pre ++ ("TASK-AAAAA".toList ++ suf) →
      ¬(leftOk pre = true ∧ rightOk suf = true) := forall_occurrences (by decide +kernel)
  have hmark : none ∉ ps := by
    intro hmem
    obtain ⟨pre, qs, rs, hsplit, hpre⟩ := exists_markedAt "TASK-AAAAA".toList hmem
    have hat : "TASK-AAAAATASK-AAAAA".toList = pre ++ ("TASK-AAAAA".toList ++
        restore "TASK-AAAAA".toList rs) := by
      rw [← htext, hsplit, restore_append, restore_none, hpre]
    exact hnone _ _ hat ((hmarks _ _ hat).mpr ⟨qs, rs, hsplit, hpre⟩)
  rw [restore_of_no_mark hmark _ "TASK-AAAAA".toList, htext] at hout
  exact absurd hout (by decide)

end Orgasmic
