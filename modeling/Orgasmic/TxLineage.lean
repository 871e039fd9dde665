import Orgasmic.TxRuns
import Mathlib.Logic.Relation

/-! # Lineages of runs

The recovery rows of a ledger that form chains give every generation the same runs in whatever
order they stand.

* `ReplacedBy`, `Chains`: the edges of the ledger, and that they form chains.
* `LineageOf`: what a generation has at any time of the loop.  `Lineage.recovers`: a recovery
  keeps that.
* `recovered_complete`: at the end no edge leads out of a generation.
* `recoveries_order_free`: the runs are those that the chains reach, a chain that starts at a run
  of several generations going on in the newest one, and the addressed run is the end of a chain. -/

namespace Orgasmic

open Text LastMatch Relation

/-- The ledger replaces a run by another one. -/
def ReplacedBy (entries : List TxEntry) (origin replacement : Text) : Prop :=
  ∃ entry ∈ entries, entry.isRecovery = true ∧
    entry.extra? "ORIGIN_RUN_ID".toList = some origin ∧
    entry.extra? "RUN_ID".toList = some replacement

/-- The generations with their initial runs. -/
def initialFolds (entries : List TxEntry) : List DispatchFold := entries.foldl startOrRun []

/-- The recovery rows form chains. -/
structure Chains (entries : List TxEntry) : Prop where
  forward : ∀ {origin r r'}, ReplacedBy entries origin r → ReplacedBy entries origin r' → r = r'
  backward : ∀ {origin origin' r}, ReplacedBy entries origin r → ReplacedBy entries origin' r →
    origin = origin'
  fresh : ∀ {origin r}, ReplacedBy entries origin r → ∀ d ∈ initialFolds entries, r ∉ d.runIds
  acyclic : ∀ r, ¬ TransGen (ReplacedBy entries) r r

/-- The same ledger, with its recovery rows in another order and in other places. -/
structure Reordered (entries entries' : List TxEntry) : Prop where
  others : entries'.filter (fun entry => !entry.isRecovery) =
    entries.filter fun entry => !entry.isRecovery
  recoveries : (entries'.filter TxEntry.isRecovery).Perm (entries.filter TxEntry.isRecovery)

/-- The generation at `index` is the newest one with this initial run. -/
def Holds (entries : List TxEntry) (index : ℕ) (origin : Text) : Prop :=
  lastIdx? (fun d : DispatchFold => origin ∈ d.runIds) (initialFolds entries) = some index

/-- The run of the generation was replaced. -/
def Recovered (entries : List TxEntry) (index : ℕ) (origin : Text) : Prop :=
  Holds entries index origin ∧ ∃ r, ReplacedBy entries origin r

/-- The chain from the run ends here. -/
def EndsAt (entries : List TxEntry) (origin last : Text) : Prop :=
  TransGen (ReplacedBy entries) origin last ∧ ∀ r, ¬ ReplacedBy entries last r

/-- The generation has followed the chains from its initial runs. -/
structure FollowsChains (entries : List TxEntry) (index : ℕ) (d₀ d : DispatchFold) : Prop where
  started : d.started = d₀.started
  runs : ∀ r, r ∈ d.runIds ↔ r ∈ d₀.runIds ∨
    ∃ origin, Holds entries index origin ∧ TransGen (ReplacedBy entries) origin r
  kept : (∀ origin, ¬ Recovered entries index origin) → d.addressedRunId = d₀.addressedRunId
  addressed : (∃ origin, Recovered entries index origin) → ∃ origin last,
    Recovered entries index origin ∧ EndsAt entries origin last ∧ d.addressedRunId = some last

/-! ### Reordered ledgers -/

section
variable {entries entries' : List TxEntry}

theorem Reordered.replaces (h : Reordered entries entries') (origin r : Text) :
    ReplacedBy entries' origin r ↔ ReplacedBy entries origin r := by
  have hmem : ∀ entry, entry ∈ entries' ∧ entry.isRecovery = true ↔
      entry ∈ entries ∧ entry.isRecovery = true := fun entry => by
    rw [← List.mem_filter, ← List.mem_filter]
    exact h.recoveries.mem_iff
  unfold ReplacedBy
  constructor
  · rintro ⟨entry, hentry, hkind, hrest⟩
    exact ⟨entry, ((hmem entry).mp ⟨hentry, hkind⟩).1, hkind, hrest⟩
  · rintro ⟨entry, hentry, hkind, hrest⟩
    exact ⟨entry, ((hmem entry).mpr ⟨hentry, hkind⟩).1, hkind, hrest⟩

/-- Recovery rows open no generation and are no initial runs. -/
theorem attached_filter (entries : List TxEntry) :
    initialFolds (entries.filter fun entry => !entry.isRecovery) = initialFolds entries := by
  have hskip : ∀ dispatches entry, TxEntry.isRecovery entry = true →
      startOrRun dispatches entry = dispatches := by
    intro dispatches entry hkind
    have hstart : entry.isStart = false := by
      by_contra hc
      rw [(TxEntry.not_of_isStart (Bool.of_not_eq_false hc)).1] at hkind
      cases hkind
    have hrun : entry.isInitialRun = false := by
      by_contra hc
      rw [(TxEntry.not_of_isInitialRun (Bool.of_not_eq_false hc)).2.1] at hkind
      cases hkind
    unfold startOrRun
    rw [hstart, hrun, if_neg Bool.false_ne_true, if_neg Bool.false_ne_true]
  unfold initialFolds
  rw [List.foldl_filter]
  congr 1
  funext dispatches entry
  cases hkind : entry.isRecovery with
  | true => simp [hskip dispatches entry hkind]
  | false => simp

theorem Reordered.attached_eq (h : Reordered entries entries') :
    initialFolds entries' = initialFolds entries := by
  rw [← attached_filter entries', h.others, attached_filter]

theorem Reordered.chains (h : Reordered entries entries') (hchains : Chains entries) :
    Chains entries' where
  forward := by
    simp only [h.replaces]
    exact hchains.forward
  backward := by
    simp only [h.replaces]
    exact hchains.backward
  fresh := by
    simp only [h.replaces, h.attached_eq]
    exact hchains.fresh
  acyclic := by
    have heq : ReplacedBy entries' = ReplacedBy entries :=
      funext fun origin => funext fun r => propext (h.replaces origin r)
    rw [heq]
    exact hchains.acyclic

end

/-! ### What a generation has -/

/-- What a generation has at any time of the loop: its initial runs, and runs that are reached from
one it holds, none without the run it replaces.  The last run it got is not replaced there. -/
structure LineageOf (entries : List TxEntry) (index : ℕ) (d₀ d : DispatchFold) : Prop where
  started : d.started = d₀.started
  initial : d₀.runIds ⊆ d.runIds
  derived : ∀ r ∈ d.runIds, r ∉ d₀.runIds →
    ∃ origin, Holds entries index origin ∧ TransGen (ReplacedBy entries) origin r
  closed : ∀ origin r, ReplacedBy entries origin r → r ∈ d.runIds → origin ∈ d.runIds
  addressed : (d.runIds = d₀.runIds ∧ d.addressedRunId = d₀.addressedRunId) ∨
    ∃ last, d.addressedRunId = some last ∧ last ∈ d.runIds ∧ last ∉ d₀.runIds ∧
      ∀ r, ReplacedBy entries last r → r ∉ d.runIds

/-- What the generations have. -/
structure Lineage (entries : List TxEntry) (dispatches : List DispatchFold) : Prop where
  length : dispatches.length = (initialFolds entries).length
  each : ∀ (index : ℕ) (d₀ d : DispatchFold), (initialFolds entries)[index]? = some d₀ →
    dispatches[index]? = some d → LineageOf entries index d₀ d

section
variable {entries : List TxEntry} {dispatches : List DispatchFold} {entry : TxEntry}
  {origin replacement : Text} {index : ℕ} {d : DispatchFold}

/-- Before the loop. -/
theorem Chains.lineage (hchains : Chains entries) : Lineage entries (initialFolds entries) where
  length := rfl
  each index d₀ d hd₀ hd := by
    obtain rfl := Option.some.inj (hd₀.symm.trans hd)
    exact ⟨rfl, Finset.Subset.refl _, fun r hr hnew => absurd hr hnew,
      fun origin r hedge hr => absurd hr (hchains.fresh hedge d₀ (List.mem_of_getElem? hd)),
      .inl ⟨rfl, rfl⟩⟩

theorem Recovers.replaces (hrec : Recovers dispatches entry origin replacement index d)
    (hmem : entry ∈ entries) : ReplacedBy entries origin replacement :=
  ⟨entry, hmem, hrec.kind, hrec.source, hrec.run⟩

/-- The new run is reached from a run that the generation holds. -/
theorem Lineage.reached (h : Lineage entries dispatches) (hmem : entry ∈ entries)
    (hrec : Recovers dispatches entry origin replacement index d) {d₀ : DispatchFold}
    (hd₀ : (initialFolds entries)[index]? = some d₀) :
    ∃ first, Holds entries index first ∧ TransGen (ReplacedBy entries) first replacement := by
  have hedge := hrec.replaces hmem
  obtain ⟨⟨a, ha, horigin⟩, hnewer⟩ := lastIdx?_eq_some_iff_getElem?.mp hrec.newest
  obtain rfl : a = d := Option.some.inj (ha.symm.trans hrec.there)
  have line := h.each index d₀ a hd₀ ha
  by_cases hinitial : origin ∈ d₀.runIds
  · -- no newer generation has the origin, so none was given it
    refine ⟨origin, lastIdx?_eq_some_iff_getElem?.mpr ⟨⟨d₀, hd₀, by simpa using hinitial⟩, ?_⟩,
      .single hedge⟩
    intro j b₀ hj hb₀
    obtain ⟨b, hb⟩ : ∃ b, dispatches[j]? = some b := by
      have hlt := (List.getElem?_eq_some_iff.mp hb₀).1
      rw [← h.length] at hlt
      exact ⟨_, List.getElem?_eq_getElem hlt⟩
    have habsent := hnewer j b hj hb
    simp only [decide_eq_false_iff_not] at habsent ⊢
    exact fun hmem => habsent ((h.each j b₀ b hb₀ hb).initial hmem)
  · obtain ⟨first, hholds, hpath⟩ := line.derived origin (by simpa using horigin) hinitial
    exact ⟨first, hholds, hpath.tail hedge⟩

/-- A recovery keeps what is known of the generations. -/
theorem Lineage.recovers (hchains : Chains entries) (h : Lineage entries dispatches)
    (hmem : entry ∈ entries) (hrec : Recovers dispatches entry origin replacement index d) :
    Lineage entries (dispatches.modify index (DispatchFold.replaced replacement)) where
  length := by rw [List.length_modify, h.length]
  each j b₀ b hb₀ hb := by
    rw [List.getElem?_modify] at hb
    obtain ⟨c, hc, rfl⟩ := Option.map_eq_some_iff.mp hb
    have line := h.each j b₀ c hb₀ hc
    by_cases hj : index = j
    · subst hj
      obtain rfl : c = d := Option.some.inj (hc.symm.trans hrec.there)
      have hedge := hrec.replaces hmem
      have hnew : replacement ∉ b₀.runIds :=
        hchains.fresh hedge b₀ (List.mem_of_getElem? hb₀)
      obtain ⟨a, ha, horigin⟩ := lastIdx?_getElem? hrec.newest
      obtain rfl : a = c := Option.some.inj (ha.symm.trans hrec.there)
      rw [if_pos rfl]
      refine ⟨line.started, line.initial.trans (Finset.subset_insert _ _), ?_, ?_, .inr ?_⟩
      · intro r hr hr₀
        obtain rfl | hr := Finset.mem_insert.mp hr
        · exact h.reached hmem hrec hb₀
        · exact line.derived r hr hr₀
      · intro origin' r hedge' hr
        obtain rfl | hr := Finset.mem_insert.mp hr
        · rw [hchains.backward hedge' hedge]
          exact Finset.mem_insert_of_mem (by simpa using horigin)
        · exact Finset.mem_insert_of_mem (line.closed origin' r hedge' hr)
      · refine ⟨replacement, rfl, Finset.mem_insert_self _ _, hnew, fun r hedge' hr => ?_⟩
        -- the run after the new one is not there before it
        obtain rfl | hr := Finset.mem_insert.mp hr
        · exact hchains.acyclic _ (.single hedge')
        · exact hrec.fresh (line.closed replacement r hedge' hr)
    · rw [if_neg hj]
      exact line

end

/-! ### The end of the loop -/

section
variable {entries : List TxEntry}

theorem Chains.recovered (hchains : Chains entries) :
    Lineage entries (recover entries (initialFolds entries)) :=
  recover_induct (P := Lineage entries) entries
    (fun _ hmem _ _ _ _ _ hrec h => h.recovers hchains hmem hrec) _ hchains.lineage

/-- In a round that changes nothing no row changes anything. -/
theorem recoverRow_fixed {rows : List TxEntry} {dispatches : List DispatchFold}
    (h : rows.foldl recoverRow (dispatches, false) = (dispatches, false)) :
    ∀ entry ∈ rows, recoverRow (dispatches, false) entry = (dispatches, false) := by
  induction rows with
  | nil => simp
  | cons row rows ih =>
      rw [List.foldl_cons] at h
      obtain hrow | ⟨origin, replacement, index, d, hrec, hrow⟩ :=
        recoverRow_cases dispatches false row
      · rw [hrow] at h
        exact List.forall_mem_cons.mpr ⟨hrow, ih h⟩
      · -- once the flag is set it stays
        rw [hrow] at h
        obtain hsame | ⟨htrue, -⟩ := foldl_recoverRow_missing rows (Finset.Subset.refl _)
          (dispatches.modify index (DispatchFold.replaced replacement)) true
        · rw [hsame] at h
          cases congrArg Prod.snd h
        · rw [h] at htrue
          cases htrue

/-- No edge leads out of the newest generation that has its origin. -/
theorem recovered_complete {dispatches : List DispatchFold}
    (hfixed : recoverRound entries dispatches = (dispatches, false)) {origin r : Text}
    (hedge : ReplacedBy entries origin r) {index : ℕ} {d : DispatchFold}
    (hnewest : lastIdx? (fun d : DispatchFold => origin ∈ d.runIds) dispatches = some index)
    (hd : dispatches[index]? = some d) : r ∈ d.runIds := by
  obtain ⟨entry, hmem, hkind, horigin, hrun⟩ := hedge
  have hrow := recoverRow_fixed hfixed entry hmem
  by_contra hnew
  unfold recoverRow at hrow
  simp only [hkind, horigin, hrun, hnewest, hd, hnew, if_true, if_false] at hrow
  cases congrArg Prod.snd hrow

/-- An initial run replaces no other. -/
theorem Holds.not_replaces (hchains : Chains entries) {index : ℕ} {origin o : Text}
    (h : Holds entries index origin) : ¬ ReplacedBy entries o origin := by
  intro hedge
  obtain ⟨d, hd, horigin⟩ := lastIdx?_getElem? h
  exact hchains.fresh hedge d (List.mem_of_getElem? hd) (by simpa using horigin)

theorem Holds.not_reached (hchains : Chains entries) {index : ℕ} {origin o : Text}
    (h : Holds entries index origin) : ¬ TransGen (ReplacedBy entries) o origin := by
  intro hpath
  obtain ⟨_, -, hedge⟩ := TransGen.tail'_iff.mp hpath
  exact h.not_replaces hchains hedge

/-- A run is reached from one initial run. -/
theorem Chains.first_unique (hchains : Chains entries) {i j : ℕ} {a b r : Text}
    (ha : Holds entries i a) (hb : Holds entries j b) (har : TransGen (ReplacedBy entries) a r)
    (hbr : TransGen (ReplacedBy entries) b r) : a = b := by
  have hunique : Relator.RightUnique (Function.swap (ReplacedBy entries)) :=
    fun _ _ _ hedge hedge' => hchains.backward hedge hedge'
  obtain hpath | hpath := ReflTransGen.total_of_right_unique hunique
    (reflTransGen_swap.mpr har.to_reflTransGen) (reflTransGen_swap.mpr hbr.to_reflTransGen)
  · obtain rfl | hpath := reflTransGen_iff_eq_or_transGen.mp (reflTransGen_swap.mp hpath)
    · rfl
    · exact absurd hpath (ha.not_reached hchains)
  · obtain rfl | hpath := reflTransGen_iff_eq_or_transGen.mp (reflTransGen_swap.mp hpath)
    · rfl
    · exact absurd hpath (hb.not_reached hchains)

/-- A chain has one end. -/
theorem Chains.endsAt_unique (hchains : Chains entries) {origin last last' : Text}
    (h : EndsAt entries origin last) (h' : EndsAt entries origin last') : last = last' := by
  have hunique : Relator.RightUnique (ReplacedBy entries) :=
    fun _ _ _ hedge hedge' => hchains.forward hedge hedge'
  have hstay : ∀ {a b}, (∀ r, ¬ ReplacedBy entries a r) → ReflTransGen (ReplacedBy entries) a b →
      a = b := by
    intro a b hend hpath
    obtain rfl | ⟨c, hedge, -⟩ := hpath.cases_head
    · rfl
    · exact absurd hedge (hend c)
  obtain hpath | hpath := ReflTransGen.total_of_right_unique hunique h.1.to_reflTransGen
    h'.1.to_reflTransGen
  · exact hstay h.2 hpath
  · exact (hstay h'.2 hpath).symm

section
variable {dispatches : List DispatchFold} {index : ℕ} {d₀ d : DispatchFold} {origin r : Text}

/-- The generation that holds the first run of a chain is the newest one with any run of it. -/
theorem Lineage.newest (hchains : Chains entries) (h : Lineage entries dispatches)
    (hd : dispatches[index]? = some d) (hholds : Holds entries index origin)
    (hpath : ReflTransGen (ReplacedBy entries) origin r) (hr : r ∈ d.runIds) :
    lastIdx? (fun d : DispatchFold => r ∈ d.runIds) dispatches = some index := by
  refine lastIdx?_eq_some_iff_getElem?.mpr ⟨⟨d, hd, by simpa using hr⟩, fun j b hj hb => ?_⟩
  obtain ⟨b₀, hb₀⟩ : ∃ b₀, (initialFolds entries)[j]? = some b₀ := by
    have hlt := (List.getElem?_eq_some_iff.mp hb).1
    rw [h.length] at hlt
    exact ⟨_, List.getElem?_eq_getElem hlt⟩
  have hnewer := (lastIdx?_eq_some_iff_getElem?.mp hholds).2 j b₀ hj hb₀
  rw [decide_eq_false_iff_not] at hnewer ⊢
  intro hmem
  obtain rfl | hpath := reflTransGen_iff_eq_or_transGen.mp hpath
  · -- the first run is initial, so `b` would have it from the start
    obtain ⟨first, -, hfirst⟩ := (h.each j b₀ b hb₀ hb).derived r hmem hnewer
    exact hholds.not_reached hchains hfirst
  · obtain ⟨_, -, hedge⟩ := TransGen.tail'_iff.mp hpath
    have hnew := hchains.fresh hedge b₀ (List.mem_of_getElem? hb₀)
    obtain ⟨first, hfirst, hreached⟩ := (h.each j b₀ b hb₀ hb).derived r hmem hnew
    obtain rfl := hchains.first_unique hholds hfirst hpath hreached
    have hsame := Option.some.inj (hholds.symm.trans hfirst)
    omega

/-- At the end a generation has all runs of the chains it holds. -/
theorem Lineage.complete (hchains : Chains entries) (h : Lineage entries dispatches)
    (hfixed : recoverRound entries dispatches = (dispatches, false))
    (hd₀ : (initialFolds entries)[index]? = some d₀) (hd : dispatches[index]? = some d)
    (hholds : Holds entries index origin) (hpath : TransGen (ReplacedBy entries) origin r) :
    r ∈ d.runIds := by
  induction hpath with
  | single hedge =>
      obtain ⟨a, ha, horigin⟩ := lastIdx?_getElem? hholds
      obtain rfl := Option.some.inj (ha.symm.trans hd₀)
      have hmem := (h.each index a d hd₀ hd).initial (by simpa using horigin)
      exact recovered_complete hfixed hedge (h.newest hchains hd hholds .refl hmem) hd
  | tail hpath hedge ih =>
      exact recovered_complete hfixed hedge
        (h.newest hchains hd hholds hpath.to_reflTransGen ih) hd

theorem Lineage.follows (hchains : Chains entries) (h : Lineage entries dispatches)
    (hfixed : recoverRound entries dispatches = (dispatches, false))
    (hd₀ : (initialFolds entries)[index]? = some d₀) (hd : dispatches[index]? = some d) :
    FollowsChains entries index d₀ d := by
  have line := h.each index d₀ d hd₀ hd
  -- the last run a generation got ends the chain of a run that was replaced
  have hlast : ∀ last ∈ d.runIds, last ∉ d₀.runIds →
      (∀ r, ReplacedBy entries last r → r ∉ d.runIds) →
        ∃ origin, Recovered entries index origin ∧ EndsAt entries origin last := by
    intro last hmem hnew hnext
    obtain ⟨origin, hholds, hpath⟩ := line.derived last hmem hnew
    obtain ⟨r, hedge, -⟩ := TransGen.head'_iff.mp hpath
    refine ⟨origin, ⟨hholds, r, hedge⟩, hpath, fun r' hedge' => ?_⟩
    exact hnext r' hedge' (h.complete hchains hfixed hd₀ hd hholds (hpath.tail hedge'))
  refine ⟨line.started, fun r => ⟨fun hr => ?_, ?_⟩, fun hnone => ?_, ?_⟩
  · by_cases hr₀ : r ∈ d₀.runIds
    · exact .inl hr₀
    · exact .inr (line.derived r hr hr₀)
  · rintro (hr | ⟨origin, hholds, hpath⟩)
    · exact line.initial hr
    · exact h.complete hchains hfixed hd₀ hd hholds hpath
  · obtain ⟨-, hkept⟩ | ⟨last, -, hmem, hnew, hnext⟩ := line.addressed
    · exact hkept
    · obtain ⟨origin, hrecovered, -⟩ := hlast last hmem hnew hnext
      exact absurd hrecovered (hnone origin)
  · rintro ⟨origin, hholds, r, hedge⟩
    obtain ⟨hsame, -⟩ | ⟨last, haddressed, hmem, hnew, hnext⟩ := line.addressed
    · have hr := h.complete hchains hfixed hd₀ hd hholds (.single hedge)
      rw [hsame] at hr
      exact absurd hr (hchains.fresh hedge d₀ (List.mem_of_getElem? hd₀))
    · obtain ⟨origin', hrecovered, hends⟩ := hlast last hmem hnew hnext
      exact ⟨origin', last, hrecovered, hends, haddressed⟩

end

end

/-! ### The whole fold -/

/-- What the last pass leaves alone. -/
def DispatchFold.lineage (d : DispatchFold) : TxEntry × Finset Text × Option Text :=
  (d.started, d.runIds, d.addressedRunId)

theorem foldl_settle_lineage (rows : List TxEntry) (dispatches : List DispatchFold) :
    (rows.foldl settle dispatches).map DispatchFold.lineage =
      dispatches.map DispatchFold.lineage := by
  induction rows generalizing dispatches with
  | nil => rfl
  | cons row rows ih =>
      rw [List.foldl_cons, ih, settle_eq]
      cases selected dispatches row with
      | none => rfl
      | some index =>
          refine map_modify_of_eq _ (fun d => ?_) dispatches index
          unfold act
          split_ifs <;> rfl

theorem FollowsChains.congr {entries : List TxEntry} {index : ℕ} {d₀ d d' : DispatchFold}
    (h : FollowsChains entries index d₀ d) (hsame : d'.lineage = d.lineage) :
    FollowsChains entries index d₀ d' := by
  obtain ⟨hstarted, hruns, haddressed⟩ : d'.started = d.started ∧ d'.runIds = d.runIds ∧
      d'.addressedRunId = d.addressedRunId := by
    simpa [DispatchFold.lineage] using hsame
  exact ⟨hstarted.trans h.started, by rw [hruns]; exact h.runs, by rw [haddressed]; exact h.kept,
    by rw [haddressed]; exact h.addressed⟩

theorem foldDispatches_follows {entries : List TxEntry} (hchains : Chains entries) {index : ℕ}
    {d₀ d : DispatchFold} (hd₀ : (initialFolds entries)[index]? = some d₀)
    (hd : (foldDispatches entries)[index]? = some d) : FollowsChains entries index d₀ d := by
  have hmaps := congrArg (fun l => l[index]?)
    (foldl_settle_lineage entries (openDispatches entries))
  simp only [List.getElem?_map] at hmaps
  change (foldDispatches entries)[index]?.map _ = _ at hmaps
  rw [hd, Option.map_some] at hmaps
  obtain ⟨d₁, hd₁, hsame⟩ := Option.map_eq_some_iff.mp hmaps.symm
  have hlineage : Lineage entries (openDispatches entries) := hchains.recovered
  exact (hlineage.follows hchains (recover_fixed entries _) hd₀ hd₁).congr hsame.symm

theorem FollowsChains.reordered {entries entries' : List TxEntry} (h : Reordered entries entries')
    {index : ℕ} {d₀ d : DispatchFold} (hfollows : FollowsChains entries' index d₀ d) :
    FollowsChains entries index d₀ d := by
  have hreplaces : ReplacedBy entries' = ReplacedBy entries :=
    funext fun origin => funext fun r => propext (h.replaces origin r)
  have hholds : Holds entries' = Holds entries := by
    unfold Holds
    rw [h.attached_eq]
  have hrecovered : Recovered entries' = Recovered entries := by
    unfold Recovered
    rw [hholds, hreplaces]
  have hends : EndsAt entries' = EndsAt entries := by
    unfold EndsAt
    rw [hreplaces]
  obtain ⟨hstarted, hruns, hkept, haddressed⟩ := hfollows
  rw [hholds, hreplaces] at hruns
  rw [hrecovered] at hkept haddressed
  rw [hends] at haddressed
  exact ⟨hstarted, hruns, hkept, haddressed⟩

/-- **Recoveries are order-free.** The loop ends with a round that changes nothing.  Every
generation has its initial runs and those that the chains from the runs it holds reach; its
addressed run is its last initial one, or the end of one of these chains.  With another order of
the recovery rows it has the same runs, and the same addressed run if at most one of the runs it
holds was replaced. -/
theorem recoveries_order_free {entries entries' : List TxEntry} (hchains : Chains entries)
    (h : Reordered entries entries') :
    recoverRound entries' (openDispatches entries') = (openDispatches entries', false) ∧
      (foldDispatches entries').length = (initialFolds entries).length ∧
      ∀ (index : ℕ) (d₀ d d' : DispatchFold), (initialFolds entries)[index]? = some d₀ →
        (foldDispatches entries)[index]? = some d → (foldDispatches entries')[index]? = some d' →
        FollowsChains entries index d₀ d' ∧ d'.runIds = d.runIds ∧
          ((∀ origin origin', Recovered entries index origin → Recovered entries index origin' →
            origin = origin') → d'.addressedRunId = d.addressedRunId) := by
  have hchains' := h.chains hchains
  refine ⟨recover_fixed entries' _, ?_, fun index d₀ d d' hd₀ hd hd' => ?_⟩
  · have hlength := congrArg List.length (foldl_settle_lineage entries' (openDispatches entries'))
    rw [List.length_map, List.length_map] at hlength
    have hlineage : Lineage entries' (openDispatches entries') := hchains'.recovered
    exact hlength.trans (hlineage.length.trans (congrArg List.length h.attached_eq))
  · have hfollows := foldDispatches_follows hchains hd₀ hd
    have hfollows' := (foldDispatches_follows hchains'
      (h.attached_eq ▸ hd₀) hd').reordered h
    refine ⟨hfollows', ?_, fun hone => ?_⟩
    · ext r
      rw [hfollows.runs, hfollows'.runs]
    · by_cases hrecovered : ∃ origin, Recovered entries index origin
      · obtain ⟨origin, last, horigin, hends, haddressed⟩ := hfollows.addressed hrecovered
        obtain ⟨origin', last', horigin', hends', haddressed'⟩ := hfollows'.addressed hrecovered
        obtain rfl := hone origin origin' horigin horigin'
        rw [haddressed, haddressed', hchains.endsAt_unique hends' hends]
      · have hnone : ∀ origin, ¬ Recovered entries index origin :=
          fun origin horigin => hrecovered ⟨origin, horigin⟩
        rw [hfollows.kept hnone, hfollows'.kept hnone]

/-! ### Ledgers with two recoveries -/

/-- The edges of a ledger, as a list. -/
def recoveryEdges (entries : List TxEntry) : List (Text × Text) :=
  (entries.filter TxEntry.isRecovery).filterMap fun entry =>
    (entry.extra? "ORIGIN_RUN_ID".toList).bind fun origin =>
      (entry.extra? "RUN_ID".toList).map fun r => (origin, r)

theorem mem_recoveryEdges {entries : List TxEntry} {origin r : Text} :
    (origin, r) ∈ recoveryEdges entries ↔ ReplacedBy entries origin r := by
  unfold recoveryEdges ReplacedBy
  rw [List.mem_filterMap]
  constructor
  · rintro ⟨entry, hentry, hedge⟩
    obtain ⟨hmem, hkind⟩ := List.mem_filter.mp hentry
    obtain ⟨o, horigin, hedge⟩ := Option.bind_eq_some_iff.mp hedge
    obtain ⟨r', hrun, heq⟩ := Option.map_eq_some_iff.mp hedge
    obtain ⟨rfl, rfl⟩ := Prod.mk.inj heq
    exact ⟨entry, hmem, hkind, horigin, hrun⟩
  · rintro ⟨entry, hmem, hkind, horigin, hrun⟩
    refine ⟨entry, List.mem_filter.mpr ⟨hmem, hkind⟩, ?_⟩
    rw [horigin, hrun, Option.bind_some, Option.map_some]

/-- Edges without a run twice on one side, whose run ids get longer, form chains. -/
theorem chains_of_recoveryEdges {entries : List TxEntry}
    (sources : ((recoveryEdges entries).map Prod.fst).Nodup)
    (targets : ((recoveryEdges entries).map Prod.snd).Nodup)
    (fresh : ((recoveryEdges entries).all fun e =>
      (initialFolds entries).all fun d => decide (e.2 ∉ d.runIds)) = true)
    (longer : ((recoveryEdges entries).all fun e => decide (e.1.length < e.2.length)) = true) :
    Chains entries where
  forward hedge hedge' := by
    have heq := List.inj_on_of_nodup_map sources (mem_recoveryEdges.mpr hedge)
      (mem_recoveryEdges.mpr hedge') rfl
    exact congrArg Prod.snd heq
  backward hedge hedge' := by
    have heq := List.inj_on_of_nodup_map targets (mem_recoveryEdges.mpr hedge)
      (mem_recoveryEdges.mpr hedge') rfl
    exact congrArg Prod.fst heq
  fresh hedge d hd := by
    have hall := List.all_eq_true.mp fresh _ (mem_recoveryEdges.mpr hedge)
    exact of_decide_eq_true (List.all_eq_true.mp hall d hd)
  acyclic r hpath := by
    have hedges : ∀ {a b}, ReplacedBy entries a b → a.length < b.length := fun hedge => by
      simpa using List.all_eq_true.mp longer _ (mem_recoveryEdges.mpr hedge)
    have hpaths : ∀ {a b}, TransGen (ReplacedBy entries) a b → a.length < b.length := by
      intro a b hpath
      induction hpath with
      | single hedge => exact hedges hedge
      | tail _ hedge ih => exact lt_trans ih (hedges hedge)
    exact lt_irrefl _ (hpaths hpath)

/-- A run of the first dispatch. -/
def initialRun (runId : Text) : TxEntry :=
  { taggedRun with extra := [("ORIGIN".toList, "cli_dispatch".toList),
      ("DISPATCH_TX".toList, "tx-1".toList), ("RUN_ID".toList, runId)] }

/-- A run that replaces another one. -/
def recoveryRun (origin runId : Text) : TxEntry :=
  { taggedRun with extra := [("ORIGIN".toList, "recovery".toList),
      ("ORIGIN_RUN_ID".toList, origin), ("RUN_ID".toList, runId)] }

/-- The rows of a chain, the second link first. -/
def chainLedger : List TxEntry :=
  [firstStart, recoveryRun "run-a1".toList "run-a12".toList, initialRun "run-a".toList,
    recoveryRun "run-a".toList "run-a1".toList]

/-- The same rows in their order. -/
def chainLedger' : List TxEntry :=
  [firstStart, initialRun "run-a".toList, recoveryRun "run-a".toList "run-a1".toList,
    recoveryRun "run-a1".toList "run-a12".toList]

theorem recoveries_order_free_sample :
    recoverRound chainLedger' (openDispatches chainLedger') =
        (openDispatches chainLedger', false) ∧
      (foldDispatches chainLedger').length = (initialFolds chainLedger).length ∧
      ∀ (index : ℕ) (d₀ d d' : DispatchFold), (initialFolds chainLedger)[index]? = some d₀ →
        (foldDispatches chainLedger)[index]? = some d →
        (foldDispatches chainLedger')[index]? = some d' →
        FollowsChains chainLedger index d₀ d' ∧ d'.runIds = d.runIds ∧
          ((∀ origin origin', Recovered chainLedger index origin →
            Recovered chainLedger index origin' → origin = origin') →
              d'.addressedRunId = d.addressedRunId) :=
  recoveries_order_free (chains_of_recoveryEdges (by decide) (by decide) (by decide) (by decide))
    ⟨by decide, by decide⟩

/-- Two runs of one dispatch, each replaced. -/
def twoRuns : List TxEntry :=
  [firstStart, initialRun "run-a".toList, initialRun "run-b".toList,
    recoveryRun "run-a".toList "run-a1".toList, recoveryRun "run-b".toList "run-b1".toList]

/-- The recoveries in the other order. -/
def twoRuns' : List TxEntry :=
  [firstStart, initialRun "run-a".toList, initialRun "run-b".toList,
    recoveryRun "run-b".toList "run-b1".toList, recoveryRun "run-a".toList "run-a1".toList]

/-- The dispatch addresses the run of the later row. -/
theorem recoveries_order_free_fails :
    Chains twoRuns ∧ Reordered twoRuns twoRuns' ∧
      (foldDispatches twoRuns).map DispatchFold.addressedRunId = [some "run-b1".toList] ∧
      (foldDispatches twoRuns').map DispatchFold.addressedRunId = [some "run-a1".toList] :=
  ⟨chains_of_recoveryEdges (by decide) (by decide) (by decide) (by decide),
    ⟨by decide, by decide⟩, by decide, by decide⟩

end Orgasmic
