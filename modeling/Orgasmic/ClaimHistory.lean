import Orgasmic.TaskClaims

/-! # The claim fold against the machines' own histories

A machine's own log says what it holds: its last event for a task. The fold sees the rows of all
logs in the order of their times and transaction ids and no longer knows in which order a machine
appended them. The two agree exactly where, among the events of a machine and a task that carry the
last time, the one with the greatest transaction id has the type of the one appended last. -/

namespace Orgasmic

open Std Registers

/-! ### Logs -/

/-- One machine's claim log, in the order it was appended. -/
structure ClaimLog where
  machine : Text
  events : List TxEntry
  own : ∀ e ∈ events, e.machine = machine
  timely : events.Pairwise fun a b => (compare a.time b.time).isLE
  distinct : (events.map TxEntry.txId).Nodup

namespace ClaimLog

/-- The machine's last claim or release of the task. -/
def lastEvent (log : ClaimLog) (task : Text) : Option TxEntry :=
  last claimKey (task, log.machine) (log.events.filter isClaimEvent)

/-- The claim that the machine's own history leaves standing. -/
def standing (log : ClaimLog) (task : Text) : Option TxEntry :=
  (log.lastEvent task).filter fun entry => entry.ty = CLAIMED

/-- The event is a claim or release of the task, with the same time as the last one. -/
def Final (log : ClaimLog) (task : Text) (entry : TxEntry) : Prop :=
  entry ∈ log.events ∧ isClaimEvent entry ∧ entry.task = some task ∧
    ∃ l, log.lastEvent task = some l ∧ entry.time = l.time

/-- Among the final events, the one with the greatest id has the type of the one appended last. -/
def Settled (log : ClaimLog) (task : Text) : Prop :=
  ∀ entry, log.Final task entry →
    (∀ other, log.Final task other → (compare other.txId entry.txId).isLE) →
    ∃ l, log.lastEvent task = some l ∧ entry.ty = l.ty

end ClaimLog

/-- The claims are those that the machines' own histories leave standing. -/
structure FoldsHistory (logs : List ClaimLog) (claims : TreeMap Text TaskClaim) : Prop where
  task : ∀ (task : Text) (claim : TaskClaim), claims[task]? = some claim → claim.task = task
  contenders : ∀ task machine : Text,
    (∃ claim : TaskClaim, claims[task]? = some claim ∧ machine ∈ claim.contenders) ↔
      ∃ log ∈ logs, log.machine = machine ∧ (log.standing task).isSome
  nodup : ∀ (task : Text) (claim : TaskClaim), claims[task]? = some claim → claim.contenders.Nodup
  holder : ∀ (task : Text) (claim : TaskClaim), claims[task]? = some claim →
    ∃ log ∈ logs, log.machine = claim.holder ∧ ∃ own, log.standing task = some own ∧
      claim.claimedAt = own.time ∧
      ∀ other ∈ logs, ∀ e, other.standing task = some e → (compare own.time e.time).isLE

/-! ### The orders -/

instance : TransCmp claimCmp := by unfold claimCmp; infer_instance
instance : TransCmp keyCmp := by unfold keyCmp; infer_instance

theorem claimCmp_eq (a b : TxEntry) :
    claimCmp a b = (compare a.time b.time).then
      ((compare a.machine b.machine).then (compare a.txId b.txId)) := rfl

instance : LawfulEqCmp keyCmp where
  eq_of_compare {a b} h := by
    simp only [keyCmp, compareLex, compareOn, Ordering.then_eq_eq] at h
    exact Prod.ext (LawfulEqCmp.eq_of_compare h.1) (LawfulEqCmp.eq_of_compare h.2)

theorem time_le_of_claimCmp {a b : TxEntry} (h : (claimCmp a b).isLE) :
    (compare a.time b.time).isLE := by
  rw [claimCmp_eq] at h
  revert h
  cases compare a.time b.time <;> simp [Ordering.then]

theorem txId_le_of_claimCmp {a b : TxEntry} (h : (claimCmp a b).isLE) (time : a.time = b.time)
    (machine : a.machine = b.machine) : (compare a.txId b.txId).isLE := by
  rw [claimCmp_eq, time, machine] at h
  simpa [ReflCmp.compare_self] using h

/-! ### The claims of a task -/

/-- The standing claims of a task. -/
def claimants (active : TreeMap (Text × Text) TxEntry keyCmp) (task : Text) : List TxEntry :=
  (active.toList.filter fun claim => claim.1.1 = task).map Prod.snd

theorem taskClaim_eq (task : Text) (claims : List TxEntry) :
    taskClaim task claims = (sortBy claimCmp claims).head?.map fun winner =>
      ⟨task, winner.machine, winner.time, writeScopeOf winner,
        (sortBy claimCmp claims).map TxEntry.machine⟩ := by
  unfold taskClaim
  cases h : sortBy claimCmp claims with
  | nil => simp
  | cons winner rest => simp

theorem getElem?_foldClaims (entries : List TxEntry) (task : Text) :
    (foldClaims entries)[task]? = taskClaim task (claimants (activeClaims entries) task) := by
  unfold foldClaims claimsByTask claimants
  rw [TreeMap.getElem?_filterMap', getElem?_foldl_push]
  cases (activeClaims entries).toList.filter fun claim => claim.1.1 = task with
  | nil => rfl
  | cons claim rest => rfl

theorem getElem?_activeClaims (entries : List TxEntry) (key : Text × Text) :
    (activeClaims entries)[key]? =
      (last claimKey key (sortBy claimCmp (entries.filter isClaimEvent))).filter
        fun entry => entry.ty = CLAIMED := by
  unfold activeClaims
  rw [getElem?_foldl]
  cases last claimKey key (sortBy claimCmp (entries.filter isClaimEvent)) with
  | none => rfl
  | some entry => simp [Option.filter]

/-- A register holds an event of its own task and machine. -/
theorem claimKey_of_active {entries : List TxEntry} {key : Text × Text} {entry : TxEntry}
    (h : (activeClaims entries)[key]? = some entry) : claimKey entry = some key := by
  rw [getElem?_activeClaims, Option.filter_eq_some_iff] at h
  exact (last_eq_some_mem claimKey h.1).2

theorem machine_of_claimKey {entry : TxEntry} {key : Text × Text} (h : claimKey entry = some key) :
    entry.machine = key.2 := by
  simp only [claimKey, Option.map_eq_some_iff] at h
  obtain ⟨_, _, rfl⟩ := h
  rfl

theorem task_of_claimKey {entry : TxEntry} {key : Text × Text} (h : claimKey entry = some key) :
    entry.task = some key.1 := by
  simp only [claimKey, Option.map_eq_some_iff] at h
  obtain ⟨_, h, rfl⟩ := h
  exact h

theorem mem_claimants {entries : List TxEntry} {task : Text} {entry : TxEntry} :
    entry ∈ claimants (activeClaims entries) task ↔
      (activeClaims entries)[(task, entry.machine)]? = some entry := by
  simp only [claimants, List.mem_map, List.mem_filter, decide_eq_true_eq]
  constructor
  · rintro ⟨⟨⟨task', machine⟩, entry'⟩, ⟨mem, rfl⟩, rfl⟩
    have active := TreeMap.mem_toList_iff_getElem?_eq_some.mp mem
    have own : entry'.machine = machine := machine_of_claimKey (claimKey_of_active active)
    rw [own]
    exact active
  · intro active
    exact ⟨((task, entry.machine), entry),
      ⟨TreeMap.mem_toList_iff_getElem?_eq_some.mpr active, rfl⟩, rfl⟩

/-- No machine contends twice. -/
theorem claimants_nodup (entries : List TxEntry) (task : Text) :
    ((claimants (activeClaims entries) task).map TxEntry.machine).Nodup := by
  unfold claimants
  rw [List.map_map, List.Nodup, List.pairwise_map]
  have apart := (TreeMap.distinct_keys_toList (t := activeClaims entries)).filter
    fun claim => claim.1.1 = task
  refine apart.imp_of_mem fun {a b} ha hb apart same => apart ?_
  rw [List.mem_filter, decide_eq_true_eq] at ha hb
  have ma := machine_of_claimKey
    (claimKey_of_active (TreeMap.mem_toList_iff_getElem?_eq_some.mp ha.1))
  have mb := machine_of_claimKey
    (claimKey_of_active (TreeMap.mem_toList_iff_getElem?_eq_some.mp hb.1))
  have keys : a.1 = b.1 := Prod.ext (ha.2.trans hb.2.symm) (ma.symm.trans (same.trans mb))
  rw [keys]
  exact ReflCmp.compare_self

/-! ### Families of logs -/

section family

variable {logs : List ClaimLog} (machines : (logs.map ClaimLog.machine).Nodup)
  {entries : List TxEntry} (all : entries.Perm (logs.flatMap ClaimLog.events))

include machines in
/-- An event of a machine is in the log of that machine. -/
theorem mem_own_log {log : ClaimLog} (hl : log ∈ logs) {entry : TxEntry}
    (he : entry ∈ logs.flatMap ClaimLog.events) (hm : entry.machine = log.machine) :
    entry ∈ log.events := by
  obtain ⟨other, ho, mem⟩ := List.mem_flatMap.mp he
  have same : other = log :=
    List.inj_on_of_nodup_map machines ho hl ((other.own entry mem).symm.trans hm)
  exact same ▸ mem

include machines in
/-- The order of claim events tells the events of a family apart. -/
theorem claimCmp_apart {a b : TxEntry} (ha : a ∈ logs.flatMap ClaimLog.events)
    (hb : b ∈ logs.flatMap ClaimLog.events) (h : claimCmp a b = .eq) : a = b := by
  rw [claimCmp_eq, Ordering.then_eq_eq, Ordering.then_eq_eq] at h
  obtain ⟨-, hm, hi⟩ := h
  obtain ⟨log, hl, mem⟩ := List.mem_flatMap.mp ha
  have hm : b.machine = log.machine :=
    (LawfulEqCmp.eq_of_compare hm).symm.trans (log.own a mem)
  exact List.inj_on_of_nodup_map log.distinct mem (mem_own_log machines hl hb hm)
    (LawfulEqCmp.eq_of_compare hi)

include machines all in
/-- **The order of arrival leaves no trace.** -/
theorem foldClaims_perm {entries' : List TxEntry}
    (all' : entries'.Perm (logs.flatMap ClaimLog.events)) :
    foldClaims entries = foldClaims entries' := by
  have sorted : sortBy claimCmp (entries.filter isClaimEvent) =
      sortBy claimCmp (entries'.filter isClaimEvent) := by
    refine sortBy_eq_of_perm claimCmp ((all.trans all'.symm).filter _) ?_
    intro a ha b hb h
    exact claimCmp_apart machines (all.mem_iff.mp (List.mem_of_mem_filter ha))
      (all.mem_iff.mp (List.mem_of_mem_filter hb)) h
  unfold foldClaims activeClaims
  rw [sorted]

/-- The event that the fold takes for a machine's last one. -/
def chosen (entries : List TxEntry) (log : ClaimLog) (task : Text) : Option TxEntry :=
  last claimKey (task, log.machine) (sortBy claimCmp (entries.filter isClaimEvent))

theorem claimKey_eq_some {entry : TxEntry} {key : Text × Text} (task : entry.task = some key.1)
    (machine : entry.machine = key.2) : claimKey entry = some key := by
  simp only [claimKey, task, machine, Option.map_some]

namespace ClaimLog

variable {log : ClaimLog} {task : Text}

theorem lastEvent_mem {l : TxEntry} (h : log.lastEvent task = some l) :
    l ∈ log.events ∧ isClaimEvent l ∧ l.task = some task := by
  obtain ⟨mem, key⟩ := last_eq_some_mem claimKey h
  rw [List.mem_filter] at mem
  exact ⟨mem.1, mem.2, task_of_claimKey key⟩

theorem lastEvent_isSome {entry : TxEntry} (he : entry ∈ log.events) (hc : isClaimEvent entry)
    (ht : entry.task = some task) : ∃ l, log.lastEvent task = some l :=
  last_isSome claimKey (List.mem_filter.mpr ⟨he, hc⟩) (claimKey_eq_some ht (log.own entry he))

/-- The last event has the latest time. -/
theorem time_le_lastEvent {l entry : TxEntry} (hl : log.lastEvent task = some l)
    (he : entry ∈ log.events) (hc : isClaimEvent entry) (ht : entry.task = some task) :
    (compare entry.time l.time).isLE := by
  refine last_greatest claimKey (R := fun a b => (compare a.time b.time).isLE)
    (fun e => ?_) (log.timely.filter _) hl (List.mem_filter.mpr ⟨he, hc⟩)
    (claimKey_eq_some ht (log.own entry he))
  simp [ReflCmp.compare_self]

end ClaimLog

variable {log : ClaimLog} (hl : log ∈ logs) {task : Text}

include machines all hl in
theorem chosen_mem {m : TxEntry} (h : chosen entries log task = some m) :
    m ∈ log.events ∧ isClaimEvent m ∧ m.task = some task := by
  obtain ⟨mem, key⟩ := last_eq_some_mem claimKey h
  rw [mem_sortBy, List.mem_filter] at mem
  exact ⟨mem_own_log machines hl (all.mem_iff.mp mem.1) (machine_of_claimKey key), mem.2,
    task_of_claimKey key⟩

include all hl in
theorem le_chosen {m entry : TxEntry} (h : chosen entries log task = some m)
    (he : entry ∈ log.events) (hc : isClaimEvent entry) (ht : entry.task = some task) :
    (claimCmp entry m).isLE := by
  have arrived : entry ∈ entries := all.mem_iff.mpr (List.mem_flatMap.mpr ⟨log, hl, he⟩)
  refine last_greatest claimKey (R := fun a b => (claimCmp a b).isLE) (fun e => ?_)
    (sortBy_pairwise claimCmp _) h ?_ (claimKey_eq_some ht (log.own entry he))
  · simp [ReflCmp.compare_self]
  · rw [mem_sortBy, List.mem_filter]
    exact ⟨arrived, hc⟩

include all hl in
theorem chosen_isSome {l : TxEntry} (h : log.lastEvent task = some l) :
    ∃ m, chosen entries log task = some m := by
  obtain ⟨mem, claim, own⟩ := ClaimLog.lastEvent_mem h
  have arrived : l ∈ entries := all.mem_iff.mpr (List.mem_flatMap.mpr ⟨log, hl, mem⟩)
  refine last_isSome claimKey ?_ (claimKey_eq_some own (log.own l mem))
  rw [mem_sortBy, List.mem_filter]
  exact ⟨arrived, claim⟩

include machines all hl in
/-- **What the fold takes for the last event**: of the final events, the one with the greatest
transaction id. -/
theorem chosen_final {m : TxEntry} (h : chosen entries log task = some m) :
    log.Final task m ∧ ∀ other, log.Final task other → (compare other.txId m.txId).isLE := by
  obtain ⟨mem, claim, own⟩ := chosen_mem machines all hl h
  obtain ⟨l, last⟩ := ClaimLog.lastEvent_isSome mem claim own
  obtain ⟨lmem, lclaim, lown⟩ := ClaimLog.lastEvent_mem last
  have time : m.time = l.time := by
    have above := ClaimLog.time_le_lastEvent last mem claim own
    have below := time_le_of_claimCmp (le_chosen all hl h lmem lclaim lown)
    exact LawfulEqCmp.eq_of_compare (OrientedCmp.isLE_antisymm above below)
  refine ⟨⟨mem, claim, own, l, last, time⟩, ?_⟩
  rintro other ⟨omem, oclaim, oown, l', last', otime⟩
  obtain rfl : l = l' := Option.some_injective _ (last.symm.trans last')
  exact txId_le_of_claimCmp (le_chosen all hl h omem oclaim oown) (otime.trans time.symm)
    ((log.own other omem).trans (log.own m mem).symm)

include machines all hl in
/-- The log is settled when the fold's choice has the type of the machine's last event. -/
theorem settled_iff : log.Settled task ↔
    (chosen entries log task).map TxEntry.ty = (log.lastEvent task).map TxEntry.ty := by
  constructor
  · intro settled
    cases hm : chosen entries log task with
    | none =>
        cases last : log.lastEvent task with
        | none => rfl
        | some l =>
            obtain ⟨m, some⟩ := chosen_isSome all hl last
            rw [hm] at some
            contradiction
    | some m =>
        obtain ⟨final, greatest⟩ := chosen_final machines all hl hm
        obtain ⟨l, last, type⟩ := settled m final greatest
        rw [last, Option.map_some, Option.map_some, type]
  · intro agree entry final greatest
    obtain ⟨mem, claim, own, l, last, time⟩ := final
    obtain ⟨m, hm⟩ := chosen_isSome all hl last
    obtain ⟨mfinal, mgreatest⟩ := chosen_final machines all hl hm
    -- the greatest id is unique, for the ids of a log are distinct
    have same : entry = m := by
      have ids := OrientedCmp.isLE_antisymm (mgreatest entry ⟨mem, claim, own, l, last, time⟩)
        (greatest m mfinal)
      exact List.inj_on_of_nodup_map log.distinct mem mfinal.1 (LawfulEqCmp.eq_of_compare ids)
    rw [hm, last, Option.map_some, Option.map_some, ← same] at agree
    exact ⟨l, last, Option.some_injective _ agree⟩

theorem isSome_filter_claimed (entry : Option TxEntry) :
    (entry.filter fun e => e.ty = CLAIMED).isSome ↔ entry.map TxEntry.ty = some CLAIMED := by
  cases entry <;> simp [Option.filter]

/-- A claim of the task whose contenders include a machine is there exactly when the register of
the task and the machine is set. -/
theorem contends_iff (entries : List TxEntry) (task machine : Text) :
    (∃ claim, (foldClaims entries)[task]? = some claim ∧ machine ∈ claim.contenders) ↔
      ((activeClaims entries)[(task, machine)]?).isSome := by
  rw [getElem?_foldClaims, taskClaim_eq]
  constructor
  · rintro ⟨claim, found, mem⟩
    obtain ⟨winner, -, rfl⟩ := Option.map_eq_some_iff.mp found
    obtain ⟨entry, he, rfl⟩ := List.mem_map.mp mem
    rw [mem_sortBy, mem_claimants] at he
    rw [he]
    rfl
  · intro set
    obtain ⟨entry, he⟩ := Option.isSome_iff_exists.mp set
    have own := machine_of_claimKey (claimKey_of_active he)
    have mem : entry ∈ sortBy claimCmp (claimants (activeClaims entries) task) := by
      rw [mem_sortBy, mem_claimants, own]
      exact he
    obtain ⟨winner, rest, sorted⟩ := List.exists_cons_of_ne_nil (List.ne_nil_of_mem mem)
    rw [sorted]
    refine ⟨_, rfl, List.mem_map.mpr ⟨entry, ?_, own⟩⟩
    rw [← sorted]
    exact mem

include all in
/-- Only machines of the family contend. -/
theorem log_of_active {machine : Text} {entry : TxEntry}
    (h : (activeClaims entries)[(task, machine)]? = some entry) :
    ∃ log ∈ logs, log.machine = machine := by
  have own : entry.machine = machine := machine_of_claimKey (claimKey_of_active h)
  rw [getElem?_activeClaims, Option.filter_eq_some_iff] at h
  have mem := (last_eq_some_mem claimKey h.1).1
  rw [mem_sortBy, List.mem_filter] at mem
  obtain ⟨log, hl, he⟩ := List.mem_flatMap.mp (all.mem_iff.mp mem.1)
  exact ⟨log, hl, (log.own entry he).symm.trans own⟩

theorem active_log (entries : List TxEntry) (log : ClaimLog) (task : Text) :
    (activeClaims entries)[(task, log.machine)]? =
      (chosen entries log task).filter fun entry => entry.ty = CLAIMED :=
  getElem?_activeClaims entries _

include machines all hl in
/-- In a settled log the register is set when the machine's own history leaves a claim. -/
theorem active_isSome_iff (settled : log.Settled task) :
    ((activeClaims entries)[(task, log.machine)]?).isSome ↔ (log.standing task).isSome := by
  rw [active_log, ClaimLog.standing, isSome_filter_claimed, isSome_filter_claimed,
    (settled_iff machines all hl).mp settled]

include machines all hl in
/-- The claim in a settled register has the time of the one that stands. -/
theorem active_time {own entry : TxEntry} (hs : log.standing task = some own)
    (he : (activeClaims entries)[(task, log.machine)]? = some entry) : entry.time = own.time := by
  rw [active_log, Option.filter_eq_some_iff] at he
  rw [ClaimLog.standing, Option.filter_eq_some_iff] at hs
  obtain ⟨⟨-, -, -, l, last, time⟩, -⟩ := chosen_final machines all hl he.1
  rw [time, Option.some_injective _ (last.symm.trans hs.1)]

include machines all in
theorem foldsHistory_of_settled (settled : ∀ log ∈ logs, ∀ task, log.Settled task) :
    FoldsHistory logs (foldClaims entries) where
  task task claim h := by
    rw [getElem?_foldClaims, taskClaim_eq] at h
    obtain ⟨winner, -, rfl⟩ := Option.map_eq_some_iff.mp h
    rfl
  contenders task machine := by
    rw [contends_iff]
    constructor
    · intro set
      obtain ⟨entry, he⟩ := Option.isSome_iff_exists.mp set
      obtain ⟨log, hl, rfl⟩ := log_of_active all he
      exact ⟨log, hl, rfl, (active_isSome_iff machines all hl (settled log hl task)).mp set⟩
    · rintro ⟨log, hl, rfl, stands⟩
      exact (active_isSome_iff machines all hl (settled log hl task)).mpr stands
  nodup task claim h := by
    rw [getElem?_foldClaims, taskClaim_eq] at h
    obtain ⟨winner, -, rfl⟩ := Option.map_eq_some_iff.mp h
    exact ((sortBy_perm claimCmp _).map _).nodup_iff.mpr (claimants_nodup entries task)
  holder task claim h := by
    rw [getElem?_foldClaims, taskClaim_eq] at h
    obtain ⟨winner, first, rfl⟩ := Option.map_eq_some_iff.mp h
    obtain ⟨rest, sorted⟩ := List.head?_eq_some_iff.mp first
    have won : (activeClaims entries)[(task, winner.machine)]? = some winner := by
      rw [← mem_claimants, ← mem_sortBy claimCmp]
      exact List.mem_of_head? first
    obtain ⟨log, hl, name⟩ := log_of_active all won
    rw [← name] at won
    have stands := (active_isSome_iff machines all hl (settled log hl task)).mp
      (Option.isSome_of_eq_some won)
    obtain ⟨own, hown⟩ := Option.isSome_iff_exists.mp stands
    have time := active_time machines all hl hown won
    refine ⟨log, hl, name, own, hown, time, ?_⟩
    intro other ho e he
    have set := (active_isSome_iff machines all ho (settled other ho task)).mpr
      (Option.isSome_of_eq_some he)
    obtain ⟨entry, hentry⟩ := Option.isSome_iff_exists.mp set
    rw [← time, ← active_time machines all ho he hentry]
    have mem : entry ∈ sortBy claimCmp (claimants (activeClaims entries) task) := by
      rw [mem_sortBy, mem_claimants, machine_of_claimKey (claimKey_of_active hentry)]
      exact hentry
    have pairs := sortBy_pairwise claimCmp (claimants (activeClaims entries) task)
    rw [sorted] at mem pairs
    rcases List.mem_cons.mp mem with rfl | later
    · simp [ReflCmp.compare_self]
    · exact time_le_of_claimCmp (List.rel_of_pairwise_cons pairs later)

theorem claim_or_release {entry : TxEntry} (h : isClaimEvent entry) :
    entry.ty = CLAIMED ∨ entry.ty = RELEASED := by
  simp only [isClaimEvent, Bool.and_eq_true, Bool.or_eq_true, decide_eq_true_eq] at h
  exact h.1

include machines all hl in
theorem settled_of_foldsHistory (agree : FoldsHistory logs (foldClaims entries)) :
    log.Settled task := by
  rw [settled_iff machines all hl]
  have contends : ((activeClaims entries)[(task, log.machine)]?).isSome ↔
      (log.standing task).isSome := by
    rw [← contends_iff, agree.contenders task log.machine]
    constructor
    · rintro ⟨other, ho, name, stands⟩
      rwa [← List.inj_on_of_nodup_map machines ho hl name]
    · intro stands
      exact ⟨log, hl, rfl, stands⟩
  rw [active_log, ClaimLog.standing, isSome_filter_claimed, isSome_filter_claimed] at contends
  cases last : log.lastEvent task with
  | none =>
      cases hm : chosen entries log task with
      | none => rfl
      | some m =>
          obtain ⟨mem, claim, own⟩ := chosen_mem machines all hl hm
          obtain ⟨l, some⟩ := ClaimLog.lastEvent_isSome mem claim own
          rw [last] at some
          contradiction
  | some l =>
      obtain ⟨m, hm⟩ := chosen_isSome all hl last
      rw [hm, last, Option.map_some, Option.map_some, Option.some_inj, Option.some_inj] at contends
      rw [hm, Option.map_some, Option.map_some, Option.some_inj]
      rcases claim_or_release (chosen_mem machines all hl hm).2.1 with claimed | released
      · rw [claimed, contends.mp claimed]
      · rcases claim_or_release (ClaimLog.lastEvent_mem last).2.1 with claimed | released'
        · rw [claimed, contends.mpr claimed]
        · rw [released, released']

end family

/-- **The fold against the histories**: whatever order the rows of the logs arrive in, the claims
are the same, and they are those of the machines' own histories exactly when, for every log and
task, the last of the final events in the order of ids has the type of the one appended last. -/
theorem foldClaims_history_iff (logs : List ClaimLog)
    (machines : (logs.map ClaimLog.machine).Nodup) :
    ((∀ entries, entries.Perm (logs.flatMap ClaimLog.events) →
        FoldsHistory logs (foldClaims entries)) ∧
      ∀ entries entries', entries.Perm (logs.flatMap ClaimLog.events) →
        entries'.Perm (logs.flatMap ClaimLog.events) →
        foldClaims entries = foldClaims entries') ↔
    ∀ log ∈ logs, ∀ task, log.Settled task := by
  constructor
  · rintro ⟨agree, -⟩ log hl task
    exact settled_of_foldsHistory machines (List.Perm.refl _) hl (agree _ (List.Perm.refl _))
  · intro settled
    refine ⟨fun entries all => foldsHistory_of_settled machines all settled, ?_⟩
    intro entries entries' all all'
    exact foldClaims_perm machines all all'

/-! ### A release lost to its transaction id -/

/-- A claim of TASK-001 by the machine `m`. -/
def tiedClaim : TxEntry :=
  { TxEntry.new "tx-20260826-proj-x-c41d".toList CLAIMED "[2026-08-26 Wed 10:00:00]".toList
      "dev".toList "m".toList with task := some "TASK-001".toList }

/-- Its release in the same instant, under an id that sorts before. -/
def tiedRelease : TxEntry :=
  { TxEntry.new "tx-20260826-proj-x-07aa".toList RELEASED "[2026-08-26 Wed 10:00:00]".toList
      "dev".toList "m".toList with task := some "TASK-001".toList }

def tiedLog : ClaimLog where
  machine := "m".toList
  events := [tiedClaim, tiedRelease]
  own := by decide
  timely := by decide
  distinct := by decide

/-- The theorem at a log whose release ties with its claim. -/
theorem foldClaims_history_iff_tied :
    ((∀ entries, entries.Perm ([tiedLog].flatMap ClaimLog.events) →
        FoldsHistory [tiedLog] (foldClaims entries)) ∧
      ∀ entries entries', entries.Perm ([tiedLog].flatMap ClaimLog.events) →
        entries'.Perm ([tiedLog].flatMap ClaimLog.events) →
        foldClaims entries = foldClaims entries') ↔
    ∀ log ∈ [tiedLog], ∀ task, log.Settled task :=
  foldClaims_history_iff [tiedLog] (by decide)

/-- The machine's log ends with the release, and the fold still has the machine as the holder. -/
theorem foldClaims_history_fails :
    ([tiedLog].map ClaimLog.machine).Nodup ∧
      tiedLog.events.Perm ([tiedLog].flatMap ClaimLog.events) ∧
      tiedLog.lastEvent "TASK-001".toList = some tiedRelease ∧
      (foldClaims tiedLog.events)["TASK-001".toList]? =
        some ⟨"TASK-001".toList, "m".toList, "[2026-08-26 Wed 10:00:00]".toList, none,
          ["m".toList]⟩ ∧
      ¬ FoldsHistory [tiedLog] (foldClaims tiedLog.events) := by
  have held : (foldClaims tiedLog.events)["TASK-001".toList]? =
      some ⟨"TASK-001".toList, "m".toList, "[2026-08-26 Wed 10:00:00]".toList, none,
        ["m".toList]⟩ := by decide +kernel
  refine ⟨by decide, by decide, by decide, held, fun agree => ?_⟩
  obtain ⟨log, hl, -, stands⟩ :=
    (agree.contenders "TASK-001".toList "m".toList).mp ⟨_, held, by simp⟩
  obtain rfl := List.mem_singleton.mp hl
  have : (tiedLog.standing "TASK-001".toList).isSome = false := by decide
  rw [this] at stands
  contradiction

end Orgasmic
