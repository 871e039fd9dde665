import Orgasmic.AssetQuota
import Mathlib.Algebra.Order.BigOperators.Group.List
import Mathlib.Algebra.Order.Group.Nat
import Mathlib.Data.List.Nodup
import Mathlib.Data.List.Perm.Subperm

/-! # Which uploads the quota counts

`start_upload` scans the blobs first and the unfinished uploads after; an upload that is published
in between and marked complete, or removed, before the second scan reads it, is in neither. Where
that does not happen, the published bytes and the sizes of the uploads still to publish stay within
`STORE_LIMIT` in every interleaving. -/

namespace Orgasmic

namespace AssetStore

/-! ### Sums -/

theorem sum_filter_le {α : Type} (xs : List α) (f : α → ℕ) {p q : α → Bool}
    (h : ∀ x ∈ xs, p x → q x) :
    ((xs.filter p).map f).sum ≤ ((xs.filter q).map f).sum := by
  induction xs with
  | nil => simp
  | cons x xs ih =>
      have ih := ih fun y hy => h y (List.mem_cons_of_mem x hy)
      have hx := h x List.mem_cons_self
      cases hp : p x <;> cases hq : q x <;> simp [hp, hq] at hx ⊢ <;> omega

/-- One element less. -/
theorem sum_filter_add_le {α : Type} {xs : List α} (f : α → ℕ) {p q : α → Bool}
    (h : ∀ x ∈ xs, p x → q x) {u : α} (hu : u ∈ xs) (hq : q u) (hp : p u = false) :
    ((xs.filter p).map f).sum + f u ≤ ((xs.filter q).map f).sum := by
  induction xs with
  | nil => contradiction
  | cons x xs ih =>
      have rest : ∀ y ∈ xs, p y → q y := fun y hy => h y (List.mem_cons_of_mem x hy)
      rcases List.mem_cons.mp hu with rfl | hu
      · have := sum_filter_le xs f rest
        simp [hp, hq]
        omega
      · have ih := ih rest hu
        have hx := h x List.mem_cons_self
        cases hp' : p x <;> cases hq' : q x <;> simp [hp', hq'] at hx ⊢ <;> omega

/-- Different elements of a list weigh at most as much as the list. -/
theorem sum_le_of_subset {α : Type} {xs ys : List α} (f : α → ℕ) (nodup : xs.Nodup)
    (sub : xs ⊆ ys) : (xs.map f).sum ≤ (ys.map f).sum := by
  obtain ⟨zs, perm, sublist⟩ := List.subperm_of_subset nodup sub
  rw [← (perm.map f).sum_eq]
  exact (sublist.map f).sum_le_sum fun _ _ => Nat.zero_le _

/-! ### What an upload's call knows -/

section invariant

variable (digest : List UInt8 → Text)

/-- What the request that holds the lock of an upload relies on. -/
def CallFacts (u : Upload) : UploadCall → Prop
  | .put offset bytes => bytes ≠ [] ∧ offset + bytes.length ≤ u.size ∧ u.complete = false
  | .cancel => True
  | .finish .loaded => u.complete = false
  | .finish (.verified revision) =>
      u.complete = false ∧ u.payload.length = u.size ∧ revision = digest u.payload
  | .finish .published => u.complete = false ∧ u.payload.length = u.size
  | .finish .marked => u.complete = true

/-- The request needs its upload to be there. -/
def Holds : UploadCall → Prop
  | .cancel => False
  | _ => True

end invariant

/-- The blob has been counted, or will be. -/
def Covered (uploads : List Upload) (call : StartCall) (b : Blob) : Prop :=
  b ∈ call.counted ∨ (∃ u ∈ call.tallied, u.serial = b.publisher ∧ u.size = b.len) ∨
    (∃ u ∈ uploads, u.complete = false ∧ u.id ∉ call.visited ∧ u.serial = b.publisher) ∨
    ∃ must, call.phase = .blobs must ∧ b ∈ must

/-- What a `start_upload` has counted. -/
def counts (call : StartCall) : ℕ :=
  (call.counted.map Blob.len).sum + (call.tallied.map Upload.size).sum

/-- What a `start_upload` has counted, and what it has yet to see. -/
structure StartFacts (blobs : List Blob) (uploads : List Upload) (call : StartCall) : Prop where
  reserved : call.reserved = min (counts call) u64Max
  tallied : ∀ u ∈ call.tallied, u.id ∈ call.visited ∧
    ∀ v ∈ uploads, v.serial = u.serial → v.id = u.id
  free : call.phase ≠ .locked → ∀ u ∈ uploads, u.id ≠ call.id
  covered : call.phase ≠ .locked → ∀ b ∈ blobs, Covered uploads call b
  seen : ∀ u ∈ uploads, u.complete = false → u.id ∈ call.visited →
    ∃ v ∈ call.tallied, v.serial = u.serial ∧ v.size = u.size
  unseen : ∀ must, call.phase = .sessions must → ∀ u ∈ uploads, u.id ∈ must
  admitted : call.phase = .admitted →
    (∀ u ∈ uploads, u.id ∈ call.visited) ∧ counts call + call.size ≤ STORE_LIMIT

structure QuotaInv (digest : List UInt8 → Text) (s : AssetStore) : Prop where
  publishers : (s.blobs.map Blob.publisher).Nodup
  ids : (s.uploads.map Upload.id).Nodup
  serials : (s.uploads.map Upload.serial).Nodup
  next : (∀ u ∈ s.uploads, u.serial < s.next) ∧ ∀ b ∈ s.blobs, b.publisher < s.next
  own : ∀ b ∈ s.blobs, ∀ u ∈ s.uploads, u.complete = false → b.publisher = u.serial →
    b.node = u.node ∧ b.revision = digest u.payload ∧ u.payload.length = u.size ∧ b.len = u.size
  calls : ∀ id c, s.calls id = some c → Holds c → ∃ u ∈ s.uploads, u.id = id ∧ CallFacts digest u c
  start : ∀ call, s.start = some call → StartFacts s.blobs s.uploads call
  used : used s.blobs s.uploads ≤ STORE_LIMIT

/-! ### What an admitted upload has counted -/

section admitted

variable {digest : List UInt8 → Text} {s : AssetStore}

theorem sum_filter_add_not {α : Type} (xs : List α) (f : α → ℕ) (p : α → Bool) :
    (xs.map f).sum = ((xs.filter p).map f).sum + ((xs.filter fun x => !p x).map f).sum := by
  induction xs with
  | nil => simp
  | cons x xs ih => cases hp : p x <;> simp [hp, ih] <;> omega

/-- **Both scans together**: an admitted `start_upload` has counted all that is used. -/
theorem used_le_counts (inv : QuotaInv digest s) {call : StartCall} (hs : s.start = some call)
    (phase : call.phase = .admitted) : used s.blobs s.uploads ≤ counts call := by
  have facts := inv.start call hs
  have visited := (facts.admitted phase).1
  have unlocked : call.phase ≠ .locked := by simp [phase]
  let listed := fun b : Blob => decide (b ∈ call.counted)
  -- each blob that the first scan missed belongs to an upload that the second one tallied
  have missed : ∀ b ∈ s.blobs.filter fun b => !listed b,
      ∃ u ∈ call.tallied, u.serial = b.publisher ∧ u.size = b.len := by
    intro b hb
    rw [List.mem_filter] at hb
    have apart : b ∉ call.counted := by simpa [listed] using hb.2
    rcases facts.covered unlocked b hb.1 with counted | tallied | unvisited | scanned
    · exact absurd counted apart
    · exact tallied
    · obtain ⟨u, hu, -, new, -⟩ := unvisited
      exact absurd (visited u hu) new
    · obtain ⟨must, scanning, -⟩ := scanned
      rw [phase] at scanning
      contradiction
  have waiting : ∀ u ∈ s.uploads.filter (pending s.blobs),
      ∃ v ∈ call.tallied, v.serial = u.serial ∧ v.size = u.size := by
    intro u hu
    rw [List.mem_filter] at hu
    have unfinished : u.complete = false := by
      have := hu.2
      simp only [pending, Bool.and_eq_true, Bool.not_eq_true'] at this
      exact this.1
    exact facts.seen u hu.1 unfinished (visited u hu.1)
  let weights := ((s.blobs.filter fun b => !listed b).map fun b => (b.publisher, b.len)) ++
    (s.uploads.filter (pending s.blobs)).map fun u => (u.serial, u.size)
  have distinct : weights.Nodup := by
    have serials : (weights.map Prod.fst).Nodup := by
      simp only [weights, List.map_append, List.map_map, Function.comp_def]
      refine List.Nodup.append ?_ ?_ ?_
      · exact inv.publishers.sublist (List.filter_sublist.map _)
      · exact inv.serials.sublist (List.filter_sublist.map _)
      · intro n inBlobs inUploads
        obtain ⟨b, hb, rfl⟩ := List.mem_map.mp inBlobs
        obtain ⟨u, hu, same⟩ := List.mem_map.mp inUploads
        have apart := (List.mem_filter.mp hu).2
        simp only [pending, Bool.and_eq_true, List.all_eq_true, decide_eq_true_eq] at apart
        exact apart.2 b (List.mem_filter.mp hb).1 same.symm
    exact List.Nodup.of_map _ serials
  have sub : weights ⊆ call.tallied.map fun u => (u.serial, u.size) := by
    intro w hw
    rcases List.mem_append.mp hw with inBlobs | inUploads
    · obtain ⟨b, hb, rfl⟩ := List.mem_map.mp inBlobs
      obtain ⟨u, hu, serial, size⟩ := missed b hb
      exact List.mem_map.mpr ⟨u, hu, Prod.ext serial size⟩
    · obtain ⟨u, hu, rfl⟩ := List.mem_map.mp inUploads
      obtain ⟨v, hv, serial, size⟩ := waiting u hu
      exact List.mem_map.mpr ⟨v, hv, Prod.ext serial size⟩
  have tallied : ((s.blobs.filter fun b => !listed b).map Blob.len).sum +
      ((s.uploads.filter (pending s.blobs)).map Upload.size).sum ≤
        (call.tallied.map Upload.size).sum := by
    have le := sum_le_of_subset Prod.snd distinct sub
    simpa only [weights, List.map_append, List.map_map, Function.comp_def, List.sum_append] using le
  have counted : ((s.blobs.filter listed).map Blob.len).sum ≤ (call.counted.map Blob.len).sum := by
    refine sum_le_of_subset Blob.len ?_ ?_
    · exact (List.Nodup.of_map _ inv.publishers).filter _
    · intro b hb
      simpa [listed] using (List.mem_filter.mp hb).2
  have blobs := sum_filter_add_not s.blobs Blob.len listed
  unfold used counts
  omega

end admitted

/-! ### What the actions keep -/

section steps

variable {digest : List UInt8 → Text} {s t : AssetStore}

theorem upload?_mem {id : Text} {u : Upload} (h : s.upload? id = some u) :
    u ∈ s.uploads ∧ u.id = id := by
  refine ⟨List.mem_of_find?_eq_some h, ?_⟩
  simpa using List.find?_some h

theorem unfinished?_mem {id : Text} {u : Upload} (h : s.unfinished? id = some u) :
    u ∈ s.uploads ∧ u.id = id ∧ u.complete = false := by
  simp only [unfinished?, Option.filter_eq_some_iff, Bool.not_eq_true'] at h
  obtain ⟨mem, name⟩ := upload?_mem h.1
  exact ⟨mem, name, h.2⟩

theorem upload?_none {id : Text} (h : s.upload? id = none) : ∀ u ∈ s.uploads, u.id ≠ id := by
  intro u hu
  simpa using List.find?_eq_none.mp h u hu

theorem QuotaInv.eq_of_id (inv : QuotaInv digest s) {u v : Upload} (hu : u ∈ s.uploads)
    (hv : v ∈ s.uploads) (h : u.id = v.id) : u = v :=
  List.inj_on_of_nodup_map inv.ids hu hv h

theorem QuotaInv.eq_of_serial (inv : QuotaInv digest s) {u v : Upload} (hu : u ∈ s.uploads)
    (hv : v ∈ s.uploads) (h : u.serial = v.serial) : u = v :=
  List.inj_on_of_nodup_map inv.serials hu hv h

/-- An upload that is not to be found unfinished is complete. -/
theorem QuotaInv.complete_of_none (inv : QuotaInv digest s) {id : Text}
    (h : s.unfinished? id = none) : ∀ u ∈ s.uploads, u.id = id → u.complete = true := by
  intro u hu name
  cases found : s.upload? id with
  | none => exact absurd name (upload?_none found u hu)
  | some v =>
      obtain ⟨hv, vname⟩ := upload?_mem found
      obtain rfl := inv.eq_of_id hu hv (name.trans vname.symm)
      simp only [unfinished?, found, Option.filter_eq_none_iff] at h
      simpa using h

/-! ### Requests on the store -/

theorem QuotaInv.of_start (inv : QuotaInv digest s) {call : Option StartCall}
    (facts : ∀ c, call = some c → StartFacts s.blobs s.uploads c) :
    QuotaInv digest (s.setStart call) :=
  ⟨inv.publishers, inv.ids, inv.serials, inv.next, inv.own, inv.calls, facts, inv.used⟩

theorem saturatingAdd_min (a b : ℕ) : saturatingAdd (min a u64Max) b = min (a + b) u64Max := by
  simp only [saturatingAdd]
  omega

theorem QuotaInv.startLock (inv : QuotaInv digest s) {id node : Text} {size : ℕ}
    (h : s.step digest (.startLock id node size) = some t) : QuotaInv digest t := by
  simp only [step] at h
  split at h
  · contradiction
  · obtain rfl := Option.some.inj h
    refine inv.of_start fun c hc => ?_
    obtain rfl := Option.some.inj hc
    constructor <;> simp [counts]

theorem QuotaInv.startScan (inv : QuotaInv digest s)
    (h : s.step digest .startScan = some t) : QuotaInv digest t := by
  simp only [step] at h
  split at h
  · next call hs =>
      split at h
      · next phase =>
          split at h
          · obtain rfl := Option.some.inj h
            exact inv.of_start fun c hc => by contradiction
          · next free =>
              obtain rfl := Option.some.inj h
              refine inv.of_start fun c hc => ?_
              obtain rfl := Option.some.inj hc
              have facts := inv.start call hs
              have free := upload?_none (Option.not_isSome_iff_eq_none.mp free)
              exact ⟨facts.reserved, facts.tallied, fun _ => free,
                fun _ b hb => .inr (.inr (.inr ⟨s.blobs, rfl, hb⟩)), facts.seen,
                fun must hm => by contradiction, fun ha => by contradiction⟩
      · contradiction
  · contradiction

theorem QuotaInv.startBlob (inv : QuotaInv digest s) {blob : Blob}
    (h : s.step digest (.startBlob blob) = some t) : QuotaInv digest t := by
  simp only [step] at h
  split at h
  · next call hs =>
      split at h
      · next must phase =>
          split at h
          · obtain rfl := Option.some.inj h
            refine inv.of_start fun c hc => ?_
            obtain rfl := Option.some.inj hc
            have facts := inv.start call hs
            refine ⟨?_, facts.tallied, facts.free, ?_, facts.seen, facts.unseen, ?_⟩
            · have reserved := facts.reserved
              simp only [counts, List.map_cons, List.sum_cons] at reserved ⊢
              rw [reserved, saturatingAdd_min]
              congr 1
              omega
            · intro unlocked b hb
              rcases facts.covered unlocked b hb with counted | rest
              · exact .inl (List.mem_cons_of_mem _ counted)
              · exact .inr rest
            · intro admitted
              dsimp only at admitted
              rw [phase] at admitted
              contradiction
          · contradiction
      · contradiction
  · contradiction

theorem QuotaInv.startBlobsEnd (inv : QuotaInv digest s)
    (h : s.step digest .startBlobsEnd = some t) : QuotaInv digest t := by
  simp only [step] at h
  split at h
  · next call hs =>
      split at h
      · next must phase =>
          split at h
          · next all =>
              obtain rfl := Option.some.inj h
              refine inv.of_start fun c hc => ?_
              obtain rfl := Option.some.inj hc
              have facts := inv.start call hs
              have unlocked : call.phase ≠ .locked := by simp [phase]
              refine ⟨facts.reserved, facts.tallied, fun _ => facts.free unlocked, ?_, facts.seen,
                ?_, fun ha => by contradiction⟩
              · intro _ b hb
                rcases facts.covered unlocked b hb with counted | tallied | unvisited | scanned
                · exact .inl counted
                · exact .inr (.inl tallied)
                · exact .inr (.inr (.inl unvisited))
                · obtain ⟨must', scanning, mem⟩ := scanned
                  rw [phase] at scanning
                  obtain rfl := StartPhase.blobs.inj scanning
                  exact .inl (all mem)
              · intro must' hm u hu
                obtain rfl := StartPhase.sessions.inj hm
                exact List.mem_map.mpr ⟨u, hu, rfl⟩
          · contradiction
      · contradiction
  · contradiction

theorem QuotaInv.startSession (inv : QuotaInv digest s) {id : Text}
    (h : s.step digest (.startSession id) = some t) : QuotaInv digest t := by
  simp only [step] at h
  split at h
  · next call hs =>
      split at h
      · next must phase =>
          have facts := inv.start call hs
          have unlocked : call.phase ≠ .locked := by simp [phase]
          split at h
          · contradiction
          · next new =>
              split at h
              · next gone =>
                  obtain rfl := Option.some.inj h
                  refine inv.of_start fun c hc => ?_
                  obtain rfl := Option.some.inj hc
                  have complete := inv.complete_of_none gone
                  refine ⟨facts.reserved, ?_, facts.free, ?_, ?_, facts.unseen, ?_⟩
                  · intro u hu
                    obtain ⟨visited, same⟩ := facts.tallied u hu
                    exact ⟨List.mem_cons_of_mem _ visited, same⟩
                  · intro _ b hb
                    rcases facts.covered unlocked b hb with counted | tallied | unvisited | scanned
                    · exact .inl counted
                    · exact .inr (.inl tallied)
                    · obtain ⟨u, hu, unfinished, unseen, serial⟩ := unvisited
                      refine .inr (.inr (.inl ⟨u, hu, unfinished, ?_, serial⟩))
                      rw [List.mem_cons, not_or]
                      refine ⟨fun name => ?_, unseen⟩
                      rw [complete u hu name] at unfinished
                      contradiction
                    · exact .inr (.inr (.inr scanned))
                  · intro u hu unfinished visited
                    rcases List.mem_cons.mp visited with name | visited
                    · rw [complete u hu name] at unfinished
                      contradiction
                    · exact facts.seen u hu unfinished visited
                  · intro admitted
                    dsimp only at admitted
                    rw [phase] at admitted
                    contradiction
              · next u found =>
                  obtain rfl := Option.some.inj h
                  refine inv.of_start fun c hc => ?_
                  obtain rfl := Option.some.inj hc
                  obtain ⟨hu, name, unfinished⟩ := unfinished?_mem found
                  refine ⟨?_, ?_, facts.free, ?_, ?_, facts.unseen, ?_⟩
                  · have reserved := facts.reserved
                    simp only [counts, List.map_cons, List.sum_cons] at reserved ⊢
                    rw [reserved, saturatingAdd_min]
                    congr 1
                    omega
                  · intro v hv
                    rcases List.mem_cons.mp hv with rfl | hv
                    · refine ⟨name ▸ List.mem_cons_self, fun w hw serial => ?_⟩
                      rw [inv.eq_of_serial hw hu serial]
                    · obtain ⟨visited, same⟩ := facts.tallied v hv
                      exact ⟨List.mem_cons_of_mem _ visited, same⟩
                  · intro _ b hb
                    rcases facts.covered unlocked b hb with counted | tallied | unvisited | scanned
                    · exact .inl counted
                    · obtain ⟨v, hv, same⟩ := tallied
                      exact .inr (.inl ⟨v, List.mem_cons_of_mem _ hv, same⟩)
                    · obtain ⟨v, hv, vunfinished, unseen, serial⟩ := unvisited
                      by_cases same : v = u
                      · subst same
                        obtain ⟨-, -, -, len⟩ := inv.own b hb v hv vunfinished serial.symm
                        exact .inr (.inl ⟨v, List.mem_cons_self, serial, len.symm⟩)
                      · refine .inr (.inr (.inl ⟨v, hv, vunfinished, ?_, serial⟩))
                        rw [List.mem_cons, not_or]
                        exact ⟨fun vname => same (inv.eq_of_id hv hu (vname.trans name.symm)), unseen⟩
                    · exact .inr (.inr (.inr scanned))
                  · intro v hv vunfinished visited
                    rcases List.mem_cons.mp visited with vname | visited
                    · obtain rfl := inv.eq_of_id hv hu (vname.trans name.symm)
                      exact ⟨v, List.mem_cons_self, rfl, rfl⟩
                    · obtain ⟨w, hw, same⟩ := facts.seen v hv vunfinished visited
                      exact ⟨w, List.mem_cons_of_mem _ hw, same⟩
                  · intro admitted
                    dsimp only at admitted
                    rw [phase] at admitted
                    contradiction
      · contradiction
  · contradiction

theorem QuotaInv.startSessionsEnd (inv : QuotaInv digest s)
    (h : s.step digest .startSessionsEnd = some t) : QuotaInv digest t := by
  simp only [step] at h
  split at h
  · next call hs =>
      split at h
      · next must phase =>
          have facts := inv.start call hs
          have unlocked : call.phase ≠ .locked := by simp [phase]
          split at h
          · next all =>
              split at h
              · obtain rfl := Option.some.inj h
                exact inv.of_start fun c hc => by contradiction
              · next room =>
                  obtain rfl := Option.some.inj h
                  refine inv.of_start fun c hc => ?_
                  obtain rfl := Option.some.inj hc
                  refine ⟨facts.reserved, facts.tallied, fun _ => facts.free unlocked, ?_,
                    facts.seen, fun must hm => by contradiction, fun _ => ⟨?_, ?_⟩⟩
                  · intro _ b hb
                    rcases facts.covered unlocked b hb with counted | tallied | unvisited | scanned
                    · exact .inl counted
                    · exact .inr (.inl tallied)
                    · exact .inr (.inr (.inl unvisited))
                    · obtain ⟨must', scanning, -⟩ := scanned
                      rw [phase] at scanning
                      contradiction
                  · exact fun u hu => all (facts.unseen must phase u hu)
                  · simp only [refuses, Bool.or_eq_true, decide_eq_true_eq, not_or, not_lt] at room
                    have fits := room.2
                    rw [facts.reserved, saturatingAdd_min] at fits
                    have : STORE_LIMIT < u64Max := by decide
                    show counts call + call.size ≤ STORE_LIMIT
                    omega
          · contradiction
      · contradiction
  · contradiction

theorem QuotaInv.startSave (inv : QuotaInv digest s)
    (h : s.step digest .startSave = some t) : QuotaInv digest t := by
  simp only [step] at h
  split at h
  · next call hs =>
      split at h
      · next phase =>
          obtain rfl := Option.some.inj h
          have facts := inv.start call hs
          have unlocked : call.phase ≠ .locked := by simp [phase]
          have counted := used_le_counts inv hs phase
          have room := (facts.admitted phase).2
          refine ⟨inv.publishers, ?_, ?_, ⟨?_, ?_⟩, ?_, ?_, fun c hc => by contradiction, ?_⟩
          · refine List.nodup_cons.mpr ⟨fun mem => ?_, inv.ids⟩
            obtain ⟨u, hu, name⟩ := List.mem_map.mp mem
            exact facts.free unlocked u hu name
          · refine List.nodup_cons.mpr ⟨fun mem => ?_, inv.serials⟩
            obtain ⟨u, hu, serial⟩ := List.mem_map.mp mem
            exact absurd serial (inv.next.1 u hu).ne
          · intro u hu
            rcases List.mem_cons.mp hu with rfl | hu
            · exact Nat.lt_succ_self _
            · exact Nat.lt_succ_of_lt (inv.next.1 u hu)
          · exact fun b hb => Nat.lt_succ_of_lt (inv.next.2 b hb)
          · intro b hb u hu unfinished serial
            rcases List.mem_cons.mp hu with rfl | hu
            · exact absurd serial (inv.next.2 b hb).ne
            · exact inv.own b hb u hu unfinished serial
          · intro id c hc holds
            obtain ⟨u, hu, name, known⟩ := inv.calls id c hc holds
            exact ⟨u, List.mem_cons_of_mem _ hu, name, known⟩
          · let new : Upload := ⟨call.id, call.node, call.size, [], false, s.next⟩
            have le : AssetStore.used s.blobs (new :: s.uploads) ≤
                AssetStore.used s.blobs s.uploads + call.size := by
              simp only [AssetStore.used, List.filter_cons]
              split
              · simp [new]
                omega
              · simp
            show AssetStore.used s.blobs (new :: s.uploads) ≤ STORE_LIMIT
            omega
      · contradiction
  · contradiction

/-! ### Requests on an upload -/

theorem QuotaInv.of_call (inv : QuotaInv digest s) (id : Text) {call : Option UploadCall}
    (facts : ∀ c, call = some c → Holds c → ∃ u ∈ s.uploads, u.id = id ∧ CallFacts digest u c) :
    QuotaInv digest (s.setCall id call) where
  publishers := inv.publishers
  ids := inv.ids
  serials := inv.serials
  next := inv.next
  own := inv.own
  calls other c hc holds := by
    dsimp only [setCall] at hc
    by_cases same : other = id
    · subst same
      rw [Function.update_self] at hc
      exact facts c hc holds
    · rw [Function.update_of_ne same] at hc
      exact inv.calls other c hc holds
  start := inv.start
  used := inv.used

/-- Uploads that change but for their names, sizes and numbers, while the requests that hold other
uploads keep what they know. -/
theorem QuotaInv.of_map (inv : QuotaInv digest s) (id : Text) {g : Upload → Upload}
    {call : Option UploadCall} (other : ∀ u, u.id ≠ id → g u = u)
    (name : ∀ u, (g u).id = u.id) (node : ∀ u, (g u).node = u.node)
    (size : ∀ u, (g u).size = u.size) (serial : ∀ u, (g u).serial = u.serial)
    (complete : ∀ u, (g u).complete = false → u.complete = false)
    (payload : ∀ b ∈ s.blobs, ∀ u ∈ s.uploads, (g u).complete = false → b.publisher = u.serial →
      (g u).payload = u.payload)
    (covered : ∀ c, s.start = some c → c.phase ≠ .locked → ∀ b ∈ s.blobs,
      Covered s.uploads c b → Covered (s.uploads.map g) c b)
    (facts : ∀ c, call = some c → Holds c →
      ∃ u ∈ s.uploads.map g, u.id = id ∧ CallFacts digest u c) :
    QuotaInv digest ({ s with uploads := s.uploads.map g }.setCall id call) where
  publishers := inv.publishers
  ids := by
    have : (s.uploads.map g).map Upload.id = s.uploads.map Upload.id := by simp [name]
    exact this ▸ inv.ids
  serials := by
    have : (s.uploads.map g).map Upload.serial = s.uploads.map Upload.serial := by simp [serial]
    exact this ▸ inv.serials
  next := by
    refine ⟨fun v hv => ?_, inv.next.2⟩
    obtain ⟨u, hu, rfl⟩ := List.mem_map.mp hv
    rw [serial]
    exact inv.next.1 u hu
  own b hb v hv unfinished same := by
    obtain ⟨u, hu, rfl⟩ := List.mem_map.mp hv
    rw [serial] at same
    rw [node, size, payload b hb u hu unfinished same]
    exact inv.own b hb u hu (complete u unfinished) same
  calls other' c hc holds := by
    dsimp only [setCall] at hc ⊢
    by_cases same : other' = id
    · subst same
      rw [Function.update_self] at hc
      exact facts c hc holds
    · rw [Function.update_of_ne same] at hc
      obtain ⟨u, hu, uname, known⟩ := inv.calls other' c hc holds
      refine ⟨u, List.mem_map.mpr ⟨u, hu, other u ?_⟩, uname, known⟩
      exact uname ▸ same
  start c hc := by
    have facts := inv.start c hc
    refine ⟨facts.reserved, ?_, ?_, ?_, ?_, ?_, ?_⟩
    · intro u hu
      obtain ⟨visited, same⟩ := facts.tallied u hu
      refine ⟨visited, fun v hv => ?_⟩
      obtain ⟨w, hw, rfl⟩ := List.mem_map.mp hv
      rw [serial, name]
      exact same w hw
    · intro unlocked v hv
      obtain ⟨w, hw, rfl⟩ := List.mem_map.mp hv
      rw [name]
      exact facts.free unlocked w hw
    · exact fun unlocked b hb => covered c hc unlocked b hb (facts.covered unlocked b hb)
    · intro v hv
      obtain ⟨w, hw, rfl⟩ := List.mem_map.mp hv
      rw [name, serial, size]
      exact fun unfinished => facts.seen w hw (complete w unfinished)
    · intro must hm v hv
      obtain ⟨w, hw, rfl⟩ := List.mem_map.mp hv
      rw [name]
      exact facts.unseen must hm w hw
    · intro admitted
      refine ⟨fun v hv => ?_, (facts.admitted admitted).2⟩
      obtain ⟨w, hw, rfl⟩ := List.mem_map.mp hv
      rw [name]
      exact (facts.admitted admitted).1 w hw
  used := by
    have le : (((s.uploads.map g).filter (pending s.blobs)).map Upload.size).sum ≤
        ((s.uploads.filter (pending s.blobs)).map Upload.size).sum := by
      rw [List.filter_map, List.map_map]
      have sizes : (Upload.size ∘ g) = Upload.size := funext size
      rw [sizes]
      refine sum_filter_le s.uploads Upload.size fun u _ waits => ?_
      simp only [Function.comp_apply, pending, Bool.and_eq_true, Bool.not_eq_true', serial]
        at waits ⊢
      exact ⟨complete u waits.1, waits.2⟩
    have before := inv.used
    show AssetStore.used s.blobs (s.uploads.map g) ≤ STORE_LIMIT
    unfold AssetStore.used at before ⊢
    omega

/-- A change of one upload, as a change of all. -/
def changeOf (id : Text) (f : Upload → Upload) (u : Upload) : Upload :=
  if u.id = id then f u else u

theorem changeOf_other {id : Text} {f : Upload → Upload} (u : Upload) (h : u.id ≠ id) :
    changeOf id f u = u := if_neg h

/-- A field that the change keeps. -/
theorem changeOf_field {α : Type} (field : Upload → α) {id : Text} {f : Upload → Upload}
    (h : ∀ u, field (f u) = field u) (u : Upload) : field (changeOf id f u) = field u := by
  unfold changeOf
  split
  · exact h u
  · rfl

/-- What is covered stays so where no upload turns complete. -/
theorem Covered.map {uploads : List Upload} {c : StartCall} {b : Blob} {g : Upload → Upload}
    (h : Covered uploads c b) (name : ∀ u, (g u).id = u.id) (serial : ∀ u, (g u).serial = u.serial)
    (complete : ∀ u, (g u).complete = u.complete) : Covered (uploads.map g) c b := by
  rcases h with counted | tallied | ⟨u, hu, unfinished, unseen, same⟩ | scanned
  · exact .inl counted
  · exact .inr (.inl tallied)
  · refine .inr (.inr (.inl ⟨g u, List.mem_map_of_mem hu, ?_, ?_, ?_⟩))
    · rw [complete, unfinished]
    · rwa [name]
    · rw [serial, same]
  · exact .inr (.inr (.inr scanned))

theorem QuotaInv.putLock (inv : QuotaInv digest s) {id : Text} {offset : ℕ} {bytes : List UInt8}
    (h : s.step digest (.putLock id offset bytes) = some t) : QuotaInv digest t := by
  simp only [step] at h
  split at h
  · next u _ found =>
      split at h
      · contradiction
      · next fits =>
          obtain rfl := Option.some.inj h
          obtain ⟨hu, name, unfinished⟩ := unfinished?_mem found
          refine inv.of_call id fun c hc _ => ?_
          obtain rfl := Option.some.inj hc
          simp only [not_or, not_lt] at fits
          exact ⟨u, hu, name, fits.1, fits.2.2, unfinished⟩
  · contradiction

theorem QuotaInv.putWrite (inv : QuotaInv digest s) {id : Text}
    (h : s.step digest (.putWrite id) = some t) : QuotaInv digest t := by
  simp only [step] at h
  split at h
  · next offset bytes u call found =>
      split at h
      · next at_ =>
          obtain rfl := Option.some.inj h
          obtain ⟨hu, name⟩ := upload?_mem found
          obtain ⟨v, hv, vname, nonempty, fits, -⟩ := inv.calls id _ call trivial
          obtain rfl := inv.eq_of_id hu hv (name.trans vname.symm)
          let f : Upload → Upload := fun u => { u with payload := u.payload ++ bytes }
          have keeps {α : Type} (field : Upload → α) (same : ∀ u, field (f u) = field u) :
              ∀ u, field (changeOf id f u) = field u := changeOf_field field same
          refine inv.of_map id (g := changeOf id f) changeOf_other (keeps _ fun _ => rfl)
            (keeps _ fun _ => rfl) (keeps _ fun _ => rfl) (keeps _ fun _ => rfl) ?_ ?_ ?_
            (fun c hc => by contradiction)
          · intro w unfinished
            rwa [keeps Upload.complete fun _ => rfl] at unfinished
          · -- a payload that was published is full, so nothing is appended to it
            intro b hb w hw unfinished publisher
            rw [keeps Upload.complete fun _ => rfl] at unfinished
            by_cases same : w.id = id
            · obtain rfl := inv.eq_of_id hw hu (same.trans name.symm)
              obtain ⟨-, -, full, -⟩ := inv.own b hb w hw unfinished publisher
              have := List.length_pos_of_ne_nil nonempty
              omega
            · rw [changeOf_other w same]
          · intro c _ _ b _ cover
            exact cover.map (keeps _ fun _ => rfl) (keeps _ fun _ => rfl) (keeps _ fun _ => rfl)
      · obtain rfl := Option.some.inj h
        exact inv.of_call id fun c hc => by contradiction
  · contradiction

theorem QuotaInv.cancelLock (inv : QuotaInv digest s) {id : Text}
    (h : s.step digest (.cancelLock id) = some t) : QuotaInv digest t := by
  simp only [step] at h
  split at h
  · obtain rfl := Option.some.inj h
    refine inv.of_call id fun c hc holds => ?_
    obtain rfl := Option.some.inj hc
    contradiction
  · contradiction

theorem QuotaInv.finishLock (inv : QuotaInv digest s) {id : Text}
    (h : s.step digest (.finishLock id) = some t) : QuotaInv digest t := by
  simp only [step] at h
  split at h
  · next u _ found =>
      obtain rfl := Option.some.inj h
      obtain ⟨hu, name, unfinished⟩ := unfinished?_mem found
      refine inv.of_call id fun c hc _ => ?_
      obtain rfl := Option.some.inj hc
      exact ⟨u, hu, name, unfinished⟩
  · contradiction

theorem QuotaInv.finishVerify (inv : QuotaInv digest s) {id : Text}
    (h : s.step digest (.finishVerify id) = some t) : QuotaInv digest t := by
  simp only [step] at h
  split at h
  · next u call found =>
      obtain ⟨hu, name⟩ := upload?_mem found
      obtain ⟨v, hv, vname, unfinished⟩ := inv.calls id _ call trivial
      obtain rfl := inv.eq_of_id hu hv (name.trans vname.symm)
      split at h
      · next full =>
          obtain rfl := Option.some.inj h
          refine inv.of_call id fun c hc _ => ?_
          obtain rfl := Option.some.inj hc
          exact ⟨u, hu, name, unfinished, full, rfl⟩
      · obtain rfl := Option.some.inj h
        exact inv.of_call id fun c hc => by contradiction
  · contradiction

theorem QuotaInv.finishDrop (inv : QuotaInv digest s) {id : Text}
    (h : s.step digest (.finishDrop id) = some t) : QuotaInv digest t := by
  simp only [step] at h
  split at h
  · next call =>
      obtain rfl := Option.some.inj h
      obtain ⟨v, hv, vname, finished⟩ := inv.calls id _ call trivial
      let f : Upload → Upload := fun u => { u with payload := [] }
      have keeps {α : Type} (field : Upload → α) (same : ∀ u, field (f u) = field u) :
          ∀ u, field (changeOf id f u) = field u := changeOf_field field same
      refine inv.of_map id (g := changeOf id f) changeOf_other (keeps _ fun _ => rfl)
        (keeps _ fun _ => rfl) (keeps _ fun _ => rfl) (keeps _ fun _ => rfl) ?_ ?_ ?_
        (fun c hc => by contradiction)
      · intro w unfinished
        rwa [keeps Upload.complete fun _ => rfl] at unfinished
      · intro b hb w hw unfinished publisher
        rw [keeps Upload.complete fun _ => rfl] at unfinished
        have apart : w.id ≠ id := by
          intro same
          obtain rfl := inv.eq_of_id hw hv (same.trans vname.symm)
          rw [finished] at unfinished
          contradiction
        rw [changeOf_other w apart]
      · intro c _ _ b _ cover
        exact cover.map (keeps _ fun _ => rfl) (keeps _ fun _ => rfl) (keeps _ fun _ => rfl)
  · contradiction

/-! ### Publishing, and what leaves the second scan -/

/-- An upload that is marked complete or removed has its blob in the first scan, or has been read by
the second. -/
def Settles (s : AssetStore) : QuotaAction → Prop
  | .finishMark id | .cancelRemove id =>
      ∀ call, s.start = some call → call.phase ≠ .locked →
        ∀ u ∈ s.uploads, u.id = id → ∀ b ∈ s.blobs, b.publisher = u.serial →
          b ∈ call.counted ∨ id ∈ call.visited ∨ ∃ must, call.phase = .blobs must ∧ b ∈ must
  | _ => True

/-- What is covered stays so without the upload. -/
theorem Covered.settled {uploads uploads' : List Upload} {c : StartCall} {b : Blob} {id : Text}
    (h : Covered uploads c b)
    (others : ∀ u ∈ uploads, u.id ≠ id → u ∈ uploads')
    (settles : ∀ u ∈ uploads, u.id = id → b.publisher = u.serial →
      b ∈ c.counted ∨ id ∈ c.visited ∨ ∃ must, c.phase = .blobs must ∧ b ∈ must) :
    Covered uploads' c b := by
  rcases h with counted | tallied | ⟨u, hu, unfinished, unseen, same⟩ | scanned
  · exact .inl counted
  · exact .inr (.inl tallied)
  · by_cases name : u.id = id
    · rcases settles u hu name same.symm with counted | visited | scanned
      · exact .inl counted
      · exact absurd (name ▸ visited) unseen
      · exact .inr (.inr (.inr scanned))
    · exact .inr (.inr (.inl ⟨u, others u hu name, unfinished, unseen, same⟩))
  · exact .inr (.inr (.inr scanned))

theorem QuotaInv.finishMark (inv : QuotaInv digest s) {id : Text}
    (settles : Settles s (.finishMark id)) (h : s.step digest (.finishMark id) = some t) :
    QuotaInv digest t := by
  simp only [step] at h
  split at h
  · next call =>
      obtain rfl := Option.some.inj h
      obtain ⟨v, hv, vname, -⟩ := inv.calls id _ call trivial
      let f : Upload → Upload := fun u => { u with complete := true }
      have keeps {α : Type} (field : Upload → α) (same : ∀ u, field (f u) = field u) :
          ∀ u, field (changeOf id f u) = field u := changeOf_field field same
      have finished : ∀ w, (changeOf id f w).complete = false → w.complete = false := by
        intro w unfinished
        unfold changeOf at unfinished
        split at unfinished
        · contradiction
        · exact unfinished
      refine inv.of_map id (g := changeOf id f) changeOf_other (keeps _ fun _ => rfl)
        (keeps _ fun _ => rfl) (keeps _ fun _ => rfl) (keeps _ fun _ => rfl) finished ?_ ?_ ?_
      · intro b _ w _ _ _
        exact keeps Upload.payload (fun _ => rfl) w
      · intro c hc unlocked b hb cover
        refine cover.settled (fun u hu apart => ?_) fun u hu name same =>
          settles c hc unlocked u hu name b hb same
        exact List.mem_map.mpr ⟨u, hu, changeOf_other u apart⟩
      · intro c hc _
        obtain rfl := Option.some.inj hc
        refine ⟨changeOf id f v, List.mem_map_of_mem hv, ?_, ?_⟩
        · rw [keeps Upload.id fun _ => rfl, vname]
        · simp [CallFacts, changeOf, vname, f]
  · contradiction

theorem QuotaInv.cancelRemove (inv : QuotaInv digest s) {id : Text}
    (settles : Settles s (.cancelRemove id)) (h : s.step digest (.cancelRemove id) = some t) :
    QuotaInv digest t := by
  simp only [step] at h
  split at h
  · next call =>
      obtain rfl := Option.some.inj h
      have sub : ∀ {u}, u ∈ s.uploads.filter (fun u => u.id ≠ id) → u ∈ s.uploads := fun hu =>
        List.mem_of_mem_filter hu
      refine ⟨inv.publishers, inv.ids.sublist (List.filter_sublist.map _),
        inv.serials.sublist (List.filter_sublist.map _),
        ⟨fun u hu => inv.next.1 u (sub hu), inv.next.2⟩,
        fun b hb u hu => inv.own b hb u (sub hu), ?_, ?_, ?_⟩
      · intro other c hc holds
        have apart : other ≠ id := by
          rintro rfl
          rw [call] at hc
          obtain rfl := Option.some.inj hc
          contradiction
        obtain ⟨u, hu, name, known⟩ := inv.calls other c hc holds
        refine ⟨u, List.mem_filter.mpr ⟨hu, ?_⟩, name, known⟩
        simpa [name] using apart
      · intro c hc
        have facts := inv.start c hc
        refine ⟨facts.reserved, ?_, fun unlocked u hu => facts.free unlocked u (sub hu), ?_,
          fun u hu => facts.seen u (sub hu), fun must hm u hu => facts.unseen must hm u (sub hu),
          fun admitted => ⟨fun u hu => (facts.admitted admitted).1 u (sub hu),
            (facts.admitted admitted).2⟩⟩
        · intro u hu
          obtain ⟨visited, same⟩ := facts.tallied u hu
          exact ⟨visited, fun v hv => same v (sub hv)⟩
        · intro unlocked b hb
          refine (facts.covered unlocked b hb).settled (fun u hu apart => ?_)
            fun u hu name same => settles c hc unlocked u hu name b hb same
          exact List.mem_filter.mpr ⟨hu, by simpa using apart⟩
      · have le : (((s.uploads.filter fun u => u.id ≠ id).filter (pending s.blobs)).map
            Upload.size).sum ≤ ((s.uploads.filter (pending s.blobs)).map Upload.size).sum := by
          rw [List.filter_filter]
          refine sum_filter_le s.uploads Upload.size fun u _ waits => ?_
          rw [Bool.and_eq_true] at waits
          exact waits.1
        have before := inv.used
        show AssetStore.used s.blobs (s.uploads.filter fun u => u.id ≠ id) ≤ STORE_LIMIT
        unfold AssetStore.used at before ⊢
        omega
  · contradiction

/-- A blob that its unfinished upload is linked to for the first time. -/
theorem QuotaInv.publish (inv : QuotaInv digest s) {u : Upload} (hu : u ∈ s.uploads)
    (unfinished : u.complete = false) (full : u.payload.length = u.size)
    (new : ∀ b ∈ s.blobs, ¬ (b.node = u.node ∧ b.revision = digest u.payload)) :
    QuotaInv digest
      { s with blobs := ⟨u.node, digest u.payload, u.payload.length, u.serial⟩ :: s.blobs } := by
  have unpublished : ∀ b ∈ s.blobs, b.publisher ≠ u.serial := by
    intro b hb same
    obtain ⟨node, revision, -⟩ := inv.own b hb u hu unfinished same
    exact new b hb ⟨node, revision⟩
  refine ⟨?_, inv.ids, inv.serials, ⟨inv.next.1, ?_⟩, ?_, inv.calls, ?_, ?_⟩
  · refine List.nodup_cons.mpr ⟨fun mem => ?_, inv.publishers⟩
    obtain ⟨b, hb, same⟩ := List.mem_map.mp mem
    exact unpublished b hb same
  · intro b hb
    rcases List.mem_cons.mp hb with rfl | hb
    · exact inv.next.1 u hu
    · exact inv.next.2 b hb
  · intro b hb v hv vunfinished same
    rcases List.mem_cons.mp hb with rfl | hb
    · obtain rfl := inv.eq_of_serial hu hv same
      exact ⟨rfl, rfl, full, full⟩
    · exact inv.own b hb v hv vunfinished same
  · intro c hc
    have facts := inv.start c hc
    refine ⟨facts.reserved, facts.tallied, facts.free, ?_, facts.seen, facts.unseen,
      facts.admitted⟩
    intro unlocked b hb
    rcases List.mem_cons.mp hb with rfl | hb
    · by_cases visited : u.id ∈ c.visited
      · obtain ⟨v, hv, serial, size⟩ := facts.seen u hu unfinished visited
        exact .inr (.inl ⟨v, hv, serial, size.trans full.symm⟩)
      · exact .inr (.inr (.inl ⟨u, hu, unfinished, visited, rfl⟩))
    · exact facts.covered unlocked b hb
  · have before := inv.used
    have waited : pending s.blobs u := by
      simp only [pending, unfinished, Bool.not_false, Bool.true_and, List.all_eq_true,
        decide_eq_true_eq]
      exact unpublished
    have less := sum_filter_add_le Upload.size
      (p := pending (⟨u.node, digest u.payload, u.payload.length, u.serial⟩ :: s.blobs))
      (q := pending s.blobs) (fun v _ waits => by
        simp only [pending, List.all_cons, Bool.and_eq_true] at waits ⊢
        exact ⟨waits.1, waits.2.2⟩) hu waited (by simp [pending])
    show AssetStore.used (_ :: s.blobs) s.uploads ≤ STORE_LIMIT
    unfold AssetStore.used at before ⊢
    simp only [List.map_cons, List.sum_cons]
    omega

theorem QuotaInv.finishPublish (inv : QuotaInv digest s) {id : Text}
    (h : s.step digest (.finishPublish id) = some t) : QuotaInv digest t := by
  simp only [step] at h
  split at h
  · next revision u call found =>
      obtain rfl := Option.some.inj h
      obtain ⟨hu, name⟩ := upload?_mem found
      obtain ⟨v, hv, vname, unfinished, full, rfl⟩ := inv.calls id _ call trivial
      obtain rfl := inv.eq_of_id hu hv (name.trans vname.symm)
      have known : ∀ c, some (UploadCall.finish .published) = some c → Holds c →
          ∃ u ∈ s.uploads, u.id = id ∧ CallFacts digest u c := by
        intro c hc _
        obtain rfl := Option.some.inj hc
        exact ⟨u, hu, name, unfinished, full⟩
      unfold publishBlob
      split
      · exact inv.of_call id known
      · next new =>
          simp only [List.any_eq_true, Bool.and_eq_true, decide_eq_true_eq, not_exists, not_and]
            at new
          exact (inv.publish hu unfinished full fun b hb both => new b hb both.1 both.2).of_call id
            known
  · contradiction

/-- **What one action keeps.** -/
theorem QuotaInv.step {a : QuotaAction} (settles : Settles s a)
    (h : s.step digest a = some t) (inv : QuotaInv digest s) : QuotaInv digest t := by
  cases a with
  | startLock id node size => exact inv.startLock h
  | startScan => exact inv.startScan h
  | startBlob blob => exact inv.startBlob h
  | startBlobsEnd => exact inv.startBlobsEnd h
  | startSession id => exact inv.startSession h
  | startSessionsEnd => exact inv.startSessionsEnd h
  | startSave => exact inv.startSave h
  | startFail =>
      obtain rfl := Option.some.inj h
      exact inv.of_start fun c hc => by contradiction
  | putLock id offset bytes => exact inv.putLock h
  | putWrite id => exact inv.putWrite h
  | cancelLock id => exact inv.cancelLock h
  | cancelRemove id => exact inv.cancelRemove settles h
  | finishLock id => exact inv.finishLock h
  | finishVerify id => exact inv.finishVerify h
  | finishPublish id => exact inv.finishPublish h
  | finishMark id => exact inv.finishMark settles h
  | finishDrop id => exact inv.finishDrop h
  | callEnd id =>
      obtain rfl := Option.some.inj h
      exact inv.of_call id fun c hc => by contradiction

end steps

/-! ### Whole runs -/

end AssetStore

open AssetStore

end Orgasmic
