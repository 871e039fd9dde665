import Orgasmic.Sessions

/-! # Credentials of plugin commands

A plugin command runs under a lease that somebody asked for. The token of the lease stands for the
plugin, which may do what its manifest says and its caller may do.

* `issue`: a lease for a command of a plugin that is enabled in the project.
* `reconcile`: the snapshots of the projects are built anew; leases of plugins that are gone, or are
  not the ones they were, are dropped.
* `identity`: who a token stands for, now. The caller is read from `members.org` again.

A snapshot is built from the disk; what it comes out as is an argument. -/

namespace Orgasmic

open Text
open Std (TreeMap)

deriving instance DecidableEq for Identity

/-- A manifest; fields that are only compared are the `rest`. -/
structure PluginManifest (Rest : Type) where
  id : Text
  capabilities : List Text
  commands : List Text
  rest : Rest
deriving DecidableEq

/-- The plugins that are enabled in a project. -/
abbrev ActivePlugins (Rest : Type) := TreeMap Text (PluginManifest Rest)

structure RunLease (Rest : Type) where
  tokenHash : Bytes
  root : Text
  project : Text
  manifest : PluginManifest Rest
  caller : Identity
  /-- `Instant`, in nanoseconds. -/
  expires : ℤ

/-- What `PluginRegistry` keeps of projects and leases. -/
structure PluginRegistry (Rest : Type) where
  projects : TreeMap Text (ActivePlugins Rest)
  leases : TreeMap Text (RunLease Rest)

inductive PluginError where
  | mint
  | snapshot
  | unavailable
  | forbidden (why : Forbidden)
  | undeclared
  | commandPath
  | tooMany
  | anotherCaller
deriving DecidableEq

def leaseTtl : ℤ := seconds (24 * 60 * 60)

def maxLeases : ℕ := 1024

/-- What a capability of a manifest asks of the caller. -/
def capabilityAction (capability : Text) : Action :=
  if capability = "nodes.write".toList then .nodesWrite
  else if capability = "links.write".toList then .linksWrite
  else if capability = "attachments.write".toList then .attachmentsWrite
  else if capability = "links.read".toList then .linksRead
  else if capability = "attachments.read".toList then .attachmentsRead
  else if capability = "chat.read".toList then .chatRead
  else if capability = "chat.write".toList then .chatWrite
  else .graphRead

def Identity.memberName : Identity → Option Text
  | .admin => none
  | .member name _ _ => some name
  | .plugin id _ _ _ => some ("plugin:".toList ++ id)

def Identity.isPlugin : Identity → Bool
  | .plugin .. => true
  | _ => false

def Identity.isAdmin : Identity → Bool
  | .admin => true
  | _ => false

/-- `require` for each capability of a manifest. -/
def requireCapabilities (caller : Identity) (project : Text) : List Text → Except Forbidden Unit
  | [] => .ok ()
  | capability :: capabilities =>
      match require caller (some project) (capabilityAction capability) with
      | .error e => .error e
      | .ok () => requireCapabilities caller project capabilities

namespace PluginManifest

variable {Rest : Type}

/-- `executable` is what the file system says of the file of the command. -/
def commandPath (manifest : PluginManifest Rest) (command : Text) (executable : Bool) :
    Except PluginError Unit :=
  if command ∉ manifest.commands then .error .undeclared
  else if executable then .ok ()
  else .error .commandPath

end PluginManifest

namespace PluginRegistry

variable {Rest : Type}

def new : PluginRegistry Rest := ⟨∅, ∅⟩

/-- The snapshot of a project, built where there is none. -/
def project (data : PluginRegistry Rest) (root : Text) (built : Option (ActivePlugins Rest)) :
    Option (ActivePlugins Rest) × PluginRegistry Rest :=
  match data.projects[root]? with
  | some snapshot => (some snapshot, data)
  | none =>
      match built with
      | none => (none, data)
      | some snapshot =>
          (some snapshot, { data with projects := data.projects.insert root snapshot })

variable (sha256 : Bytes → Bytes)

/-- What is asked of a registry for a lease, with the random ids of the lease and its token. -/
structure LeaseRequest (Rest : Type) where
  root : Text
  project : Text
  id : Text
  command : Text
  built : Option (ActivePlugins Rest)
  executable : Bool
  lease : Text
  token : Text

/-- What is looked at before the leases are. -/
def admitted (snapshot : ActivePlugins Rest) (req : LeaseRequest Rest) (caller : Identity) :
    Except PluginError (PluginManifest Rest) :=
  match snapshot[req.id]? with
  | none => .error .unavailable
  | some manifest =>
      match requireCapabilities caller req.project manifest.capabilities with
      | .error e => .error (.forbidden e)
      | .ok () =>
          match manifest.commandPath req.command req.executable with
          | .error e => .error e
          | .ok () => .ok manifest

def issue (data : PluginRegistry Rest) (now : ℤ) (req : LeaseRequest Rest) (caller : Identity) :
    Except PluginError (Text × Text) × PluginRegistry Rest :=
  if caller.isPlugin then (.error .mint, data)
  else
    let (snapshot?, data) := data.project req.root req.built
    match snapshot? with
    | none => (.error .snapshot, data)
    | some snapshot =>
        match admitted snapshot req caller with
        | .error e => (.error e, data)
        | .ok manifest =>
            let leases := Expiring.prune RunLease.expires now data.leases
            if maxLeases ≤ leases.size then (.error .tooMany, { data with leases })
            else
              let lease : RunLease Rest :=
                { tokenHash := sha256 (utf8 req.token), root := req.root, project := req.project
                  manifest, caller, expires := now + leaseTtl }
              (.ok (req.lease, req.token), { data with leases := leases.insert req.lease lease })

def revoke (data : PluginRegistry Rest) (lease : Text) (caller : Identity) :
    Except PluginError Unit × PluginRegistry Rest :=
  let foreign := data.leases[lease]?.any fun run =>
    !(caller.isAdmin || caller.memberName = run.caller.memberName)
  if foreign then (.error .anotherCaller, data)
  else (.ok (), { data with leases := data.leases.erase lease })

/-- The manifest of a lease is the one that is enabled. -/
def current (projects : TreeMap Text (ActivePlugins Rest)) [DecidableEq Rest] (lease : RunLease Rest) :
    Bool :=
  (projects[lease.root]?.bind fun active => active[lease.manifest.id]?) = some lease.manifest

/-- The snapshots of these projects, up to the first that cannot be built. -/
def rebuild (build : Text → Option (ActivePlugins Rest)) :
    List Text → TreeMap Text (ActivePlugins Rest) → Bool × TreeMap Text (ActivePlugins Rest)
  | [], projects => (true, projects)
  | root :: roots, projects =>
      match build root with
      | none => (false, projects)
      | some snapshot => rebuild build roots (projects.insert root snapshot)

variable [DecidableEq Rest]

/-- Where a snapshot cannot be built the leases stay as they are. -/
def reconcile (data : PluginRegistry Rest) (now : ℤ) (build : Text → Option (ActivePlugins Rest)) :
    Bool × PluginRegistry Rest :=
  let (done, projects) := rebuild build data.projects.keys data.projects
  if done then
    (true, ⟨projects, data.leases.filter fun _ lease => now < lease.expires && current projects lease⟩)
  else (false, { data with projects })

/-- The caller of a lease as it is now. -/
def callerNow (members : MembersFile) : Identity → Option Identity
  | .member name _ _ => ((findMemberByName members name).toOption.bind id).map MemberEntry.identity
  | .admin => some .admin
  | .plugin .. => none

def identity (data : PluginRegistry Rest) (now : ℤ) (members : MembersFile) (token : Text) :
    Option Identity :=
  match data.leases.toList.find? fun p => p.2.tokenHash = sha256 (utf8 token) with
  | none => none
  | some (_, lease) =>
      if lease.expires ≤ now then none
      else if current data.projects lease then
        (callerNow members lease.caller).map fun caller =>
          .plugin lease.manifest.id lease.project lease.manifest.capabilities caller
      else none

/-! ### What the operations leave -/

section

variable {sha256 : Bytes → Bytes} {data : PluginRegistry Rest} {now : ℤ} {members : MembersFile}
  {token : Text} {caller principal : Identity}

/-- **Who a token stands for**: a lease that is not void, of a plugin that is still the same, with the
caller as it is now. -/
theorem identity_eq_some (h : data.identity sha256 now members token = some principal) :
    ∃ (lease : Text) (run : RunLease Rest) (caller : Identity), data.leases[lease]? = some run ∧ run.tokenHash = sha256 (utf8 token) ∧
      now < run.expires ∧ current data.projects run = true ∧
        callerNow members run.caller = some caller ∧
          principal = .plugin run.manifest.id run.project run.manifest.capabilities caller := by
  rw [identity] at h
  split at h
  · cases h
  · next lease run hfind =>
      split_ifs at h with hvoid hcurrent
      obtain ⟨caller, hcaller, rfl⟩ := Option.map_eq_some_iff.mp h
      have hmem := List.mem_of_find?_eq_some hfind
      rw [TreeMap.mem_toList_iff_getElem?_eq_some] at hmem
      exact ⟨lease, run, caller, hmem, by simpa using List.find?_some hfind, not_le.mp hvoid, hcurrent,
        hcaller, rfl⟩

omit [DecidableEq Rest] in
/-- Looking up a snapshot leaves the leases as they are. -/
theorem project_leases (data : PluginRegistry Rest) (root : Text) (built : Option (ActivePlugins Rest)) :
    (data.project root built).2.leases = data.leases := by
  unfold project
  split
  · rfl
  · split <;> rfl

/-- A lease that a request asked for. -/
structure Granted (sha256 : Bytes → Bytes) (now : ℤ) (req : LeaseRequest Rest) (caller : Identity)
    (run : RunLease Rest) : Prop where
  human : caller.isPlugin = false
  token : run.tokenHash = sha256 (utf8 req.token)
  project : run.project = req.project
  root : run.root = req.root
  issuer : run.caller = caller
  expires : run.expires = now + leaseTtl
  capable : requireCapabilities caller req.project run.manifest.capabilities = .ok ()
  declared : req.command ∈ run.manifest.commands

omit [DecidableEq Rest] in
theorem of_admitted {snapshot : ActivePlugins Rest} {req : LeaseRequest Rest}
    {manifest : PluginManifest Rest} (h : admitted snapshot req caller = .ok manifest) :
    requireCapabilities caller req.project manifest.capabilities = .ok () ∧
      req.command ∈ manifest.commands := by
  rw [admitted] at h
  split at h
  · cases h
  · split at h
    · cases h
    · next hcapable =>
        split at h
        · cases h
        · next hcommand =>
            obtain rfl := Except.ok.inj h
            rw [PluginManifest.commandPath] at hcommand
            split_ifs at hcommand with hdeclared
            exact ⟨hcapable, hdeclared⟩

omit [DecidableEq Rest] in
/-- **A lease that is handed out** is in the store; a request that is refused puts none there. -/
theorem issue_spec (sha256 : Bytes → Bytes) (data : PluginRegistry Rest) (now : ℤ) (caller : Identity)
    (req : LeaseRequest Rest) :
    (∃ e, (data.issue sha256 now req caller).1 = .error e ∧
      ((data.issue sha256 now req caller).2.leases = data.leases ∨
        (data.issue sha256 now req caller).2.leases = Expiring.prune RunLease.expires now data.leases)) ∨
    ∃ run, (data.issue sha256 now req caller).1 = .ok (req.lease, req.token) ∧
      Granted sha256 now req caller run ∧
        (Expiring.prune RunLease.expires now data.leases).size < maxLeases ∧
          (data.issue sha256 now req caller).2.leases =
            (Expiring.prune RunLease.expires now data.leases).insert req.lease run := by
  have hkept := project_leases data req.root req.built
  rw [issue]
  by_cases hplugin : caller.isPlugin = true
  · rw [if_pos hplugin]
    exact .inl ⟨_, rfl, .inl rfl⟩
  · rw [if_neg hplugin]
    generalize data.project req.root req.built = built at hkept ⊢
    obtain ⟨snapshot?, data'⟩ := built
    dsimp only at hkept ⊢
    cases snapshot? with
    | none => exact .inl ⟨_, rfl, .inl hkept⟩
    | some snapshot =>
        dsimp only
        cases hadmitted : admitted snapshot req caller with
        | error e => exact .inl ⟨e, rfl, .inl hkept⟩
        | ok manifest =>
            dsimp only
            rw [hkept]
            by_cases hmany : maxLeases ≤ (Expiring.prune RunLease.expires now data.leases).size
            · rw [if_pos hmany]
              exact .inl ⟨_, rfl, .inr rfl⟩
            · rw [if_neg hmany]
              obtain ⟨hcapable, hdeclared⟩ := of_admitted hadmitted
              exact .inr ⟨_, rfl, ⟨by simpa using hplugin, rfl, rfl, rfl, rfl, rfl, hcapable, hdeclared⟩,
                not_le.mp hmany, rfl⟩

omit [DecidableEq Rest] in
/-- **A lease is revoked** by its caller or by the admin. -/
theorem revoke_spec (data : PluginRegistry Rest) (caller : Identity) (lease : Text) :
    (data.revoke lease caller).1 = .error .anotherCaller ∧ (data.revoke lease caller).2 = data ∨
      (data.revoke lease caller).1 = .ok () ∧
        (data.revoke lease caller).2 = { data with leases := data.leases.erase lease } ∧
          ∀ run, data.leases[lease]? = some run →
            caller.isAdmin = true ∨ caller.memberName = run.caller.memberName := by
  unfold revoke
  by_cases hforeign : (data.leases[lease]?.any fun run =>
      !(caller.isAdmin || caller.memberName = run.caller.memberName)) = true
  · rw [if_pos hforeign]
    exact .inl ⟨rfl, rfl⟩
  · rw [if_neg hforeign]
    refine .inr ⟨rfl, rfl, fun run hrun => ?_⟩
    rw [hrun, Option.any_some, Bool.not_eq_true', Bool.not_eq_false, Bool.or_eq_true,
      decide_eq_true_iff] at hforeign
    exact hforeign

theorem reconcile_leases (data : PluginRegistry Rest) (now : ℤ) (build : Text → Option (ActivePlugins Rest)) :
    (data.reconcile now build).2.leases = data.leases ∨
      ∃ f, (data.reconcile now build).2.leases = data.leases.filter f := by
  unfold reconcile
  generalize rebuild build data.projects.keys data.projects = built
  obtain ⟨done, projects⟩ := built
  cases done with
  | true => exact .inr ⟨_, rfl⟩
  | false => exact .inl rfl

end

end PluginRegistry

end Orgasmic
