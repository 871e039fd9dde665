import Orgasmic.Text

/-! # Authorization

Who may do what on which project, and which events of the daemon reach whom.

* **Requests.** `require` resolves the role of a member for one project: the first grant for the
  project, else the first one for every project.
* **Events.** A socket gets the topics that any role of the member reads, and of the events on these
  topics those that name a project with some grant (`eventVisible`).

The two resolve grants in different ways, so a member with two roles can get an event without being
allowed to read what it is about (`visible_event_authorized`). -/

namespace Orgasmic

open Text

/-! ### Roles -/

inductive Action where
  | projectRead
  | graphRead
  | tasksRead
  | tasksComment
  | sessionsWatch
  | sessionsInteract
  | artifactsRead
  | artifactsComment
  | artifactsGenerate
  | orgWrite
  | nodesWrite
  | linksRead
  | linksWrite
  | attachmentsRead
  | attachmentsWrite
  | chatRead
  | chatWrite
  | chatExecute
  | membersManage
deriving DecidableEq, Repr

def actionName : Action → Text
  | .projectRead => "project.read".toList
  | .graphRead => "graph.read".toList
  | .tasksRead => "tasks.read".toList
  | .tasksComment => "tasks.comment".toList
  | .sessionsWatch => "sessions.watch".toList
  | .sessionsInteract => "sessions.interact".toList
  | .artifactsRead => "artifacts.read".toList
  | .artifactsComment => "artifacts.comment".toList
  | .artifactsGenerate => "artifacts.generate".toList
  | .orgWrite => "org.write".toList
  | .nodesWrite => "nodes.write".toList
  | .linksRead => "links.read".toList
  | .linksWrite => "links.write".toList
  | .attachmentsRead => "attachments.read".toList
  | .attachmentsWrite => "attachments.write".toList
  | .chatRead => "chat.read".toList
  | .chatWrite => "chat.write".toList
  | .chatExecute => "chat.execute".toList
  | .membersManage => "members.manage".toList

def viewerCapabilities : List Action :=
  [.linksRead, .attachmentsRead, .projectRead, .graphRead, .tasksRead, .tasksComment,
    .sessionsWatch, .artifactsRead, .artifactsComment, .chatRead]

def editorCapabilities : List Action :=
  [.linksRead, .linksWrite, .attachmentsRead, .attachmentsWrite, .nodesWrite, .projectRead,
    .graphRead, .tasksRead, .tasksComment, .sessionsWatch, .artifactsRead, .artifactsComment,
    .artifactsGenerate, .chatRead, .chatWrite]

def artifactsCapabilities : List Action :=
  [.projectRead, .artifactsRead, .artifactsComment, .linksRead, .attachmentsRead]

def roleCapabilities (role : Text) : List Action :=
  if role = "viewer".toList then viewerCapabilities
  else if role = "editor".toList then editorCapabilities
  else if role = "artifacts".toList then artifactsCapabilities
  else []

/-- Who asks; a plugin acts for a caller on one project. -/
inductive Identity where
  | admin
  | plugin (id project : Text) (capabilities : List Text) (caller : Identity)
  | member (name : Text) (grants : List (Text × Text)) (actions : List Text)

/-- The project of a grant for all projects. -/
def anyProject : Text := "*".toList

/-- The role that grants give for a project. -/
def roleOf (grants : List (Text × Text)) (project : Text) : Option Text :=
  ((grants.find? (·.1 = project)).or (grants.find? (·.1 = anyProject))).map (·.2)

def Identity.roleFor : Identity → Text → Option Text
  | .member _ grants _, project => roleOf grants project
  | _, _ => none

def Identity.explicitAction : Identity → Action → Bool
  | .member _ _ actions, action => actions.any (· = actionName action)
  | _, _ => false

/-! ### Requests -/

/-- Why a request is refused. -/
inductive Forbidden where
  | otherProject
  | unavailable
  | pluginLacks (capability : Text)
  | projectRequired
  | noGrant (project : Text)
  | roleLacks (role : Text) (action : Action)
deriving DecidableEq, Repr

/-- What a plugin needs for an action. -/
def pluginCapability : Action → Option Text
  | .projectRead | .graphRead | .tasksRead | .artifactsRead => some "nodes.read".toList
  | .nodesWrite => some "nodes.write".toList
  | .linksRead => some "links.read".toList
  | .linksWrite => some "links.write".toList
  | .attachmentsRead => some "attachments.read".toList
  | .attachmentsWrite => some "attachments.write".toList
  | .chatRead => some "chat.read".toList
  | .chatWrite => some "chat.write".toList
  | _ => none

def require : Identity → Option Text → Action → Except Forbidden Unit
  | .admin, _, _ => .ok ()
  | .plugin _ allowed capabilities caller, project, action =>
      if project ≠ some allowed then .error .otherProject
      else match pluginCapability action with
        | none => .error .unavailable
        | some capability =>
            if capability ∉ capabilities then .error (.pluginLacks capability)
            else require caller project action
  | .member name grants actions, project, action =>
      match project with
      | none => .error .projectRequired
      | some project =>
          match (Identity.member name grants actions).roleFor project with
          | none => .error (.noGrant project)
          | some role =>
              if action ∈ roleCapabilities role ||
                  (Identity.member name grants actions).explicitAction action then .ok ()
              else .error (.roleLacks role action)

/-- A plugin is never allowed more than its caller. -/
theorem require_caller {id allowed : Text} {capabilities : List Text} {caller : Identity}
    {project : Option Text} {action : Action}
    (h : require (.plugin id allowed capabilities caller) project action = .ok ()) :
    require caller project action = .ok () := by
  rw [require] at h
  split at h
  · cases h
  · split at h
    · cases h
    · split at h
      · cases h
      · exact h

theorem require_member {name project : Text} {grants : List (Text × Text)} {actions : List Text}
    {action : Action} :
    require (.member name grants actions) (some project) action = .ok () ↔
      ∃ role, roleOf grants project = some role ∧
        (action ∈ roleCapabilities role ∨ actionName action ∈ actions) := by
  simp only [require, Identity.roleFor, Identity.explicitAction]
  cases resolved : roleOf grants project with
  | none => simp
  | some role =>
      by_cases capable : action ∈ roleCapabilities role
      · simp [capable]
      · simp [capable]

def visibleProjectIds (identity : Identity) (all : List Text) : List Text :=
  match identity with
  | .admin => all
  | .plugin _ project _ _ => all.filter (· = project)
  | .member _ grants _ =>
      all.filter fun id => grants.any (·.1 = anyProject) || grants.any (·.1 = id)

/-! ### Events -/

inductive Topic where
  | board
  | task
  | run
  | manager
  | graph
  | daemon
  | artifact
deriving DecidableEq, Repr

/-- `Topic::ALL`. -/
def Topic.all : List Topic := [.board, .task, .run, .manager, .graph, .daemon, .artifact]

/-- The payload of an event, with the project that it names. -/
inductive EventPayload where
  | projectIndexed (projectId : Text)
  | taskUpdated (projectId : Text)
  | graphNodeCreated (projectId : Text)
  | graphNodeRevised (projectId : Text)
  | stageRequested (projectId : Text)
  | stageCompleted (projectId : Text)
  | stageFailed (projectId : Text)
  | artifactChanged (projectId : Text)
  | artifactCommentAdded (projectId : Text)
  | projectParseError (projectId : Option Text)
  | txAppended (projectId : Option Text)
  | boardRefreshed
  | runEvent
  | runLifecycle
  | managerNotice
  | graphChanged
  | daemonStarted
  | daemonRestartRequested
  | daemonHeartbeat
deriving DecidableEq, Repr

def EventPayload.projectId : EventPayload → Option Text
  | projectIndexed projectId | taskUpdated projectId | graphNodeCreated projectId
  | graphNodeRevised projectId | stageRequested projectId | stageCompleted projectId
  | stageFailed projectId | artifactChanged projectId | artifactCommentAdded projectId =>
      some projectId
  | projectParseError projectId | txAppended projectId => projectId
  | boardRefreshed | runEvent | runLifecycle | managerNotice | graphChanged | daemonStarted
  | daemonRestartRequested | daemonHeartbeat => none

/-- The topics that a role opens. -/
def roleTopics (role : Text) : List Topic :=
  (if Action.artifactsRead ∈ roleCapabilities role then [.artifact] else []) ++
    (if Action.graphRead ∈ roleCapabilities role then [.graph, .board] else []) ++
    (if Action.tasksRead ∈ roleCapabilities role then [.task, .board] else [])

def allowedTopics : Identity → List Topic
  | .admin => Topic.all
  | .plugin .. => []
  | .member _ grants _ => grants.flatMap fun grant => roleTopics grant.2

def eventVisible (identity : Identity) (topic : Topic) (payload : EventPayload) : Bool :=
  if topic ∉ allowedTopics identity then false
  else match identity, payload.projectId with
    | .admin, _ => true
    | .plugin .., _ => false
    | .member .., none => true
    | .member _ grants _, some project => grants.any fun grant =>
        grant.1 = project || grant.1 = anyProject

/-! ### Events and requests -/

/-- The read actions that open a topic. -/
def topicReads : Topic → List Action
  | .artifact => [.artifactsRead]
  | .graph => [.graphRead]
  | .task => [.tasksRead]
  | .board => [.graphRead, .tasksRead]
  | .run | .manager | .daemon => []

/-- The identity may read what events on the topic are about. -/
def MayRead (identity : Identity) (topic : Topic) (project : Text) : Prop :=
  ∃ action ∈ topicReads topic, require identity (some project) action = .ok ()

/-- The role opens the topic. -/
def Opens (role : Text) (topic : Topic) : Prop :=
  ∃ action ∈ topicReads topic, action ∈ roleCapabilities role

theorem mem_roleTopics {role : Text} {topic : Topic} :
    topic ∈ roleTopics role ↔ Opens role topic := by
  unfold roleTopics Opens
  by_cases artifacts : Action.artifactsRead ∈ roleCapabilities role <;>
    by_cases graph : Action.graphRead ∈ roleCapabilities role <;>
    by_cases tasks : Action.tasksRead ∈ roleCapabilities role <;>
    cases topic <;> simp [topicReads, artifacts, graph, tasks]

theorem roleOf_isSome {grants : List (Text × Text)} {project : Text}
    (granted : ∃ grant ∈ grants, grant.1 = project ∨ grant.1 = anyProject) :
    ∃ role, roleOf grants project = some role := by
  obtain ⟨grant, mem, named⟩ := granted
  rw [← Option.isSome_iff_exists, roleOf, Option.isSome_map, Option.isSome_or]
  refine Bool.or_eq_true _ _ ▸ ?_
  obtain exact | wildcard := named
  · exact .inl (List.find?_isSome.mpr ⟨grant, mem, decide_eq_true exact⟩)
  · exact .inr (List.find?_isSome.mpr ⟨grant, mem, decide_eq_true wildcard⟩)

/-- What a member sees of a project: a grant names it, and some role opens the topic. -/
theorem eventVisible_member {name project : Text} {grants : List (Text × Text)}
    {actions : List Text} {topic : Topic} {payload : EventPayload}
    (named : payload.projectId = some project) :
    eventVisible (.member name grants actions) topic payload = true ↔
      (∃ grant ∈ grants, Opens grant.2 topic) ∧
        ∃ grant ∈ grants, grant.1 = project ∨ grant.1 = anyProject := by
  have topics : topic ∈ allowedTopics (.member name grants actions) ↔
      ∃ grant ∈ grants, Opens grant.2 topic := by
    simp only [allowedTopics, List.mem_flatMap, mem_roleTopics]
  rw [← topics]
  unfold eventVisible
  by_cases opened : topic ∈ allowedTopics (.member name grants actions)
  · rw [if_neg (not_not.mpr opened), named, and_iff_right opened]
    simp only [List.any_eq_true, Bool.or_eq_true, decide_eq_true_eq]
  · rw [if_pos opened]
    exact ⟨nofun, fun h => absurd h.1 opened⟩

/-- **What a delivered event says about its reader.**  The project it names is visible.  An admin may
do everything there; a member may read what the topic is about, unless the role that resolves for
the project does not open the topic and another one of the member's roles does.  Plugins get no
events, and are never allowed more than their callers. -/
theorem visible_event_authorized :
    (∀ (identity : Identity) (topic : Topic) (payload : EventPayload) (project : Text),
      eventVisible identity topic payload = true → payload.projectId = some project →
        (∀ all, project ∈ all → project ∈ visibleProjectIds identity all) ∧
          ((identity = .admin ∧ ∀ action, require identity (some project) action = .ok ()) ∨
            MayRead identity topic project ∨
            ∃ name grants actions role, identity = .member name grants actions ∧
              roleOf grants project = some role ∧ ¬ Opens role topic ∧
              ∃ grant ∈ grants, Opens grant.2 topic)) ∧
      ∀ id allowed capabilities caller project action,
        require (.plugin id allowed capabilities caller) project action = .ok () →
          require caller project action = .ok () := by
  refine ⟨?_, fun _ _ _ _ _ _ => require_caller⟩
  intro identity topic payload project visible named
  cases identity with
  | admin => exact ⟨fun all mem => mem, .inl ⟨rfl, fun _ => rfl⟩⟩
  | plugin id allowed capabilities caller =>
      have none : eventVisible (.plugin id allowed capabilities caller) topic payload = false :=
        if_pos List.not_mem_nil
      rw [none] at visible
      cases visible
  | member name grants actions =>
      obtain ⟨opened, granted⟩ := (eventVisible_member named).mp visible
      obtain ⟨role, resolved⟩ := roleOf_isSome granted
      refine ⟨fun all mem => ?_, .inr ?_⟩
      · obtain ⟨grant, there, exact | wildcard⟩ := granted
        · refine List.mem_filter.mpr ⟨mem, Bool.or_eq_true_iff.mpr (.inr ?_)⟩
          exact List.any_eq_true.mpr ⟨grant, there, decide_eq_true exact⟩
        · refine List.mem_filter.mpr ⟨mem, Bool.or_eq_true_iff.mpr (.inl ?_)⟩
          exact List.any_eq_true.mpr ⟨grant, there, decide_eq_true wildcard⟩
      · by_cases own : Opens role topic
        · obtain ⟨action, tied, capable⟩ := own
          exact .inl ⟨action, tied, require_member.mpr ⟨role, resolved, .inl capable⟩⟩
        · exact .inr ⟨name, grants, actions, role, rfl, resolved, own, opened⟩

/-- `visible_event_authorized` for an artifact of a member's own project. -/
theorem visible_event_authorized_sample :
    "a".toList ∈ visibleProjectIds
      (.member "alice".toList [("a".toList, "artifacts".toList)] []) ["b".toList, "a".toList] :=
  (visible_event_authorized.1 (.member "alice".toList [("a".toList, "artifacts".toList)] [])
    .artifact (.artifactChanged "a".toList) "a".toList (by decide) rfl).1 _ (by decide)

/-- A viewer of one project gets the graph events of another one whose artifacts alone are open. -/
theorem visible_event_authorized_fails :
    ¬ ∀ (identity : Identity) (topic : Topic) (payload : EventPayload) (project : Text),
      eventVisible identity topic payload = true → payload.projectId = some project →
        (∀ all, project ∈ all → project ∈ visibleProjectIds identity all) ∧
          MayRead identity topic project := by
  intro all
  have read := (all (.member "alice".toList
    [("a".toList, "viewer".toList), ("b".toList, "artifacts".toList)] []) .graph
    (.graphNodeCreated "b".toList) "b".toList (by decide) rfl).2
  obtain ⟨action, tied, allowed⟩ := read
  rw [List.mem_singleton.mp tied] at allowed
  exact absurd allowed (by decide)

end Orgasmic
