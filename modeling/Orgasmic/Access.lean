import Orgasmic.PluginLeases

/-! # Access

The requests that reach the daemon, in any order, while `members.org` is edited under it.

* **Routes.** `identityMiddleware` resolves who sends a request and whether the route is one for them.
* **Runs.** `step` handles one event; `Run` relates a state to the events that led to it, each with who
  sent it and what it answered.
* **Stores.** `Traced`: what the stores of tickets, sessions and leases hold is what the events of the
  run put there (`traced_run`). -/

namespace Orgasmic

open Text
open Std (TreeMap)

namespace Access

/-! ### Routes -/

/-- A request that is authorized; `matched` is the template of its route. -/
structure Request where
  method : Text
  path : Text
  matched : Option Text
  query : Option Text
  headers : Headers

/-- `node_services::ROUTES`. -/
def serviceRoutes : List (Text × Text) :=
  [("GET".toList, "/links".toList), ("POST".toList, "/links".toList),
    ("GET".toList, "/attachments".toList), ("POST".toList, "/attachments/uploads".toList),
    ("GET".toList, "/attachments/uploads/:id".toList),
    ("PUT".toList, "/attachments/uploads/:id".toList),
    ("DELETE".toList, "/attachments/uploads/:id".toList),
    ("POST".toList, "/attachments/uploads/:id/finish".toList),
    ("GET".toList, "/attachments/:node/:id/:revision/content".toList),
    ("HEAD".toList, "/attachments/:node/:id/:revision/content".toList)]

/-- `conversations::ROUTES`. -/
def conversationRoutes : List (Text × Text) :=
  [("POST".toList, "/conversations".toList), ("POST".toList, "/conversations/:id/input".toList)]

/-- The routes for a plugin, those of the node services apart. -/
def pluginRoutes : List (Text × Text) :=
  [("GET".toList, "/org/node".toList), ("GET".toList, "/graph/nodes".toList),
    ("GET".toList, "/node-types".toList), ("POST".toList, "/org/node".toList),
    ("POST".toList, "/graph/nodes".toList), ("POST".toList, "/org/node/:id/edit".toList),
    ("POST".toList, "/org/node/:id/delete".toList), ("POST".toList, "/id/mint".toList)]

/-- `MEMBER_ALLOWED_ROUTES`. -/
def memberAllowedRoutes : List (Text × Text) :=
  [("GET".toList, "/plugins/:id/ui/:project/*asset".toList), ("GET".toList, "/org/node".toList),
    ("POST".toList, "/org/node".toList), ("POST".toList, "/org/node/:id/edit".toList),
    ("POST".toList, "/org/node/:id/delete".toList), ("GET".toList, "/board".toList),
    ("GET".toList, "/me".toList), ("GET".toList, "/projects/:id".toList),
    ("GET".toList, "/projects/:id/tasks".toList),
    ("GET".toList, "/projects/:id/tasks/:task_id".toList),
    ("GET".toList, "/tasks/:id/activity".toList), ("GET".toList, "/tasks/:id/dispatches".toList),
    ("POST".toList, "/tasks/:id/comments".toList),
    ("POST".toList, "/tasks/:id/comments/:entry_id/edit".toList),
    ("POST".toList, "/tasks/:id/comments/:entry_id/delete".toList),
    ("GET".toList, "/graph/nodes".toList), ("GET".toList, "/node-types".toList),
    ("GET".toList, "/plugins".toList), ("POST".toList, "/plugins/:id/run".toList),
    ("POST".toList, "/plugins/run/revoke".toList), ("POST".toList, "/id/mint".toList),
    ("POST".toList, "/graph/nodes".toList), ("GET".toList, "/graph/edges".toList),
    ("GET".toList, "/decisions".toList), ("GET".toList, "/decisions/:id".toList),
    ("GET".toList, "/glossary".toList), ("GET".toList, "/glossary/:id".toList),
    ("GET".toList, "/artifacts".toList), ("GET".toList, "/artifacts/:id".toList),
    ("POST".toList, "/artifacts/generate".toList),
    ("POST".toList, "/artifacts/:id/regenerate".toList),
    ("POST".toList, "/artifacts/:id/comments".toList),
    ("POST".toList, "/artifacts/:id/comments/:cid/resolve".toList), ("GET".toList, "/ws".toList),
    ("GET".toList, "/ws/tmux/:run_id".toList), ("GET".toList, "/ws/transcript/:run_id".toList),
    ("GET".toList, "/runs/:id".toList), ("GET".toList, "/runs/live".toList),
    ("POST".toList, "/runs/:id/release".toList), ("POST".toList, "/manager/chat/launch".toList)]

def memberRouteAllowed (method pattern : Text) : Bool :=
  (memberAllowedRoutes ++ serviceRoutes ++ conversationRoutes).contains (method, pattern)

/-- The template, or the path where no route matched, without the prefix of the nest. -/
def Request.pattern (req : Request) (strict : Bool) : Text :=
  let raw := req.matched.getD req.path
  match "/api".toList.isPrefixOf? raw with
  | none => raw
  | some rest => if strict && rest.head? ≠ some '/' then raw else rest

/-- A bearer token of a plugin, however the scheme is spelt. -/
def pluginToken (headers : Headers) : Option Text :=
  (((headers.authorization.bind (splitOnce ' ')).filter fun p =>
    toAsciiLowercase p.1 = "bearer".toList).map fun p => trim p.2).filter fun token =>
      "plugin-".toList.isPrefixOf token

def Request.queryTokenAllowed (req : Request) : Bool :=
  req.path = "/api/ws".toList || "/api/ws/".toList.isPrefixOf req.path || req.path = "/ws".toList ||
    "/ws/".toList.isPrefixOf req.path

/-- Whether an identity may reach the route at all. -/
def routeAllowed (identity : Identity) (req : Request) : Bool :=
  match identity with
  | .admin => true
  | .plugin .. =>
      pluginRoutes.contains (req.method, req.pattern false) ||
        serviceRoutes.contains (req.method, req.pattern false)
  | .member .. => memberRouteAllowed req.method (req.pattern true)

/-! ### The daemon -/

/-- The readings of the two clocks. -/
structure Clock where
  utc : Utc
  instant : ℤ

structure Daemon (Rest : Type) where
  auth : AuthState
  plugins : PluginRegistry Rest
  /-- The file is edited by the command line, without the daemon. -/
  members : MembersFile

def Daemon.new {Rest : Type} (token : Text) : Daemon Rest := ⟨AuthState.new token, .new, none⟩

section

variable (sha256 : Bytes → Bytes) {Rest : Type} [DecidableEq Rest]

/-- Who sends a request. -/
def resolve (s : Daemon Rest) (clock : Clock) (req : Request) : Option Identity × AuthState :=
  match pluginToken req.headers with
  | some token => (s.plugins.identity sha256 clock.instant s.members token, s.auth)
  | none =>
      let (identity?, auth) := s.auth.resolveIdentity sha256 clock.utc req.headers s.members
      match identity? with
      | some identity => (some identity, auth)
      | none =>
          if req.queryTokenAllowed && auth.checkQueryToken req.query then (some .admin, auth)
          else (none, auth)

/-- The identity that the handler gets, if the request reaches it. -/
def identityMiddleware (s : Daemon Rest) (clock : Clock) (req : Request) :
    Option Identity × Daemon Rest :=
  let (identity?, auth) := resolve sha256 s clock req
  (identity?.filter fun identity => routeAllowed identity req, { s with auth })

/-! ### Events -/

inductive Event (Rest : Type) where
  | uiTicket (headers : Headers) (ticket : Text)
  | uiSession (ticket session : Text)
  | login (token session : Text)
  | pluginRun (headers : Headers) (lease : PluginRegistry.LeaseRequest Rest)
  | pluginRevoke (headers : Headers) (lease : Text)
  | reconcile (build : Text → Option (ActivePlugins Rest))
  | members (call : MemberCall)
  | request (req : Request)

inductive Reply where
  | refused
  | ticket (ticket : Text)
  | session (session : Text)
  | memberSession (name session : Text)
  | lease (lease token : Text)
  | ok
deriving DecidableEq

/-- What happened: the principal is who the handler was told that the request is from. -/
structure Entry (Rest : Type) where
  clock : Clock
  event : Event Rest
  principal : Option Identity
  reply : Reply

/-- The request behind `POST /plugins/:id/run`. -/
def runRequest (headers : Headers) (id : Text) : Request :=
  ⟨"POST".toList, "/api/plugins/".toList ++ id ++ "/run".toList, some "/api/plugins/:id/run".toList,
    none, headers⟩

/-- The request behind `POST /plugins/run/revoke`. -/
def revokeRequest (headers : Headers) : Request :=
  ⟨"POST".toList, "/api/plugins/run/revoke".toList, some "/api/plugins/run/revoke".toList, none,
    headers⟩

/-- `post_ui_session`. -/
def postUiSession (s : Daemon Rest) (clock : Clock) (headers : Headers) (ticket : Text) :
    Reply × Daemon Rest :=
  if s.auth.check headers then
    (.ticket ticket, { s with auth := s.auth.createUiTicket clock.utc ticket })
  else (.refused, s)

/-- `get_app_session`. -/
def getAppSession (s : Daemon Rest) (clock : Clock) (ticket session : Text) : Reply × Daemon Rest :=
  let (redeemed, auth) := s.auth.redeemUiTicket clock.utc ticket session
  (match redeemed with
    | some session => .session session
    | none => .refused, { s with auth })

/-- `post_login`. -/
def postLogin (s : Daemon Rest) (clock : Clock) (token session : Text) : Reply × Daemon Rest :=
  match (findMemberByToken sha256 s.members token).toOption.bind id with
  | none => (.refused, s)
  | some entry =>
      (.memberSession entry.name session,
        { s with auth := s.auth.createMemberSession clock.utc entry.name session })

/-- `post_plugin_run`, for a project that is loaded. -/
def postPluginRun (s : Daemon Rest) (clock : Clock) (caller : Identity)
    (req : PluginRegistry.LeaseRequest Rest) : Reply × Daemon Rest :=
  match require caller (some req.project) .projectRead with
  | .error _ => (.refused, s)
  | .ok () =>
      let (issued, plugins) := s.plugins.issue sha256 clock.instant req caller
      (match issued with
        | .ok (lease, token) => .lease lease token
        | .error _ => .refused, { s with plugins })

/-- `post_plugin_run_revoke`. -/
def postPluginRunRevoke (s : Daemon Rest) (caller : Identity) (lease : Text) : Reply × Daemon Rest :=
  let (revoked, plugins) := s.plugins.revoke lease caller
  (match revoked with
    | .ok () => .ok
    | .error _ => .refused, { s with plugins })

/-- A request behind the middleware. -/
def behind (s : Daemon Rest) (clock : Clock) (event : Event Rest) (req : Request)
    (handler : Daemon Rest → Identity → Reply × Daemon Rest) : Entry Rest × Daemon Rest :=
  let (principal, s) := identityMiddleware sha256 s clock req
  match principal with
  | none => (⟨clock, event, none, .refused⟩, s)
  | some identity =>
      let (reply, s) := handler s identity
      (⟨clock, event, some identity, reply⟩, s)

def step (s : Daemon Rest) (clock : Clock) (event : Event Rest) : Entry Rest × Daemon Rest :=
  match event with
  | .uiTicket headers ticket =>
      let (reply, s) := postUiSession s clock headers ticket
      (⟨clock, event, none, reply⟩, s)
  | .uiSession ticket session =>
      let (reply, s) := getAppSession s clock ticket session
      (⟨clock, event, none, reply⟩, s)
  | .login token session =>
      let (reply, s) := postLogin sha256 s clock token session
      (⟨clock, event, none, reply⟩, s)
  | .pluginRun headers lease =>
      behind sha256 s clock event (runRequest headers lease.id) fun s identity =>
        postPluginRun sha256 s clock identity lease
  | .pluginRevoke headers lease =>
      behind sha256 s clock event (revokeRequest headers) fun s identity =>
        postPluginRunRevoke s identity lease
  | .reconcile build =>
      (⟨clock, event, none, .ok⟩, { s with plugins := (s.plugins.reconcile clock.instant build).2 })
  | .members call =>
      (⟨clock, event, none, .ok⟩, { s with members := (call.run sha256 s.members).2 })
  | .request req => behind sha256 s clock event req fun s _ => (.ok, s)

/-- The request that comes through the middleware. -/
def Event.sent {Rest : Type} : Event Rest → Option Request
  | .pluginRun headers lease => some (runRequest headers lease.id)
  | .pluginRevoke headers _ => some (revokeRequest headers)
  | .request req => some req
  | _ => none

def Event.memberCall {Rest : Type} : Event Rest → Option MemberCall
  | .members call => some call
  | _ => none

/-- A state and the events that led to it from the start of the daemon. -/
inductive Run (token : Text) : Daemon Rest → List (Entry Rest) → Prop
  | start : Run token (.new token) []
  | step {s : Daemon Rest} {past : List (Entry Rest)} (h : Run token s past) (clock : Clock)
      (event : Event Rest) :
      Run token (step sha256 s clock event).2 (past ++ [(step sha256 s clock event).1])

/-- What happens when these events reach the daemon one after the other. -/
def handle (s : Daemon Rest) : List (Clock × Event Rest) → List (Entry Rest) × Daemon Rest
  | [] => ([], s)
  | (clock, event) :: events =>
      let (e, s) := step sha256 s clock event
      let (es, s) := handle s events
      (e :: es, s)

end

/-! ### What the stores hold -/

section

variable {sha256 : Bytes → Bytes} {Rest : Type}

namespace Entry

/-- What an event does to the tickets. -/
def ticketOps (e : Entry Rest) : List (Expiring.Op Text Utc) :=
  match e.event, e.reply with
  | .uiTicket _ _, .ticket ticket => [.put ticket (e.clock.utc + uiTicketTtl)]
  | .uiSession ticket _, _ => [.take ticket]
  | _, _ => []

/-- What an event does to the sessions of the admin. -/
def sessionOps (e : Entry Rest) : List (Expiring.Op Text Utc) :=
  match e.event, e.reply with
  | .uiSession _ _, .session session => [.put session (e.clock.utc + uiSessionTtl)]
  | _, _ => []

/-- What an event does to the sessions of members. -/
def memberOps (e : Entry Rest) : List (Expiring.Op Text MemberSession) :=
  match e.event, e.reply with
  | .login _ _, .memberSession name session =>
      [.put session ⟨name, e.clock.utc + memberSessionTtl⟩]
  | _, _ => []

end Entry

/-- The lease was handed out in this past, and it was not revoked since. -/
def LeaseFrom (sha256 : Bytes → Bytes) (past : List (Entry Rest)) (lease : Text)
    (run : RunLease Rest) : Prop :=
  ∃ pre e post headers req caller, past = pre ++ e :: post ∧ e.event = .pluginRun headers req ∧
    e.principal = some caller ∧ e.reply = .lease lease req.token ∧ req.lease = lease ∧
      PluginRegistry.Granted sha256 e.clock.instant req caller run ∧
        ∀ e' ∈ post, ∀ headers, e'.event = .pluginRevoke headers lease → e'.reply ≠ .ok

/-- The stores hold what the events of the past put there. -/
structure Traced (sha256 : Bytes → Bytes) (token : Text) (s : Daemon Rest) (past : List (Entry Rest)) :
    Prop where
  token : s.auth.token = token
  tickets : Expiring.Holds id s.auth.uiSessions.tickets (past.flatMap Entry.ticketOps)
    (past.map fun e => e.clock.utc)
  sessions : Expiring.Holds id s.auth.uiSessions.sessions (past.flatMap Entry.sessionOps)
    (past.map fun e => e.clock.utc)
  memberSessions : Expiring.Holds MemberSession.expiresAt s.auth.memberSessions
    (past.flatMap Entry.memberOps) (past.map fun e => e.clock.utc)
  leases : ∀ lease run, s.plugins.leases[lease]? = some run → LeaseFrom sha256 past lease run

/-- The sessions are the ones there were, or those of them that are not void. -/
structure Pruned (now : Utc) (auth auth' : AuthState) : Prop where
  token : auth'.token = auth.token
  uiSessions : auth'.uiSessions = auth.uiSessions ∨ auth'.uiSessions = auth.uiSessions.prune now
  memberSessions : auth'.memberSessions = auth.memberSessions ∨
    auth'.memberSessions = pruneMembers now auth.memberSessions

theorem pruned_refl (now : Utc) (auth : AuthState) : Pruned now auth auth := ⟨rfl, .inl rfl, .inl rfl⟩

variable (sha256) in
theorem pruned_resolveIdentity (auth : AuthState) (now : Utc) (headers : Headers)
    (members : MembersFile) : Pruned now auth (auth.resolveIdentity sha256 now headers members).2 := by
  have hadmin : Pruned now auth (auth.checkHeaders now headers).2 ∧
      (auth.checkHeaders now headers).2.memberSessions = auth.memberSessions := by
    rw [AuthState.checkHeaders, AuthState.checkUiSession]
    split_ifs
    · exact ⟨pruned_refl now auth, rfl⟩
    · split
      · exact ⟨pruned_refl now auth, rfl⟩
      · exact ⟨⟨rfl, .inr rfl, .inl rfl⟩, rfl⟩
  obtain ⟨⟨htoken, hui, -⟩, hmembers⟩ := hadmin
  rw [AuthState.resolveIdentity]
  generalize auth.checkHeaders now headers = checked at htoken hui hmembers ⊢
  obtain ⟨admin, auth'⟩ := checked
  dsimp only at htoken hui hmembers ⊢
  have hmember : (auth'.checkMemberSession now headers).2.token = auth'.token ∧
      (auth'.checkMemberSession now headers).2.uiSessions = auth'.uiSessions ∧
        ((auth'.checkMemberSession now headers).2.memberSessions = auth'.memberSessions ∨
          (auth'.checkMemberSession now headers).2.memberSessions =
            pruneMembers now auth'.memberSessions) := by
    rw [AuthState.checkMemberSession]
    split
    · exact ⟨rfl, rfl, .inl rfl⟩
    · exact ⟨rfl, rfl, .inr rfl⟩
  rw [htoken, hmembers] at hmember
  split_ifs
  · exact ⟨htoken, hui, .inl hmembers⟩
  · obtain ⟨htoken', hui', hmembers'⟩ := hmember
    exact ⟨htoken', by rw [← hui'] at hui; exact hui, hmembers'⟩

end

/-! ### Steps -/

section

variable {sha256 : Bytes → Bytes} {Rest : Type} [DecidableEq Rest] {token : Text} {s s' : Daemon Rest}
  {past : List (Entry Rest)} {clock : Clock}

variable (sha256) in
theorem pruned_resolve (s : Daemon Rest) (clock : Clock) (req : Request) :
    Pruned clock.utc s.auth (resolve sha256 s clock req).2 := by
  have hresolve := pruned_resolveIdentity sha256 s.auth clock.utc req.headers s.members
  unfold resolve
  split
  · exact pruned_refl _ _
  · generalize s.auth.resolveIdentity sha256 clock.utc req.headers s.members = resolved at hresolve ⊢
    obtain ⟨identity?, auth⟩ := resolved
    cases identity? with
    | some identity => exact hresolve
    | none =>
        dsimp only
        split_ifs
        · exact hresolve
        · exact hresolve

variable (sha256) in
/-- **A request behind the middleware** is refused, or its handler is told who sends it. -/
theorem behind_spec (s : Daemon Rest) (clock : Clock) (event : Event Rest) (req : Request)
    (handler : Daemon Rest → Identity → Reply × Daemon Rest) : ∃ auth, Pruned clock.utc s.auth auth ∧
      (behind sha256 s clock event req handler =
          (⟨clock, event, none, .refused⟩, { s with auth }) ∨
        ∃ identity, (resolve sha256 s clock req).1 = some identity ∧ routeAllowed identity req = true ∧
          behind sha256 s clock event req handler =
            (⟨clock, event, some identity, (handler { s with auth } identity).1⟩,
              (handler { s with auth } identity).2)) := by
  have hpruned := pruned_resolve sha256 s clock req
  rw [behind, identityMiddleware]
  generalize resolve sha256 s clock req = resolved at hpruned ⊢
  obtain ⟨identity?, auth⟩ := resolved
  refine ⟨auth, hpruned, ?_⟩
  cases identity? with
  | none => exact .inl rfl
  | some identity =>
      dsimp only
      by_cases hroute : routeAllowed identity req = true
      · rw [Option.filter_some, if_pos hroute]
        exact .inr ⟨identity, rfl, hroute, rfl⟩
      · rw [Option.filter_some, if_neg hroute]
        exact .inl rfl

omit [DecidableEq Rest] in
theorem LeaseFrom.concat {lease : Text} {run : RunLease Rest} (h : LeaseFrom sha256 past lease run)
    {e : Entry Rest} (he : ∀ headers, e.event = .pluginRevoke headers lease → e.reply ≠ .ok) :
    LeaseFrom sha256 (past ++ [e]) lease run := by
  obtain ⟨pre, issued, post, headers, req, caller, rfl, hevent, hprincipal, hreply, hlease, hgranted,
    hkept⟩ := h
  refine ⟨pre, issued, post ++ [e], headers, req, caller, by simp, hevent, hprincipal, hreply, hlease,
    hgranted, ?_⟩
  exact List.forall_mem_append.mpr ⟨hkept, List.forall_mem_singleton.mpr he⟩

namespace Traced

variable (h : Traced sha256 token s past)
include h

omit [DecidableEq Rest] in
/-- The stores, pruned at the time of the next event or not. -/
theorem later (e : Entry Rest) :
    Expiring.Holds id s.auth.uiSessions.tickets (past.flatMap Entry.ticketOps)
        ((past ++ [e]).map fun e => e.clock.utc) ∧
      Expiring.Holds id s.auth.uiSessions.sessions (past.flatMap Entry.sessionOps)
        ((past ++ [e]).map fun e => e.clock.utc) ∧
      Expiring.Holds MemberSession.expiresAt s.auth.memberSessions (past.flatMap Entry.memberOps)
        ((past ++ [e]).map fun e => e.clock.utc) ∧
      e.clock.utc ∈ (past ++ [e]).map fun e => e.clock.utc := by
  have hold : ∀ t ∈ past.map (fun e => e.clock.utc), t ∈ (past ++ [e]).map fun e => e.clock.utc := by
    intro t ht
    rw [List.map_append]
    exact List.mem_append_left _ ht
  exact ⟨h.tickets.mono hold, h.sessions.mono hold, h.memberSessions.mono hold, by simp⟩

omit [DecidableEq Rest] h in
/-- One more event. -/
theorem of_ops {e : Entry Rest} (htoken : s'.auth.token = token)
    (htickets : Expiring.Holds id s'.auth.uiSessions.tickets
      (past.flatMap Entry.ticketOps ++ e.ticketOps) ((past ++ [e]).map fun e => e.clock.utc))
    (hsessions : Expiring.Holds id s'.auth.uiSessions.sessions
      (past.flatMap Entry.sessionOps ++ e.sessionOps) ((past ++ [e]).map fun e => e.clock.utc))
    (hmembers : Expiring.Holds MemberSession.expiresAt s'.auth.memberSessions
      (past.flatMap Entry.memberOps ++ e.memberOps) ((past ++ [e]).map fun e => e.clock.utc))
    (hleases : ∀ lease run, s'.plugins.leases[lease]? = some run →
      LeaseFrom sha256 (past ++ [e]) lease run) : Traced sha256 token s' (past ++ [e]) := by
  refine ⟨htoken, ?_, ?_, ?_, hleases⟩
  · rwa [List.flatMap_append, List.flatMap_singleton]
  · rwa [List.flatMap_append, List.flatMap_singleton]
  · rwa [List.flatMap_append, List.flatMap_singleton]

omit [DecidableEq Rest] in
/-- An event that puts and takes nothing, but may prune the sessions. -/
theorem pruned {e : Entry Rest} (hpruned : Pruned e.clock.utc s.auth s'.auth)
    (htickets : e.ticketOps = []) (hsessions : e.sessionOps = []) (hmembers : e.memberOps = [])
    (hleases : ∀ lease run, s'.plugins.leases[lease]? = some run →
      LeaseFrom sha256 (past ++ [e]) lease run) : Traced sha256 token s' (past ++ [e]) := by
  obtain ⟨ht, hs, hm, hnow⟩ := h.later e
  refine of_ops (hpruned.token.trans h.token) ?_ ?_ ?_ hleases
  · rw [htickets, List.append_nil]
    obtain hui | hui := hpruned.uiSessions
    · exact hui ▸ ht
    · exact hui ▸ ht.prune hnow
  · rw [hsessions, List.append_nil]
    obtain hui | hui := hpruned.uiSessions
    · exact hui ▸ hs
    · exact hui ▸ hs.prune hnow
  · rw [hmembers, List.append_nil]
    obtain hmember | hmember := hpruned.memberSessions
    · exact hmember ▸ hm
    · exact hmember ▸ hm.prune hnow

omit [DecidableEq Rest] in
/-- Leases after an event that is no revocation, but may drop some. -/
theorem leases_fewer {e : Entry Rest}
    (hfewer : ∀ (lease : Text) (run : RunLease Rest),
      s'.plugins.leases[lease]? = some run → s.plugins.leases[lease]? = some run)
    (he : ∀ headers lease, e.event = .pluginRevoke headers lease → e.reply ≠ .ok) :
    ∀ lease run, s'.plugins.leases[lease]? = some run → LeaseFrom sha256 (past ++ [e]) lease run :=
  fun lease run hrun =>
    (h.leases lease run (hfewer lease run hrun)).concat fun headers => he headers lease

omit [DecidableEq Rest] in
theorem leases_same {e : Entry Rest} (hplugins : s'.plugins.leases = s.plugins.leases)
    (he : ∀ headers lease, e.event = .pluginRevoke headers lease → e.reply ≠ .ok) :
    ∀ lease run, s'.plugins.leases[lease]? = some run → LeaseFrom sha256 (past ++ [e]) lease run :=
  h.leases_fewer (fun _ _ hrun => hplugins ▸ hrun) he

theorem uiTicket (headers : Headers) (ticket : Text) :
    Traced sha256 token (step sha256 s clock (.uiTicket headers ticket)).2
      (past ++ [(step sha256 s clock (.uiTicket headers ticket)).1]) := by
  rw [step, postUiSession]
  by_cases hcheck : s.auth.check headers = true
  · rw [if_pos hcheck]
    obtain ⟨ht, hs, hm, hnow⟩ := h.later ⟨clock, .uiTicket headers ticket, none, .ticket ticket⟩
    exact of_ops h.token ((ht.prune hnow).put ticket _) ((List.append_nil _).symm ▸ hs.prune hnow)
      ((List.append_nil _).symm ▸ hm) (h.leases_same rfl nofun)
  · rw [if_neg hcheck]
    exact h.pruned (pruned_refl _ _) rfl rfl rfl (h.leases_same rfl nofun)

theorem uiSession (ticket session : Text) :
    Traced sha256 token (step sha256 s clock (.uiSession ticket session)).2
      (past ++ [(step sha256 s clock (.uiSession ticket session)).1]) := by
  rw [step, getAppSession, AuthState.redeemUiTicket]
  cases hfound : (s.auth.uiSessions.prune clock.utc).tickets[ticket]? with
  | none =>
      dsimp only
      obtain ⟨ht, hs, hm, hnow⟩ := h.later ⟨clock, .uiSession ticket session, none, .refused⟩
      exact of_ops h.token ((ht.prune hnow).take_none hfound)
        ((List.append_nil _).symm ▸ hs.prune hnow) ((List.append_nil _).symm ▸ hm) (h.leases_same rfl nofun)
  | some expiresAt =>
      have hlive : ¬expiresAt ≤ clock.utc := not_le.mpr (Expiring.found_prune id hfound).2
      dsimp only
      rw [if_neg hlive]
      obtain ⟨ht, hs, hm, hnow⟩ :=
        h.later ⟨clock, .uiSession ticket session, none, .session session⟩
      exact of_ops h.token ((ht.prune hnow).take ticket) ((hs.prune hnow).put session _)
        ((List.append_nil _).symm ▸ hm) (h.leases_same rfl nofun)

theorem login (bearer session : Text) :
    Traced sha256 token (step sha256 s clock (.login bearer session)).2
      (past ++ [(step sha256 s clock (.login bearer session)).1]) := by
  rw [step, postLogin]
  cases (findMemberByToken sha256 s.members bearer).toOption.bind id with
  | none => exact h.pruned (pruned_refl _ _) rfl rfl rfl (h.leases_same rfl nofun)
  | some entry =>
      obtain ⟨ht, hs, hm, hnow⟩ :=
        h.later ⟨clock, .login bearer session, none, .memberSession entry.name session⟩
      exact of_ops h.token ((List.append_nil _).symm ▸ ht) ((List.append_nil _).symm ▸ hs)
        ((hm.prune hnow).put session _) (h.leases_same rfl nofun)

theorem pluginRun (headers : Headers) (req : PluginRegistry.LeaseRequest Rest) :
    Traced sha256 token (step sha256 s clock (.pluginRun headers req)).2
      (past ++ [(step sha256 s clock (.pluginRun headers req)).1]) := by
  obtain ⟨auth, hpruned, hbehind⟩ := behind_spec sha256 s clock (.pluginRun headers req)
    (runRequest headers req.id) fun s identity => postPluginRun sha256 s clock identity req
  rw [step]
  obtain hbehind | ⟨caller, -, -, hbehind⟩ := hbehind
  · rw [hbehind]
    exact h.pruned hpruned rfl rfl rfl (h.leases_same rfl nofun)
  · rw [hbehind, postPluginRun]
    cases require caller (some req.project) .projectRead with
    | error e => exact h.pruned hpruned rfl rfl rfl (h.leases_same rfl nofun)
    | ok u =>
        have hissue := s.plugins.issue_spec sha256 clock.instant caller req
        dsimp only
        generalize s.plugins.issue sha256 clock.instant req caller = issued at hissue ⊢
        obtain ⟨issued, plugins⟩ := issued
        dsimp only at hissue ⊢
        obtain ⟨e, rfl, hleases⟩ | ⟨run, rfl, hgranted, -, hleases⟩ := hissue
        · refine h.pruned hpruned rfl rfl rfl (h.leases_fewer ?_ nofun)
          intro lease run hrun
          dsimp only at hrun
          obtain hleases | hleases := hleases
          · rwa [hleases] at hrun
          · rw [hleases] at hrun
            exact (Expiring.found_prune _ hrun).1
        · refine h.pruned hpruned rfl rfl rfl fun lease found hfound => ?_
          dsimp only at hfound
          rw [hleases, Expiring.getElem?_insert] at hfound
          split_ifs at hfound with hlease
          · obtain rfl := Option.some.inj hfound
            exact ⟨past, _, [], headers, req, caller, rfl, rfl, rfl, hlease ▸ rfl, hlease, hgranted,
              by simp⟩
          · exact (h.leases _ _ (Expiring.found_prune _ hfound).1).concat nofun

theorem pluginRevoke (headers : Headers) (lease : Text) :
    Traced sha256 token (step sha256 s clock (.pluginRevoke headers lease)).2
      (past ++ [(step sha256 s clock (.pluginRevoke headers lease)).1]) := by
  obtain ⟨auth, hpruned, hbehind⟩ := behind_spec sha256 s clock (.pluginRevoke headers lease)
    (revokeRequest headers) fun s identity => postPluginRunRevoke s identity lease
  rw [step]
  obtain hbehind | ⟨caller, -, -, hbehind⟩ := hbehind
  · rw [hbehind]
    exact h.pruned hpruned rfl rfl rfl (h.leases_same rfl fun _ _ _ => nofun)
  · rw [hbehind, postPluginRunRevoke]
    have hrevoke := s.plugins.revoke_spec caller lease
    dsimp only
    generalize s.plugins.revoke lease caller = revoked at hrevoke ⊢
    obtain ⟨revoked, plugins⟩ := revoked
    dsimp only at hrevoke ⊢
    obtain ⟨rfl, rfl⟩ | ⟨rfl, rfl, -⟩ := hrevoke
    · exact h.pruned hpruned rfl rfl rfl (h.leases_same rfl fun _ _ _ => nofun)
    · refine h.pruned hpruned rfl rfl rfl fun found run hfound => ?_
      dsimp only at hfound
      rw [Expiring.getElem?_erase] at hfound
      split_ifs at hfound with hother
      refine (h.leases _ _ hfound).concat fun headers hevent => ?_
      exact absurd (Event.pluginRevoke.inj hevent).2 hother

theorem reconcile (build : Text → Option (ActivePlugins Rest)) :
    Traced sha256 token (step sha256 s clock (.reconcile build)).2
      (past ++ [(step sha256 s clock (.reconcile build)).1]) := by
  refine h.pruned (pruned_refl _ _) rfl rfl rfl (h.leases_fewer (fun lease run hrun => ?_) nofun)
  replace hrun : (s.plugins.reconcile clock.instant build).2.leases[lease]? = some run := hrun
  obtain hsame | ⟨f, hfilter⟩ := s.plugins.reconcile_leases clock.instant build
  · rwa [hsame] at hrun
  · rw [hfilter, TreeMap.getElem?_filter', Option.filter_eq_some_iff] at hrun
    exact hrun.1

theorem members (call : MemberCall) :
    Traced sha256 token (step sha256 s clock (.members call)).2
      (past ++ [(step sha256 s clock (.members call)).1]) :=
  h.pruned (pruned_refl _ _) rfl rfl rfl (h.leases_same rfl nofun)

theorem request (req : Request) :
    Traced sha256 token (step sha256 s clock (.request req)).2
      (past ++ [(step sha256 s clock (.request req)).1]) := by
  obtain ⟨auth, hpruned, hbehind⟩ := behind_spec sha256 s clock (.request req) req
    fun s _ => (.ok, s)
  rw [step]
  obtain hbehind | ⟨caller, -, -, hbehind⟩ := hbehind
  · rw [hbehind]
    exact h.pruned hpruned rfl rfl rfl (h.leases_same rfl nofun)
  · rw [hbehind]
    exact h.pruned hpruned rfl rfl rfl (h.leases_same rfl nofun)

/-- **One event**, whatever it is. -/
theorem step (event : Event Rest) :
    Traced sha256 token (Access.step sha256 s clock event).2
      (past ++ [(Access.step sha256 s clock event).1]) := by
  cases event with
  | uiTicket headers ticket => exact h.uiTicket headers ticket
  | uiSession ticket session => exact h.uiSession ticket session
  | login bearer session => exact h.login bearer session
  | pluginRun headers lease => exact h.pluginRun headers lease
  | pluginRevoke headers lease => exact h.pluginRevoke headers lease
  | reconcile build => exact h.reconcile build
  | members call => exact h.members call
  | request req => exact h.request req

end Traced

omit [DecidableEq Rest] in
theorem traced_new (token : Text) : Traced sha256 token (.new token : Daemon Rest) [] :=
  ⟨rfl, .empty _, .empty _, .empty _, fun _ _ h => by simp [Daemon.new, PluginRegistry.new] at h⟩

/-- **The stores, over every run.** -/
theorem traced_run (h : Run sha256 token s past) : Traced sha256 token s past := by
  induction h with
  | start => exact traced_new token
  | step _ clock event ih => exact ih.step event

variable (sha256) in
theorem step_clock (s : Daemon Rest) (clock : Clock) (event : Event Rest) :
    (step sha256 s clock event).1.clock = clock ∧ (step sha256 s clock event).1.event = event := by
  have hbehind (req : Request) (handler : Daemon Rest → Identity → Reply × Daemon Rest) :
      (behind sha256 s clock event req handler).1.clock = clock ∧
        (behind sha256 s clock event req handler).1.event = event := by
    obtain ⟨auth, -, h | ⟨identity, -, -, h⟩⟩ := behind_spec sha256 s clock event req handler
    · rw [h]
      exact ⟨rfl, rfl⟩
    · rw [h]
      exact ⟨rfl, rfl⟩
  cases event with
  | uiTicket headers ticket => exact ⟨rfl, rfl⟩
  | uiSession ticket session => exact ⟨rfl, rfl⟩
  | login bearer session => exact ⟨rfl, rfl⟩
  | pluginRun headers lease => exact hbehind _ _
  | pluginRevoke headers lease => exact hbehind _ _
  | reconcile build => exact ⟨rfl, rfl⟩
  | members call => exact ⟨rfl, rfl⟩
  | request req => exact hbehind _ _

/-- Handling these events is a run. -/
theorem run_handle (h : Run sha256 token s past) (events : List (Clock × Event Rest)) :
    Run sha256 token (handle sha256 s events).2 (past ++ (handle sha256 s events).1) := by
  induction events generalizing s past with
  | nil => rwa [handle, List.append_nil]
  | cons first events ih =>
      obtain ⟨clock, event⟩ := first
      rw [handle]
      dsimp only
      rw [List.append_cons]
      exact ih (h.step clock event)

variable (sha256) in
theorem handle_events (s : Daemon Rest) (events : List (Clock × Event Rest)) :
    ((handle sha256 s events).1.map fun e => (e.clock, e.event)) = events := by
  induction events generalizing s with
  | nil => rfl
  | cons first events ih =>
      obtain ⟨clock, event⟩ := first
      obtain ⟨hclock, hevent⟩ := step_clock sha256 s clock event
      rw [handle, List.map_cons, ih, hclock, hevent]

/-- **An event of a run** was handled in the state that the events before it led to. -/
theorem Run.split {pre post : List (Entry Rest)} {e : Entry Rest} (h : Run sha256 token s past)
    (hpast : past = pre ++ e :: post) :
    ∃ s₀, Run sha256 token s₀ pre ∧ e = (Access.step sha256 s₀ e.clock e.event).1 := by
  induction h generalizing post with
  | start => simp at hpast
  | @step s past hrun clock event ih =>
      obtain rfl | ⟨post, last, rfl⟩ := post.eq_nil_or_concat
      · obtain ⟨rfl, he⟩ := List.append_inj' hpast rfl
        obtain rfl := List.singleton_injective he
        obtain ⟨hclock, hevent⟩ := step_clock sha256 s clock event
        exact ⟨s, hrun, by rw [hclock, hevent]⟩
      · rw [List.concat_eq_append, ← List.cons_append, ← List.append_assoc] at hpast
        exact ih (List.append_inj' hpast rfl).1

theorem behind_principal (s : Daemon Rest) (clock : Clock) (event : Event Rest) (req : Request)
    (handler : Daemon Rest → Identity → Reply × Daemon Rest) :
    (behind sha256 s clock event req handler).1.principal =
      (resolve sha256 s clock req).1.filter fun identity => routeAllowed identity req := by
  rw [behind, identityMiddleware]
  generalize resolve sha256 s clock req = resolved
  obtain ⟨identity?, auth⟩ := resolved
  dsimp only
  cases identity?.filter fun identity => routeAllowed identity req with
  | none => rfl
  | some identity => rfl

/-- **The principal** is who the request was resolved to, if the route is one for them. -/
theorem principal_eq_some_iff {event : Event Rest} {identity : Identity} :
    (step sha256 s clock event).1.principal = some identity ↔ ∃ req, event.sent = some req ∧
      (resolve sha256 s clock req).1 = some identity ∧ routeAllowed identity req = true := by
  have hprincipal : (step sha256 s clock event).1.principal = event.sent.bind fun req =>
      (resolve sha256 s clock req).1.filter fun identity => routeAllowed identity req := by
    cases event with
    | uiTicket headers ticket => rfl
    | uiSession ticket session => rfl
    | login bearer session => rfl
    | pluginRun headers lease => exact behind_principal _ _ _ _ _
    | pluginRevoke headers lease => exact behind_principal _ _ _ _ _
    | reconcile build => rfl
    | members call => rfl
    | request req => exact behind_principal _ _ _ _ _
  rw [hprincipal, Option.bind_eq_some_iff]
  simp only [Option.filter_eq_some_iff]

/-- **Who a request is resolved to.** -/
theorem resolve_eq_some_iff {req : Request} {identity : Identity} :
    (resolve sha256 s clock req).1 = some identity ↔
      (∃ presented, pluginToken req.headers = some presented ∧
        s.plugins.identity sha256 clock.instant s.members presented = some identity) ∨
      pluginToken req.headers = none ∧
        ((s.auth.resolveIdentity sha256 clock.utc req.headers s.members).1 = some identity ∨
          (s.auth.resolveIdentity sha256 clock.utc req.headers s.members).1 = none ∧
            req.queryTokenAllowed = true ∧ s.auth.checkQueryToken req.query = true ∧
              identity = .admin) := by
  have htoken := (pruned_resolveIdentity sha256 s.auth clock.utc req.headers s.members).token
  unfold resolve
  cases pluginToken req.headers with
  | some presented => simp
  | none =>
      generalize s.auth.resolveIdentity sha256 clock.utc req.headers s.members = resolved at htoken ⊢
      obtain ⟨identity?, auth⟩ := resolved
      have hquery : auth.checkQueryToken req.query = s.auth.checkQueryToken req.query := by
        unfold AuthState.checkQueryToken AuthState.checkToken
        rw [htoken]
      cases identity? with
      | some found => simp
      | none =>
          dsimp only
          rw [hquery]
          by_cases hallowed : (req.queryTokenAllowed && s.auth.checkQueryToken req.query) = true
          · rw [if_pos hallowed]
            rw [Bool.and_eq_true] at hallowed
            simp [hallowed, eq_comm]
          · rw [if_neg hallowed]
            rw [Bool.and_eq_true] at hallowed
            simp only [reduceCtorEq, false_and, exists_false, true_and, false_or, false_iff]
            rintro ⟨hroute, hbears, -⟩
            exact hallowed ⟨hroute, hbears⟩

end

end Access

end Orgasmic
