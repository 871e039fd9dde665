import Orgasmic.Access

/-! # Who a request was from

What stands behind the principal of a request, over every run of the daemon.

* **Admin.** `admin_rooted`: a request with the token of the daemon, also where the principal comes by
  a cookie. `session_lives`: tickets and sessions stand for it as long as they should, whatever is
  requested in between.
* **Members.** `member_current`: the principal is the member as it is on file now.
  `revocation_holds`: a member that is revoked is not heard again, by itself or through a plugin.
* **Plugins.** `plugin_bounded`: a plugin acts under a lease for a caller that could ask for it, and
  does not do more than the caller may do now. -/

namespace Orgasmic

open Text

namespace Access

/-! ### Credentials -/

/-- The headers carry the token. -/
def Bears (headers : Headers) (token : Text) : Prop :=
  ∃ presented, headers.bearer = some presented ∧ trim presented = token

/-- The query of a WebSocket request carries the token. -/
def QueryBears (req : Request) (token : Text) : Prop :=
  req.queryTokenAllowed = true ∧ ∃ query, req.query = some query ∧ ∃ pair ∈ query.splitOn '&',
    ∃ presented, (splitOnce '=' pair).getD (pair, []) = ("token".toList, presented) ∧
      trim presented = token

theorem check_iff {auth : AuthState} {headers : Headers} :
    auth.check headers = true ↔ Bears headers auth.token := by
  rw [AuthState.check, Option.any_eq_true]
  refine exists_congr fun presented => and_congr_right fun _ => ?_
  rw [AuthState.checkToken, decide_eq_true_iff, eq_comm]

theorem checkQueryToken_iff {auth : AuthState} {req : Request} :
    req.queryTokenAllowed = true ∧ auth.checkQueryToken req.query = true ↔ QueryBears req auth.token := by
  refine and_congr_right fun _ => ?_
  rw [AuthState.checkQueryToken, Option.any_eq_true]
  refine exists_congr fun query => and_congr_right fun _ => ?_
  rw [List.any_eq_true]
  refine exists_congr fun pair => and_congr_right fun _ => ?_
  rw [Bool.and_eq_true, decide_eq_true_iff, AuthState.checkToken, decide_eq_true_iff]
  constructor
  · rintro ⟨hkey, htoken⟩
    exact ⟨_, Prod.ext hkey rfl, htoken.symm⟩
  · rintro ⟨presented, hpair, htoken⟩
    rw [hpair]
    exact ⟨rfl, htoken.symm⟩

section

variable {sha256 : Bytes → Bytes} {Rest : Type} {token ticket session name : Text}
  {past pre post : List (Entry Rest)} {e : Entry Rest} {now : Utc}

/-! ### Tickets and sessions -/

/-- The ticket was handed out to a request with the token of the daemon less than a minute before, and
was not presented since. -/
def TicketFrom (token : Text) (past : List (Entry Rest)) (now : Utc) (ticket : Text) : Prop :=
  ∃ pre e post headers, past = pre ++ e :: post ∧ e.event = .uiTicket headers ticket ∧
    Bears headers token ∧ e.reply = .ticket ticket ∧ now < e.clock.utc + uiTicketTtl ∧
      ∀ e' ∈ post, (∀ headers ticket', e'.event = .uiTicket headers ticket' → e'.reply ≠ .ticket ticket) ∧
        ∀ session, e'.event ≠ .uiSession ticket session

/-- A ticket was redeemed for the session less than twelve hours before. -/
def SessionFrom (token : Text) (past : List (Entry Rest)) (now : Utc) (session : Text) : Prop :=
  ∃ pre e post ticket, past = pre ++ e :: post ∧ e.event = .uiSession ticket session ∧
    e.reply = .session session ∧ TicketFrom token pre e.clock.utc ticket ∧
      now < e.clock.utc + uiSessionTtl ∧
        ∀ e' ∈ post, ∀ ticket session', e'.event = .uiSession ticket session' → e'.reply ≠ .session session

theorem ticketOps_eq_put {v : Utc} : e.ticketOps = [.put ticket v] ↔
    ∃ headers ticket', e.event = .uiTicket headers ticket' ∧ e.reply = .ticket ticket ∧
      v = e.clock.utc + uiTicketTtl := by
  obtain ⟨clock, event, principal, reply⟩ := e
  cases event <;> cases reply <;> simp [Entry.ticketOps, eq_comm]

theorem ticketOps_apart : (∀ op ∈ e.ticketOps, op.key ≠ ticket) ↔
    (∀ headers ticket', e.event = .uiTicket headers ticket' → e.reply ≠ .ticket ticket) ∧
      ∀ session, e.event ≠ .uiSession ticket session := by
  obtain ⟨clock, event, principal, reply⟩ := e
  cases event <;> cases reply <;> simp [Entry.ticketOps, Expiring.Op.key]

theorem sessionOps_eq_put {v : Utc} : e.sessionOps = [.put session v] ↔
    ∃ ticket session', e.event = .uiSession ticket session' ∧ e.reply = .session session ∧
      v = e.clock.utc + uiSessionTtl := by
  obtain ⟨clock, event, principal, reply⟩ := e
  cases event <;> cases reply <;> simp [Entry.sessionOps, eq_comm]

theorem sessionOps_apart : (∀ op ∈ e.sessionOps, op.key ≠ session) ↔
    ∀ ticket session', e.event = .uiSession ticket session' → e.reply ≠ .session session := by
  obtain ⟨clock, event, principal, reply⟩ := e
  cases event <;> cases reply <;> simp [Entry.sessionOps, Expiring.Op.key]

theorem ticketOps_length : e.ticketOps.length ≤ 1 := by
  rw [Entry.ticketOps]
  split <;> simp

theorem sessionOps_length : e.sessionOps.length ≤ 1 := by
  rw [Entry.sessionOps]
  split <;> simp

/-! ### Members -/

/-- What was done to `members.org`. -/
def memberCalls (past : List (Entry Rest)) : List MemberCall := past.filterMap fun e => e.event.memberCall

/-- The members after these events. -/
def membersAfter (past : List (Entry Rest)) : List Membership :=
  (memberCalls past).foldl MemberCall.spec []

/-- The member logged in with a token less than thirty days before, and got this session. -/
def LoginFrom (sha256 : Bytes → Bytes) (past : List (Entry Rest)) (now : Utc) (name session : Text) :
    Prop :=
  ∃ pre e post bearer m, past = pre ++ e :: post ∧ e.event = .login bearer session ∧
    e.reply = .memberSession name session ∧ m ∈ membersAfter pre ∧ m.name = name ∧
      sha256 (utf8 m.token) = sha256 (utf8 (trim bearer)) ∧ now < e.clock.utc + memberSessionTtl ∧
        ∀ e' ∈ post, ∀ bearer session' name', e'.event = .login bearer session' →
          e'.reply ≠ .memberSession name' session

theorem memberOps_eq_put {stored : MemberSession} : e.memberOps = [.put session stored] ↔
    ∃ bearer session', e.event = .login bearer session' ∧
      e.reply = .memberSession stored.memberName session ∧
        stored.expiresAt = e.clock.utc + memberSessionTtl := by
  obtain ⟨clock, event, principal, reply⟩ := e
  obtain ⟨name, expiresAt⟩ := stored
  cases event <;> cases reply <;> simp [Entry.memberOps, eq_comm, and_comm, and_assoc]

theorem memberOps_apart : (∀ op ∈ e.memberOps, op.key ≠ session) ↔
    ∀ bearer session' name, e.event = .login bearer session' → e.reply ≠ .memberSession name session := by
  obtain ⟨clock, event, principal, reply⟩ := e
  cases event <;> cases reply <;> simp [Entry.memberOps, Expiring.Op.key]

theorem memberOps_length : e.memberOps.length ≤ 1 := by
  rw [Entry.memberOps]
  split <;> simp

theorem membersAfter_concat : membersAfter (past ++ [e]) = match e.event.memberCall with
    | some call => call.spec (membersAfter past)
    | none => membersAfter past := by
  rw [membersAfter, memberCalls, List.filterMap_append, List.foldl_append]
  cases hcall : e.event.memberCall with
  | none => simp [hcall, membersAfter, memberCalls]
  | some call => simp [hcall, membersAfter, memberCalls]

end

/-! ### A run -/

namespace Day

/-- Seconds after the start, on both clocks. -/
def clock (n : ℤ) : Clock := ⟨seconds n, seconds n⟩

def cookie (name value : Text) : Headers := ⟨none, some (name ++ '=' :: value)⟩

def bearer (token : Text) : Headers := ⟨some ("Bearer ".toList ++ token), none⟩

def get (path : Text) (headers : Headers) : Event Unit :=
  .request ⟨"GET".toList, "/api".toList ++ path, some ("/api".toList ++ path), none, headers⟩

/-- A plugin with one command. -/
def active : ActivePlugins Unit :=
  (∅ : ActivePlugins Unit).insert "p".toList ⟨"p".toList, ["nodes.write".toList], ["c".toList], ()⟩

def lease : PluginRegistry.LeaseRequest Unit :=
  ⟨"/w".toList, "demo".toList, "p".toList, "c".toList, some active, true, "l".toList,
    "plugin-x".toList⟩

/-- The admin opens the app, a member logs in and runs a plugin, and is revoked. -/
def events : List (Clock × Event Unit) :=
  [(clock 0, .uiTicket (bearer "key".toList) "t".toList),
    (clock 30, .uiSession "t".toList "s".toList),
    (clock 31, .members (.add "alice".toList [("demo".toList, "editor".toList)] [] (Members.random 1))),
    (clock 32, .login (hexText (Members.random 1)) "m".toList),
    (clock 40, get "/board".toList (cookie uiSessionCookie "s".toList)),
    (clock 41, get "/board".toList (cookie memberSessionCookie "m".toList)),
    (clock 42, .pluginRun (cookie memberSessionCookie "m".toList) lease),
    (clock 43, get "/org/node".toList (bearer "plugin-x".toList)),
    (clock 44, .members (.revoke "alice".toList)),
    (clock 45, get "/org/node".toList (bearer "plugin-x".toList)),
    (clock 46, get "/board".toList (cookie memberSessionCookie "m".toList))]

@[irreducible]
def final : List (Entry Unit) × Daemon Unit := handle Members.sha256 (.new "key".toList) events

def past : List (Entry Unit) := final.1

theorem run : Run Members.sha256 "key".toList final.2 past := by
  have hstart : Run Members.sha256 "key".toList (.new "key".toList : Daemon Unit) [] := .start
  have h := run_handle hstart events
  rw [List.nil_append] at h
  unfold past final
  exact h

theorem past_length : past.length = 11 := by decide +kernel

def entry (n : Fin 11) : Entry Unit := past.get (n.cast past_length.symm)

theorem past_drop (n : Fin 11) : past.drop n = entry n :: past.drop (n + 1) :=
  (List.getElem_cons_drop (n.isLt.trans_eq past_length.symm)).symm

theorem past_split (n : Fin 11) : past = past.take n ++ entry n :: past.drop (n + 1) := by
  rw [← past_drop, List.take_append_drop]

theorem entry_event (n : Fin 11) {clock : Clock} {event : Event Unit}
    (h : events[(n : ℕ)]? = some (clock, event)) : (entry n).clock = clock ∧ (entry n).event = event := by
  have hpast : past[(n : ℕ)]? = some (entry n) :=
    List.getElem?_eq_getElem (n.isLt.trans_eq past_length.symm)
  have hmap := handle_events Members.sha256 (.new "key".toList) events
  rw [← final, ← past] at hmap
  rw [← hmap, List.getElem?_map, hpast] at h
  exact Prod.mk.inj (Option.some.inj h)

theorem plain : Splittable [] (memberCalls past) := by
  have hcalls : memberCalls past = [.add "alice".toList [("demo".toList, "editor".toList)] []
      (Members.random 1), .revoke "alice".toList] := by decide +kernel
  rw [hcalls]
  exact ⟨fun _ => by decide, fun _ => nofun, trivial⟩

end Day

section

variable {sha256 : Bytes → Bytes} {Rest : Type} [DecidableEq Rest] {token ticket session name : Text}
  {s : Daemon Rest} {past pre post : List (Entry Rest)} {e : Entry Rest} {now : Utc}

/-- A ticket is handed out as it was drawn, and only to the token of the daemon. -/
theorem ticket_drawn {headers : Headers} {ticket' : Text} (h : Run sha256 token s past)
    (hpast : past = pre ++ e :: post) (hevent : e.event = .uiTicket headers ticket')
    (hreply : e.reply = .ticket ticket) : ticket' = ticket ∧ Bears headers token := by
  obtain ⟨s₀, hrun, he⟩ := h.split hpast
  rw [he, hevent, step, postUiSession] at hreply
  by_cases hcheck : s₀.auth.check headers = true
  · rw [if_pos hcheck] at hreply
    obtain rfl : ticket' = ticket := Reply.ticket.inj hreply
    exact ⟨rfl, (traced_run hrun).token ▸ check_iff.mp hcheck⟩
  · rw [if_neg hcheck] at hreply
    cases hreply

/-- A session is handed out as it was drawn, for a ticket that is there. -/
theorem session_drawn {s₀ : Daemon Rest} {clock : Clock} {session' : Text} :
    (step sha256 s₀ clock (.uiSession ticket session')).1.reply = .session session ↔
      session' = session ∧ ∃ expiresAt,
        (Expiring.prune id clock.utc s₀.auth.uiSessions.tickets)[ticket]? = some expiresAt := by
  rw [step, getAppSession, AuthState.redeemUiTicket, UiSessionStore.prune]
  dsimp only
  cases hfound : (Expiring.prune id clock.utc s₀.auth.uiSessions.tickets)[ticket]? with
  | none => simp
  | some expiresAt =>
      have hlive : ¬expiresAt ≤ clock.utc := not_le.mpr (Expiring.found_prune id hfound).2
      dsimp only
      rw [if_neg hlive]
      simp

/-- What was last done to a ticket. -/
theorem ticketFrom_iff (h : Run sha256 token s past) : TicketFrom token past now ticket ↔
    ∃ expiresAt, Expiring.last? ticket (past.flatMap Entry.ticketOps) = some expiresAt ∧
      now < expiresAt := by
  simp only [Expiring.last?_flatMap_eq_some_iff _ fun _ => ticketOps_length, ticketOps_eq_put,
    ticketOps_apart]
  constructor
  · rintro ⟨pre, e, post, headers, hpast, hevent, -, hreply, hnow, hpost⟩
    exact ⟨_, ⟨pre, e, post, hpast, ⟨headers, ticket, hevent, hreply, rfl⟩, hpost⟩, hnow⟩
  · rintro ⟨_, ⟨pre, e, post, hpast, ⟨headers, ticket', hevent, hreply, rfl⟩, hpost⟩, hnow⟩
    obtain ⟨rfl, hbears⟩ := ticket_drawn h hpast hevent hreply
    exact ⟨pre, e, post, headers, hpast, hevent, hbears, hreply, hnow, hpost⟩

/-- A ticket that is redeemed was handed out. -/
theorem redeemed_from {session' : Text} (h : Run sha256 token s past) (hpast : past = pre ++ e :: post)
    (hevent : e.event = .uiSession ticket session') (hreply : e.reply = .session session) :
    session' = session ∧ TicketFrom token pre e.clock.utc ticket := by
  obtain ⟨s₀, hrun, he⟩ := h.split hpast
  rw [he, hevent, session_drawn] at hreply
  obtain ⟨rfl, expiresAt, hfound⟩ := hreply
  obtain ⟨hstore, hlive⟩ := Expiring.found_prune id hfound
  exact ⟨rfl, (ticketFrom_iff hrun).mpr ⟨_, (traced_run hrun).tickets.sound _ _ hstore, hlive⟩⟩

/-- What was last done to a session. -/
theorem sessionFrom_iff (h : Run sha256 token s past) : SessionFrom token past now session ↔
    ∃ expiresAt, Expiring.last? session (past.flatMap Entry.sessionOps) = some expiresAt ∧
      now < expiresAt := by
  simp only [Expiring.last?_flatMap_eq_some_iff _ fun _ => sessionOps_length, sessionOps_eq_put,
    sessionOps_apart]
  constructor
  · rintro ⟨pre, e, post, ticket, hpast, hevent, hreply, -, hnow, hpost⟩
    exact ⟨_, ⟨pre, e, post, hpast, ⟨ticket, session, hevent, hreply, rfl⟩, hpost⟩, hnow⟩
  · rintro ⟨_, ⟨pre, e, post, hpast, ⟨ticket, session', hevent, hreply, rfl⟩, hpost⟩, hnow⟩
    obtain ⟨rfl, hticket⟩ := redeemed_from h hpast hevent hreply
    exact ⟨pre, e, post, ticket, hpast, hevent, hreply, hticket, hnow, hpost⟩

/-! ### The admin -/

/-- Why the admin is let in. -/
theorem resolve_admin_iff {clock : Clock} {req : Request} :
    (resolve sha256 s clock req).1 = some .admin ↔ pluginToken req.headers = none ∧
      (s.auth.Admits clock.utc req.headers ∨
        (s.auth.resolveIdentity sha256 clock.utc req.headers s.members).1 = none ∧
          QueryBears req s.auth.token) := by
  have hplugin (presented : Text) :
      s.plugins.identity sha256 clock.instant s.members presented ≠ some .admin := by
    intro h
    obtain ⟨_, _, _, -, -, -, -, -, h⟩ := PluginRegistry.identity_eq_some h
    cases h
  have hadmits : (s.auth.resolveIdentity sha256 clock.utc req.headers s.members).1 = some .admin ↔
      s.auth.Admits clock.utc req.headers := by
    rw [AuthState.resolveIdentity_eq_some_iff]
    constructor
    · rintro (⟨h, -⟩ | ⟨-, entry, h, -⟩)
      · exact h
      · cases h
    · exact fun h => .inl ⟨h, rfl⟩
  rw [resolve_eq_some_iff, hadmits, ← and_assoc, ← and_assoc, ← checkQueryToken_iff]
  simp only [hplugin, and_false, exists_false, false_or, and_true, and_assoc]

/-- **The admin**: in any order of events, and whatever the clock says, a request is the admin's only if
it carries the token of the daemon itself, or a cookie for a session that was redeemed less than twelve
hours ago for a ticket that such a request asked for less than a minute before that. -/
theorem admin_rooted (h : Run sha256 token s past) (hpast : past = pre ++ e :: post)
    (hadmin : e.principal = some .admin) :
    ∃ req, e.event.sent = some req ∧ pluginToken req.headers = none ∧
      (Bears req.headers token ∨ QueryBears req token ∨
        ∃ session, cookieValue req.headers uiSessionCookie = some session ∧
          SessionFrom token pre e.clock.utc session) := by
  obtain ⟨s₀, hrun, he⟩ := h.split hpast
  rw [he] at hadmin
  obtain ⟨req, hsent, hresolve, -⟩ := principal_eq_some_iff.mp hadmin
  obtain ⟨hplugin, hwhy⟩ := resolve_admin_iff.mp hresolve
  have htraced := traced_run hrun
  refine ⟨req, hsent, hplugin, ?_⟩
  obtain (hcheck | ⟨session, expiresAt, hcookie, hfound⟩) | ⟨-, hquery⟩ := hwhy
  · exact .inl (htraced.token ▸ check_iff.mp hcheck)
  · obtain ⟨hstore, hlive⟩ := Expiring.found_prune id hfound
    refine .inr (.inr ⟨session, hcookie, (sessionFrom_iff hrun).mpr ⟨expiresAt, ?_, hlive⟩⟩)
    exact htraced.sessions.sound _ _ hstore
  · exact .inr (.inl (htraced.token ▸ hquery))

theorem admin_rooted_sample : ∃ session, SessionFrom "key".toList (Day.past.take 4) (seconds 40) session := by
  obtain ⟨hclock, hevent⟩ := Day.entry_event 4 rfl
  have hadmin : (Day.entry 4).principal = some .admin := by decide +kernel
  obtain ⟨req, hsent, -, hbears | hquery | ⟨session, -, hfrom⟩⟩ :=
    admin_rooted Day.run (Day.past_split 4) hadmin
  · rw [hevent] at hsent
    obtain rfl := Option.some.inj hsent
    obtain ⟨presented, hpresented, -⟩ := hbears
    cases hpresented
  · rw [hevent] at hsent
    obtain rfl := Option.some.inj hsent
    exact absurd hquery.1 (by decide)
  · rw [hclock] at hfrom
    exact ⟨session, hfrom⟩

/-- **Tickets and sessions last**: if the clock does not go back, a ticket is redeemed exactly if it was
handed out less than a minute ago and was not presented since, and a session that was redeemed less than
twelve hours ago lets the admin in, whatever else was requested. -/
theorem session_lives (h : Run sha256 token s past) (hclock : (past.map fun e => e.clock.utc).Pairwise (· ≤ ·))
    (hpast : past = pre ++ e :: post) :
    (∀ ticket session, e.event = .uiSession ticket session →
      (e.reply = .session session ↔ TicketFrom token pre e.clock.utc ticket)) ∧
    ∀ req, e.event.sent = some req → pluginToken req.headers = none →
      (Bears req.headers token ∨ ∃ session, cookieValue req.headers uiSessionCookie = some session ∧
        SessionFrom token pre e.clock.utc session) → e.principal = some .admin := by
  have hbefore : ∀ t ∈ pre.map (fun e => e.clock.utc), t ≤ e.clock.utc := by
    rw [hpast, List.map_append, List.map_cons, List.pairwise_append] at hclock
    exact fun t ht => hclock.2.2 t ht _ List.mem_cons_self
  obtain ⟨s₀, hrun, he⟩ := h.split hpast
  have htraced := traced_run hrun
  constructor
  · intro ticket session hevent
    rw [ticketFrom_iff hrun, he, hevent, session_drawn]
    simp only [htraced.tickets.found_iff hbefore, true_and, id]
    rw [(step_clock sha256 s₀ e.clock _).1]
  · intro req hsent hplugin hwhy
    rw [he, principal_eq_some_iff]
    refine ⟨req, hsent, resolve_admin_iff.mpr ⟨hplugin, .inl ?_⟩, rfl⟩
    obtain hbears | ⟨session, hcookie, hfrom⟩ := hwhy
    · exact .bearer (check_iff.mpr (htraced.token.symm ▸ hbears))
    · obtain ⟨expiresAt, hlast⟩ := (sessionFrom_iff hrun).mp hfrom
      exact .session session expiresAt hcookie ((htraced.sessions.found_iff hbefore).mpr hlast)

theorem session_lives_sample : TicketFrom "key".toList (Day.past.take 1) (seconds 30) "t".toList := by
  obtain ⟨hclock, hevent⟩ := Day.entry_event 1 rfl
  have hlives := session_lives Day.run (by decide +kernel) (Day.past_split 1)
  have hreply : (Day.entry 1).reply = .session "s".toList := by decide +kernel
  rw [hclock] at hlives
  exact (hlives.1 _ _ hevent).mp hreply

theorem splittable_left {members : List Membership} {calls more : List MemberCall}
    (h : Splittable members (calls ++ more)) : Splittable members calls := by
  induction calls generalizing members with
  | nil => trivial
  | cons call calls ih => exact ⟨h.1, ih h.2⟩

omit [DecidableEq Rest] in
theorem splittable_before (h : Splittable [] (memberCalls past)) (hpast : past = pre ++ e :: post) :
    Splittable [] (memberCalls pre) := by
  rw [hpast, memberCalls, List.filterMap_append] at h
  exact splittable_left h

/-- The file after these calls was written for the members after them. -/
theorem calls_written {tokens : List Text} {file : MembersFile} {members : List Membership}
    {calls : List MemberCall} (w : WrittenFor sha256 tokens file members) (plain : PlainGrants members)
    (h : Splittable members calls) (minted : ∀ token ∈ mintedTokens calls, token ∈ tokens) :
    WrittenFor sha256 tokens (calls.foldl (fun file call => (call.run sha256 file).2) file)
        (calls.foldl MemberCall.spec members) ∧
      PlainGrants (calls.foldl MemberCall.spec members) := by
  induction calls generalizing file members with
  | nil => exact ⟨w, plain⟩
  | cons call calls ih =>
      rw [mintedTokens, List.flatMap_cons, List.forall_mem_append] at minted
      obtain ⟨-, written⟩ := w.step plain minted.1
      exact ih written ((plainGrants_spec plain).mpr h.1) h.2 minted.2

theorem step_members (s : Daemon Rest) (clock : Clock) (event : Event Rest) :
    (step sha256 s clock event).2.members =
      event.memberCall.elim s.members fun call => (call.run sha256 s.members).2 := by
  have hbehind (req : Request) (handler : Daemon Rest → Identity → Reply × Daemon Rest)
      (hhandler : ∀ s identity, (handler s identity).2.members = s.members) :
      (behind sha256 s clock event req handler).2.members = s.members := by
    obtain ⟨auth, -, h | ⟨identity, -, -, h⟩⟩ := behind_spec sha256 s clock event req handler
    · rw [h]
    · rw [h, hhandler]
  cases event with
  | uiTicket headers ticket =>
      rw [step, postUiSession]
      by_cases hcheck : s.auth.check headers = true
      · rw [if_pos hcheck]
        rfl
      · rw [if_neg hcheck]
        rfl
  | uiSession ticket session => rfl
  | login bearer session =>
      rw [step, postLogin]
      cases (findMemberByToken sha256 s.members bearer).toOption.bind id with
      | none => rfl
      | some entry => rfl
  | pluginRun headers lease =>
      refine hbehind _ _ fun s identity => ?_
      rw [postPluginRun]
      split <;> rfl
  | pluginRevoke headers lease => exact hbehind _ _ fun s identity => rfl
  | reconcile build => rfl
  | members call => rfl
  | request req => exact hbehind _ _ fun s identity => rfl

theorem members_run (h : Run sha256 token s past) : s.members =
    (memberCalls past).foldl (fun file call => (call.run sha256 file).2) none := by
  induction h with
  | start => rfl
  | @step s past _ clock event ih =>
      rw [step_members, memberCalls, List.filterMap_append, List.foldl_append, ← memberCalls, ← ih]
      cases hcall : event.memberCall with
      | none => simp [(step_clock sha256 s clock event).2, hcall]
      | some call => simp [(step_clock sha256 s clock event).2, hcall]

/-- **The members on file** are the ones that the calls made. -/
theorem members_on_file (h : Run sha256 token s past) (hplain : Splittable [] (memberCalls past)) :
    readMembers s.members = .ok ((membersAfter past).map (Membership.entry sha256)) := by
  have hnone : WrittenFor sha256 (mintedTokens (memberCalls past)) none [] := writtenFor_none
  obtain ⟨written, plain⟩ := calls_written hnone (fun _ hm => by simp at hm) hplain fun _ => id
  rw [members_run h]
  exact written.read_iff.mpr plain

theorem found_by_name {entry : MemberEntry} (h : Run sha256 token s past)
    (hplain : Splittable [] (memberCalls past))
    (hfound : findMemberByName s.members name = .ok (some entry)) :
    ∃ m ∈ membersAfter past, m.name = name ∧ m.entry sha256 = entry := by
  rw [findMemberByName, members_on_file h hplain] at hfound
  replace hfound := Except.ok.inj hfound
  obtain ⟨m, hm, rfl⟩ := List.mem_map.mp (List.mem_of_find?_eq_some hfound)
  have hname := List.find?_some hfound
  exact ⟨m, hm, of_decide_eq_true hname, rfl⟩

theorem found_by_token {entry : MemberEntry} {bearer : Text} (h : Run sha256 token s past)
    (hplain : Splittable [] (memberCalls past))
    (hfound : findMemberByToken sha256 s.members bearer = .ok (some entry)) :
    ∃ m ∈ membersAfter past, sha256 (utf8 m.token) = sha256 (utf8 (trim bearer)) ∧
      m.entry sha256 = entry := by
  rw [findMemberByToken, members_on_file h hplain] at hfound
  replace hfound := Except.ok.inj hfound
  obtain ⟨m, hm, rfl⟩ := List.mem_map.mp (List.mem_of_find?_eq_some hfound)
  have htoken := List.find?_some hfound
  exact ⟨m, hm, hexText_injective (of_decide_eq_true htoken), rfl⟩

/-- A session of a member that is on record comes from a login. -/
theorem loginFrom_of_last {stored : MemberSession} (h : Run sha256 token s past)
    (hplain : Splittable [] (memberCalls past))
    (hlast : Expiring.last? session (past.flatMap Entry.memberOps) = some stored)
    (hnow : now < stored.expiresAt) : LoginFrom sha256 past now stored.memberName session := by
  rw [Expiring.last?_flatMap_eq_some_iff _ fun _ => memberOps_length] at hlast
  obtain ⟨pre, e, post, hpast, hput, hpost⟩ := hlast
  obtain ⟨bearer, session', hevent, hreply, hexpires⟩ := memberOps_eq_put.mp hput
  obtain ⟨s₀, hrun, he⟩ := h.split hpast
  have hplain₀ := splittable_before hplain hpast
  rw [he, hevent, step, postLogin] at hreply
  cases hfound : findMemberByToken sha256 s₀.members bearer with
  | error err =>
      rw [hfound] at hreply
      cases hreply
  | ok entry? =>
      cases entry? with
      | none =>
          rw [hfound] at hreply
          cases hreply
      | some entry =>
          rw [hfound] at hreply
          obtain ⟨hname, hsession⟩ : entry.name = stored.memberName ∧ session' = session :=
            Reply.memberSession.inj hreply
          subst hsession
          obtain ⟨m, hm, htoken, rfl⟩ := found_by_token hrun hplain₀ hfound
          obtain ⟨-, -, -, hreply, -⟩ := memberOps_eq_put.mp hput
          exact ⟨pre, e, post, bearer, m, hpast, hevent, hreply, hm, hname, htoken, hexpires ▸ hnow,
            fun e' he' => memberOps_apart.mp (hpost e' he')⟩

/-- The entry of a member that a request was resolved to. -/
theorem resolve_member {clock : Clock} {req : Request} {grants : List (Text × Text)}
    {actions : List Text} (h : (resolve sha256 s clock req).1 = some (.member name grants actions)) :
    pluginToken req.headers = none ∧ ∃ entry, entry.identity = .member name grants actions ∧
      ((∃ stored, s.auth.MemberCookie clock.utc req.headers stored ∧
          findMemberByName s.members stored.memberName = .ok (some entry)) ∨
        ∃ bearer, req.headers.bearer = some bearer ∧
          findMemberByToken sha256 s.members bearer = .ok (some entry)) := by
  obtain ⟨presented, -, hplugin⟩ | ⟨hnone, hresolve | ⟨-, -, -, hadmin⟩⟩ := resolve_eq_some_iff.mp h
  · obtain ⟨_, _, _, -, -, -, -, -, hplugin⟩ := PluginRegistry.identity_eq_some hplugin
    cases hplugin
  · obtain ⟨-, hadmin⟩ | ⟨-, entry, hentry, hfound⟩ := AuthState.resolveIdentity_eq_some_iff.mp hresolve
    · cases hadmin
    · refine ⟨hnone, entry, hentry.symm, ?_⟩
      obtain hcookie | ⟨-, hbearer⟩ := hfound
      · exact .inl hcookie
      · exact .inr hbearer
  · cases hadmin

/-- **Members**: in any order of events a member's request is made by a member that is on file at that
time, with the grants and actions that are on file. It carries the token of the member, or the cookie of
a session that somebody of that name logged in for less than thirty days ago. -/
theorem member_current {grants : List (Text × Text)} {actions : List Text} (h : Run sha256 token s past)
    (hplain : Splittable [] (memberCalls past)) (hpast : past = pre ++ e :: post)
    (hmember : e.principal = some (.member name grants actions)) :
    ∃ req m, e.event.sent = some req ∧ m ∈ membersAfter pre ∧ m.name = name ∧ m.grants = grants ∧
      m.actions = actions ∧ memberRouteAllowed req.method (req.pattern true) = true ∧
        ((∃ bearer, req.headers.bearer = some bearer ∧
            sha256 (utf8 m.token) = sha256 (utf8 (trim bearer))) ∨
          ∃ session, cookieValue req.headers memberSessionCookie = some session ∧
            LoginFrom sha256 pre e.clock.utc name session) := by
  obtain ⟨s₀, hrun, he⟩ := h.split hpast
  have hplain₀ := splittable_before hplain hpast
  rw [he] at hmember
  obtain ⟨req, hsent, hresolve, hroute⟩ := principal_eq_some_iff.mp hmember
  obtain ⟨-, entry, hentry, hfound⟩ := resolve_member hresolve
  obtain ⟨hname, hgrants, hactions⟩ := Identity.member.inj hentry
  obtain ⟨stored, ⟨session, hcookie, hstored⟩, hfound⟩ | ⟨bearer, hbearer, hfound⟩ := hfound
  · obtain ⟨m, hm, hmname, rfl⟩ := found_by_name hrun hplain₀ hfound
    obtain ⟨hstore, hlive⟩ := Expiring.found_prune _ hstored
    refine ⟨req, m, hsent, hm, hname, hgrants, hactions, hroute, .inr ⟨session, hcookie, ?_⟩⟩
    have hlogin := loginFrom_of_last hrun hplain₀ ((traced_run hrun).memberSessions.sound _ _ hstore) hlive
    rwa [← hmname, show m.name = name from hname] at hlogin
  · obtain ⟨m, hm, htoken, rfl⟩ := found_by_token hrun hplain₀ hfound
    exact ⟨req, m, hsent, hm, hname, hgrants, hactions, hroute, .inl ⟨bearer, hbearer, htoken⟩⟩

theorem member_current_sample : ∃ m ∈ membersAfter (Day.past.take 5), m.name = "alice".toList ∧
    m.grants = [("demo".toList, "editor".toList)] := by
  have hmember : (Day.entry 5).principal =
      some (.member "alice".toList [("demo".toList, "editor".toList)] []) := by decide +kernel
  obtain ⟨req, m, -, hm, hname, hgrants, -⟩ :=
    member_current Day.run Day.plain (Day.past_split 5) hmember
  exact ⟨m, hm, hname, hgrants⟩

/-! ### Plugins -/

/-- A plugin is resolved by its token only. -/
theorem resolve_plugin {clock : Clock} {req : Request} {id project : Text} {capabilities : List Text}
    {caller : Identity}
    (h : (resolve sha256 s clock req).1 = some (.plugin id project capabilities caller)) :
    ∃ presented, pluginToken req.headers = some presented ∧
      s.plugins.identity sha256 clock.instant s.members presented =
        some (.plugin id project capabilities caller) := by
  obtain hplugin | ⟨-, hresolve | ⟨-, -, -, hadmin⟩⟩ := resolve_eq_some_iff.mp h
  · exact hplugin
  · obtain ⟨-, hadmin⟩ | ⟨-, entry, hentry, -⟩ := AuthState.resolveIdentity_eq_some_iff.mp hresolve
    · cases hadmin
    · cases hentry
  · cases hadmin

/-- The caller is the issuer of the lease as it is after these events. -/
def StillIs (past : List (Entry Rest)) (issuer caller : Identity) : Prop :=
  issuer = .admin ∧ caller = .admin ∨ ∃ m ∈ membersAfter past, ∃ grants actions,
    issuer = .member m.name grants actions ∧ caller = .member m.name m.grants m.actions

theorem stillIs_of_callerNow {issuer caller : Identity} (h : Run sha256 token s past)
    (hplain : Splittable [] (memberCalls past))
    (hcaller : PluginRegistry.callerNow s.members issuer = some caller) : StillIs past issuer caller := by
  cases issuer with
  | admin => exact .inl ⟨rfl, (Option.some.inj hcaller).symm⟩
  | plugin id project capabilities caller' => cases hcaller
  | member name grants actions =>
      rw [PluginRegistry.callerNow, Option.map_eq_some_iff] at hcaller
      obtain ⟨entry, hentry, rfl⟩ := hcaller
      have hfound : findMemberByName s.members name = .ok (some entry) := by
        cases hread : findMemberByName s.members name with
        | error err =>
            rw [hread] at hentry
            cases hentry
        | ok entry? =>
            rw [hread] at hentry
            exact congrArg _ hentry
      obtain ⟨m, hm, rfl, rfl⟩ := found_by_name h hplain hfound
      exact .inr ⟨m, hm, grants, actions, rfl, rfl⟩

/-- **Plugins**: in any order of events a plugin's request carries the token of a lease that is less
than a day old and was not revoked, for a caller who was allowed all that the manifest asks for. The
plugin is still the one it was, the caller is on file, and whatever the plugin is allowed, the caller is
allowed now, on the project of the lease. -/
theorem plugin_bounded {id project : Text} {capabilities : List Text} {caller : Identity}
    (h : Run sha256 token s past)
    (hplain : Splittable [] (memberCalls past)) (hpast : past = pre ++ e :: post)
    (hplugin : e.principal = some (.plugin id project capabilities caller)) :
    ∃ req presented lease run s₀, e.event.sent = some req ∧ pluginToken req.headers = some presented ∧
      LeaseFrom sha256 pre lease run ∧ run.tokenHash = sha256 (utf8 presented) ∧
      e.clock.instant < run.expires ∧ run.project = project ∧ run.manifest.id = id ∧
      run.manifest.capabilities = capabilities ∧ Run sha256 token s₀ pre ∧
      PluginRegistry.current s₀.plugins.projects run = true ∧ StillIs pre run.caller caller ∧
      ∀ asked action, require (.plugin id project capabilities caller) asked action = .ok () →
        asked = some project ∧ require caller asked action = .ok () := by
  obtain ⟨s₀, hrun, he⟩ := h.split hpast
  have hplain₀ := splittable_before hplain hpast
  rw [he] at hplugin
  obtain ⟨req, hsent, hresolve, -⟩ := principal_eq_some_iff.mp hplugin
  obtain ⟨presented, hpresented, hidentity⟩ := resolve_plugin hresolve
  obtain ⟨lease, run, caller', hfound, hhash, hlive, hcurrent, hcaller, hprincipal⟩ :=
    PluginRegistry.identity_eq_some hidentity
  obtain ⟨rfl, rfl, rfl, rfl⟩ := Identity.plugin.inj hprincipal
  refine ⟨req, presented, lease, run, s₀, hsent, hpresented, (traced_run hrun).leases _ _ hfound, hhash,
    hlive, rfl, rfl, rfl, hrun, hcurrent, stillIs_of_callerNow hrun hplain₀ hcaller, ?_⟩
  intro asked action hallowed
  refine ⟨?_, require_caller hallowed⟩
  rw [require] at hallowed
  by_contra hasked
  rw [if_pos hasked] at hallowed
  cases hallowed

theorem plugin_bounded_sample : ∃ lease run, LeaseFrom Members.sha256 (Day.past.take 7) lease run ∧
    run.manifest.id = "p".toList ∧ run.project = "demo".toList := by
  have hplugin : (Day.entry 7).principal = some (.plugin "p".toList "demo".toList ["nodes.write".toList]
      (.member "alice".toList [("demo".toList, "editor".toList)] [])) := by decide +kernel
  obtain ⟨req, presented, lease, run, s₀, -, -, hfrom, -, -, hproject, hid, -⟩ :=
    plugin_bounded Day.run Day.plain (Day.past_split 7) hplugin
  exact ⟨lease, run, hfrom, hid, hproject⟩

/-! ### Revocation -/

/-- The identity is this member's, or a plugin's that acts for it. -/
def ActsFor (name : Text) : Identity → Prop
  | .admin => False
  | .plugin _ _ _ caller => ActsFor name caller
  | .member found _ _ => found = name

theorem gone_spec {members : List Membership} {call : MemberCall}
    (hcall : ∀ grants actions random, call ≠ .add name grants actions random)
    (hgone : ∀ m ∈ members, m.name ≠ name) : ∀ m ∈ call.spec members, m.name ≠ name := by
  rw [MemberCall.spec]
  split
  · exact hgone
  · cases call with
    | add added grants actions random =>
        have hname : added ≠ name := by
          rintro rfl
          exact hcall grants actions random rfl
        exact List.forall_mem_append.mpr ⟨hgone, List.forall_mem_singleton.mpr hname⟩
    | setActions changed actions =>
        refine List.forall_mem_map.mpr fun m hm => ?_
        have hname := hgone m hm
        split
        · exact hname
        · exact hname
    | revoke revoked => exact fun m hm => hgone m (List.mem_of_mem_filter hm)

theorem gone_revoke (members : List Membership) :
    ∀ m ∈ (MemberCall.revoke name).spec members, m.name ≠ name := by
  rw [MemberCall.spec]
  split
  · next hrefused =>
      intro m hm hname
      rw [MemberCall.refused, Bool.not_eq_true', List.any_eq_false] at hrefused
      exact hrefused m hm (decide_eq_true hname)
  · intro m hm
    exact of_decide_eq_true (List.mem_filter.mp hm).2

omit [DecidableEq Rest] in
/-- A member that is revoked stays away until one of its name is added. -/
theorem gone_after (pre : List (Entry Rest)) {r : Entry Rest} {mid : List (Entry Rest)}
    (hrevoked : r.event = .members (.revoke name))
    (hmid : ∀ e ∈ mid, ∀ grants actions random, e.event ≠ .members (.add name grants actions random)) :
    ∀ m ∈ membersAfter (pre ++ r :: mid), m.name ≠ name := by
  induction mid using List.reverseRecOn with
  | nil =>
      rw [membersAfter_concat, hrevoked]
      exact gone_revoke _
  | append_singleton mid e ih =>
      obtain ⟨hmid, hlast⟩ := List.forall_mem_append.mp hmid
      rw [← List.cons_append, ← List.append_assoc, membersAfter_concat]
      cases hcall : e.event.memberCall with
      | none => exact ih hmid
      | some call =>
          refine gone_spec (fun grants actions random hadd => ?_) (ih hmid)
          refine hlast e List.mem_cons_self grants actions random ?_
          cases hevent : e.event with
          | members made =>
              rw [hevent] at hcall
              obtain rfl : made = call := Option.some.inj hcall
              rw [hadd]
          | _ => simp [hevent, Event.memberCall] at hcall

/-- **Revocation holds**: from the event on that revokes a member, until one of that name is added, no
request is made by that member or by a plugin for it, whatever tokens, cookies and leases are left. -/
theorem revocation_holds {mid : List (Entry Rest)} {r : Entry Rest}
    (h : Run sha256 token s past) (hplain : Splittable [] (memberCalls past))
    (hpast : past = pre ++ r :: (mid ++ e :: post)) (hrevoked : r.event = .members (.revoke name))
    (hmid : ∀ e ∈ mid, ∀ grants actions random, e.event ≠ .members (.add name grants actions random)) :
    ∀ principal, e.principal = some principal → ¬ActsFor name principal := by
  intro principal hprincipal
  have hpast' : past = (pre ++ r :: mid) ++ e :: post := by simpa using hpast
  obtain ⟨s₀, hrun, he⟩ := h.split hpast'
  have hplain₀ := splittable_before hplain hpast'
  have hgone := gone_after pre hrevoked hmid
  rw [he] at hprincipal
  obtain ⟨req, -, hresolve, -⟩ := principal_eq_some_iff.mp hprincipal
  cases principal with
  | admin => exact id
  | member found grants actions =>
      obtain ⟨-, entry, hentry, hfound⟩ := resolve_member hresolve
      obtain ⟨hname, -, -⟩ := Identity.member.inj hentry
      rintro rfl
      obtain ⟨stored, -, hfound⟩ | ⟨bearer, -, hfound⟩ := hfound
      · obtain ⟨m, hm, -, rfl⟩ := found_by_name hrun hplain₀ hfound
        exact hgone m hm hname
      · obtain ⟨m, hm, -, rfl⟩ := found_by_token hrun hplain₀ hfound
        exact hgone m hm hname
  | plugin id project capabilities caller =>
      obtain ⟨presented, -, hidentity⟩ := resolve_plugin hresolve
      obtain ⟨lease, run, caller', -, -, -, -, hcaller, heq⟩ := PluginRegistry.identity_eq_some hidentity
      obtain ⟨-, -, -, rfl⟩ := Identity.plugin.inj heq
      obtain ⟨-, rfl⟩ | ⟨m, hm, grants, actions, -, rfl⟩ := stillIs_of_callerNow hrun hplain₀ hcaller
      · exact fun acts => acts
      · exact hgone m hm

theorem revocation_holds_sample : (Day.entry 8).event = .members (.revoke "alice".toList) ∧
    ∀ principal, (Day.entry 10).principal = some principal → ¬ActsFor "alice".toList principal := by
  have hpast : Day.past = Day.past.take 8 ++ Day.entry 8 ::
      ([Day.entry 9] ++ Day.entry 10 :: Day.past.drop 11) :=
    (Day.past_split 8).trans (congrArg (fun tail => Day.past.take 8 ++ Day.entry 8 :: tail)
      ((Day.past_drop 9).trans (congrArg (Day.entry 9 :: ·) (Day.past_drop 10))))
  have hrevoked := (Day.entry_event 8 rfl).2
  refine ⟨hrevoked, revocation_holds Day.run Day.plain hpast hrevoked ?_⟩
  rw [List.forall_mem_singleton, (Day.entry_event 9 rfl).2]
  exact nofun

end

end Access

end Orgasmic
