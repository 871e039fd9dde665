import Orgasmic.Authorization
import Orgasmic.Expiring
import Orgasmic.MemberStore

/-! # Sessions

How a request proves who sends it.

* **Bearers.** The one token of the daemon stands for the admin; a member has a token of its own, of
  which `members.org` keeps the hash.
* **Tickets.** `createUiTicket` hands out a ticket that `redeemUiTicket` takes back, once, for a session
  of the admin.
* **Member sessions.** `createMemberSession` notes the name behind a login; what the member may do is
  read from `members.org` at every request (`resolveIdentity`).

Random tokens and the time are arguments. -/

namespace Orgasmic

open Text
open Std (TreeMap)

/-! ### Times -/

/-- `DateTime<Utc>`, in nanoseconds. -/
abbrev Utc := ℤ

def seconds (n : ℤ) : Utc := n * 1000000000

def uiTicketTtl : Utc := seconds 60

def uiSessionTtl : Utc := seconds (12 * 60 * 60)

def memberSessionTtl : Utc := seconds (30 * 24 * 60 * 60)

/-! ### Requests -/

/-- The headers that are looked at, where they are text. -/
structure Headers where
  authorization : Option Text
  cookie : Option Text
deriving DecidableEq

def uiSessionCookie : Text := "orgasmic_ui_session".toList

def memberSessionCookie : Text := "orgasmic_member_session".toList

def cookieValue (headers : Headers) (name : Text) : Option Text :=
  headers.cookie.bind fun raw => (raw.splitOn ';').findSome? fun part =>
    (splitOnce '=' (trim part)).bind fun p => if p.1 = name then some p.2 else none

/-- What stands behind `Bearer `. -/
def Headers.bearer (headers : Headers) : Option Text :=
  headers.authorization.bind fun value => "Bearer ".toList.isPrefixOf? value

/-! ### Stores -/

structure UiSessionStore where
  tickets : TreeMap Text Utc
  sessions : TreeMap Text Utc

structure MemberSession where
  memberName : Text
  expiresAt : Utc
deriving DecidableEq

structure AuthState where
  token : Text
  uiSessions : UiSessionStore
  memberSessions : TreeMap Text MemberSession

def UiSessionStore.prune (now : Utc) (store : UiSessionStore) : UiSessionStore :=
  ⟨Expiring.prune id now store.tickets, Expiring.prune id now store.sessions⟩

/-- `MemberSessionStore::prune`. -/
def pruneMembers (now : Utc) (sessions : TreeMap Text MemberSession) : TreeMap Text MemberSession :=
  Expiring.prune MemberSession.expiresAt now sessions

/-- The identity of a member that is on file. -/
def MemberEntry.identity (entry : MemberEntry) : Identity :=
  .member entry.name entry.grants entry.actions

def findMemberByName (file : MembersFile) (name : Text) : Except MemberError (Option MemberEntry) :=
  (readMembers file).map fun entries => entries.find? fun e => e.name = name

namespace AuthState

def new (token : Text) : AuthState := ⟨token, ⟨∅, ∅⟩, ∅⟩

def checkToken (auth : AuthState) (presented : Text) : Bool := auth.token = trim presented

def check (auth : AuthState) (headers : Headers) : Bool := headers.bearer.any auth.checkToken

def checkQueryToken (auth : AuthState) (query : Option Text) : Bool :=
  query.any fun query => (query.splitOn '&').any fun pair =>
    let p := (splitOnce '=' pair).getD (pair, [])
    p.1 = "token".toList && auth.checkToken p.2

def createUiTicket (auth : AuthState) (now : Utc) (ticket : Text) : AuthState :=
  let store := auth.uiSessions.prune now
  { auth with uiSessions.tickets := store.tickets.insert ticket (now + uiTicketTtl)
              uiSessions.sessions := store.sessions }

/-- The session that the ticket is redeemed for. -/
def redeemUiTicket (auth : AuthState) (now : Utc) (ticket session : Text) : Option Text × AuthState :=
  let store := auth.uiSessions.prune now
  match store.tickets[ticket]? with
  | none => (none, { auth with uiSessions := store })
  | some expiresAt =>
      let tickets := store.tickets.erase ticket
      if expiresAt ≤ now then (none, { auth with uiSessions := ⟨tickets, store.sessions⟩ })
      else (some session,
        { auth with uiSessions := ⟨tickets, store.sessions.insert session (now + uiSessionTtl)⟩ })

def checkUiSession (auth : AuthState) (now : Utc) (headers : Headers) : Bool × AuthState :=
  match cookieValue headers uiSessionCookie with
  | none => (false, auth)
  | some session =>
      let store := auth.uiSessions.prune now
      (store.sessions[session]?.any fun expiresAt => now < expiresAt, { auth with uiSessions := store })

def checkHeaders (auth : AuthState) (now : Utc) (headers : Headers) : Bool × AuthState :=
  if auth.check headers then (true, auth) else auth.checkUiSession now headers

def createMemberSession (auth : AuthState) (now : Utc) (memberName session : Text) : AuthState :=
  { auth with
    memberSessions :=
      (pruneMembers now auth.memberSessions).insert session ⟨memberName, now + memberSessionTtl⟩ }

def checkMemberSession (auth : AuthState) (now : Utc) (headers : Headers) : Option Text × AuthState :=
  match cookieValue headers memberSessionCookie with
  | none => (none, auth)
  | some session =>
      let store := pruneMembers now auth.memberSessions
      (store[session]?.map MemberSession.memberName, { auth with memberSessions := store })

variable (sha256 : Bytes → Bytes)

/-- The members are read anew for each request. -/
def resolveIdentity (auth : AuthState) (now : Utc) (headers : Headers) (members : MembersFile) :
    Option Identity × AuthState :=
  let (admin, auth) := auth.checkHeaders now headers
  if admin then (some .admin, auth)
  else
    let (name?, auth) := auth.checkMemberSession now headers
    let found := match name? with
      | some name => findMemberByName members name
      | none =>
          match headers.bearer with
          | none => .ok none
          | some token => findMemberByToken sha256 members token
    ((found.toOption.bind id).map MemberEntry.identity, auth)

/-! ### What a request is granted -/

/-- Why a request is one of the admin. -/
inductive Admits (auth : AuthState) (now : Utc) (headers : Headers) : Prop
  | bearer (h : auth.check headers = true)
  | session (session : Text) (expiresAt : Utc)
      (cookie : cookieValue headers uiSessionCookie = some session)
      (found : (Expiring.prune id now auth.uiSessions.sessions)[session]? = some expiresAt)

/-- The session of a member that the cookie names. -/
def MemberCookie (auth : AuthState) (now : Utc) (headers : Headers) (stored : MemberSession) : Prop :=
  ∃ session, cookieValue headers memberSessionCookie = some session ∧
    (pruneMembers now auth.memberSessions)[session]? = some stored

variable {sha256} {auth : AuthState} {now : Utc} {headers : Headers} {members : MembersFile}

theorem checkHeaders_iff : (auth.checkHeaders now headers).1 = true ↔ auth.Admits now headers := by
  rw [checkHeaders]
  by_cases hcheck : auth.check headers = true
  · rw [if_pos hcheck]
    exact iff_of_true rfl (.bearer hcheck)
  · rw [if_neg hcheck, checkUiSession]
    constructor
    · intro h
      split at h
      · cases h
      · next session hcookie =>
          obtain ⟨expiresAt, hfound⟩ :=
            Option.isSome_iff_exists.mp ((Option.any_eq_true_iff_get _ _).mp h).1
          exact .session session expiresAt hcookie hfound
    · rintro (h | ⟨session, expiresAt, hcookie, hfound⟩)
      · exact absurd h hcheck
      · rw [hcookie]
        show Option.any _ (Expiring.prune id now auth.uiSessions.sessions)[session]? = true
        rw [hfound, Option.any_some]
        exact decide_eq_true (Expiring.found_prune id hfound).2

theorem MemberCookie.unique {stored stored' : MemberSession} (h : auth.MemberCookie now headers stored)
    (h' : auth.MemberCookie now headers stored') : stored = stored' := by
  obtain ⟨session, hcookie, hfound⟩ := h
  obtain ⟨session', hcookie', hfound'⟩ := h'
  obtain rfl := Option.some.inj (hcookie.symm.trans hcookie')
  exact Option.some.inj (hfound.symm.trans hfound')

theorem checkMemberSession_eq_some_iff {name : Text} :
    (auth.checkMemberSession now headers).1 = some name ↔
      ∃ stored, auth.MemberCookie now headers stored ∧ stored.memberName = name := by
  rw [checkMemberSession]
  constructor
  · intro h
    split at h
    · cases h
    · next session hcookie =>
        obtain ⟨stored, hfound, rfl⟩ := Option.map_eq_some_iff.mp h
        exact ⟨stored, ⟨session, hcookie, hfound⟩, rfl⟩
  · rintro ⟨stored, ⟨session, hcookie, hfound⟩, rfl⟩
    rw [hcookie]
    show Option.map _ (pruneMembers now auth.memberSessions)[session]? = _
    rw [hfound]
    rfl

theorem checkHeaders_memberSessions :
    (auth.checkHeaders now headers).2.memberSessions = auth.memberSessions := by
  rw [checkHeaders, checkUiSession]
  split_ifs
  · rfl
  · split <;> rfl

/-- **What a request is granted**: all of it to the admin; to a member what the entry says that is on
file now, found by the name behind the cookie or else by the token. -/
theorem resolveIdentity_eq_some_iff {identity : Identity} :
    (auth.resolveIdentity sha256 now headers members).1 = some identity ↔
      auth.Admits now headers ∧ identity = .admin ∨
      ¬auth.Admits now headers ∧ ∃ entry, identity = entry.identity ∧
        ((∃ stored, auth.MemberCookie now headers stored ∧
            findMemberByName members stored.memberName = .ok (some entry)) ∨
          (∀ stored, ¬auth.MemberCookie now headers stored) ∧ ∃ token, headers.bearer = some token ∧
            findMemberByToken sha256 members token = .ok (some entry)) := by
  have hcookie (stored : MemberSession) :
      (auth.checkHeaders now headers).2.MemberCookie now headers stored ↔
        auth.MemberCookie now headers stored := by
    rw [MemberCookie, checkHeaders_memberSessions, MemberCookie]
  have hfound {α : Type} (found : Except MemberError (Option α)) (entry : α) :
      found.toOption.bind id = some entry ↔ found = .ok (some entry) := by
    cases found with
    | error err => simp [Except.toOption]
    | ok entry? => simp [Except.toOption]
  rw [resolveIdentity]
  by_cases hadmits : auth.Admits now headers
  · simp only [checkHeaders_iff.mpr hadmits, if_true, hadmits, true_and, not_true, false_and, or_false,
      Option.some.injEq, eq_comm]
  · have hfalse := mt checkHeaders_iff.mp hadmits
    simp only [hfalse, hadmits, false_and, false_or, not_false_eq_true, true_and,
      Bool.false_eq_true, if_false, Option.map_eq_some_iff, hfound]
    cases hname : ((auth.checkHeaders now headers).2.checkMemberSession now headers).1 with
    | some name =>
        obtain ⟨stored, hstored, rfl⟩ := checkMemberSession_eq_some_iff.mp hname
        rw [hcookie] at hstored
        constructor
        · rintro ⟨entry, hentry, rfl⟩
          exact ⟨entry, rfl, .inl ⟨stored, hstored, hentry⟩⟩
        · rintro ⟨entry, rfl, ⟨stored', hstored', hentry⟩ | ⟨hnone, -⟩⟩
          · obtain rfl := hstored.unique hstored'
            exact ⟨entry, hentry, rfl⟩
          · exact absurd hstored (hnone stored)
    | none =>
        have hnone (stored : MemberSession) : ¬auth.MemberCookie now headers stored := fun hstored => by
          rw [checkMemberSession_eq_some_iff.mpr ⟨stored, (hcookie stored).mpr hstored, rfl⟩] at hname
          cases hname
        constructor
        · rintro ⟨entry, hentry, rfl⟩
          refine ⟨entry, rfl, .inr ⟨hnone, ?_⟩⟩
          cases htoken : headers.bearer with
          | none =>
              rw [htoken] at hentry
              cases hentry
          | some token =>
              rw [htoken] at hentry
              exact ⟨token, rfl, hentry⟩
        · rintro ⟨entry, rfl, ⟨stored, hstored, -⟩ | ⟨-, token, htoken, hentry⟩⟩
          · exact absurd hstored (hnone stored)
          · rw [htoken]
            exact ⟨entry, hentry, rfl⟩

end AuthState

end Orgasmic
