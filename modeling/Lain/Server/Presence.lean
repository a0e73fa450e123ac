import Mathlib
import Lain.Foundation.SortedMap

/-!
# The registry of sessions

Agents register, prove that they live by heartbeats, and are removed: on request, or when no
heartbeat has come for as long as a session of their kind may stay silent.
-/

namespace Lain.Server

open Foundation

/-- The id of a session. -/
abbrev AgentId := String

/-- How an agent runs. -/
inductive AgentMode where
  | interactive | background
  deriving DecidableEq

/-- A registered agent. -/
structure AgentSession where
  id : AgentId
  name : String
  mode : AgentMode
  sessionToken : String
  startedAt : Nat
  lastHeartbeat : Nat
  deriving DecidableEq

/-- Why a heartbeat is refused. -/
inductive HeartbeatError where
  | unknownAgent | wrongToken
  deriving DecidableEq

structure Lifetimes where
  interactive : Nat
  background : Nat

/-- How long a session of a mode may go without a heartbeat. -/
def Lifetimes.expiresAfterFor (lifetimes : Lifetimes) : AgentMode → Nat
  | .interactive => lifetimes.interactive
  | .background => lifetimes.background

structure Sessions where
  entries : SortedMap AgentId AgentSession
  keyed : ∀ id s, entries.get? id = some s → s.id = id
  deriving DecidableEq

namespace Sessions

def get? (sessions : Sessions) (id : AgentId) : Option AgentSession :=
  sessions.entries.get? id

/-- No session. -/
def empty : Sessions where
  entries := ∅
  keyed id s found := by cases found

/-- Put a session under its id. -/
def insert (sessions : Sessions) (s : AgentSession) : Sessions where
  entries := sessions.entries.insert s.id s
  keyed id s' found := by
    rw [SortedMap.get?_insert] at found
    split at found
    next same =>
        cases found
        exact same.symm
    next => exact sessions.keyed id s' found

def erase (sessions : Sessions) (id : AgentId) : Sessions where
  entries := sessions.entries.erase id
  keyed id' s found := by
    rw [SortedMap.get?_erase] at found
    split at found
    · cases found
    · exact sessions.keyed id' s found

/-- Every session. -/
def values (sessions : Sessions) : List AgentSession :=
  sessions.entries.entries.map Prod.snd

variable {sessions : Sessions} {id : AgentId} {s : AgentSession}

@[simp] theorem get?_empty (id : AgentId) : empty.get? id = none := rfl

theorem id_of_get? (found : sessions.get? id = some s) : s.id = id :=
  sessions.keyed id s found

theorem get?_insert (sessions : Sessions) (s : AgentSession) (id : AgentId) :
    (sessions.insert s).get? id = if id = s.id then some s else sessions.get? id :=
  SortedMap.get?_insert _ _ _ _

theorem get?_erase (sessions : Sessions) (id id' : AgentId) :
    (sessions.erase id).get? id' = if id' = id then none else sessions.get? id' :=
  SortedMap.get?_erase _ _ _

theorem mem_values : s ∈ sessions.values ↔ sessions.get? s.id = some s := by
  unfold values get?
  constructor
  · intro member
    obtain ⟨⟨id, s⟩, inside, rfl⟩ := List.mem_map.mp member
    have found := SortedMap.mem_entries.mp inside
    rw [sessions.keyed id s found]
    exact found
  · intro found
    exact List.mem_map.mpr ⟨(s.id, s), SortedMap.mem_entries.mpr found, rfl⟩

end Sessions

/-- The registry of one process. -/
structure PresenceRegistry where
  sessions : Sessions := .empty
  byToken : SortedMap String AgentId := ∅
  deriving DecidableEq

namespace PresenceRegistry

/-- Register an agent under a new id and a new token. -/
def register (reg : PresenceRegistry) (now : Nat) (id : AgentId) (token name : String)
    (mode : AgentMode) : PresenceRegistry where
  sessions := reg.sessions.insert
    { id, name, mode, sessionToken := token, startedAt := now, lastHeartbeat := now }
  byToken := reg.byToken.insert token id

/-- A session proves that it lives. -/
def heartbeat (reg : PresenceRegistry) (now : Nat) (id : AgentId) (token : String) :
    Except HeartbeatError PresenceRegistry :=
  match reg.sessions.get? id with
  | none => .error .unknownAgent
  | some s =>
    if s.sessionToken ≠ token then .error .wrongToken
    else .ok { reg with sessions := reg.sessions.insert { s with lastHeartbeat := now } }

def stale (lifetimes : Lifetimes) (now : Nat) (s : AgentSession) : Bool :=
  decide (lifetimes.expiresAfterFor s.mode ≤ now - s.lastHeartbeat)

/-- Drop a session with its token. -/
def drop (reg : PresenceRegistry) (s : AgentSession) : PresenceRegistry where
  sessions := reg.sessions.erase s.id
  byToken := reg.byToken.erase s.sessionToken

/-- Drop the sessions whose time is up; they are returned. -/
def expireStale (reg : PresenceRegistry) (lifetimes : Lifetimes) (now : Nat) :
    List AgentSession × PresenceRegistry :=
  let gone := reg.sessions.values.filter (stale lifetimes now)
  (gone, gone.foldl drop reg)

/-- Drop the session of an id; it is returned. -/
def remove (reg : PresenceRegistry) (id : AgentId) : Option AgentSession × PresenceRegistry :=
  match reg.sessions.get? id with
  | none => (none, reg)
  | some s => (some s, { sessions := reg.sessions.erase id, byToken := reg.byToken.erase s.sessionToken })

def sessionOf (reg : PresenceRegistry) (token : String) : Option AgentSession :=
  (reg.byToken.get? token).bind reg.sessions.get?

/-- Take over the sessions of a state file. -/
def load (sessions : Sessions) : PresenceRegistry where
  sessions := sessions
  byToken := sessions.values.foldl (fun map s => map.insert s.sessionToken s.id) ∅

variable {reg : PresenceRegistry} {lifetimes : Lifetimes} {now : Nat}

private theorem sessions_foldl_drop (gone : List AgentSession) (reg : PresenceRegistry)
    (id : AgentId) :
    (gone.foldl drop reg).sessions.get? id =
      if id ∈ gone.map AgentSession.id then none else reg.sessions.get? id := by
  induction gone generalizing reg with
  | nil => rfl
  | cons s rest ih =>
    rw [List.foldl_cons, ih, List.map_cons]
    change (if _ then _ else (reg.sessions.erase s.id).get? id) = _
    rw [Sessions.get?_erase]
    by_cases here : id = s.id
    · simp [here]
    · simp [here]

theorem get?_expireStale (reg : PresenceRegistry) (lifetimes : Lifetimes) (now : Nat)
    (id : AgentId) :
    (reg.expireStale lifetimes now).2.sessions.get? id =
      (reg.sessions.get? id).filter fun s => !stale lifetimes now s := by
  unfold expireStale
  dsimp only
  rw [sessions_foldl_drop]
  have listed : id ∈ (reg.sessions.values.filter (stale lifetimes now)).map AgentSession.id ↔
      ∃ s, reg.sessions.get? id = some s ∧ stale lifetimes now s = true := by
    rw [List.mem_map]
    constructor
    · rintro ⟨s, member, rfl⟩
      obtain ⟨inside, old⟩ := List.mem_filter.mp member
      exact ⟨s, Sessions.mem_values.mp inside, old⟩
    · rintro ⟨s, found, old⟩
      have same := Sessions.id_of_get? found
      subst same
      exact ⟨s, List.mem_filter.mpr ⟨Sessions.mem_values.mpr found, old⟩, rfl⟩
  cases found : reg.sessions.get? id with
  | none => simp
  | some s =>
    rw [found] at listed
    by_cases old : stale lifetimes now s = true
    · rw [if_pos (listed.mpr ⟨s, rfl, old⟩), Option.filter_some, old]
      rfl
    · have young : stale lifetimes now s = false := Bool.eq_false_of_not_eq_true old
      rw [if_neg fun member => ?_, Option.filter_some, young]
      · rfl
      · obtain ⟨s', same, old'⟩ := listed.mp member
        cases same
        exact old old'

theorem mem_expireStale {s : AgentSession} :
    s ∈ (reg.expireStale lifetimes now).1 ↔
      reg.sessions.get? s.id = some s ∧ stale lifetimes now s = true := by
  unfold expireStale
  rw [List.mem_filter, Sessions.mem_values]

theorem get?_remove (reg : PresenceRegistry) (id id' : AgentId) :
    (reg.remove id).2.sessions.get? id' = if id' = id then none else reg.sessions.get? id' := by
  unfold remove
  cases found : reg.sessions.get? id with
  | none =>
    dsimp only
    split
    next same => rw [same, found]
    next => rfl
  | some s => exact Sessions.get?_erase _ _ _

theorem heartbeat_eq_ok {id : AgentId} {token : String} {after : PresenceRegistry}
    (accepted : reg.heartbeat now id token = .ok after) :
    ∃ s, reg.sessions.get? id = some s ∧ s.sessionToken = token ∧
      after = { reg with sessions := reg.sessions.insert { s with lastHeartbeat := now } } := by
  unfold heartbeat at accepted
  split at accepted
  · cases accepted
  next s found =>
      split at accepted
      · cases accepted
      next same =>
          cases accepted
          exact ⟨s, found, not_not.mp same, rfl⟩

end PresenceRegistry

end Lain.Server
