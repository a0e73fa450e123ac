import Mathlib
import Lain.Foundation.Runs
import Lain.Server.Presence

/-!
# Claims and sessions

Files are claimed under the name of an agent, sessions are kept under their ids.
-/

namespace Lain.Server

open Foundation

/-! ### The coordination store -/

abbrev Claims := SortedMap String String

namespace Claims

/-- Claim one path, if it is free or held under the same name already. -/
def claimFile (identity : String) (state : Claims × List String) (path : String) :
    Claims × List String :=
  match state.1.get? path with
  | none => (state.1.insert path identity, state.2 ++ [path])
  | some holder => if holder = identity then (state.1, state.2 ++ [path]) else state

def claimBatch (claims : Claims) (identity : String) (paths : List String) :
    Claims × List String :=
  paths.foldl (claimFile identity) (claims, [])

def releasePath (identity : String) (claims : Claims) (path : String) : Claims :=
  if claims.get? path = some identity then claims.erase path else claims

def release (claims : Claims) (identity : String) (paths : List String) : Claims :=
  paths.foldl (releasePath identity) claims

def claimsForAgent (claims : Claims) (identity : String) : List String :=
  (claims.entries.filter fun entry => decide (entry.2 = identity)).map Prod.fst

def releaseAllFor (claims : Claims) (identity : String) : Claims :=
  let held := claims.claimsForAgent identity
  if held.isEmpty then claims else claims.release identity held

variable {claims : Claims} {identity path : String}

private theorem get?_release (paths : List String) (claims : Claims) :
    (claims.release identity paths).get? path =
      if path ∈ paths ∧ claims.get? path = some identity then none else claims.get? path := by
  induction paths generalizing claims with
  | nil =>
    rw [if_neg fun both => List.not_mem_nil both.1]
    rfl
  | cons first rest ih =>
    unfold release at ih ⊢
    rw [List.foldl_cons, ih]
    unfold releasePath
    by_cases held : claims.get? first = some identity
    · rw [if_pos held, SortedMap.get?_erase]
      by_cases here : path = first
      · subst here
        simp [held]
      · simp [here]
    · rw [if_neg held]
      by_cases here : path = first
      · subst here
        simp [held]
      · simp [here]

theorem get?_releaseAllFor (claims : Claims) (identity path : String) :
    (claims.releaseAllFor identity).get? path =
      if claims.get? path = some identity then none else claims.get? path := by
  have listed : path ∈ claims.claimsForAgent identity ↔ claims.get? path = some identity := by
    unfold claimsForAgent
    rw [List.mem_map]
    constructor
    · rintro ⟨⟨path, holder⟩, member, rfl⟩
      obtain ⟨inside, same⟩ := List.mem_filter.mp member
      rw [← of_decide_eq_true same]
      exact SortedMap.mem_entries.mp inside
    · intro held
      exact ⟨(path, identity), List.mem_filter.mpr
        ⟨SortedMap.mem_entries.mpr held, decide_eq_true rfl⟩, rfl⟩
  unfold releaseAllFor
  dsimp only
  split
  next none_ =>
      rw [List.isEmpty_iff] at none_
      rw [none_] at listed
      rw [if_neg fun held => List.not_mem_nil (listed.mpr held)]
  next =>
      rw [get?_release]
      simp only [listed, and_self]

theorem get?_foldl_releaseAllFor (gone : List AgentSession) (claims : Claims) (path : String) :
    (gone.foldl (fun claims x => claims.releaseAllFor x.name) claims).get? path =
      (claims.get? path).filter fun holder => decide (holder ∉ gone.map AgentSession.name) := by
  induction gone generalizing claims with
  | nil =>
    rw [List.foldl_nil]
    cases held : claims.get? path with
    | none => rfl
    | some holder => rfl
  | cons x rest ih =>
    rw [List.foldl_cons, ih, get?_releaseAllFor]
    cases held : claims.get? path with
    | none => simp
    | some holder =>
      by_cases here : holder = x.name
      · subst here
        simp [Option.filter_some]
      · simp [here, Option.filter_some]

theorem claimBatch_spec (claims : Claims) (identity : String) (paths : List String) :
    (∀ path holder, claims.get? path = some holder →
      (claims.claimBatch identity paths).1.get? path = some holder) ∧
    ∀ path ∈ (claims.claimBatch identity paths).2,
      (claims.claimBatch identity paths).1.get? path = some identity := by
  induction paths using List.reverseRecOn with
  | nil => exact ⟨fun _ _ held => held, fun path member => (by cases member)⟩
  | append_singleton paths last ih =>
    unfold claimBatch at ih ⊢
    rw [List.foldl_append, List.foldl_cons, List.foldl_nil]
    generalize paths.foldl (claimFile identity) (claims, []) = before at ih ⊢
    obtain ⟨kept, granted⟩ := ih
    unfold claimFile
    cases held : before.1.get? last with
    | none =>
      dsimp only
      refine ⟨fun path holder old => ?_, fun path member => ?_⟩
      · rw [SortedMap.get?_insert, if_neg, kept path holder old]
        rintro rfl
        rw [kept path holder old] at held
        cases held
      · rw [SortedMap.get?_insert]
        split
        · rfl
        next apart =>
            rcases List.mem_append.mp member with old | new
            · exact granted path old
            · exact absurd (List.mem_singleton.mp new) apart
    | some holder =>
      dsimp only
      split
      next same =>
          refine ⟨kept, fun path member => ?_⟩
          rcases List.mem_append.mp member with old | new
          · exact granted path old
          · rw [List.mem_singleton.mp new, held, same]
      next => exact ⟨kept, granted⟩

end Claims

/-! ### One server -/

structure CoordinatedServer where
  now : Nat := 0
  registry : PresenceRegistry := {}
  file : Option Sessions := none
  fresh : Bool := false
  claims : Claims := ∅
  named : SortedMap AgentId String := ∅
  through : SortedMap String (Finset AgentId) := ∅
  deriving DecidableEq

/-- The operations. -/
inductive CoordinationStep where
  | register (id : AgentId) (token name : String) (mode : AgentMode)
  | heartbeat (id : AgentId) (token : String)
  | claim (token : String) (paths : List String)
  | release (token : String) (paths : List String)
  | unregister (id : AgentId)
  | tick
  /-- A tool call is noted in the activity feed, which saves the state file. -/
  | observe
  | advance (span : Nat)
  deriving DecidableEq

namespace CoordinatedServer

variable (lifetimes : Lifetimes)

def refresh (s : CoordinatedServer) : CoordinatedServer :=
  if s.fresh then s
  else
    match s.file with
    | none => s
    | some sessions => { s with registry := .load sessions, fresh := true }

def persist (s : CoordinatedServer) : CoordinatedServer :=
  { s with file := some s.registry.sessions, fresh := false }

def settle (s : CoordinatedServer) (claims : Claims) : CoordinatedServer :=
  { s with
    claims
    through := s.through.filterMapEntries fun path ids =>
      if (claims.get? path).isSome then some ids else none }

def authenticate (s : CoordinatedServer) (token : String) :
    Option (AgentSession × CoordinatedServer) :=
  (s.registry.sessionOf token).map fun session =>
    match s.registry.heartbeat s.now session.id token with
    | .ok registry => (session, { s with registry })
    | .error _ => (session, s)

def claimWithSession (s : CoordinatedServer) (session : AgentSession) (paths : List String) :
    CoordinatedServer :=
  let result := s.claims.claimBatch session.name paths
  { s with
    claims := result.1
    through := result.2.foldl (fun through path =>
      through.alter path fun ids => insert session.id (ids.getD ∅)) s.through }

def identityOf (s : CoordinatedServer) (id : AgentId) : String :=
  ((s.registry.sessions.get? id).map AgentSession.name).getD id

def unregisterAgent (s : CoordinatedServer) (id : AgentId) : CoordinatedServer :=
  let s := s.settle (s.claims.releaseAllFor (s.identityOf id))
  match s.registry.remove id with
  | (none, _) => s
  | (some session, registry) =>
    ({ s with registry }.settle (s.claims.releaseAllFor session.name)).persist

def expiryTick (s : CoordinatedServer) : CoordinatedServer :=
  let expired := s.registry.expireStale lifetimes s.now
  let s := { s with registry := expired.2 }
  let s := if expired.1.isEmpty then s else s.persist
  s.settle (expired.1.foldl (fun claims x => claims.releaseAllFor x.name) s.claims)

/-- Take one step; a new session has a new id. -/
def step (s : CoordinatedServer) : CoordinationStep → Option CoordinatedServer
  | .register id token name mode =>
    if (s.named.get? id).isSome then none
    else
      let s := s.refresh
      some ({ s with
        registry := s.registry.register s.now id token name mode
        named := s.named.insert id name }.persist)
  | .heartbeat id token =>
    let s := s.refresh
    match s.registry.heartbeat s.now id token with
    | .ok registry => some { s with registry }
    | .error _ => some s
  | .claim token paths =>
    match s.refresh.authenticate token with
    | none => some s.refresh
    | some (session, s) => some (s.claimWithSession session paths)
  | .release token paths =>
    match s.refresh.authenticate token with
    | none => some s.refresh
    | some (session, s) => some (s.settle (s.claims.release session.name paths))
  | .unregister id => some (s.refresh.unregisterAgent id)
  | .tick => some (s.expiryTick lifetimes)
  | .observe => some s.persist
  | .advance span => some { s with now := s.now + span }

/-! ### What should hold -/

def Released (s s' : CoordinatedServer) (path : String) : Prop :=
  (s.claims.get? path).isSome = true ∧ s'.claims.get? path = none

/-- The step takes claims only from the dead: no live session has the name of a claim that the
tick revokes, and no claim that a tick or a removal releases was made through a session that
is live. -/
structure TakesFromTheDead (s : CoordinatedServer) (event : CoordinationStep)
    (s' : CoordinatedServer) : Prop where
  revoked : event = .tick → ∀ path holder, s.claims.get? path = some holder →
    s'.claims.get? path = none → ∀ id x, s'.registry.sessions.get? id = some x → x.name ≠ holder
  spared : (event = .tick ∨ ∃ id, event = .unregister id) → ∀ path, Released s s' path →
    ∀ id ∈ (s.through.get? path).getD ∅, s'.registry.sessions.get? id = none

/-- The names a step releases are those of the dead: when a claim is held under the name of an
expired session, every session of this name has expired; when one is held under the name of a
removed session, it was made through no other live session. -/
structure NamesOfTheDead (s : CoordinatedServer) (event : CoordinationStep) : Prop where
  expired : event = .tick → ∀ x ∈ (s.registry.expireStale lifetimes s.now).1,
    ∀ path, s.claims.get? path = some x.name → ∀ y ∈ s.registry.sessions.values,
      y.name = x.name → PresenceRegistry.stale lifetimes s.now y = true
  removed : ∀ id, event = .unregister id → ∀ path,
    s.refresh.claims.get? path = some (s.refresh.identityOf id) →
      ∀ other ∈ (s.refresh.through.get? path).getD ∅, other ≠ id →
        s.refresh.registry.sessions.get? other = none

/-- Every step of a run has a property, whatever states it leads through. -/
def EachStep (P : CoordinatedServer → CoordinationStep → CoordinatedServer → Prop)
    (events : List CoordinationStep) : Prop :=
  ∀ before event after, events = before ++ event :: after → ∀ s s',
    Runs (step lifetimes) (fun _ _ => True) {} before s → step lifetimes s event = some s' →
      P s event s'

variable {lifetimes} {s s' : CoordinatedServer} {event : CoordinationStep} {id : AgentId}

/-! ### Names are attributed -/

/-- Sessions bear the names their ids were registered under, and a claim is held under the name of
every session it was made through. -/
structure Named (s : CoordinatedServer) : Prop where
  table : ∀ id x, s.registry.sessions.get? id = some x → s.named.get? id = some x.name
  filed : ∀ sessions, s.file = some sessions → ∀ id x, sessions.get? id = some x →
    s.named.get? id = some x.name
  held : ∀ path ids, s.through.get? path = some ids → ∀ id ∈ ids,
    ∃ name, s.claims.get? path = some name ∧ s.named.get? id = some name

theorem Named.refresh (named : Named s) : Named s.refresh := by
  unfold CoordinatedServer.refresh
  split
  · exact named
  · split
    · exact named
    next sessions file => exact ⟨named.filed sessions file, named.filed, named.held⟩

theorem Named.persist (named : Named s) : Named s.persist where
  table := named.table
  filed sessions file := by
    cases file
    exact named.table
  held := named.held

theorem Named.settle (named : Named s) {claims : Claims}
    (fewer : ∀ path holder, claims.get? path = some holder → s.claims.get? path = some holder) :
    Named (s.settle claims) where
  table := named.table
  filed := named.filed
  held path ids found id member := by
    change (SortedMap.filterMapEntries _ _).get? path = some ids at found
    rw [SortedMap.get?_filterMapEntries] at found
    obtain ⟨ids', before, stays⟩ := Option.bind_eq_some_iff.mp found
    obtain ⟨there, same⟩ := Option.ite_none_right_eq_some.mp stays
    cases same
    obtain ⟨holder, here⟩ := Option.isSome_iff_exists.mp there
    obtain ⟨name, was, named⟩ := named.held path ids before id member
    cases (fewer path holder here).symm.trans was
    exact ⟨holder, here, named⟩

theorem Named.retable (named : Named s) {registry : PresenceRegistry}
    (fewer : ∀ id x, registry.sessions.get? id = some x →
      ∃ y, s.registry.sessions.get? id = some y ∧ y.name = x.name) :
    Named { s with registry } where
  table id x found := by
    obtain ⟨y, before, same⟩ := fewer id x found
    rw [← same]
    exact named.table id y before
  filed := named.filed
  held := named.held

theorem Named.heartbeat (named : Named s) {token : String} {registry : PresenceRegistry}
    (accepted : s.registry.heartbeat s.now id token = .ok registry) :
    Named { s with registry } := by
  refine named.retable fun id' x found => ?_
  obtain ⟨y, before, _, rfl⟩ := PresenceRegistry.heartbeat_eq_ok accepted
  change (s.registry.sessions.insert { y with lastHeartbeat := s.now }).get? id' = some x at found
  rw [Sessions.get?_insert] at found
  split at found
  next same =>
      cases found
      refine ⟨y, ?_, rfl⟩
      rw [same, show y.id = id from Sessions.id_of_get? before]
      exact before
  next => exact ⟨x, found, rfl⟩

theorem Named.authenticate (named : Named s) {token : String} {session : AgentSession}
    (found : s.authenticate token = some (session, s')) :
    Named s' ∧ s'.named.get? session.id = some session.name := by
  unfold CoordinatedServer.authenticate at found
  obtain ⟨x, known, answer⟩ := Option.map_eq_some_iff.mp found
  obtain ⟨id, _, here⟩ := Option.bind_eq_some_iff.mp known
  have attributed : s.named.get? x.id = some x.name := by
    rw [Sessions.id_of_get? here]
    exact named.table id x here
  split at answer
  next registry accepted =>
      cases answer
      exact ⟨named.heartbeat accepted, attributed⟩
  next =>
      cases answer
      exact ⟨named, attributed⟩

private theorem mem_foldl_insert {ids : List String} {who : AgentId} {path : String}
    {through : SortedMap String (Finset AgentId)} {found : Finset AgentId}
    (here : (ids.foldl (fun through path =>
      through.alter path fun old => insert who (old.getD ∅)) through).get? path = some found) :
    ∀ id ∈ found, (id = who ∧ path ∈ ids) ∨ id ∈ (through.get? path).getD ∅ := by
  induction ids generalizing through with
  | nil =>
    intro id member
    rw [List.foldl_nil] at here
    rw [here]
    exact Or.inr member
  | cons first rest ih =>
    intro id member
    rw [List.foldl_cons] at here
    rcases ih here id member with ⟨same, later⟩ | old
    · exact Or.inl ⟨same, List.mem_cons_of_mem _ later⟩
    · rw [SortedMap.get?_alter] at old
      split at old
      next at_first =>
          rcases Finset.mem_insert.mp old with same | old
          · exact Or.inl ⟨same, at_first ▸ List.mem_cons_self⟩
          · rw [at_first]
            exact Or.inr old
      next => exact Or.inr old

theorem Named.claimWithSession (named : Named s) {session : AgentSession}
    (attributed : s.named.get? session.id = some session.name) (paths : List String) :
    Named (s.claimWithSession session paths) where
  table := named.table
  filed := named.filed
  held path ids found id member := by
    obtain ⟨kept, granted⟩ := Claims.claimBatch_spec s.claims session.name paths
    rcases mem_foldl_insert found id member with ⟨rfl, new⟩ | old
    · exact ⟨session.name, granted path new, attributed⟩
    · cases before : s.through.get? path with
      | none =>
        rw [before] at old
        cases old
      | some ids' =>
        rw [before] at old
        obtain ⟨name, held, named⟩ := named.held path ids' before id old
        exact ⟨name, kept path name held, named⟩

private theorem unregisterAgent_spec (s : CoordinatedServer) (id : AgentId) :
    (∀ path, (s.unregisterAgent id).claims.get? path =
      if s.claims.get? path = some (s.identityOf id) then none else s.claims.get? path) ∧
    ∀ other, (s.unregisterAgent id).registry.sessions.get? other =
      if other = id then none else s.registry.sessions.get? other := by
  have first := Claims.get?_releaseAllFor s.claims (s.identityOf id)
  have table := PresenceRegistry.get?_remove s.registry id
  cases known : s.registry.sessions.get? id with
  | none =>
    have same : s.unregisterAgent id = s.settle (s.claims.releaseAllFor (s.identityOf id)) := by
      unfold unregisterAgent PresenceRegistry.remove settle
      dsimp only
      rw [known]
    rw [same]
    refine ⟨first, fun other => ?_⟩
    change s.registry.sessions.get? other = _
    split
    next here => rw [here, known]
    next => rfl
  | some session =>
    have name : s.identityOf id = session.name := by
      unfold identityOf
      rw [known]
      rfl
    have claims : (s.unregisterAgent id).claims =
        (s.claims.releaseAllFor (s.identityOf id)).releaseAllFor session.name := by
      unfold unregisterAgent PresenceRegistry.remove settle
      dsimp only
      rw [known]
      rfl
    have registry : (s.unregisterAgent id).registry = (s.registry.remove id).2 := by
      unfold unregisterAgent PresenceRegistry.remove settle
      dsimp only
      rw [known]
      rfl
    refine ⟨fun path => ?_, fun other => ?_⟩
    · rw [claims, Claims.get?_releaseAllFor, first, name]
      by_cases held : s.claims.get? path = some session.name
      · simp [held]
      · simp [held]
    · rw [registry, table]

theorem Named.unregisterAgent (named : Named s) (id : AgentId) : Named (s.unregisterAgent id) := by
  have fewer : ∀ (claims : Claims) (name path holder : String),
      (claims.releaseAllFor name).get? path = some holder → claims.get? path = some holder := by
    intro claims name path holder found
    rw [Claims.get?_releaseAllFor] at found
    split at found
    · cases found
    · exact found
  have settled := named.settle (fewer s.claims (s.identityOf id))
  unfold CoordinatedServer.unregisterAgent
  dsimp only
  split
  · exact settled
  next session registry removed =>
      refine Named.persist (Named.settle (s := { CoordinatedServer.settle s _ with registry }) ?_
        (fewer _ session.name))
      refine settled.retable fun id' x found => ⟨x, ?_, rfl⟩
      have table := PresenceRegistry.get?_remove
        (s.settle (s.claims.releaseAllFor (s.identityOf id))).registry id id'
      rw [removed, found] at table
      split at table
      · cases table
      · exact table.symm

private theorem expiryTick_spec (lifetimes : Lifetimes) (s : CoordinatedServer) :
    (∀ path, (s.expiryTick lifetimes).claims.get? path = (s.claims.get? path).filter fun holder =>
      decide (holder ∉ (s.registry.expireStale lifetimes s.now).1.map AgentSession.name)) ∧
    ∀ id, (s.expiryTick lifetimes).registry.sessions.get? id =
      (s.registry.sessions.get? id).filter fun x =>
        !PresenceRegistry.stale lifetimes s.now x := by
  have table := PresenceRegistry.get?_expireStale s.registry lifetimes s.now
  have released := Claims.get?_foldl_releaseAllFor (s.registry.expireStale lifetimes s.now).1
    s.claims
  unfold expiryTick
  dsimp only
  split
  · exact ⟨released, table⟩
  · exact ⟨released, table⟩

theorem Named.expiryTick (named : Named s) : Named (s.expiryTick lifetimes) := by
  have left : Named { s with registry := (s.registry.expireStale lifetimes s.now).2 } := by
    refine named.retable fun id x found => ⟨x, ?_, rfl⟩
    rw [PresenceRegistry.get?_expireStale] at found
    exact (Option.filter_eq_some_iff.mp found).1
  have fewer : ∀ path holder,
      ((s.registry.expireStale lifetimes s.now).1.foldl
        (fun claims x => Claims.releaseAllFor claims x.name) s.claims).get? path = some holder →
      s.claims.get? path = some holder := by
    intro path holder found
    rw [Claims.get?_foldl_releaseAllFor] at found
    exact (Option.filter_eq_some_iff.mp found).1
  unfold CoordinatedServer.expiryTick
  dsimp only
  split
  · exact left.settle fewer
  · exact left.persist.settle fewer

theorem Named.step (named : Named s) (moved : step lifetimes s event = some s') : Named s' := by
  cases event with
  | register id token name mode =>
    obtain ⟨fresh, same⟩ := Option.ite_none_left_eq_some.mp moved
    cases same
    have unused : s.refresh.named.get? id = none := by
      have same : s.refresh.named = s.named := by
        unfold CoordinatedServer.refresh
        split
        · rfl
        · split <;> rfl
      rw [same]
      exact Option.not_isSome_iff_eq_none.mp fresh
    have stays : ∀ id' name', s.refresh.named.get? id' = some name' →
        (s.refresh.named.insert id name).get? id' = some name' := by
      intro id' name' found
      rw [SortedMap.get?_insert, if_neg]
      · exact found
      · rintro rfl
        rw [unused] at found
        cases found
    refine Named.persist ⟨fun id' x found => ?_, fun sessions file id' x found => ?_,
      fun path ids found id' member => ?_⟩
    · change (Sessions.insert _ _).get? id' = some x at found
      rw [Sessions.get?_insert] at found
      split at found
      next here =>
          cases found
          rw [here]
          exact (SortedMap.get?_insert _ _ _ _).trans (if_pos rfl)
      next => exact stays id' x.name (named.refresh.table id' x found)
    · exact stays id' x.name (named.refresh.filed sessions file id' x found)
    · obtain ⟨holder, here, attributed⟩ := named.refresh.held path ids found id' member
      exact ⟨holder, here, stays id' holder attributed⟩
  | heartbeat id token =>
    simp only [CoordinatedServer.step] at moved
    split at moved
    next registry accepted =>
        cases moved
        exact named.refresh.heartbeat accepted
    next =>
        cases moved
        exact named.refresh
  | claim token paths =>
    simp only [CoordinatedServer.step] at moved
    split at moved
    next =>
        cases moved
        exact named.refresh
    next session t found =>
        cases moved
        obtain ⟨known, attributed⟩ := named.refresh.authenticate found
        exact known.claimWithSession attributed paths
  | release token paths =>
    simp only [CoordinatedServer.step] at moved
    split at moved
    next =>
        cases moved
        exact named.refresh
    next session t found =>
        cases moved
        refine (named.refresh.authenticate found).1.settle fun path holder held => ?_
        rw [Claims.get?_release] at held
        split at held
        · cases held
        · exact held
  | unregister id =>
    cases moved
    exact named.refresh.unregisterAgent id
  | tick =>
    cases moved
    exact named.expiryTick
  | observe =>
    cases moved
    exact named.persist
  | advance span =>
    cases moved
    exact ⟨named.table, named.filed, named.held⟩

theorem named_of_run {events : List CoordinationStep}
    (run : Runs (CoordinatedServer.step lifetimes) (fun _ _ => True) {} events s) : Named s := by
  refine run.invariant (I := fun _ s => Named s) ?_ fun named _ moved => named.step moved
  refine ⟨fun id x found => ?_, fun sessions file => ?_, fun path ids found => ?_⟩
  · cases found
  · cases file
  · cases found

/-! ### Who is released -/

private theorem tick_iff (named : Named s) :
    TakesFromTheDead s .tick (s.expiryTick lifetimes) ↔ NamesOfTheDead lifetimes s .tick := by
  obtain ⟨claims, table⟩ := expiryTick_spec lifetimes s
  constructor
  · intro takes
    refine ⟨fun _ x expired path held y inside same => ?_, fun id other => (by cases other)⟩
    by_contra young
    have here : (s.expiryTick lifetimes).registry.sessions.get? y.id = some y := by
      rw [table, Sessions.mem_values.mp inside, Option.filter_some,
        Bool.eq_false_of_not_eq_true young]
      rfl
    refine takes.revoked rfl path x.name held ?_ y.id y here same
    rw [claims, held, Option.filter_some, if_neg]
    exact fun kept => of_decide_eq_true kept (List.mem_map_of_mem expired)
  · intro names
    have revoked : ∀ path holder, s.claims.get? path = some holder →
        (s.expiryTick lifetimes).claims.get? path = none → ∀ id x,
          (s.expiryTick lifetimes).registry.sessions.get? id = some x → x.name ≠ holder := by
      intro path holder held released id y here same
      rw [claims, held, Option.filter_some] at released
      have listed : holder ∈
          (s.registry.expireStale lifetimes s.now).1.map AgentSession.name := by
        by_contra apart
        rw [if_pos (decide_eq_true apart)] at released
        cases released
      obtain ⟨x, expired, rfl⟩ := List.mem_map.mp listed
      rw [table] at here
      obtain ⟨before, young⟩ := Option.filter_eq_some_iff.mp here
      have inside : y ∈ s.registry.sessions.values :=
        Sessions.mem_values.mpr (by rw [Sessions.id_of_get? before]; exact before)
      rw [names.expired rfl x expired path held y inside same] at young
      cases young
    refine ⟨fun _ => revoked, fun _ path released id member => ?_⟩
    obtain ⟨holder, held⟩ := Option.isSome_iff_exists.mp released.1
    by_contra alive
    obtain ⟨y, here⟩ := Option.ne_none_iff_exists'.mp alive
    refine revoked path holder held released.2 id y here ?_
    cases through : s.through.get? path with
    | none =>
      rw [through] at member
      cases member
    | some ids =>
      rw [through] at member
      obtain ⟨name, held', attributed⟩ := named.held path ids through id member
      cases held.symm.trans held'
      rw [table] at here
      have before := (Option.filter_eq_some_iff.mp here).1
      exact Option.some.inj ((named.table id y before).symm.trans attributed)

private theorem unregister_iff (s : CoordinatedServer) (id : AgentId) :
    TakesFromTheDead s (.unregister id) (s.refresh.unregisterAgent id) ↔
      NamesOfTheDead lifetimes s (.unregister id) := by
  obtain ⟨claims, table⟩ := unregisterAgent_spec s.refresh id
  have same : s.refresh.claims = s.claims ∧ s.refresh.through = s.through := by
    unfold refresh
    split
    · exact ⟨rfl, rfl⟩
    · split
      · exact ⟨rfl, rfl⟩
      · exact ⟨rfl, rfl⟩
  constructor
  · intro takes
    refine ⟨fun other => (by cases other), fun id' here path held other member apart => ?_⟩
    cases here
    rw [same.2] at member
    have gone := takes.spared (Or.inr ⟨id, rfl⟩) path
      ⟨by rw [← same.1, held]; rfl, by rw [claims, if_pos held]⟩ other member
    rw [table, if_neg apart] at gone
    exact gone
  · intro names
    refine ⟨fun other => (by cases other), fun _ path released other member => ?_⟩
    rw [table]
    split
    · rfl
    next apart =>
        refine names.removed id rfl path ?_ other (by rw [same.2]; exact member) apart
        have gone := released.2
        rw [claims] at gone
        by_contra kept
        rw [if_neg kept, same.1] at gone
        have there := released.1
        rw [gone] at there
        cases there

/-- **Expiry and removal take claims only from the dead exactly when the names they release are
those of the dead**, in every step of every run. -/
theorem takesFromTheDead_iff (lifetimes : Lifetimes) (events : List CoordinationStep) :
    EachStep lifetimes TakesFromTheDead events ↔
      EachStep lifetimes (fun s event _ => NamesOfTheDead lifetimes s event) events := by
  have one : ∀ before s event s', Runs (CoordinatedServer.step lifetimes) (fun _ _ => True) {}
      before s → CoordinatedServer.step lifetimes s event = some s' →
        (TakesFromTheDead s event s' ↔ NamesOfTheDead lifetimes s event) := by
    intro before s event s' run moved
    cases event with
    | tick =>
      cases moved
      exact tick_iff (named_of_run run)
    | unregister id =>
      cases moved
      exact unregister_iff s id
    | register | heartbeat | claim | release | observe | advance =>
      refine iff_of_true ⟨fun other => (by cases other), fun other => ?_⟩
        ⟨fun other => (by cases other), fun id other => (by cases other)⟩
      rcases other with other | ⟨id, other⟩
      · cases other
      · cases other
  constructor
  · intro each before event after split s s' run moved
    exact (one before s event s' run moved).mp (each before event after split s s' run moved)
  · intro each before event after split s s' run moved
    exact (one before s event s' run moved).mpr (each before event after split s s' run moved)

def twoSessions : List CoordinationStep :=
  [.register "a1" "t1" "builder" .background, .advance 50,
    .register "a2" "t2" "builder" .background, .claim "t2" ["lib.rs"], .advance 10]

/-- The first session of a name expires, and a claim goes that was made through the second. -/
theorem takesFromTheDead_fails :
    ¬ ∀ (lifetimes : Lifetimes) (events : List CoordinationStep),
      EachStep lifetimes TakesFromTheDead events := by
  intro claim
  have ends : ((execute (CoordinatedServer.step ⟨600, 60⟩) (fun _ _ => True) {} twoSessions).map
      fun s => (s.claims.get? "lib.rs", (s.expiryTick ⟨600, 60⟩).claims.get? "lib.rs",
        ((s.expiryTick ⟨600, 60⟩).registry.sessions.get? "a2").map AgentSession.name)) =
      some (some "builder", none, some "builder") := by decide +kernel
  obtain ⟨s, ran, facts⟩ := Option.map_eq_some_iff.mp ends
  simp only [Prod.mk.injEq] at facts
  obtain ⟨held, released, lives⟩ := facts
  obtain ⟨x, here, name⟩ := Option.map_eq_some_iff.mp lives
  have takes : TakesFromTheDead s .tick (s.expiryTick ⟨600, 60⟩) :=
    claim ⟨600, 60⟩ (twoSessions ++ [.tick]) twoSessions .tick [] rfl s _ (runs_of_execute ran) rfl
  exact takes.revoked rfl "lib.rs" "builder" held released "a2" x here name

end CoordinatedServer

end Lain.Server
