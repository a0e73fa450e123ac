import Mathlib
import Lain.Foundation.Runs
import Lain.Server.Presence

/-!
# Presence shared through a file

Several server processes keep the sessions of one workspace in a state file.
-/

namespace Lain.Server

open Foundation

structure StateFile where
  modified : Nat
  sessions : Sessions
  deriving DecidableEq

inductive SharedOp where
  | register (id : AgentId) (token name : String) (mode : AgentMode)
  | heartbeat (id : AgentId) (token : String)
  | remove (id : AgentId)
  deriving DecidableEq

inductive SectionPhase where
  | entered
  | loading (current : Option Nat)
  | refreshed
  | acted (at_ : Nat)
  | done
  deriving DecidableEq

structure Critical (ρ : Type*) where
  process : ρ
  op : SharedOp
  phase : SectionPhase

/-- One process: its table, the modification time it has seen, and whether its expiry tick has
dropped sessions and is to persist the table. -/
structure Process where
  registry : PresenceRegistry := {}
  seen : Option Nat := none
  flushing : Bool := false
  deriving DecidableEq

structure Ledger where
  used : Finset AgentId := ∅
  beat : SortedMap AgentId (AgentMode × Nat) := ∅
  leaving : Finset AgentId := ∅
  removed : Finset AgentId := ∅

/-- A session was registered, no removal of it was begun, and its last successful registration or
heartbeat is less than its lifetime ago. -/
def Ledger.Live (ledger : Ledger) (lifetimes : Lifetimes) (now : Nat) (id : AgentId) : Prop :=
  id ∉ ledger.leaving ∧ ∃ mode at_, ledger.beat.get? id = some (mode, at_) ∧
    now - at_ < lifetimes.expiresAfterFor mode

/-- The processes, the file and its lock, the clock, and the ledger of what has happened. -/
structure SharedPresence (ρ : Type*) where
  now : Nat := 0
  file : Option StateFile := none
  processes : ρ → Process := fun _ => {}
  holder : Option (Critical ρ) := none
  ledger : Ledger := {}

/-- The atomic steps. -/
inductive PresenceStep (ρ : Type*) where
  /-- A process takes the lock. -/
  | enter (p : ρ) (op : SharedOp)
  /-- The holder looks at the modification time. -/
  | stat
  /-- The holder reads the file. -/
  | load
  /-- The holder changes its table. -/
  | act
  /-- The holder writes the file. -/
  | persist
  /-- The holder gives the lock back. -/
  | leave
  /-- The expiry tick of a process drops sessions from its table. -/
  | expire (p : ρ)
  /-- The expiry tick of a process writes the file. -/
  | flush (p : ρ)
  /-- Time goes by. -/
  | advance (span : Nat)

namespace SharedPresence

variable {ρ : Type*} [DecidableEq ρ] (lifetimes : Lifetimes)

def tableOf (s : SharedPresence ρ) (p : ρ) : Sessions :=
  (s.processes p).registry.sessions

def modify (s : SharedPresence ρ) (p : ρ) (f : Process → Process) : SharedPresence ρ :=
  { s with processes := Function.update s.processes p (f (s.processes p)) }

def modified (s : SharedPresence ρ) : Option Nat :=
  s.file.map StateFile.modified

def write (s : SharedPresence ρ) (p : ρ) : SharedPresence ρ :=
  { s with
    file := some { modified := s.modified.getD 0 + 1, sessions := s.tableOf p } }

def turn (s : SharedPresence ρ) (c : Critical ρ) (phase : SectionPhase) : SharedPresence ρ :=
  { s with holder := some { c with phase } }

def perform (s : SharedPresence ρ) (c : Critical ρ) : Option (SharedPresence ρ) :=
  let reg := (s.processes c.process).registry
  match c.op with
  | .register id token name mode =>
    if id ∈ s.ledger.used then none
    else
      some (({ s with ledger := { s.ledger with used := insert id s.ledger.used } }.modify
        c.process fun q => { q with registry := reg.register s.now id token name mode }).turn c
          (.acted s.now))
  | .heartbeat id token =>
    match reg.heartbeat s.now id token, reg.sessions.get? id with
    | .ok after, some session =>
      some (({ s with ledger :=
        { s.ledger with beat := s.ledger.beat.insert id (session.mode, s.now) } }.modify
          c.process fun q => { q with registry := after }).turn c .done)
    | _, _ => some (s.turn c .done)
  | .remove id =>
    match reg.remove id with
    | (some _, after) =>
      some (({ s with ledger :=
        { s.ledger with
          used := insert id s.ledger.used
          leaving := insert id s.ledger.leaving } }.modify
          c.process fun q => { q with registry := after }).turn c (.acted s.now))
    | (none, _) => some (s.turn c .done)

/-- The ledger after an operation has succeeded. -/
def succeeded (ledger : Ledger) (at_ : Nat) : SharedOp → Ledger
  | .register id _ _ mode => { ledger with beat := ledger.beat.insert id (mode, at_) }
  | .heartbeat _ _ => ledger
  | .remove id => { ledger with removed := insert id ledger.removed }

/-- Take one step. -/
def step (s : SharedPresence ρ) : PresenceStep ρ → Option (SharedPresence ρ)
  | .enter p op =>
    match s.holder with
    | none => some { s with holder := some ⟨p, op, .entered⟩ }
    | some _ => none
  | .stat =>
    match s.holder with
    | some ⟨p, op, .entered⟩ =>
      if s.modified.isSome ∧ (s.processes p).seen = s.modified then
        some (s.turn ⟨p, op, .entered⟩ .refreshed)
      else some (s.turn ⟨p, op, .entered⟩ (.loading s.modified))
    | _ => none
  | .load =>
    match s.holder with
    | some ⟨p, op, .loading current⟩ =>
      some ((s.modify p fun q =>
        { q with
          registry := (s.file.map fun f => PresenceRegistry.load f.sessions).getD q.registry
          seen := current }).turn ⟨p, op, .loading current⟩ .refreshed)
    | _ => none
  | .act =>
    match s.holder with
    | some ⟨p, op, .refreshed⟩ => s.perform ⟨p, op, .refreshed⟩
    | _ => none
  | .persist =>
    match s.holder with
    | some ⟨p, op, .acted at_⟩ =>
      some ({ s.write p with ledger := succeeded s.ledger at_ op }.turn ⟨p, op, .acted at_⟩
        .done)
    | _ => none
  | .leave =>
    match s.holder with
    | some ⟨_, _, .done⟩ => some { s with holder := none }
    | _ => none
  | .expire p =>
    if (s.processes p).flushing then none
    else
      let expired := (s.processes p).registry.expireStale lifetimes s.now
      some (s.modify p fun q =>
        { q with registry := expired.2, flushing := !expired.1.isEmpty })
  | .flush p =>
    if (s.processes p).flushing then
      some ((s.write p).modify p fun q => { q with flushing := false })
    else none
  | .advance span => some { s with now := s.now + span }

/-! ### What should hold -/

/-- A session is known in a table. -/
def Knows (sessions : Sessions) (id : AgentId) : Prop :=
  (sessions.get? id).isSome = true

def afterRefresh (s : SharedPresence ρ) (p : ρ) : Sessions :=
  match s.file with
  | none => s.tableOf p
  | some f => if (s.processes p).seen = some f.modified then s.tableOf p else f.sessions

/-- A live session is in the file and, after a refresh, in every table; a removed one is in none
of them. -/
structure Shared (s : SharedPresence ρ) : Prop where
  filed : ∀ id, s.ledger.Live lifetimes s.now id → ∃ f, s.file = some f ∧ Knows f.sessions id
  known : ∀ id, s.ledger.Live lifetimes s.now id → ∀ p, Knows (s.afterRefresh p) id
  unfiled : ∀ id ∈ s.ledger.removed, ∀ f, s.file = some f → ¬ Knows f.sessions id
  unknown : ∀ id ∈ s.ledger.removed, ∀ p, ¬ Knows (s.afterRefresh p) id

/-- An expiry tick that loses nothing: it drops no live session from the table, and the table it
writes back has every live session of the file and no removed one. -/
structure Harmless (s : SharedPresence ρ) (event : PresenceStep ρ) : Prop where
  expired : ∀ p, event = .expire p →
    ∀ x ∈ ((s.processes p).registry.expireStale lifetimes s.now).1,
      ¬ s.ledger.Live lifetimes s.now x.id
  flushed : ∀ p, event = .flush p →
    (∀ id f, s.file = some f → Knows f.sessions id → s.ledger.Live lifetimes s.now id →
      Knows (s.tableOf p) id) ∧
    ∀ id ∈ s.ledger.removed, ¬ Knows (s.tableOf p) id
  revived : ∀ p id token after, event = .act →
    s.holder = some ⟨p, .heartbeat id token, .refreshed⟩ →
      (s.processes p).registry.heartbeat s.now id token = .ok after →
        (∃ f, s.file = some f ∧ Knows f.sessions id) ∧ ∀ q, Knows (s.afterRefresh q) id

variable {lifetimes} {s s' : SharedPresence ρ} {event : PresenceStep ρ} {id : AgentId}
  {sessions : Sessions} {p : ρ} {ledger : Ledger} {now : Nat}

/-! ### What the operations do to a table -/

theorem processes_modify (f : Process → Process) (q : ρ) :
    (s.modify p f).processes q = if q = p then f (s.processes p) else s.processes q :=
  Function.update_apply _ _ _ _

theorem tableOf_modify (f : Process → Process) (q : ρ) :
    (s.modify p f).tableOf q =
      if q = p then (f (s.processes p)).registry.sessions else s.tableOf q := by
  unfold tableOf
  rw [processes_modify]
  split
  · rfl
  · rfl

omit [DecidableEq ρ] in
theorem processes_turn (c : Critical ρ) (phase : SectionPhase) :
    (s.turn c phase).processes = s.processes := rfl

omit [DecidableEq ρ] in
theorem tableOf_turn (c : Critical ρ) (phase : SectionPhase) :
    (s.turn c phase).tableOf p = s.tableOf p := rfl

theorem seen_modify {f : Process → Process} (same : (f (s.processes p)).seen = (s.processes p).seen)
    (q : ρ) : ((s.modify p f).processes q).seen = (s.processes q).seen := by
  rw [processes_modify]
  split
  next here => rw [here, same]
  next => rfl

theorem knows_insert {x : AgentSession} :
    Knows (sessions.insert x) id ↔ id = x.id ∨ Knows sessions id := by
  unfold Knows
  rw [Sessions.get?_insert]
  by_cases same : id = x.id
  · simp [same]
  · simp [same]

theorem knows_heartbeat {reg after : PresenceRegistry} {token : String} {id' : AgentId}
    (accepted : reg.heartbeat now id token = .ok after) :
    Knows after.sessions id' ↔ Knows reg.sessions id' := by
  obtain ⟨x, found, _, rfl⟩ := PresenceRegistry.heartbeat_eq_ok accepted
  rw [knows_insert]
  refine or_iff_right_of_imp fun same => ?_
  have here : x.id = id := Sessions.id_of_get? found
  unfold Knows
  rw [show id' = id from same.trans here, found]
  rfl

theorem knows_remove {reg : PresenceRegistry} {id' : AgentId} :
    Knows (reg.remove id).2.sessions id' ↔ id' ≠ id ∧ Knows reg.sessions id' := by
  unfold Knows
  rw [PresenceRegistry.get?_remove]
  by_cases same : id' = id
  · simp [same]
  · simp [same]

theorem knows_expireStale {reg : PresenceRegistry} :
    Knows (reg.expireStale lifetimes now).2.sessions id ↔
      Knows reg.sessions id ∧ ∀ x ∈ (reg.expireStale lifetimes now).1, x.id ≠ id := by
  unfold Knows
  rw [PresenceRegistry.get?_expireStale]
  cases found : reg.sessions.get? id with
  | none => simp
  | some x =>
    have same : x.id = id := Sessions.id_of_get? found
    rw [Option.filter_some]
    by_cases old : PresenceRegistry.stale lifetimes now x = true
    · rw [old]
      simp only [Bool.not_true, Bool.false_eq_true, ↓reduceIte, Option.isSome_none,
        Option.isSome_some, true_and, false_iff, not_forall]
      refine ⟨x, PresenceRegistry.mem_expireStale.mpr ⟨same.symm ▸ found, old⟩, ?_⟩
      exact fun apart => apart same
    · rw [Bool.eq_false_of_not_eq_true old]
      simp only [Bool.not_false, ↓reduceIte, Option.isSome_some, true_and, true_iff]
      intro y member here
      obtain ⟨found', old'⟩ := PresenceRegistry.mem_expireStale.mp member
      rw [here, found] at found'
      cases found'
      exact old old'

/-! ### Good tables -/

structure Good (lifetimes : Lifetimes) (ledger : Ledger) (now : Nat) (sessions : Sessions) :
    Prop where
  keeps : ∀ id, ledger.Live lifetimes now id → Knows sessions id
  drops : ∀ id ∈ ledger.removed, ¬ Knows sessions id

theorem Good.register (good : Good lifetimes ledger now sessions) {x : AgentSession}
    (stays : x.id ∉ ledger.removed) : Good lifetimes ledger now (sessions.insert x) where
  keeps id live := knows_insert.mpr (Or.inr (good.keeps id live))
  drops id gone known := by
    rcases knows_insert.mp known with rfl | known
    · exact stays gone
    · exact good.drops id gone known

theorem Good.congr (good : Good lifetimes ledger now sessions) {sessions' : Sessions}
    (same : ∀ id, Knows sessions' id ↔ Knows sessions id) :
    Good lifetimes ledger now sessions' where
  keeps id live := (same id).mpr (good.keeps id live)
  drops id gone known := good.drops id gone ((same id).mp known)

theorem Good.beat (good : Good lifetimes ledger now sessions) {mode : AgentMode} {at_ : Nat}
    (known : lifetimes.expiresAfterFor mode ≤ now - at_ ∨ Knows sessions id) :
    Good lifetimes { ledger with beat := ledger.beat.insert id (mode, at_) } now sessions where
  keeps id' live := by
    obtain ⟨stays, mode', at', beats, young⟩ := live
    dsimp only at stays beats
    rw [SortedMap.get?_insert] at beats
    split at beats
    next same =>
        cases beats
        rw [same]
        exact known.resolve_left (Nat.not_le.mpr young)
    next => exact good.keeps id' ⟨stays, mode', at', beats, young⟩
  drops := good.drops

theorem Good.leave (good : Good lifetimes ledger now sessions) :
    Good lifetimes
      { ledger with used := insert id ledger.used, leaving := insert id ledger.leaving } now
      sessions where
  keeps id' live := good.keeps id' ⟨fun gone => live.1 (Finset.mem_insert_of_mem gone), live.2⟩
  drops := good.drops

theorem Good.remove {reg : PresenceRegistry} (good : Good lifetimes ledger now reg.sessions)
    (leaving : id ∈ ledger.leaving) : Good lifetimes ledger now (reg.remove id).2.sessions where
  keeps id' live := by
    refine knows_remove.mpr ⟨?_, good.keeps id' live⟩
    rintro rfl
    exact live.1 leaving
  drops id' gone known := good.drops id' gone (knows_remove.mp known).2

theorem Good.expire {reg : PresenceRegistry} (good : Good lifetimes ledger now reg.sessions)
    (dead : ∀ x ∈ (reg.expireStale lifetimes now).1, ¬ ledger.Live lifetimes now x.id) :
    Good lifetimes ledger now (reg.expireStale lifetimes now).2.sessions where
  keeps id live := by
    refine knows_expireStale.mpr ⟨good.keeps id live, ?_⟩
    rintro x member rfl
    exact dead x member live
  drops id gone known := good.drops id gone (knows_expireStale.mp known).1

theorem Good.later (good : Good lifetimes ledger now sessions) {now' : Nat} (later : now ≤ now') :
    Good lifetimes ledger now' sessions where
  keeps id live := by
    obtain ⟨stays, mode, at_, beats, young⟩ := live
    exact good.keeps id
      ⟨stays, mode, at_, beats, (Nat.sub_le_sub_right later at_).trans_lt young⟩
  drops := good.drops

/-! ### The state a process relies on -/

def Pending (lifetimes : Lifetimes) (ledger : Ledger) (now : Nat) (sessions : Sessions)
    (at_ : Nat) : SharedOp → Prop
  | .register id _ _ mode =>
    (∃ x, sessions.get? id = some x ∧ x.mode = mode ∧ x.lastHeartbeat = at_) ∨
      lifetimes.expiresAfterFor mode ≤ now - at_
  | .heartbeat _ _ => True
  | .remove id => id ∈ ledger.leaving ∧ ¬ Knows sessions id

def InSection (lifetimes : Lifetimes) (s : SharedPresence ρ) (c : Critical ρ) : Prop :=
  match c.phase with
  | .entered => True
  | .loading current => ∀ w, current = some w → ∃ f, s.file = some f ∧ w ≤ f.modified
  | .refreshed => Good lifetimes s.ledger s.now (s.tableOf c.process)
  | .acted at_ =>
    Good lifetimes s.ledger s.now (s.tableOf c.process) ∧
      Pending lifetimes s.ledger s.now (s.tableOf c.process) at_ c.op
  | .done => True

/-- The file is good, and so is every table that counts as current. -/
structure Sound (lifetimes : Lifetimes) (s : SharedPresence ρ) : Prop where
  noFile : s.file = none → ∀ sessions, Good lifetimes s.ledger s.now sessions
  filed : ∀ f, s.file = some f → Good lifetimes s.ledger s.now f.sessions
  seen : ∀ p w, (s.processes p).seen = some w → ∃ f, s.file = some f ∧ w ≤ f.modified
  current : ∀ p f, s.file = some f → (s.processes p).seen = some f.modified →
    Good lifetimes s.ledger s.now (s.tableOf p)
  used : s.ledger.leaving ⊆ s.ledger.used ∧ s.ledger.removed ⊆ s.ledger.leaving
  held : ∀ c, s.holder = some c → InSection lifetimes s c

omit [DecidableEq ρ] in
theorem Sound.good_afterRefresh (sound : Sound lifetimes s) (p : ρ) :
    Good lifetimes s.ledger s.now (s.afterRefresh p) := by
  unfold afterRefresh
  cases file : s.file with
  | none => exact sound.noFile file _
  | some f =>
    dsimp only
    split
    next same => exact sound.current p f file same
    next => exact sound.filed f file

omit [DecidableEq ρ] in
theorem Sound.shared (sound : Sound lifetimes s) : Shared lifetimes s where
  filed id live := by
    cases file : s.file with
    | none =>
      have known := (sound.noFile file .empty).keeps id live
      cases known
    | some f => exact ⟨f, rfl, (sound.filed f file).keeps id live⟩
  known id live p := (sound.good_afterRefresh p).keeps id live
  unfiled id gone f file := (sound.filed f file).drops id gone
  unknown id gone p := (sound.good_afterRefresh p).drops id gone

/-! ### Each step -/

omit [DecidableEq ρ] in
private theorem Sound.turn (sound : Sound lifetimes s) {c : Critical ρ} {phase : SectionPhase}
    (inside : InSection lifetimes s { c with phase }) :
    Sound lifetimes (SharedPresence.turn s c phase) where
  noFile := sound.noFile
  filed := sound.filed
  seen := sound.seen
  current := sound.current
  used := sound.used
  held c' same := by
    cases same
    exact inside

private theorem Sound.rework (sound : Sound lifetimes s) {c : Critical ρ} {phase : SectionPhase}
    {reg : PresenceRegistry}
    (noFile : s.file = none → ∀ sessions, Good lifetimes ledger s.now sessions)
    (filed : ∀ f, s.file = some f → Good lifetimes ledger s.now f.sessions)
    (current : ∀ q f, s.file = some f → (s.processes q).seen = some f.modified →
      Good lifetimes ledger s.now (s.tableOf q))
    (own : Good lifetimes ledger s.now reg.sessions)
    (used : ledger.leaving ⊆ ledger.used ∧ ledger.removed ⊆ ledger.leaving)
    (inside : InSection lifetimes
      (({ s with ledger }.modify c.process fun q => { q with registry := reg }).turn c phase)
      { c with phase }) :
    Sound lifetimes
      (({ s with ledger }.modify c.process fun q => { q with registry := reg }).turn c phase) where
  noFile := noFile
  filed := filed
  seen q w seen := by
    rw [processes_turn, seen_modify rfl] at seen
    exact sound.seen q w seen
  current q f file seen := by
    rw [processes_turn, seen_modify rfl] at seen
    rw [tableOf_turn, tableOf_modify]
    split
    · exact own
    · exact current q f file seen
  used := used
  held c' same := by
    cases same
    exact inside

private theorem sound_stat (sound : Sound lifetimes s)
    (moved : step lifetimes s .stat = some s') : Sound lifetimes s' := by
  simp only [step] at moved
  split at moved
  next p op holder =>
      split at moved
      next same =>
          cases moved
          obtain ⟨w, time⟩ := Option.isSome_iff_exists.mp same.1
          obtain ⟨f, file, rfl⟩ := Option.map_eq_some_iff.mp time
          exact sound.turn (sound.current p f file (same.2.trans time))
      next =>
          cases moved
          refine sound.turn fun w time => ?_
          obtain ⟨f, file, rfl⟩ := Option.map_eq_some_iff.mp time
          exact ⟨f, file, le_rfl⟩
  next => cases moved

private theorem sound_load (sound : Sound lifetimes s)
    (moved : step lifetimes s .load = some s') : Sound lifetimes s' := by
  simp only [step] at moved
  split at moved
  next p op current holder =>
      cases moved
      have inside := sound.held _ holder
      -- the table read, which is good whether there is a file or not
      have good : Good lifetimes s.ledger s.now
          ((s.file.map fun f => PresenceRegistry.load f.sessions).getD
            (s.processes p).registry).sessions := by
        cases file : s.file with
        | none => exact sound.noFile file _
        | some f => exact sound.filed f file
      refine Sound.turn (s := s.modify p _) ⟨sound.noFile, sound.filed, fun q w seen => ?_,
        fun q f file seen => ?_, sound.used, fun c same => ?_⟩ ?_
      · rw [processes_modify] at seen
        split at seen
        · exact inside w seen
        · exact sound.seen q w seen
      · rw [tableOf_modify]
        rw [processes_modify] at seen
        split
        next => exact good
        next other =>
            rw [if_neg other] at seen
            exact sound.current q f file seen
      · cases holder.symm.trans same
        exact inside
      · change Good _ _ _ _
        rw [tableOf_modify, if_pos rfl]
        exact good
  next => cases moved

private theorem sound_register (sound : Sound lifetimes s) {c : Critical ρ}
    (good : Good lifetimes s.ledger s.now (s.tableOf c.process)) {token name : String}
    {mode : AgentMode} (op : c.op = .register id token name mode)
    (moved : s.perform c = some s') : Sound lifetimes s' := by
  unfold perform at moved
  rw [op] at moved
  obtain ⟨fresh, same⟩ := Option.ite_none_left_eq_some.mp moved
  cases same
  have stays : id ∉ s.ledger.removed := fun gone => fresh (sound.used.1 (sound.used.2 gone))
  have own : Good lifetimes s.ledger s.now
      ((s.processes c.process).registry.register s.now id token name mode).sessions :=
    good.register stays
  refine sound.rework (fun file => ?_) (fun f file => ?_) (fun q f file seen => ?_) ?_
    ⟨sound.used.1.trans (Finset.subset_insert _ _), sound.used.2⟩ ?_
  · exact fun sessions => ⟨(sound.noFile file sessions).keeps, (sound.noFile file sessions).drops⟩
  · exact ⟨(sound.filed f file).keeps, (sound.filed f file).drops⟩
  · exact ⟨(sound.current q f file seen).keeps, (sound.current q f file seen).drops⟩
  · exact ⟨own.keeps, own.drops⟩
  · unfold InSection
    dsimp only
    rw [tableOf_turn, tableOf_modify, if_pos rfl, op]
    refine ⟨⟨own.keeps, own.drops⟩, Or.inl ⟨_, (Sessions.get?_insert _ _ _).trans (if_pos rfl),
      rfl, rfl⟩⟩

private theorem sound_heartbeat (sound : Sound lifetimes s) {c : Critical ρ}
    (good : Good lifetimes s.ledger s.now (s.tableOf c.process)) {token : String}
    (op : c.op = .heartbeat id token)
    (revived : ∀ after, (s.processes c.process).registry.heartbeat s.now id token = .ok after →
      (∃ f, s.file = some f ∧ Knows f.sessions id) ∧ ∀ q, Knows (s.afterRefresh q) id)
    (moved : s.perform c = some s') : Sound lifetimes s' := by
  unfold perform at moved
  rw [op] at moved
  dsimp only at moved
  split at moved
  next after session accepted found =>
      cases moved
      -- the session may live again, and every table that counts knows it
      obtain ⟨⟨f, file, filed⟩, everywhere⟩ := revived after accepted
      have known : Knows (s.tableOf c.process) id := by
        change ((s.processes c.process).registry.sessions.get? id).isSome = true
        rw [found]
        rfl
      refine sound.rework (fun none_ => ?_) (fun f' file' => ?_) (fun q f' file' seen => ?_) ?_
        sound.used trivial
      · cases file.symm.trans none_
      · cases file.symm.trans file'
        exact (sound.filed f file).beat (Or.inr filed)
      · have here := everywhere q
        unfold afterRefresh at here
        rw [file'] at here
        dsimp only at here
        rw [if_pos seen] at here
        exact (sound.current q f' file' seen).beat (Or.inr here)
      · exact (good.beat (Or.inr known)).congr fun id' => knows_heartbeat accepted
  next =>
      cases moved
      exact sound.turn trivial

private theorem sound_remove (sound : Sound lifetimes s) {c : Critical ρ}
    (good : Good lifetimes s.ledger s.now (s.tableOf c.process)) (op : c.op = .remove id)
    (moved : s.perform c = some s') : Sound lifetimes s' := by
  unfold perform at moved
  rw [op] at moved
  dsimp only at moved
  split at moved
  next session after removed =>
      cases moved
      have after_eq : after = ((s.processes c.process).registry.remove id).2 := by rw [removed]
      have own : Good lifetimes
          { s.ledger with
            used := insert id s.ledger.used
            leaving := insert id s.ledger.leaving } s.now after.sessions := by
        rw [after_eq]
        exact Good.remove good.leave (Finset.mem_insert_self _ _)
      refine sound.rework (fun file sessions => (sound.noFile file sessions).leave)
        (fun f file => (sound.filed f file).leave)
        (fun q f file seen => (sound.current q f file seen).leave) own
        ⟨Finset.insert_subset_insert _ sound.used.1,
          sound.used.2.trans (Finset.subset_insert _ _)⟩ ?_
      unfold InSection
      dsimp only
      rw [tableOf_turn, tableOf_modify, if_pos rfl, op]
      refine ⟨own, Finset.mem_insert_self _ _, ?_⟩
      rw [after_eq]
      exact fun known => (knows_remove.mp known).1 rfl
  next =>
      cases moved
      exact sound.turn trivial

private theorem sound_act (sound : Sound lifetimes s) (harmless : Harmless lifetimes s .act)
    (moved : step lifetimes s .act = some s') : Sound lifetimes s' := by
  simp only [step] at moved
  split at moved
  next p op holder =>
      have good : Good lifetimes s.ledger s.now (s.tableOf p) := sound.held _ holder
      cases op with
      | register id token name mode => exact sound_register sound good rfl moved
      | heartbeat id token =>
        exact sound_heartbeat sound good rfl
          (fun after => harmless.revived p id token after rfl holder) moved
      | remove id => exact sound_remove sound good rfl moved
  next => cases moved

private theorem Good.succeeded {op : SharedOp} {at_ : Nat}
    (good : Good lifetimes ledger now sessions)
    (pending : Pending lifetimes ledger now sessions at_ op) :
    Good lifetimes (succeeded ledger at_ op) now sessions := by
  cases op with
  | register id token name mode =>
    refine good.beat ?_
    rcases pending with ⟨x, found, _, _⟩ | old
    · refine Or.inr ?_
      unfold Knows
      rw [found]
      rfl
    · exact Or.inl old
  | heartbeat id token => exact good
  | remove id =>
    refine ⟨good.keeps, fun id' gone => ?_⟩
    rcases Finset.mem_insert.mp gone with rfl | gone
    · exact pending.2
    · exact good.drops id' gone

omit [DecidableEq ρ] in
private theorem Sound.seen_lt (sound : Sound lifetimes s) {p : ρ} {w : Nat}
    (seen : (s.processes p).seen = some w) : w < s.modified.getD 0 + 1 := by
  obtain ⟨f, file, bound⟩ := sound.seen p w seen
  unfold modified
  rw [file]
  exact Nat.lt_succ_of_le bound

private theorem sound_persist (sound : Sound lifetimes s)
    (moved : step lifetimes s .persist = some s') : Sound lifetimes s' := by
  simp only [step] at moved
  split at moved
  next p op at_ holder =>
      cases moved
      obtain ⟨good, pending⟩ := sound.held _ holder
      have written := good.succeeded pending
      refine ⟨fun none_ => (by cases none_), fun f file => ?_, fun q w seen => ?_,
        fun q f file seen => ?_, ?_, fun c same => ?_⟩
      · cases file
        exact written
      · exact ⟨_, rfl, (sound.seen_lt seen).le⟩
      · cases file
        exact absurd (sound.seen_lt seen) (Nat.lt_irrefl _)
      · cases op with
        | register id token name mode => exact sound.used
        | heartbeat id token => exact sound.used
        | remove id =>
          exact ⟨sound.used.1, Finset.insert_subset pending.1 sound.used.2⟩
      · cases same
        trivial
  next => cases moved

private theorem sound_expire (sound : Sound lifetimes s)
    (harmless : Harmless lifetimes s (.expire p))
    (moved : step lifetimes s (.expire p) = some s') : Sound lifetimes s' := by
  obtain ⟨_, same⟩ := Option.ite_none_left_eq_some.mp moved
  cases same
  have dead := harmless.expired p rfl
  refine ⟨sound.noFile, sound.filed, fun q w seen => ?_, fun q f file seen => ?_, sound.used,
    fun c holder => ?_⟩
  · rw [seen_modify rfl] at seen
    exact sound.seen q w seen
  · rw [seen_modify rfl] at seen
    rw [tableOf_modify]
    split
    next here =>
        rw [here] at seen
        exact Good.expire (sound.current p f file seen) dead
    next => exact sound.current q f file seen
  · have inside := sound.held c holder
    obtain ⟨q, op, phase⟩ := c
    cases phase with
    | entered => trivial
    | loading current => exact inside
    | refreshed =>
      change Good _ _ _ _
      rw [tableOf_modify]
      split
      next here =>
          cases here
          exact Good.expire inside dead
      next => exact inside
    | acted at_ =>
      change Good _ _ _ _ ∧ Pending _ _ _ _ _ _
      rw [tableOf_modify]
      split
      next here =>
          cases here
          refine ⟨Good.expire inside.1 dead, ?_⟩
          have pending := inside.2
          cases op with
          | register id token name mode =>
            rcases pending with ⟨x, found, same, last⟩ | old
            · dsimp only
              have left := PresenceRegistry.get?_expireStale (s.processes q).registry lifetimes
                s.now id
              rw [show (s.processes q).registry.sessions.get? id = some x from found,
                Option.filter_some] at left
              by_cases old : PresenceRegistry.stale lifetimes s.now x = true
              · refine Or.inr ?_
                have age := of_decide_eq_true old
                rw [same, last] at age
                exact age
              · rw [Bool.eq_false_of_not_eq_true old] at left
                exact Or.inl ⟨x, left, same, last⟩
            · exact Or.inr old
          | heartbeat id token => trivial
          | remove id =>
            exact ⟨pending.1, fun known => pending.2 (knows_expireStale.mp known).1⟩
      next => exact inside
    | done => trivial

private theorem sound_flush (sound : Sound lifetimes s)
    (harmless : Harmless lifetimes s (.flush p))
    (moved : step lifetimes s (.flush p) = some s') : Sound lifetimes s' := by
  obtain ⟨_, same⟩ := Option.ite_none_right_eq_some.mp moved
  cases same
  obtain ⟨keeps, drops⟩ := harmless.flushed p rfl
  have written : Good lifetimes s.ledger s.now (s.tableOf p) := by
    refine ⟨fun id live => ?_, drops⟩
    cases file : s.file with
    | none => exact (sound.noFile file _).keeps id live
    | some f => exact keeps id f file ((sound.filed f file).keeps id live) live
  have same_table : ∀ q,
      ((s.write p).modify p fun q => { q with flushing := false }).tableOf q = s.tableOf q := by
    intro q
    rw [tableOf_modify]
    split
    next here =>
        rw [here]
        rfl
    next => rfl
  refine ⟨fun none_ => (by cases none_), fun f file => ?_, fun q w seen => ?_,
    fun q f file seen => ?_, sound.used, fun c holder => ?_⟩
  · cases file
    exact written
  · rw [seen_modify rfl] at seen
    exact ⟨_, rfl, (sound.seen_lt seen).le⟩
  · rw [seen_modify rfl] at seen
    cases file
    exact absurd (sound.seen_lt seen) (Nat.lt_irrefl _)
  · have inside := sound.held c holder
    obtain ⟨q, op, phase⟩ := c
    cases phase with
    | entered => trivial
    | loading current =>
      intro w same
      obtain ⟨f, file, bound⟩ := inside w same
      refine ⟨_, rfl, bound.trans ?_⟩
      change f.modified ≤ s.modified.getD 0 + 1
      unfold modified
      rw [file]
      exact Nat.le_succ _
    | refreshed =>
      change Good _ _ _ _
      rw [same_table]
      exact inside
    | acted at_ =>
      change Good _ _ _ _ ∧ Pending _ _ _ _ _ _
      rw [same_table]
      exact inside
    | done => trivial

omit [DecidableEq ρ] in
private theorem sound_advance (sound : Sound lifetimes s) (span : Nat) :
    Sound lifetimes { s with now := s.now + span } where
  noFile file sessions := (sound.noFile file sessions).later (Nat.le_add_right _ _)
  filed f file := (sound.filed f file).later (Nat.le_add_right _ _)
  seen := sound.seen
  current q f file seen := (sound.current q f file seen).later (Nat.le_add_right _ _)
  used := sound.used
  held c holder := by
    have inside := sound.held c holder
    obtain ⟨q, op, phase⟩ := c
    cases phase with
    | entered => trivial
    | loading current => exact inside
    | refreshed => exact Good.later inside (Nat.le_add_right _ _)
    | acted at_ =>
      refine ⟨Good.later inside.1 (Nat.le_add_right _ _), ?_⟩
      have pending := inside.2
      cases op with
      | register id token name mode =>
        exact pending.imp_right fun old =>
          old.trans (Nat.sub_le_sub_right (Nat.le_add_right _ _) at_)
      | heartbeat id token => trivial
      | remove id => exact pending
    | done => trivial

theorem Sound.step (sound : Sound lifetimes s) (harmless : Harmless lifetimes s event)
    (moved : step lifetimes s event = some s') : Sound lifetimes s' := by
  cases event with
  | enter p op =>
    simp only [SharedPresence.step] at moved
    split at moved
    · cases moved
      refine ⟨sound.noFile, sound.filed, sound.seen, sound.current, sound.used, ?_⟩
      intro c same
      cases same
      trivial
    · cases moved
  | stat => exact sound_stat sound moved
  | load => exact sound_load sound moved
  | act => exact sound_act sound harmless moved
  | persist => exact sound_persist sound moved
  | leave =>
    simp only [SharedPresence.step] at moved
    split at moved
    · cases moved
      exact ⟨sound.noFile, sound.filed, sound.seen, sound.current, sound.used,
        fun c same => (by cases same)⟩
    · cases moved
  | expire p => exact sound_expire sound harmless moved
  | flush p => exact sound_flush sound harmless moved
  | advance span =>
    cases moved
    exact sound_advance sound span

omit [DecidableEq ρ] in
theorem sound_start : Sound lifetimes ({} : SharedPresence ρ) where
  noFile _ sessions := by
    refine ⟨fun id live => ?_, fun id gone => ?_⟩
    · obtain ⟨_, mode, at_, beats, _⟩ := live
      cases beats
    · cases gone
  filed f file := by cases file
  seen p w seen := by cases seen
  current p f file := by cases file
  used := ⟨Finset.Subset.refl _, Finset.Subset.refl _⟩
  held c same := by cases same

/-- **Presence is shared while no expiry tick does harm**: in every state that the processes
reach, a live session is in the file and in every table after a refresh, and a removed one in
none. -/
theorem shared_of_harmless {events : List (PresenceStep ρ)}
    (run : Runs (step lifetimes) (Harmless lifetimes) ({} : SharedPresence ρ) events s) :
    Shared lifetimes s := by
  have sound : Sound lifetimes s := by
    refine run.invariant (I := fun _ s => Sound lifetimes s) sound_start ?_
    intro events s event s' sound harmless moved
    exact sound.step harmless moved
  exact sound.shared

def twoRegister : List (PresenceStep Bool) :=
  [.enter false (.register "x" "token-x" "indexer" .background), .stat, .load, .act, .persist,
    .leave, .advance 50, .enter true (.register "s" "token-s" "builder" .background), .stat,
    .load, .act, .persist, .leave, .advance 10]

/-- A step that is no part of an expiry tick, while no heartbeat is at hand. -/
def Quiet (s : SharedPresence ρ) : PresenceStep ρ → Bool
  | .expire _ | .flush _ => false
  | .act =>
    match s.holder with
    | some ⟨_, .heartbeat _ _, _⟩ => false
    | _ => true
  | _ => true

omit [DecidableEq ρ] in
theorem harmless_of_quiet (s : SharedPresence ρ) (event : PresenceStep ρ)
    (quiet : Quiet s event = true) : Harmless lifetimes s event where
  expired p same := by
    subst same
    cases quiet
  flushed p same := by
    subst same
    cases quiet
  revived p id token after same holder _ := by
    subst same
    unfold Quiet at quiet
    rw [holder] at quiet
    cases quiet

/-- The state two processes reach under a condition, when background sessions live a minute. -/
def reached (meets : SharedPresence Bool → PresenceStep Bool → Bool)
    (events : List (PresenceStep Bool)) : Option (SharedPresence Bool) :=
  execute (step ⟨600, 60⟩) (fun s event => meets s event = true) {} events

theorem shared_of_harmless_twoRegister :
    ∃ s, reached Quiet twoRegister = some s ∧ Shared ⟨600, 60⟩ s := by
  have done : (reached Quiet twoRegister).isSome = true := by decide +kernel
  obtain ⟨s, ran⟩ := Option.isSome_iff_exists.mp done
  exact ⟨s, ran, shared_of_harmless ((runs_of_execute ran).mono harmless_of_quiet)⟩

/-- The expiry tick of the first process, which has not read the file since, writes back its table
without the session of the second. -/
theorem shared_fails :
    ¬ ∀ (lifetimes : Lifetimes) (events : List (PresenceStep Bool)) (s : SharedPresence Bool),
      Runs (step lifetimes) (fun _ _ => True) {} events s → Shared lifetimes s := by
  intro claim
  have live : ((reached (fun _ _ => true) (twoRegister ++ [.expire false, .flush false])).map
      fun s => (s.ledger.beat.get? "s", s.ledger.leaving, s.now,
        s.file.map fun f => (f.sessions.get? "s").isSome)) =
      some (some (.background, 50), ∅, 60, some false) := by decide +kernel
  obtain ⟨s, ran, facts⟩ := Option.map_eq_some_iff.mp live
  simp only [Prod.mk.injEq] at facts
  obtain ⟨beat, leaving, now, lost⟩ := facts
  have run : Runs (step ⟨600, 60⟩) (fun _ _ => True) ({} : SharedPresence Bool) _ s :=
    (runs_of_execute ran).mono fun _ _ _ => trivial
  have alive : s.ledger.Live ⟨600, 60⟩ s.now "s" := by
    refine ⟨?_, .background, 50, beat, ?_⟩
    · rw [leaving]
      exact Finset.notMem_empty _
    · rw [now]
      decide
  obtain ⟨f, file, known⟩ := (claim _ _ _ run).filed "s" alive
  rw [file] at lost
  exact Bool.noConfusion (known.symm.trans (Option.some.inj lost))

end SharedPresence

end Lain.Server
