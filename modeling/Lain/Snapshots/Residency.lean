import Lain.Foundation.Runs
import Lain.Foundation.SortedMap

/-!
# Residency of snapshot federations

At most a few federations are resident at a time.
-/

namespace Lain.Snapshots

open Foundation

/-- A federation that was built: its snapshot, its live holds, and when it was last used. -/
structure Federation where
  snapshotId : String
  held : Nat := 0
  lastUsed : Int
deriving DecidableEq

/-- What the builder of a snapshot publishes to the callers that joined it. -/
inductive BuildOutcome where
  | ok (fed : Nat)
  | err (message : String)
  | busy (retryAfterMs : Nat)
deriving DecidableEq

inductive AcquireResult where
  | held (fed : Nat)
  | failed (message : String)
  | busy (retryAfterMs : Nat)
deriving DecidableEq

/-- Where a call is. -/
inductive Caller where
  | looking (id : String) (attempts : Nat)
  | claiming (id : String) (attempts : Nat)
  | building (id : String) (slot attempts : Nat)
  | installing (id : String) (slot attempts fed : Nat)
  | evicting (id : String) (slot attempts fed : Nat)
  | inserting (id : String) (slot attempts fed : Nat)
  | full (id : String) (slot attempts fed : Nat)
  | publishing (id : String) (slot attempts : Nat) (outcome : BuildOutcome)
  | joining (id : String) (slot attempts : Nat)
  | holding (id : String) (attempts : Nat)
  | returned (result : AcquireResult)
deriving DecidableEq

def maxAcquireAttempts : Nat := 3

/-- The manager's tables, the federations by number, the slots with their outcomes, the live
guards as the federations they hold, and the calls. -/
structure Residency where
  resident : SortedMap String Nat := ∅
  feds : List Federation := []
  inFlight : SortedMap String Nat := ∅
  slots : List (Option BuildOutcome) := []
  guards : List Nat := []
  callers : List Caller := []
deriving DecidableEq

/-- What happens next: a new call, the drop of a guard, or a step of a call. -/
inductive ResidencyEvent where
  | arrive (id : String)
  | drop (guard : Nat) (now : Int)
  | lookup (caller : Nat)
  | claim (caller : Nat)
  | build (caller : Nat) (result : Except String Int)
  | install (caller : Nat)
  | evict (caller : Nat)
  | wait (caller : Nat) (timeUp : Bool)
  | publish (caller : Nat)
  | join (caller : Nat)

namespace Residency

def move (r : Residency) (c : Nat) (caller : Caller) : Residency :=
  { r with callers := r.callers.set c caller }

def hold (r : Residency) (fed : Nat) : Residency :=
  { r with
    feds := r.feds.modify fed fun f => { f with held := f.held + 1 }
    guards := r.guards ++ [fed] }

def dropGuard (r : Residency) (guard fed : Nat) (now : Int) : Residency :=
  { r with
    feds := r.feds.modify fed fun f => { f with held := f.held - 1, lastUsed := now }
    guards := r.guards.eraseIdx guard }

def lruUnheld (r : Residency) : Option (String × Int) :=
  r.resident.entries.foldl (fun best entry =>
    match r.feds[entry.2]? with
    | none => best
    | some f =>
      if f.held = 0 ∧ best.all (fun b => decide (f.lastUsed < b.2)) then
        some (entry.1, f.lastUsed)
      else best) none

def tryInsert (cap : Nat) (r : Residency) (id : String) (fed : Nat) : Option Residency :=
  if r.resident.entries.length < cap then
    some (hold { r with resident := r.resident.insert id fed } fed)
  else none

/-- One step. -/
def step (cap : Nat) (r : Residency) : ResidencyEvent → Option Residency
  | .arrive id => some { r with callers := r.callers ++ [.looking id maxAcquireAttempts] }
  | .drop guard now =>
    match r.guards[guard]? with
    | some fed => some (r.dropGuard guard fed now)
    | none => none
  | .lookup c =>
    match r.callers[c]? with
    | some (.looking id attempts) =>
      match r.resident.get? id with
      | some fed => some ((r.hold fed).move c (.returned (.held fed)))
      | none => some (r.move c (.claiming id attempts))
    | some (.holding id attempts) =>
      match r.resident.get? id with
      | some fed => some ((r.hold fed).move c (.returned (.held fed)))
      | none =>
        if 1 < attempts then some (r.move c (.looking id (attempts - 1)))
        else
          some (r.move c (.returned (.failed
            s!"snapshot {id} was evicted while being acquired; retry")))
    | _ => none
  | .claim c =>
    match r.callers[c]? with
    | some (.claiming id attempts) =>
      match r.inFlight.get? id with
      | some slot => some (r.move c (.joining id slot attempts))
      | none =>
        some
          (move
            { r with
              slots := r.slots ++ [none]
              inFlight := r.inFlight.insert id r.slots.length }
            c (.building id r.slots.length attempts))
    | _ => none
  | .build c result =>
    match r.callers[c]?, result with
    | some (.building id slot attempts), .ok now =>
      some
        (move { r with feds := r.feds ++ [{ snapshotId := id, lastUsed := now }] } c
          (.installing id slot attempts r.feds.length))
    | some (.building id slot attempts), .error message =>
      some (r.move c (.publishing id slot attempts (.err message)))
    | _, _ => none
  | .install c =>
    match r.callers[c]? with
    | some (.installing id slot attempts fed) =>
      match r.tryInsert cap id fed with
      | some r' => some (r'.move c (.publishing id slot attempts (.ok fed)))
      | none => some (r.move c (.evicting id slot attempts fed))
    | some (.inserting id slot attempts fed) =>
      match r.tryInsert cap id fed with
      | some r' => some (r'.move c (.publishing id slot attempts (.ok fed)))
      | none => some (r.move c (.full id slot attempts fed))
    | _ => none
  | .evict c =>
    match r.callers[c]? with
    | some (.evicting id slot attempts fed) =>
      match r.lruUnheld with
      | some victim =>
        some
          (move { r with resident := r.resident.erase victim.1 } c
            (.inserting id slot attempts fed))
      | none => some (r.move c (.full id slot attempts fed))
    | _ => none
  | .wait c timeUp =>
    match r.callers[c]? with
    | some (.full id slot attempts fed) =>
      if timeUp then some (r.move c (.publishing id slot attempts (.busy 250)))
      else some (r.move c (.installing id slot attempts fed))
    | _ => none
  | .publish c =>
    match r.callers[c]? with
    | some (.publishing id slot _ outcome) =>
      some
        (move
          { r with
            slots := r.slots.set slot (some outcome)
            inFlight := r.inFlight.erase id }
          c
          (.returned
            (match outcome with
            | .ok fed => .held fed
            | .err message => .failed message
            | .busy retryAfterMs => .busy retryAfterMs)))
    | _ => none
  | .join c =>
    match r.callers[c]? with
    | some (.joining id slot attempts) =>
      match r.slots[slot]? with
      | some (some (.ok _)) => some (r.move c (.holding id attempts))
      | some (some (.err message)) => some (r.move c (.returned (.failed message)))
      | some (some (.busy retryAfterMs)) => some (r.move c (.returned (.busy retryAfterMs)))
      | _ => none
    | _ => none

end Residency

def Caller.claims? : Caller → Option String
  | .claiming id _ => some id
  | _ => none

/-- A caller claims a new slot only while its snapshot is not resident. -/
def Residency.Careful (r : Residency) : ResidencyEvent → Prop
  | .claim c =>
    ∀ id ∈ r.callers[c]?.bind Caller.claims?,
      r.inFlight.get? id = none → r.resident.get? id = none
  | _ => True

instance Residency.decidableCareful (r : Residency) (event : ResidencyEvent) :
    Decidable (r.Careful event) := by
  cases event <;> unfold Residency.Careful <;> infer_instance

/-- The table is within its cap, a held federation is the resident one of its snapshot, and no
federation is built for a snapshot that is resident. -/
structure Residency.Kept (cap : Nat) (r : Residency) : Prop where
  bounded : r.resident.entries.length ≤ cap
  held : ∀ fed ∈ r.guards, ∃ f, r.feds[fed]? = some f ∧ r.resident.get? f.snapshotId = some fed
  built : ∀ id slot attempts, .building id slot attempts ∈ r.callers → r.resident.get? id = none

/-! ### The invariant of careful runs -/

def Caller.builds? : Caller → Option String
  | .building id _ _ | .installing id _ _ _ | .evicting id _ _ _ | .inserting id _ _ _
  | .full id _ _ _ | .publishing id _ _ _ => some id
  | _ => none

def Caller.pending? : Caller → Option String
  | .building id _ _ | .installing id _ _ _ | .evicting id _ _ _ | .inserting id _ _ _
  | .full id _ _ _ => some id
  | _ => none

def Caller.built? : Caller → Option (String × Nat)
  | .installing id _ _ fed | .evicting id _ _ fed | .inserting id _ _ fed | .full id _ _ fed =>
    some (id, fed)
  | _ => none

def Residency.IsFedOf (r : Residency) (fed : Nat) (id : String) : Prop :=
  ∃ f, r.feds[fed]? = some f ∧ f.snapshotId = id

structure Residency.Tables (cap : Nat) (r : Residency) : Prop where
  bounded : r.resident.entries.length ≤ cap
  resident : ∀ {id : String} {fed : Nat}, r.resident.get? id = some fed → r.IsFedOf fed id
  counted : ∀ {fed : Nat} {f : Federation}, r.feds[fed]? = some f → f.held = r.guards.count fed
  guarded : ∀ fed ∈ r.guards, ∃ id, r.IsFedOf fed id ∧ r.resident.get? id = some fed

structure Residency.Serves (r : Residency) (caller : Caller) : Prop where
  flying : ∀ {id : String}, caller.builds? = some id → (r.inFlight.get? id).isSome = true
  absent : ∀ {id : String}, caller.pending? = some id → r.resident.get? id = none
  owned : ∀ {id : String} {fed : Nat}, caller.built? = some (id, fed) → r.IsFedOf fed id

/-- What careful runs keep; no two callers build one snapshot. -/
structure Residency.Sound (cap : Nat) (r : Residency) : Prop where
  tables : r.Tables cap
  serves : ∀ caller ∈ r.callers, r.Serves caller
  alone : ∀ {v w : Nat} {a b : Caller} {id : String}, r.callers[v]? = some a →
    r.callers[w]? = some b → a.builds? = some id → b.builds? = some id → v = w

namespace Residency

variable {cap : Nat} {r r' : Residency} {c : Nat} {old new : Caller}

theorem sound_empty (cap : Nat) : Sound cap {} where
  tables :=
    { bounded := Nat.zero_le cap
      resident := fun found => nomatch found
      counted := fun found => nomatch found
      guarded := fun _ member => nomatch member }
  serves _ member := nomatch member
  alone found := nomatch found

theorem Sound.moved (sound : r.Sound cap) (here : r.callers[c]? = some old)
    (callers : r'.callers = r.callers.set c new) (tables : r'.Tables cap)
    (frame : ∀ v a, v ≠ c → r.callers[v]? = some a → r.Serves a → r'.Serves a)
    (mine : r'.Serves new)
    (builds : ∀ id, new.builds? = some id → old.builds? = some id ∨
      ∀ a ∈ r.callers, a.builds? ≠ some id) : r'.Sound cap := by
  have before : ∀ {v : Nat} {a : Caller}, r'.callers[v]? = some a →
      (v = c ∧ a = new) ∨ (v ≠ c ∧ r.callers[v]? = some a) := by
    intro v a found
    rw [callers, List.getElem?_set] at found
    split at found
    next same =>
        split at found
        · exact Or.inl ⟨same.symm, (Option.some.inj found).symm⟩
        · cases found
    next apart => exact Or.inr ⟨fun same => apart same.symm, found⟩
  have others : ∀ {v : Nat} {a : Caller} {id : String}, v ≠ c → r.callers[v]? = some a →
      new.builds? = some id → a.builds? ≠ some id := by
    intro v a id apart found mine theirs
    rcases builds id mine with same | nobody
    · exact apart (sound.alone found here theirs same)
    · exact nobody a (List.mem_of_getElem? found) theirs
  refine ⟨tables, fun caller member => ?_, fun {v w a b id} foundV foundW buildsA buildsB => ?_⟩
  · obtain ⟨v, found⟩ := List.getElem?_of_mem member
    rcases before found with ⟨rfl, rfl⟩ | ⟨apart, found⟩
    · exact mine
    · exact frame v caller apart found (sound.serves caller (List.mem_of_getElem? found))
  · rcases before foundV with ⟨rfl, rfl⟩ | ⟨apartV, beforeV⟩ <;>
      rcases before foundW with ⟨rfl, rfl⟩ | ⟨apartW, beforeW⟩
    · rfl
    · exact absurd buildsB (others apartW beforeW buildsA)
    · exact absurd buildsA (others apartV beforeV buildsB)
    · exact sound.alone beforeV beforeW buildsA buildsB

theorem Sound.goOn (sound : r.Sound cap) (here : r.callers[c]? = some old)
    (builds : ∀ id, new.builds? = some id → old.builds? = some id)
    (pending : ∀ id, new.pending? = some id → old.pending? = some id)
    (built : ∀ found, new.built? = some found → old.built? = some found) :
    (r.move c new).Sound cap := by
  have served := sound.serves old (List.mem_of_getElem? here)
  refine sound.moved here rfl ⟨sound.tables.bounded, sound.tables.resident,
    sound.tables.counted, sound.tables.guarded⟩ (fun _ _ _ _ serves => ?_) ?_
    fun id builder => Or.inl (builds id builder)
  · exact ⟨serves.flying, serves.absent, serves.owned⟩
  · exact ⟨fun builder => served.flying (builds _ builder),
      fun waiting => served.absent (pending _ waiting), fun has => served.owned (built _ has)⟩

/-! ### The tables under each operation -/

theorem isFedOf_modify {r' : Residency} {target : Nat} {change : Federation → Federation}
    (feds : r'.feds = r.feds.modify target change)
    (sameId : ∀ f, (change f).snapshotId = f.snapshotId) {fed : Nat} {id : String} :
    r'.IsFedOf fed id ↔ r.IsFedOf fed id := by
  unfold IsFedOf
  rw [feds, List.getElem?_modify]
  constructor
  · rintro ⟨f, found, named⟩
    obtain ⟨f', before, rfl⟩ := Option.map_eq_some_iff.mp found
    refine ⟨f', before, ?_⟩
    rw [← named]
    split
    · exact (sameId f').symm
    · rfl
  · rintro ⟨f, found, rfl⟩
    rw [found]
    refine ⟨_, rfl, ?_⟩
    split
    · exact sameId f
    · rfl

theorem isFedOf_hold {fed other : Nat} {id : String} :
    (r.hold fed).IsFedOf other id ↔ r.IsFedOf other id :=
  isFedOf_modify
    (show (r.hold fed).feds = r.feds.modify fed fun f => { f with held := f.held + 1 } from rfl)
    fun _ => rfl

theorem isFedOf_dropGuard {guard fed other : Nat} {now : Int} {id : String} :
    (r.dropGuard guard fed now).IsFedOf other id ↔ r.IsFedOf other id :=
  isFedOf_modify
    (show (r.dropGuard guard fed now).feds =
      r.feds.modify fed fun f => { f with held := f.held - 1, lastUsed := now } from rfl)
    fun _ => rfl

theorem Tables.hold {id : String} {fed : Nat} (tables : r.Tables cap)
    (found : r.resident.get? id = some fed) : (r.hold fed).Tables cap := by
  refine ⟨tables.bounded, fun known => isFedOf_hold.mpr (tables.resident known), ?_, ?_⟩
  · intro other f known
    change (r.feds.modify fed _)[other]? = some f at known
    rw [List.getElem?_modify] at known
    obtain ⟨f', before, rfl⟩ := Option.map_eq_some_iff.mp known
    have count := tables.counted before
    change _ = (r.guards ++ [fed]).count other
    rw [List.count_append, List.count_singleton, ← count]
    by_cases same : fed = other <;> simp [same]
  · intro other member
    rcases List.mem_append.mp member with before | now
    · obtain ⟨id', isFed, known⟩ := tables.guarded other before
      exact ⟨id', isFedOf_hold.mpr isFed, known⟩
    · obtain rfl := List.mem_singleton.mp now
      exact ⟨id, isFedOf_hold.mpr (tables.resident found), found⟩

theorem Tables.dropGuard {guard fed : Nat} (tables : r.Tables cap)
    (found : r.guards[guard]? = some fed) (now : Int) :
    (r.dropGuard guard fed now).Tables cap := by
  obtain ⟨inside, rfl⟩ := List.getElem?_eq_some_iff.mp found
  have perm := List.getElem_cons_eraseIdx_perm inside
  refine ⟨tables.bounded, fun known => isFedOf_dropGuard.mpr (tables.resident known), ?_, ?_⟩
  · intro other f known
    change (r.feds.modify _ _)[other]? = some f at known
    rw [List.getElem?_modify] at known
    obtain ⟨f', before, rfl⟩ := Option.map_eq_some_iff.mp known
    have count := tables.counted before
    rw [← perm.count_eq, List.count_cons] at count
    change _ = (r.guards.eraseIdx guard).count other
    by_cases same : r.guards[guard] = other
    · rw [if_pos (beq_iff_eq.mpr same)] at count
      rw [if_pos same]
      simp only
      omega
    · rw [if_neg (by simpa using same), Nat.add_zero] at count
      rw [if_neg same]
      exact count
  · intro other member
    obtain ⟨id, isFed, known⟩ := tables.guarded other (List.mem_of_mem_eraseIdx member)
    exact ⟨id, isFedOf_dropGuard.mpr isFed, known⟩

theorem Tables.insert {id : String} {fed : Nat} (tables : r.Tables cap)
    (room : r.resident.entries.length < cap) (absent : r.resident.get? id = none)
    (isFed : r.IsFedOf fed id) :
    Tables cap { r with resident := r.resident.insert id fed } := by
  refine ⟨(r.resident.length_insert_le id fed).trans room, ?_, tables.counted, ?_⟩
  · intro other known found
    change (r.resident.insert id fed).get? other = some known at found
    rw [SortedMap.get?_insert] at found
    split at found
    next same =>
        cases found
        rw [same]
        exact isFed
    · exact tables.resident found
  · intro other member
    obtain ⟨id', isFed', known⟩ := tables.guarded other member
    refine ⟨id', isFed', ?_⟩
    change (r.resident.insert id fed).get? id' = some other
    rw [SortedMap.get?_insert, if_neg]
    · exact known
    · rintro rfl
      rw [absent] at known
      cases known

theorem Tables.erase {id : String} {fed : Nat} {f : Federation} (tables : r.Tables cap)
    (found : r.resident.get? id = some fed) (known : r.feds[fed]? = some f)
    (unheld : f.held = 0) : Tables cap { r with resident := r.resident.erase id } := by
  refine ⟨(r.resident.length_erase_le id).trans tables.bounded, ?_, tables.counted, ?_⟩
  · intro other there found'
    change (r.resident.erase id).get? other = some there at found'
    rw [SortedMap.get?_erase] at found'
    split at found'
    · cases found'
    · exact tables.resident found'
  · intro other member
    obtain ⟨id', isFed, here⟩ := tables.guarded other member
    refine ⟨id', isFed, ?_⟩
    change (r.resident.erase id).get? id' = some other
    rw [SortedMap.get?_erase, if_neg]
    · exact here
    · rintro rfl
      obtain rfl := Option.some.inj (found.symm.trans here)
      have count := tables.counted known
      rw [unheld] at count
      exact absurd member (List.count_eq_zero.mp count.symm)

theorem Tables.build (tables : r.Tables cap) (id : String) (now : Int) :
    Tables cap { r with feds := r.feds ++ [{ snapshotId := id, lastUsed := now }] } := by
  have kept : ∀ {fed : Nat} {id' : String}, r.IsFedOf fed id' →
      IsFedOf { r with feds := r.feds ++ [{ snapshotId := id, lastUsed := now }] } fed id' := by
    rintro fed id' ⟨f, found, named⟩
    exact ⟨f, List.getElem?_append_left (List.getElem?_eq_some_iff.mp found).1 ▸ found, named⟩
  refine ⟨tables.bounded, fun known => kept (tables.resident known), ?_, ?_⟩
  · intro fed f found
    rcases Nat.lt_or_ge fed r.feds.length with inside | beyond
    · rw [List.getElem?_append_left inside] at found
      exact tables.counted found
    · rw [List.getElem?_append_right beyond] at found
      have new := List.mem_singleton.mp (List.mem_of_getElem? found)
      rw [new]
      refine (List.count_eq_zero.mpr fun member => ?_).symm
      obtain ⟨_, ⟨f', known, _⟩, _⟩ := tables.guarded fed member
      exact absurd (List.getElem?_eq_some_iff.mp known).1 (Nat.not_lt.mpr beyond)
  · intro fed member
    obtain ⟨id', isFed, known⟩ := tables.guarded fed member
    exact ⟨id', kept isFed, known⟩

theorem lruUnheld_spec {victim : String × Int} (chosen : r.lruUnheld = some victim) :
    ∃ fed f, r.resident.get? victim.1 = some fed ∧ r.feds[fed]? = some f ∧ f.held = 0 := by
  have search : ∀ (entries : List (String × Nat)) (best : Option (String × Int)),
      (∀ entry ∈ entries, entry ∈ r.resident.entries) →
      (∀ v, best = some v → ∃ fed f, (v.1, fed) ∈ r.resident.entries ∧ r.feds[fed]? = some f ∧
        f.held = 0) →
      ∀ v, entries.foldl (fun best entry =>
        match r.feds[entry.2]? with
        | none => best
        | some f =>
          if f.held = 0 ∧ best.all (fun b => decide (f.lastUsed < b.2)) then
            some (entry.1, f.lastUsed)
          else best) best = some v →
        ∃ fed f, (v.1, fed) ∈ r.resident.entries ∧ r.feds[fed]? = some f ∧ f.held = 0 := by
    intro entries
    induction entries with
    | nil => exact fun best _ good => good
    | cons entry rest ih =>
      intro best listed good
      refine ih _ (fun e member => listed e (List.mem_cons_of_mem _ member)) fun v chosen => ?_
      simp only at chosen
      split at chosen
      · exact good v chosen
      next f known =>
          split at chosen
          next better =>
              cases chosen
              exact ⟨entry.2, f, listed entry List.mem_cons_self, known, better.1⟩
          · exact good v chosen
  obtain ⟨fed, f, member, known, unheld⟩ := search _ none (fun _ member => member)
    (fun _ nothing => nomatch nothing) victim chosen
  exact ⟨fed, f, SortedMap.mem_entries.mp member, known, unheld⟩

/-! ### Each step keeps the invariant -/

theorem Caller.builds?_of_pending? {caller : Caller} {id : String}
    (pending : caller.pending? = some id) : caller.builds? = some id := by
  cases caller <;> first | exact pending | cases pending

theorem Caller.builds?_of_built? {caller : Caller} {id : String} {fed : Nat}
    (built : caller.built? = some (id, fed)) : caller.builds? = some id := by
  cases caller <;> first | exact congrArg (Option.map Prod.fst) built | cases built

theorem serves_of_idle {caller : Caller} (idle : caller.builds? = none) : r.Serves caller where
  flying builds := by
    rw [idle] at builds
    cases builds
  absent pending := by
    rw [Caller.builds?_of_pending? pending] at idle
    cases idle
  owned built := by
    rw [Caller.builds?_of_built? built] at idle
    cases idle

theorem Sound.goOnIdle (sound : r.Sound cap) (here : r.callers[c]? = some old)
    (idle : new.builds? = none) : (r.move c new).Sound cap := by
  refine sound.moved here rfl ⟨sound.tables.bounded, sound.tables.resident,
    sound.tables.counted, sound.tables.guarded⟩ (fun _ _ _ _ serves => ?_)
    (serves_of_idle idle) fun id builds => ?_
  · exact ⟨serves.flying, serves.absent, serves.owned⟩
  · rw [idle] at builds
    cases builds

theorem Sound.apart {v w : Nat} {a b : Caller} {id id' : String} (sound : r.Sound cap)
    (foundV : r.callers[v]? = some a) (foundW : r.callers[w]? = some b) (differ : v ≠ w)
    (buildsA : a.builds? = some id) (buildsB : b.builds? = some id') : id ≠ id' := by
  rintro rfl
  exact differ (sound.alone foundV foundW buildsA buildsB)

theorem Sound.arrive (sound : r.Sound cap) (id : String) :
    Sound cap { r with callers := r.callers ++ [.looking id maxAcquireAttempts] } := by
  have before : ∀ {v : Nat} {a : Caller} {built : String},
      (r.callers ++ [.looking id maxAcquireAttempts])[v]? = some a → a.builds? = some built →
        r.callers[v]? = some a := by
    intro v a built found builds
    rcases Nat.lt_or_ge v r.callers.length with inside | beyond
    · rwa [List.getElem?_append_left inside] at found
    · rw [List.getElem?_append_right beyond] at found
      rw [List.mem_singleton.mp (List.mem_of_getElem? found)] at builds
      cases builds
  refine ⟨⟨sound.tables.bounded, sound.tables.resident, sound.tables.counted,
    sound.tables.guarded⟩, fun caller member => ?_, fun foundV foundW buildsA buildsB =>
      sound.alone (before foundV buildsA) (before foundW buildsB) buildsA buildsB⟩
  rcases List.mem_append.mp member with old | new
  · have serves := sound.serves caller old
    exact ⟨serves.flying, serves.absent, serves.owned⟩
  · rw [List.mem_singleton.mp new]
    exact serves_of_idle rfl

theorem Sound.drop {guard fed : Nat} (sound : r.Sound cap) (found : r.guards[guard]? = some fed)
    (now : Int) : (r.dropGuard guard fed now).Sound cap := by
  refine ⟨sound.tables.dropGuard found now, fun caller member => ?_, sound.alone⟩
  have serves := sound.serves caller member
  exact ⟨serves.flying, serves.absent, fun built => isFedOf_dropGuard.mpr (serves.owned built)⟩

theorem Sound.holdResident {id : String} {fed : Nat} (sound : r.Sound cap)
    (here : r.callers[c]? = some old) (found : r.resident.get? id = some fed) :
    ((r.hold fed).move c (.returned (.held fed))).Sound cap := by
  have tables := sound.tables.hold found
  refine sound.moved here rfl
    ⟨tables.bounded, tables.resident, tables.counted, tables.guarded⟩
    (fun _ _ _ _ serves => ?_)
    (serves_of_idle rfl) fun _ builds => nomatch builds
  exact ⟨serves.flying, serves.absent, fun built => isFedOf_hold.mpr (serves.owned built)⟩

theorem Sound.claim {id : String} {attempts : Nat} (sound : r.Sound cap)
    (here : r.callers[c]? = some (.claiming id attempts)) (free : r.inFlight.get? id = none)
    (absent : r.resident.get? id = none) :
    (Residency.move
      { r with
        slots := r.slots ++ [none]
        inFlight := r.inFlight.insert id r.slots.length }
      c (.building id r.slots.length attempts)).Sound cap := by
  refine sound.moved here rfl ⟨sound.tables.bounded, sound.tables.resident,
    sound.tables.counted, sound.tables.guarded⟩ (fun _ a _ _ serves => ?_) ?_ ?_
  · refine ⟨fun {other} builds => ?_, serves.absent, serves.owned⟩
    change ((r.inFlight.insert id _).get? other).isSome = true
    rw [SortedMap.get?_insert]
    split
    · rfl
    · exact serves.flying builds
  · refine ⟨fun {other} builds => ?_, fun {other} pending => ?_, fun built => nomatch built⟩
    · cases builds
      change ((r.inFlight.insert id _).get? id).isSome = true
      rw [SortedMap.get?_insert, if_pos rfl]
      rfl
    · cases pending
      exact absent
  · rintro _ ⟨⟩
    refine Or.inr fun a member builds => ?_
    have flying := (sound.serves a member).flying builds
    rw [free] at flying
    cases flying

theorem Sound.build {id : String} {slot attempts : Nat} (sound : r.Sound cap)
    (here : r.callers[c]? = some (.building id slot attempts)) (now : Int) :
    (Residency.move { r with feds := r.feds ++ [{ snapshotId := id, lastUsed := now }] } c
      (.installing id slot attempts r.feds.length)).Sound cap := by
  have served := sound.serves _ (List.mem_of_getElem? here)
  have tables := sound.tables.build id now
  refine sound.moved here rfl
    ⟨tables.bounded, tables.resident, tables.counted, tables.guarded⟩
    (fun _ a _ _ serves => ?_) ?_ fun _ builds => Or.inl builds
  · refine ⟨serves.flying, serves.absent, fun built => ?_⟩
    obtain ⟨f, found, named⟩ := serves.owned built
    exact ⟨f, (List.getElem?_append_left (List.getElem?_eq_some_iff.mp found).1).trans found,
      named⟩
  · refine ⟨served.flying, served.absent, fun {other fed} built => ?_⟩
    cases built
    exact ⟨_, List.getElem?_concat_length, rfl⟩

theorem Sound.insert {id : String} {slot attempts fed : Nat} {r' : Residency}
    (sound : r.Sound cap) (here : r.callers[c]? = some old)
    (pending : old.pending? = some id) (built : old.built? = some (id, fed))
    (inserted : r.tryInsert cap id fed = some r') :
    (r'.move c (.publishing id slot attempts (.ok fed))).Sound cap := by
  have served := sound.serves _ (List.mem_of_getElem? here)
  have builds := Caller.builds?_of_pending? pending
  obtain ⟨room, done⟩ := Option.ite_none_right_eq_some.mp inserted
  cases done
  have there : (r.resident.insert id fed).get? id = some fed := by
    rw [SortedMap.get?_insert, if_pos rfl]
  have tables := (sound.tables.insert room (served.absent pending) (served.owned built)).hold
    there
  refine sound.moved here rfl
    ⟨tables.bounded, tables.resident, tables.counted, tables.guarded⟩
    (fun v a apart found serves => ?_) ?_ ?_
  · refine ⟨serves.flying, fun {other} waiting => ?_, fun has => ?_⟩
    · change (r.resident.insert id fed).get? other = none
      rw [SortedMap.get?_insert, if_neg]
      · exact serves.absent waiting
      · exact sound.apart found here apart (Caller.builds?_of_pending? waiting) builds
    · exact isFedOf_hold.mpr (serves.owned has)
  · refine ⟨fun {other} publishing => ?_, fun waiting => (nomatch waiting),
      fun has => nomatch has⟩
    cases publishing
    exact served.flying builds
  · rintro _ ⟨⟩
    exact Or.inl builds

theorem Sound.evict {id : String} {slot attempts fed : Nat} {victim : String × Int}
    (sound : r.Sound cap) (here : r.callers[c]? = some (.evicting id slot attempts fed))
    (chosen : r.lruUnheld = some victim) :
    (Residency.move { r with resident := r.resident.erase victim.1 } c
      (.inserting id slot attempts fed)).Sound cap := by
  have served := sound.serves _ (List.mem_of_getElem? here)
  obtain ⟨there, f, found, known, unheld⟩ := lruUnheld_spec chosen
  have tables := sound.tables.erase found known unheld
  have gone : ∀ {other : String}, r.resident.get? other = none →
      (r.resident.erase victim.1).get? other = none := by
    intro other absent
    rw [SortedMap.get?_erase]
    split
    · rfl
    · exact absent
  refine sound.moved here rfl
    ⟨tables.bounded, tables.resident, tables.counted, tables.guarded⟩
    (fun _ a _ _ serves => ?_) ?_ fun _ builds => Or.inl builds
  · exact ⟨serves.flying, fun waiting => gone (serves.absent waiting), serves.owned⟩
  · exact ⟨served.flying, fun waiting => gone (served.absent waiting), served.owned⟩

theorem Sound.publish {id : String} {slot attempts : Nat} {outcome : BuildOutcome}
    (sound : r.Sound cap) (here : r.callers[c]? = some (.publishing id slot attempts outcome))
    (slots : List (Option BuildOutcome)) (result : AcquireResult) :
    (Residency.move { r with slots, inFlight := r.inFlight.erase id } c (.returned result)).Sound cap := by
  refine sound.moved here rfl ⟨sound.tables.bounded, sound.tables.resident,
    sound.tables.counted, sound.tables.guarded⟩ (fun v a apart found serves => ?_)
    (serves_of_idle rfl) fun _ builds => nomatch builds
  refine ⟨fun {other} builds => ?_, serves.absent, serves.owned⟩
  change ((r.inFlight.erase id).get? other).isSome = true
  rw [SortedMap.get?_erase, if_neg]
  · exact serves.flying builds
  · exact sound.apart found here apart builds rfl

/-- **Every careful step keeps the invariant.** -/
theorem Sound.step {event : ResidencyEvent} (sound : r.Sound cap) (careful : r.Careful event)
    (moved : r.step cap event = some r') : r'.Sound cap := by
  cases event with
  | arrive id =>
    cases moved
    exact sound.arrive id
  | drop guard now =>
    simp only [Residency.step] at moved
    split at moved
    next fed found =>
        cases moved
        exact sound.drop found now
    · cases moved
  | lookup c =>
    simp only [Residency.step] at moved
    split at moved
    next id attempts here =>
        split at moved
        next fed found =>
            cases moved
            exact sound.holdResident here found
        · cases moved
          exact sound.goOnIdle here rfl
    next id attempts here =>
        split at moved
        next fed found =>
            cases moved
            exact sound.holdResident here found
        · split at moved <;> cases moved <;>
            exact sound.goOnIdle here rfl
    · cases moved
  | claim c =>
    simp only [Residency.step] at moved
    split at moved
    next id attempts here =>
        split at moved
        · cases moved
          exact sound.goOnIdle here rfl
        next free =>
            cases moved
            exact sound.claim here free (careful id (by rw [here]; rfl) free)
    · cases moved
  | build c result =>
    simp only [Residency.step] at moved
    split at moved
    next id slot attempts now here =>
        cases moved
        exact sound.build here now
    next id slot attempts message here =>
        cases moved
        exact sound.goOn here (fun _ h => h) (fun _ h => (nomatch h)) fun _ h => nomatch h
    · cases moved
  | install c =>
    simp only [Residency.step] at moved
    split at moved
    next id slot attempts fed here =>
        split at moved
        next inserted =>
            cases moved
            exact sound.insert here rfl rfl inserted
        · cases moved
          exact sound.goOn here (fun _ h => h) (fun _ h => h) fun _ h => h
    next id slot attempts fed here =>
        split at moved
        next inserted =>
            cases moved
            exact sound.insert here rfl rfl inserted
        · cases moved
          exact sound.goOn here (fun _ h => h) (fun _ h => h) fun _ h => h
    · cases moved
  | evict c =>
    simp only [Residency.step] at moved
    split at moved
    next id slot attempts fed here =>
        split at moved
        next victim chosen =>
            cases moved
            exact sound.evict here chosen
        · cases moved
          exact sound.goOn here (fun _ h => h) (fun _ h => h) fun _ h => h
    · cases moved
  | wait c timeUp =>
    simp only [Residency.step] at moved
    split at moved
    next id slot attempts fed here =>
        split at moved
        · cases moved
          exact sound.goOn here (fun _ h => h) (fun _ h => (nomatch h)) fun _ h => nomatch h
        · cases moved
          exact sound.goOn here (fun _ h => h) (fun _ h => h) fun _ h => h
    · cases moved
  | publish c =>
    simp only [Residency.step] at moved
    split at moved
    next id slot attempts outcome here =>
        cases moved
        exact sound.publish here _ _
    · cases moved
  | join c =>
    simp only [Residency.step] at moved
    split at moved
    next id slot attempts here =>
        split at moved
        · cases moved
          exact sound.goOnIdle here rfl
        · cases moved
          exact sound.goOnIdle here rfl
        · cases moved
          exact sound.goOnIdle here rfl
        · cases moved
    · cases moved

theorem Sound.kept (sound : r.Sound cap) : r.Kept cap where
  bounded := sound.tables.bounded
  held fed member := by
    obtain ⟨id, ⟨f, found, rfl⟩, known⟩ := sound.tables.guarded fed member
    exact ⟨f, found, known⟩
  built _ _ _ member := (sound.serves _ member).absent rfl

/-- **A held federation stays resident, and nothing resident is built**, in every run in which a
caller claims a new slot only while its snapshot is not resident. -/
theorem careful_kept {events : List ResidencyEvent}
    (run : Runs (Residency.step cap) Residency.Careful {} events r) : r.Kept cap :=
  (run.invariant (I := fun _ (r : Residency) => r.Sound cap) (sound_empty cap)
    fun sound careful moved => sound.step careful moved).kept

theorem careful_kept_joined :
    ∃ r, execute (Residency.step 2) Residency.Careful {}
        [.arrive "snap_a", .arrive "snap_a", .lookup 0, .lookup 1, .claim 0, .claim 1,
          .build 0 (.ok 1), .install 0, .publish 0, .join 1, .lookup 1] = some r ∧
      r.Kept 2 := by
  have run : ∃ r, execute (Residency.step 2) Residency.Careful {}
      [.arrive "snap_a", .arrive "snap_a", .lookup 0, .lookup 1, .claim 0, .claim 1,
        .build 0 (.ok 1), .install 0, .publish 0, .join 1, .lookup 1] = some r :=
    Option.isSome_iff_exists.mp (by decide)
  obtain ⟨r, done⟩ := run
  exact ⟨r, done, careful_kept (runs_of_execute done)⟩

/-- A call that missed the table before the builder installed, and claims a slot after the
builder's is gone, builds what is resident and replaces it while it is held. -/
theorem kept_fails :
    ∃ events r, Runs (Residency.step 2) (fun _ _ => True) {} events r ∧
      r.guards = [0, 1] ∧ r.resident.get? "snap_a" = some 1 ∧ ¬ r.Kept 2 := by
  have run : (execute (Residency.step 2) (fun _ _ => True) {}
      [.arrive "snap_a", .arrive "snap_a", .lookup 0, .lookup 1, .claim 0, .build 0 (.ok 1),
        .install 0, .publish 0, .claim 1, .build 1 (.ok 2), .install 1]).any fun r =>
      r.guards = [0, 1] ∧ r.resident.get? "snap_a" = some 1 ∧
        (r.feds[0]?.map Federation.snapshotId) = some "snap_a" := by
    decide
  obtain ⟨r, done, checked⟩ := (Option.any_eq_true ..).mp run
  obtain ⟨guards, resident, first⟩ := of_decide_eq_true checked
  refine ⟨_, r, runs_of_execute done, guards, resident, fun kept => ?_⟩
  obtain ⟨f, found, known⟩ := kept.held 0 (by rw [guards]; exact List.mem_cons_self)
  rw [found, Option.map_some, Option.some.injEq] at first
  rw [first, resident] at known
  cases known

end Residency

end Lain.Snapshots
