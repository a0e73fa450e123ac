import Lain.Foundation.Runs
import Lain.Snapshots.IndexCache

/-!
# Holds on cache entries

A hold asks that an entry stay on disk.
-/

namespace Lain.Snapshots

open Foundation

/-- A hold that is alive, and the entry that was on disk when it was taken. -/
structure CacheHold where
  key : CacheKey
  found : Option CacheEntry
deriving DecidableEq

abbrev HoldRegistry : Type := SortedMap CacheKey Nat

namespace HoldRegistry

/-- Count one more hold. -/
def acquire (registry : HoldRegistry) (key : CacheKey) : HoldRegistry :=
  registry.bump key

def release (registry : HoldRegistry) (key : CacheKey) : HoldRegistry :=
  match registry.get? key with
  | some n => if n ≤ 1 then registry.erase key else registry.insert key (n - 1)
  | none => registry

/-- A hold on the key is alive. -/
def isHeld (registry : HoldRegistry) (key : CacheKey) : Bool :=
  (registry.get? key).isSome

end HoldRegistry

structure Sweep where
  todo : List (CacheKey × CacheEntry)
  budget : Option Nat
  current : Nat
  removed : Nat := 0
  freed : Nat := 0
deriving DecidableEq

inductive AfterRemoval where
  | done
  | stage (entry : CacheEntry)
  | sweep (sweep : Sweep)
deriving DecidableEq

inductive CacheThread where
  | idle
  | looking (key : CacheKey) (entry : CacheEntry)
  | sweeping (sweep : Sweep)
  | testing (key : CacheKey) (after : AfterRemoval)
  | deleting (key : CacheKey) (after : AfterRemoval)
  | staging (key : CacheKey) (entry : CacheEntry)
  | moving (key : CacheKey)
deriving DecidableEq

inductive CacheTask where
  | writeEntry (key : CacheKey) (entry : CacheEntry)
  | removeEntry (key : CacheKey)
  | evictLru (budgetMb : Nat) (listing : List (CacheKey × CacheEntry))
  | purge (listing : List (CacheKey × CacheEntry))

def mib : Nat := 2 ^ 20

def u64Max : Nat := 2 ^ 64 - 1

def sortByUsed (listing : List (CacheKey × CacheEntry)) : List (CacheKey × CacheEntry) :=
  listing.insertionSort fun a b => a.2.manifest.lastUsedUnix ≤ b.2.manifest.lastUsedUnix

def CacheTask.Possible (disk : CacheDisk) : CacheTask → Prop
  | .evictLru _ listing | .purge listing => listing.Perm disk.collectEntries
  | _ => True

instance (disk : CacheDisk) (task : CacheTask) : Decidable (task.Possible disk) := by
  cases task <;> unfold CacheTask.Possible <;> infer_instance

def CacheTask.start : CacheTask → CacheThread
  | .writeEntry key entry => .looking key entry
  | .removeEntry key => .testing key .done
  | .evictLru budgetMb listing =>
    .sweeping
      { todo := sortByUsed listing
        budget := some (min (budgetMb * mib) u64Max)
        current := (listing.map fun listed => listed.2.graph.length).sum }
  | .purge listing => .sweeping { todo := listing, budget := none, current := 0 }

/-- The disk, the registry, the holds that are alive, and the threads. -/
structure Cache where
  disk : CacheDisk := {}
  registry : HoldRegistry := ∅
  holds : List CacheHold := []
  threads : List CacheThread
deriving DecidableEq

/-- What happens next. -/
inductive CacheEvent where
  | acquire (key : CacheKey)
  | drop (hold : Nat)
  | begin (thread : Nat) (task : CacheTask)
  | advance (thread : Nat)
  | fail (thread : Nat)

/-- The head of the loop of a pass: stop, pass over a held entry, or go and remove it. -/
def Sweep.next (registry : HoldRegistry) (sweep : Sweep) : CacheThread :=
  match sweep.todo with
  | [] => .idle
  | (key, entry) :: rest =>
    if sweep.budget.any fun budget => decide (sweep.current ≤ budget) then .idle
    else if registry.isHeld key then .sweeping { sweep with todo := rest }
    else
      .testing key
        (.sweep
          { sweep with
            todo := rest
            current := sweep.current - entry.graph.length
            removed := sweep.removed + 1
            freed := min (sweep.freed + entry.graph.length) u64Max })

def AfterRemoval.next (key : CacheKey) : AfterRemoval → CacheThread
  | .done => .idle
  | .stage entry => .staging key entry
  | .sweep rest => .sweeping rest

/-- One step of a thread: what it leaves on disk and what it does next. -/
def CacheThread.advance (disk : CacheDisk) (registry : HoldRegistry) :
    CacheThread → Option (CacheDisk × CacheThread)
  | .idle => none
  | .looking key entry =>
    some (disk, if disk.hasEntry key then .testing key (.stage entry) else .staging key entry)
  | .sweeping sweep => some (disk, sweep.next registry)
  | .testing key after =>
    some (disk, if registry.isHeld key then .idle else .deleting key after)
  | .deleting key after => some (disk.remove key, after.next key)
  | .staging key entry => some (disk.stage key entry, .moving key)
  | .moving key => some (disk.rename key, .idle)

/-- One step of the cache. A thread whose file operation fails gives up. -/
def Cache.step (cache : Cache) : CacheEvent → Option Cache
  | .acquire key =>
    some
      { cache with
        registry := cache.registry.acquire key
        holds := cache.holds ++ [⟨key, cache.disk.entries.get? key.entryDir⟩] }
  | .drop h =>
    match cache.holds[h]? with
    | some hold =>
      some
        { cache with
          registry := cache.registry.release hold.key
          holds := cache.holds.eraseIdx h }
    | none => none
  | .begin t task =>
    match cache.threads[t]? with
    | some .idle =>
      if task.Possible cache.disk then
        some { cache with threads := cache.threads.set t task.start }
      else none
    | _ => none
  | .advance t =>
    match cache.threads[t]?.bind (CacheThread.advance cache.disk cache.registry) with
    | some (disk, thread) => some { cache with disk, threads := cache.threads.set t thread }
    | none => none
  | .fail t =>
    match cache.threads[t]? with
    | some _ => some { cache with threads := cache.threads.set t .idle }
    | none => none

/-- A cache over what is on disk, with idle threads and no holds. -/
def Cache.fresh (disk : CacheDisk) (threads : Nat) : Cache where
  disk
  threads := List.replicate threads .idle

def CacheThread.deletes? : CacheThread → Option CacheKey
  | .deleting key _ => some key
  | _ => none

def CacheThread.tests? : CacheThread → Option CacheKey
  | .testing key _ => some key
  | _ => none

/-- A hold on an entry that is on disk is not taken while a thread is about to remove its
directory, and a key is not tested while its directory is held under other keys only. -/
def Cache.Careful (cache : Cache) : CacheEvent → Prop
  | .acquire key =>
    (cache.disk.entries.get? key.entryDir).isSome = true →
      ∀ thread ∈ cache.threads, ∀ other ∈ thread.deletes?, other.entryDir ≠ key.entryDir
  | .advance t =>
    ∀ key ∈ cache.threads[t]?.bind CacheThread.tests?,
      (∃ hold ∈ cache.holds, hold.found.isSome = true ∧ hold.key.entryDir = key.entryDir) →
        cache.registry.isHeld key = true
  | _ => True

instance Cache.decidableCareful (cache : Cache) (event : CacheEvent) :
    Decidable (cache.Careful event) := by
  cases event <;> unfold Cache.Careful <;> infer_instance

/-- What was on disk when a hold was taken is there unchanged. -/
def Cache.HeldKept (cache : Cache) : Prop :=
  ∀ hold ∈ cache.holds, ∀ entry, hold.found = some entry →
    cache.disk.entries.get? hold.key.entryDir = some entry

/-! ### The registry counts the holds -/

def HoldRegistry.Counts (registry : HoldRegistry) (holds : List CacheHold) : Prop :=
  ∀ key, (registry.get? key).getD 0 = holds.countP (fun hold => decide (hold.key = key)) ∧
    registry.get? key ≠ some 0

namespace HoldRegistry.Counts

variable {registry : HoldRegistry} {holds : List CacheHold} {key : CacheKey}

theorem acquire (counts : registry.Counts holds) (hold : CacheHold) :
    (registry.acquire hold.key).Counts (holds ++ [hold]) := by
  intro key
  obtain ⟨total, positive⟩ := counts key
  unfold HoldRegistry.acquire SortedMap.bump
  rw [SortedMap.get?_alter, List.countP_append, List.countP_singleton, ← total]
  by_cases same : key = hold.key
  · subst same
    simp
  · have apart : ¬ hold.key = key := fun h => same h.symm
    simp [same, apart, positive]

theorem release (counts : registry.Counts holds) {h : Nat} {hold : CacheHold}
    (found : holds[h]? = some hold) :
    (registry.release hold.key).Counts (holds.eraseIdx h) := by
  intro key
  obtain ⟨inside, rfl⟩ := List.getElem?_eq_some_iff.mp found
  have perm := List.getElem_cons_eraseIdx_perm inside
  have counted := perm.countP_eq fun hold => decide (hold.key = key)
  rw [List.countP_cons] at counted
  obtain ⟨total, positive⟩ := counts key
  unfold HoldRegistry.release
  by_cases same : holds[h].key = key
  · rw [if_pos (decide_eq_true same)] at counted
    rw [same]
    cases known : registry.get? key with
    | none =>
      rw [known, Option.getD_none] at total
      omega
    | some n =>
      rw [known, Option.getD_some] at total
      simp only
      split
      · rw [SortedMap.get?_erase, if_pos rfl]
        refine ⟨?_, nofun⟩
        rw [Option.getD_none]
        omega
      · rw [SortedMap.get?_insert, if_pos rfl, Option.getD_some]
        refine ⟨by omega, fun zero => ?_⟩
        have none := Option.some.inj zero
        omega
  · have apart : ¬ key = holds[h].key := fun h => same h.symm
    rw [if_neg (by simpa using same), Nat.add_zero] at counted
    rw [counted, ← total]
    have unchanged : (registry.release holds[h].key).get? key = registry.get? key := by
      unfold HoldRegistry.release
      split
      · split
        · rw [SortedMap.get?_erase, if_neg apart]
        · rw [SortedMap.get?_insert, if_neg apart]
      · rfl
    unfold HoldRegistry.release at unchanged
    rw [unchanged]
    exact ⟨rfl, positive⟩

end HoldRegistry.Counts

/-! ### The invariant of careful runs -/

/-- What careful runs keep: the registry counts the holds, a directory about to be removed is
not held, and what is held is on disk as it was. -/
structure Cache.Sound (cache : Cache) : Prop where
  counts : cache.registry.Counts cache.holds
  clear : ∀ {key : CacheKey} {after : AfterRemoval}, .deleting key after ∈ cache.threads →
    ∀ hold ∈ cache.holds, hold.found.isSome = true → hold.key.entryDir ≠ key.entryDir
  kept : cache.HeldKept

namespace Cache.Sound

variable {cache : Cache}

theorem fresh (disk : CacheDisk) (threads : Nat) : (Cache.fresh disk threads).Sound where
  counts key := ⟨rfl, nofun⟩
  clear := by
    intro key after member
    cases List.eq_of_mem_replicate member
  kept hold member := nomatch member

theorem acquire {key : CacheKey} (sound : cache.Sound) (careful : cache.Careful (.acquire key)) :
    Cache.Sound
      { cache with
        registry := cache.registry.acquire key
        holds := cache.holds ++ [⟨key, cache.disk.entries.get? key.entryDir⟩] } where
  counts := sound.counts.acquire ⟨key, _⟩
  clear := by
    intro other after member hold held found
    rcases List.mem_append.mp held with before | now
    · exact sound.clear member hold before found
    · obtain rfl := List.mem_singleton.mp now
      exact (careful found _ member other rfl).symm
  kept := by
    intro hold held entry found
    rcases List.mem_append.mp held with before | now
    · exact sound.kept hold before entry found
    · obtain rfl := List.mem_singleton.mp now
      exact found

theorem drop {h : Nat} {hold : CacheHold} (sound : cache.Sound)
    (found : cache.holds[h]? = some hold) :
    Cache.Sound
      { cache with
        registry := cache.registry.release hold.key
        holds := cache.holds.eraseIdx h } where
  counts := sound.counts.release found
  clear member other held := sound.clear member other (List.mem_of_mem_eraseIdx held)
  kept other held := sound.kept other (List.mem_of_mem_eraseIdx held)

theorem move {disk : CacheDisk} {t : Nat} {thread : CacheThread} (sound : cache.Sound)
    (clear : ∀ key after, thread = .deleting key after → ∀ hold ∈ cache.holds,
      hold.found.isSome = true → hold.key.entryDir ≠ key.entryDir)
    (kept : ∀ hold ∈ cache.holds, ∀ entry, hold.found = some entry →
      cache.disk.entries.get? hold.key.entryDir = some entry →
        disk.entries.get? hold.key.entryDir = some entry) :
    Cache.Sound { cache with disk, threads := cache.threads.set t thread } where
  counts := sound.counts
  clear := by
    intro key after member
    rcases List.mem_or_eq_of_mem_set member with before | now
    · exact sound.clear before
    · exact clear key after now.symm
  kept hold held entry found := kept hold held entry found (sound.kept hold held entry found)

end Cache.Sound

theorem Sweep.next_ne_deleting (registry : HoldRegistry) (sweep : Sweep) (key : CacheKey)
    (after : AfterRemoval) : sweep.next registry ≠ .deleting key after := by
  unfold Sweep.next
  split
  · nofun
  · split
    · nofun
    · split <;> nofun

theorem CacheDisk.get?_rename {disk : CacheDisk} {dir : Dir} {entry : CacheEntry}
    (key : CacheKey) (found : disk.entries.get? dir = some entry) :
    (disk.rename key).entries.get? dir = some entry := by
  unfold CacheDisk.rename
  split
  next staged absent =>
      rw [SortedMap.get?_insert]
      split
      next same =>
          rw [same, absent] at found
          cases found
      · exact found
  · exact found

/-- **Every careful step of a thread keeps the invariant.** -/
theorem Cache.Sound.advance {cache : Cache} {t : Nat} {thread next : CacheThread}
    {disk : CacheDisk} (sound : cache.Sound) (careful : cache.Careful (.advance t))
    (here : cache.threads[t]? = some thread)
    (moved : thread.advance cache.disk cache.registry = some (disk, next)) :
    Cache.Sound { cache with disk, threads := cache.threads.set t next } := by
  replace careful : ∀ key ∈ thread.tests?,
      (∃ hold ∈ cache.holds, hold.found.isSome = true ∧ hold.key.entryDir = key.entryDir) →
        cache.registry.isHeld key = true :=
    fun key tested => careful key (by rw [here]; exact tested)
  cases thread with
  | idle => cases moved
  | looking key entry =>
    cases moved
    refine sound.move (fun other after going => ?_) fun _ _ _ _ kept => kept
    split at going <;> cases going
  | sweeping sweep =>
    cases moved
    refine sound.move (fun other after going => ?_) fun _ _ _ _ kept => kept
    exact absurd going (sweep.next_ne_deleting _ _ _)
  | testing key after =>
    cases moved
    refine sound.move (fun other after' going hold held found same => ?_)
      fun _ _ _ _ kept => kept
    split at going
    · cases going
    next unheld =>
        cases going
        exact unheld (careful _ rfl ⟨hold, held, found, same⟩)
  | deleting key after =>
    cases moved
    refine sound.move (fun other after' going => ?_) fun hold held entry found kept => ?_
    · cases after <;> cases going
    · have elsewhere := sound.clear (List.mem_of_getElem? here) hold held
        (Option.isSome_of_eq_some found)
      unfold CacheDisk.remove
      rw [SortedMap.get?_erase, if_neg elsewhere]
      exact kept
  | staging key entry =>
    cases moved
    exact sound.move (fun _ _ going => nomatch going) fun _ _ _ _ kept => kept
  | moving key =>
    cases moved
    exact sound.move (fun _ _ going => nomatch going) fun hold _ entry _ kept =>
      CacheDisk.get?_rename key kept

/-- **Every careful step keeps the invariant.** -/
theorem Cache.Sound.step {cache cache' : Cache} {event : CacheEvent} (sound : cache.Sound)
    (careful : cache.Careful event) (moved : cache.step event = some cache') :
    cache'.Sound := by
  cases event with
  | acquire key =>
    cases moved
    exact sound.acquire careful
  | drop h =>
    simp only [Cache.step] at moved
    split at moved
    next hold found =>
        cases moved
        exact sound.drop found
    · cases moved
  | begin t task =>
    simp only [Cache.step] at moved
    split at moved
    · split at moved
      · cases moved
        refine sound.move (fun key after going => ?_) fun _ _ _ _ kept => kept
        cases task <;> cases going
      · cases moved
    · cases moved
  | advance t =>
    simp only [Cache.step] at moved
    split at moved
    next disk next found =>
        cases moved
        obtain ⟨thread, here, went⟩ := Option.bind_eq_some_iff.mp found
        exact sound.advance careful here went
    · cases moved
  | fail t =>
    simp only [Cache.step] at moved
    split at moved
    · cases moved
      exact sound.move (fun _ _ going => nomatch going) fun _ _ _ _ kept => kept
    · cases moved

/-- **A held entry stays on disk unchanged**, in every run in which no hold is taken on an entry
whose directory a thread is about to remove, and no key is tested while its directory is held
under other spellings only. -/
theorem careful_heldKept {disk : CacheDisk} {threads : Nat} {events : List CacheEvent}
    {cache : Cache} (run : Runs Cache.step Cache.Careful (Cache.fresh disk threads) events cache) :
    cache.HeldKept :=
  (run.invariant (I := fun _ (cache : Cache) => cache.Sound) (Cache.Sound.fresh disk threads)
    fun sound careful moved => sound.step careful moved).kept

def ordersKey : CacheKey where
  repo := "orders"
  sha := "0a1b2c"
  analyzerVersion := "0.9.0+c1"

def ordersDisk : CacheDisk where
  entries :=
    SortedMap.insert ∅ ordersKey.entryDir
      ⟨⟨"orders", "0a1b2c", "0.9.0+c1", [], ∅, 3, 0, 0⟩, [1, 2, 3]⟩

theorem careful_heldKept_orders :
    ∃ cache,
      execute Cache.step Cache.Careful (Cache.fresh ordersDisk 1)
          [.acquire ordersKey, .begin 0 (.removeEntry ordersKey), .advance 0] = some cache ∧
        cache.HeldKept := by
  have run : ∃ cache, execute Cache.step Cache.Careful (Cache.fresh ordersDisk 1)
      [.acquire ordersKey, .begin 0 (.removeEntry ordersKey), .advance 0] = some cache :=
    Option.isSome_iff_exists.mp (by decide)
  obtain ⟨cache, done⟩ := run
  exact ⟨cache, done, careful_heldKept (runs_of_execute done)⟩

/-- A held entry is removed: by a thread that tested the registry before the hold was taken, and
by one that spells the sha in another case. -/
theorem heldKept_fails :
    (∃ cache,
      Runs Cache.step (fun _ _ => True) (Cache.fresh ordersDisk 1)
          [.begin 0 (.removeEntry ordersKey), .advance 0, .acquire ordersKey, .advance 0] cache ∧
        ¬ cache.HeldKept) ∧
    ∃ cache,
      Runs Cache.step (fun _ _ => True) (Cache.fresh ordersDisk 1)
          [.acquire { ordersKey with sha := "0A1B2C" }, .begin 0 (.removeEntry ordersKey),
            .advance 0, .advance 0] cache ∧
        ¬ cache.HeldKept := by
  have gone : ∀ {cache : Cache}, cache.disk.entries = ∅ →
      (∃ hold ∈ cache.holds, hold.found.isSome = true) → ¬ cache.HeldKept := by
    rintro cache empty ⟨hold, held, found⟩ kept
    obtain ⟨entry, found⟩ := Option.isSome_iff_exists.mp found
    have there := kept hold held entry found
    rw [empty] at there
    cases there
  have race : (execute Cache.step (fun _ _ => True) (Cache.fresh ordersDisk 1)
      [.begin 0 (.removeEntry ordersKey), .advance 0, .acquire ordersKey, .advance 0]).any
        fun cache => cache.disk.entries = ∅ ∧ ∃ hold ∈ cache.holds, hold.found.isSome = true := by
    decide
  have spelling : (execute Cache.step (fun _ _ => True) (Cache.fresh ordersDisk 1)
      [.acquire { ordersKey with sha := "0A1B2C" }, .begin 0 (.removeEntry ordersKey),
        .advance 0, .advance 0]).any
        fun cache => cache.disk.entries = ∅ ∧ ∃ hold ∈ cache.holds, hold.found.isSome = true := by
    decide
  obtain ⟨raced, done, checked⟩ := (Option.any_eq_true ..).mp race
  obtain ⟨spelled, done', checked'⟩ := (Option.any_eq_true ..).mp spelling
  obtain ⟨empty, held⟩ := of_decide_eq_true checked
  obtain ⟨empty', held'⟩ := of_decide_eq_true checked'
  exact ⟨⟨raced, runs_of_execute done, gone empty held⟩,
    ⟨spelled, runs_of_execute done', gone empty' held'⟩⟩

end Lain.Snapshots
