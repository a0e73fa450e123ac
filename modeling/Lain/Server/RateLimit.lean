import Mathlib
import Lain.Foundation.SortedMap
import Lain.Foundation.Accrual

/-!
# The rate limit

Every key has a bucket of tokens that refills with time; a call takes a token or is told how long
to wait.
-/

namespace Lain.Server

open Foundation

/-! ### Buckets -/

/-- The tokens of a key when it last called, and the time of that call in seconds. -/
structure Bucket where
  tokens : ℚ
  lastRefill : ℚ

abbrev Buckets := SortedMap String Bucket

def rateLimitMaxBuckets : Nat := 4096

structure MapListing where
  order : List (String × Bucket) → List (String × Bucket)
  perm : ∀ l, (order l).Perm l

/-- A call of a key at a time, and the order in which the map would list its buckets then. -/
structure Call where
  key : String
  now : ℚ
  listing : MapListing

def oldestKey (buckets : Buckets) (call : Call) : Option String :=
  if (buckets.get? call.key).isNone && decide (rateLimitMaxBuckets ≤ buckets.entries.length) then
    ((call.listing.order buckets.entries).argmin fun entry => entry.2.lastRefill).map Prod.fst
  else none

def makeRoom (buckets : Buckets) (call : Call) : Buckets :=
  match oldestKey buckets call with
  | some oldest => buckets.erase oldest
  | none => buckets

def refillPerSec (rpm : Nat) : ℚ := rpm / 60

def refilled (rpm : Nat) (bucket : Bucket) (now : ℚ) : ℚ :=
  min (bucket.tokens + max 0 (now - bucket.lastRefill) * refillPerSec rpm) rpm

def tryConsumeAt (rpm : Nat) (buckets : Buckets) (call : Call) : Except Nat Unit × Buckets :=
  let room := makeRoom buckets call
  let bucket := (room.get? call.key).getD ⟨rpm, call.now⟩
  let tokens := refilled rpm bucket call.now
  if 1 ≤ tokens then (.ok (), room.insert call.key ⟨tokens - 1, call.now⟩)
  else
    let needed := 1 - tokens
    (.error (max ⌈needed / refillPerSec rpm⌉₊ 1), room.insert call.key ⟨tokens, call.now⟩)

/-! ### Runs -/

def bucketsAfter (rpm : Nat) (buckets : Buckets) (calls : List Call) : Buckets :=
  calls.foldl (fun buckets call => (tryConsumeAt rpm buckets call).2) buckets

structure CallEvent where
  key : String
  now : ℚ
  allowed : Bool
  evicted : Option String

/-- The calls of a run as they went. -/
def history (rpm : Nat) : Buckets → List Call → List CallEvent
  | _, [] => []
  | buckets, call :: calls =>
    { key := call.key
      now := call.now
      allowed := (tryConsumeAt rpm buckets call).1.isOk
      evicted := oldestKey buckets call } ::
      history rpm (tryConsumeAt rpm buckets call).2 calls

/-- How many calls of a key were allowed from one time to another. -/
def allowedBetween (key : String) (a b : ℚ) (events : List CallEvent) : Nat :=
  (events.filter fun e => decide (a ≤ e.now ∧ e.now ≤ b) && decide (e.key = key) &&
    e.allowed).length

def evictionsBetween (key : String) (a b : ℚ) (events : List CallEvent) : Nat :=
  (events.filter fun e => decide (a ≤ e.now ∧ e.now ≤ b) &&
    decide (e.evicted = some key)).length

def allowedOf (key : String) (events : List CallEvent) : Nat :=
  (events.filter fun e => decide (e.key = key) && e.allowed).length

def callsOf (key : String) (calls : List Call) : List Call :=
  calls.filter fun call => decide (call.key = key)

/-- **What the rate limit promises of a run.** -/
structure Limited (rpm : Nat) (calls : List Call) : Prop where
  /-- In every span of time a key is allowed a full bucket and what refills, and another bucket
  for each time its own was pushed out in that span. -/
  rate : ∀ key a T, 0 ≤ T → (allowedBetween key a (a + T) (history rpm ∅ calls) : ℚ) ≤
    rpm * (1 + evictionsBetween key a (a + T) (history rpm ∅ calls)) + rpm * T / 60
  /-- Who waits as told is allowed. -/
  wait : ∀ before call after wait, calls = before ++ call :: after →
    (tryConsumeAt rpm (bucketsAfter rpm ∅ before) call).1 = .error wait →
    ∀ later : Call, later.key = call.key → call.now + wait ≤ later.now →
      (tryConsumeAt rpm (bucketsAfter rpm ∅ (before ++ [call])) later).1 = .ok ()
  /-- There are never too many buckets. -/
  size : ∀ before, before <+: calls →
    (bucketsAfter rpm ∅ before).entries.length ≤ rateLimitMaxBuckets
  /-- Calls of other keys do not make a call refused. -/
  apart : ∀ before others call after, calls = before ++ others ++ call :: after →
    (∀ other ∈ others, other.key ≠ call.key) →
    (tryConsumeAt rpm (bucketsAfter rpm ∅ before) call).1 = .ok () →
    (tryConsumeAt rpm (bucketsAfter rpm ∅ (before ++ others)) call).1 = .ok ()
  /-- A key whose bucket was not pushed out is answered as if it were alone. -/
  alone : ∀ before call after, calls = before ++ call :: after →
    (∀ e ∈ history rpm ∅ before, e.evicted ≠ some call.key) →
    (tryConsumeAt rpm (bucketsAfter rpm ∅ before) call).1 =
      (tryConsumeAt rpm (bucketsAfter rpm ∅ (callsOf call.key before)) call).1
  /-- At no time has a key been allowed fewer calls than it would have been alone. -/
  asMany : ∀ before key, before <+: calls →
    allowedOf key (history rpm ∅ (callsOf key before)) ≤ allowedOf key (history rpm ∅ before)

/-! ### One call -/

variable {rpm : Nat} {buckets : Buckets} {call : Call}

def balance (rpm : Nat) (buckets : Buckets) (key : String) (now : ℚ) : ℚ :=
  match buckets.get? key with
  | some bucket => refilled rpm bucket now
  | none => rpm

theorem balance_of_get? {key : String} (gone : buckets.get? key = none) (now : ℚ) :
    balance rpm buckets key now = rpm := by
  unfold balance
  rw [gone]

theorem get?_of_oldestKey {oldest : String} (found : oldestKey buckets call = some oldest) :
    buckets.get? call.key = none ∧ rateLimitMaxBuckets ≤ buckets.entries.length ∧
      (buckets.get? oldest).isSome = true := by
  unfold oldestKey at found
  split_ifs at found with full
  rw [Bool.and_eq_true, Option.isNone_iff_eq_none, decide_eq_true_eq] at full
  obtain ⟨entry, least, rfl⟩ := Option.map_eq_some_iff.mp found
  have listed := (call.listing.perm _).mem_iff.mp (List.argmin_mem least)
  rw [SortedMap.mem_entries.mp listed]
  exact ⟨full.1, full.2, rfl⟩

theorem get?_makeRoom (key : String) :
    (makeRoom buckets call).get? key =
      if oldestKey buckets call = some key then none else buckets.get? key := by
  unfold makeRoom
  cases found : oldestKey buckets call with
  | none => rfl
  | some oldest =>
    dsimp only
    rw [SortedMap.get?_erase]
    by_cases same : key = oldest
    · rw [if_pos same, if_pos (congrArg some same.symm)]
    · rw [if_neg same, if_neg fun other => same (Option.some_inj.mp other).symm]

theorem refilled_new (rpm : Nat) (now : ℚ) : refilled rpm ⟨rpm, now⟩ now = rpm := by
  simp [refilled]

theorem refilled_getD (rpm : Nat) (buckets : Buckets) (call : Call) :
    refilled rpm (((makeRoom buckets call).get? call.key).getD ⟨rpm, call.now⟩) call.now =
      balance rpm buckets call.key call.now := by
  have own : (makeRoom buckets call).get? call.key = buckets.get? call.key := by
    rw [get?_makeRoom]
    split_ifs with oldest
    · exact (get?_of_oldestKey oldest).1.symm
    · rfl
  unfold balance
  rw [own]
  cases buckets.get? call.key with
  | none => exact refilled_new rpm call.now
  | some bucket => rfl

theorem tryConsumeAt_eq_ok :
    (tryConsumeAt rpm buckets call).1 = .ok () ↔ 1 ≤ balance rpm buckets call.key call.now := by
  unfold tryConsumeAt
  dsimp only
  rw [refilled_getD]
  by_cases enough : 1 ≤ balance rpm buckets call.key call.now
  · rw [if_pos enough]
    exact iff_of_true rfl enough
  · rw [if_neg enough]
    exact iff_of_false (fun same => by cases same) enough

theorem tryConsumeAt_eq_error {wait : Nat} :
    (tryConsumeAt rpm buckets call).1 = .error wait ↔
      balance rpm buckets call.key call.now < 1 ∧
        wait = max ⌈(1 - balance rpm buckets call.key call.now) / refillPerSec rpm⌉₊ 1 := by
  unfold tryConsumeAt
  dsimp only
  rw [refilled_getD]
  by_cases enough : 1 ≤ balance rpm buckets call.key call.now
  · rw [if_pos enough]
    exact iff_of_false (fun same => by cases same) fun both => both.1.not_ge enough
  · rw [if_neg enough, Except.error.injEq, eq_comm]
    exact ⟨fun same => ⟨not_le.mp enough, same⟩, And.right⟩

theorem get?_tryConsumeAt (key : String) :
    (tryConsumeAt rpm buckets call).2.get? key =
      if key = call.key then
        some ⟨balance rpm buckets call.key call.now -
          (if 1 ≤ balance rpm buckets call.key call.now then 1 else 0), call.now⟩
      else if oldestKey buckets call = some key then none
      else buckets.get? key := by
  unfold tryConsumeAt
  dsimp only
  rw [refilled_getD]
  by_cases enough : 1 ≤ balance rpm buckets call.key call.now
  · rw [if_pos enough, if_pos enough, SortedMap.get?_insert, get?_makeRoom]
  · rw [if_neg enough, if_neg enough, SortedMap.get?_insert, get?_makeRoom, sub_zero]

/-! ### What a call keeps -/

theorem length_entries (buckets : Buckets) :
    buckets.entries.length = buckets.keys.toFinset.card := by
  rw [List.toFinset_card_of_nodup buckets.nodup_keys, SortedMap.keys, List.length_map]

/-- The buckets are sound at a time: no tokens are owed, none was used later, and there are not
too many. -/
structure Kept (now : ℚ) (buckets : Buckets) : Prop where
  tokens : ∀ key bucket, buckets.get? key = some bucket →
    0 ≤ bucket.tokens ∧ bucket.lastRefill ≤ now
  size : buckets.entries.length ≤ rateLimitMaxBuckets

theorem kept_empty (now : ℚ) : Kept now ∅ where
  tokens key bucket found := by
    rw [SortedMap.get?_empty] at found
    cases found
  size := Nat.zero_le _

theorem refillPerSec_nonneg (rpm : Nat) : 0 ≤ refillPerSec rpm :=
  div_nonneg (Nat.cast_nonneg _) (by norm_num)

theorem balance_le (rpm : Nat) (buckets : Buckets) (key : String) (now : ℚ) :
    balance rpm buckets key now ≤ rpm := by
  unfold balance
  split
  · exact min_le_right _ _
  · exact le_refl _

theorem Kept.balance_nonneg {since : ℚ} (kept : Kept since buckets) (rpm : Nat) (key : String)
    (now : ℚ) : 0 ≤ balance rpm buckets key now := by
  unfold balance
  split
  next bucket found =>
      refine le_min (add_nonneg (kept.tokens key bucket found).1 ?_) (Nat.cast_nonneg _)
      exact mul_nonneg (le_max_left _ _) (refillPerSec_nonneg rpm)
  · exact Nat.cast_nonneg _

theorem Kept.balance_of_le {since now : ℚ} (kept : Kept since buckets) (rpm : Nat)
    (key : String) (later : since ≤ now) :
    balance rpm buckets key now =
      min (rpm : ℚ) (balance rpm buckets key since + refillPerSec rpm * (now - since)) := by
  have grown : 0 ≤ refillPerSec rpm * (now - since) :=
    mul_nonneg (refillPerSec_nonneg rpm) (sub_nonneg.mpr later)
  unfold balance
  split
  next bucket found =>
      have used := (kept.tokens key bucket found).2
      unfold refilled
      rw [max_eq_right (sub_nonneg.mpr (used.trans later)), max_eq_right (sub_nonneg.mpr used),
        ← min_add_add_right, min_left_comm, min_eq_left (le_add_of_nonneg_right grown)]
      congr 1
      ring
  · exact (min_eq_left (le_add_of_nonneg_right grown)).symm

theorem Kept.length_le {since : ℚ} (kept : Kept since buckets) :
    (tryConsumeAt rpm buckets call).2.entries.length ≤ rateLimitMaxBuckets := by
  have keys : (tryConsumeAt rpm buckets call).2.keys.toFinset ⊆
      insert call.key (makeRoom buckets call).keys.toFinset := by
    intro key member
    rw [List.mem_toFinset, SortedMap.mem_keys, get?_tryConsumeAt] at member
    rw [Finset.mem_insert, List.mem_toFinset, SortedMap.mem_keys, get?_makeRoom]
    by_cases same : key = call.key
    · exact Or.inl same
    · exact Or.inr (by rwa [if_neg same] at member)
  rw [length_entries]
  refine (Finset.card_le_card keys).trans ?_
  by_cases present : (buckets.get? call.key).isSome = true
  · -- No bucket is pushed out, and none is new.
    have none : oldestKey buckets call = none := by
      rw [Option.eq_none_iff_forall_ne_some]
      intro oldest found
      rw [(get?_of_oldestKey found).1] at present
      cases present
    have room : makeRoom buckets call = buckets := by
      unfold makeRoom
      rw [none]
    rw [room, Finset.insert_eq_of_mem (List.mem_toFinset.mpr (SortedMap.mem_keys.mpr present)),
      ← length_entries]
    exact kept.size
  · refine (Finset.card_insert_le _ _).trans ?_
    rw [← length_entries]
    by_cases full : rateLimitMaxBuckets ≤ buckets.entries.length
    · -- The map is full, so one bucket is pushed out.
      have listed : call.listing.order buckets.entries ≠ [] := by
        intro nothing
        have size := (call.listing.perm buckets.entries).length_eq
        rw [nothing, List.length_nil] at size
        exact absurd (full.trans size.symm.le) (by decide)
      obtain ⟨entry, least⟩ := Option.ne_none_iff_exists'.mp
        (mt (List.argmin_eq_none (f := fun entry : String × Bucket => entry.2.lastRefill)).mp
          listed)
      have oldest : oldestKey buckets call = some entry.1 := by
        unfold oldestKey
        rw [if_pos, least, Option.map_some]
        rw [Bool.and_eq_true, decide_eq_true_eq]
        exact ⟨by simpa using present, full⟩
      have erased : (makeRoom buckets call).keys.toFinset ⊆
          buckets.keys.toFinset.erase entry.1 := by
        intro key member
        rw [List.mem_toFinset, SortedMap.mem_keys, get?_makeRoom, oldest] at member
        rw [Finset.mem_erase, List.mem_toFinset, SortedMap.mem_keys]
        split_ifs at member with same
        · cases member
        · exact ⟨fun other => same (congrArg some other.symm), member⟩
      have fewer := Finset.card_le_card erased
      rw [Finset.card_erase_of_mem (List.mem_toFinset.mpr (SortedMap.mem_keys.mpr
        (get?_of_oldestKey oldest).2.2)), ← length_entries, ← length_entries] at fewer
      have size := kept.size
      have positive : 0 < rateLimitMaxBuckets := by decide
      omega
    · have room : makeRoom buckets call = buckets := by
        unfold makeRoom oldestKey
        rw [if_neg]
        rw [Bool.and_eq_true, decide_eq_true_eq]
        exact fun both => full both.2
      rw [room]
      omega

/-- **A call keeps the buckets sound.** -/
theorem Kept.afterCall {since : ℚ} (kept : Kept since buckets) (rpm : Nat)
    (later : since ≤ call.now) : Kept call.now (tryConsumeAt rpm buckets call).2 := by
  refine ⟨fun key bucket found => ?_, kept.length_le⟩
  rw [get?_tryConsumeAt] at found
  split_ifs at found with own enough
  · cases found
    exact ⟨sub_nonneg.mpr enough, le_refl _⟩
  · cases found
    rw [sub_zero]
    exact ⟨kept.balance_nonneg rpm call.key call.now, le_refl _⟩
  · obtain ⟨tokens, used⟩ := kept.tokens key bucket found
    exact ⟨tokens, used.trans later⟩

theorem oldestKey_ne_own : oldestKey buckets call ≠ some call.key := by
  intro oldest
  have other := get?_of_oldestKey oldest
  rw [other.1] at other
  exact absurd other.2.2 (by decide)

theorem balance_own :
    balance rpm (tryConsumeAt rpm buckets call).2 call.key call.now =
      balance rpm buckets call.key call.now -
        (if 1 ≤ balance rpm buckets call.key call.now then 1 else 0) := by
  have full := balance_le rpm buckets call.key call.now
  rw [balance, get?_tryConsumeAt, if_pos rfl]
  unfold refilled
  dsimp only
  rw [sub_self, max_self, zero_mul, add_zero]
  refine min_eq_left ((sub_le_self _ ?_).trans full)
  split_ifs <;> norm_num

theorem balance_other {key : String} (other : call.key ≠ key) (now : ℚ) :
    balance rpm (tryConsumeAt rpm buckets call).2 key now =
      if oldestKey buckets call = some key then (rpm : ℚ) else balance rpm buckets key now := by
  unfold balance
  rw [get?_tryConsumeAt, if_neg other.symm]
  split_ifs
  · rfl
  · rfl

theorem isOk_tryConsumeAt :
    (tryConsumeAt rpm buckets call).1.isOk = true ↔
      1 ≤ balance rpm buckets call.key call.now := by
  rw [← tryConsumeAt_eq_ok]
  cases (tryConsumeAt rpm buckets call).1 with
  | ok _ => exact iff_of_true rfl rfl
  | error wait => exact iff_of_false Bool.false_ne_true fun same => by cases same

/-! ### Whole runs -/

def InOrder (since : ℚ) (calls : List Call) : Prop :=
  (∀ call ∈ calls, since ≤ call.now) ∧ calls.Pairwise fun a b => a.now ≤ b.now

theorem InOrder.tail {since : ℚ} {calls : List Call} (ordered : InOrder since (call :: calls)) :
    InOrder call.now calls :=
  ⟨(List.pairwise_cons.mp ordered.2).1, (List.pairwise_cons.mp ordered.2).2⟩

def takenBy (key : String) (e : CallEvent) : ℚ :=
  if e.key = key ∧ e.allowed = true then 1 else 0

def grantedTo (rpm : Nat) (key : String) (e : CallEvent) : ℚ :=
  if e.evicted = some key then rpm else 0

theorem Kept.taken_add_balance_le {since : ℚ} (kept : Kept since buckets) (key : String)
    (later : since ≤ call.now) {e : CallEvent} (own : e.key = call.key)
    (allowed : e.allowed = (tryConsumeAt rpm buckets call).1.isOk)
    (evicted : e.evicted = oldestKey buckets call) :
    takenBy key e + balance rpm (tryConsumeAt rpm buckets call).2 key call.now ≤
      min (rpm : ℚ) (balance rpm buckets key since + refillPerSec rpm * (call.now - since)) +
        grantedTo rpm key e := by
  have grown := kept.balance_of_le rpm key later
  have sound := kept.afterCall rpm later
  unfold takenBy grantedTo
  rw [own, evicted, ← grown]
  by_cases same : call.key = key
  · subst same
    rw [balance_own, if_neg oldestKey_ne_own, add_zero]
    have decided : e.allowed = true ↔ 1 ≤ balance rpm buckets call.key call.now := by
      rw [allowed, isOk_tryConsumeAt]
    refine le_of_eq ?_
    by_cases enough : 1 ≤ balance rpm buckets call.key call.now
    · rw [if_pos ⟨rfl, decided.mpr enough⟩, if_pos enough]
      ring
    · rw [if_neg fun both => enough (decided.mp both.2), if_neg enough]
      ring
  · rw [if_neg fun both => same both.1, zero_add, balance_other same]
    have nonneg := kept.balance_nonneg rpm key call.now
    split_ifs
    · exact le_add_of_nonneg_left nonneg
    · exact (add_zero _).ge

theorem Kept.pays (rpm : Nat) (key : String) {calls : List Call} :
    ∀ {since : ℚ} {buckets : Buckets}, Kept since buckets → InOrder since calls →
      Pays CallEvent.now (takenBy key) (grantedTo rpm key) rpm (refillPerSec rpm)
        (balance rpm buckets key since) since (history rpm buckets calls) := by
  induction calls with
  | nil => exact fun _ _ => .nil
  | cons call calls ih =>
    intro since buckets kept ordered
    have later := ordered.1 call List.mem_cons_self
    have sound := kept.afterCall rpm later
    exact .cons later (sound.balance_nonneg rpm key call.now)
      (kept.taken_add_balance_le key later rfl rfl rfl) (ih sound ordered.tail)

theorem within_takenBy (key : String) (a b : ℚ) (events : List CallEvent) :
    within CallEvent.now (takenBy key) a b events = allowedBetween key a b events := by
  unfold allowedBetween
  induction events with
  | nil => rfl
  | cons e events ih =>
    rw [within_cons, ih, List.filter_cons]
    unfold takenBy
    by_cases inside : a ≤ e.now ∧ e.now ≤ b
    · by_cases own : e.key = key
      · cases e.allowed <;> simp [inside, own, add_comm]
      · simp [own]
    · simp [inside]

theorem within_grantedTo (rpm : Nat) (key : String) (a b : ℚ) (events : List CallEvent) :
    within CallEvent.now (grantedTo rpm key) a b events =
      rpm * evictionsBetween key a b events := by
  unfold evictionsBetween
  induction events with
  | nil => simp [within]
  | cons e events ih =>
    rw [within_cons, ih, List.filter_cons]
    unfold grantedTo
    by_cases inside : a ≤ e.now ∧ e.now ≤ b
    · by_cases own : e.evicted = some key
      · simp [inside, own]
        ring
      · simp [own]
    · simp [inside]

theorem Kept.run (rpm : Nat) {calls : List Call} :
    ∀ {since : ℚ} {buckets : Buckets}, Kept since buckets → InOrder since calls →
      ∃ now, Kept now (bucketsAfter rpm buckets calls) := by
  induction calls with
  | nil => exact fun kept _ => ⟨_, kept⟩
  | cons call calls ih =>
    intro since buckets kept ordered
    exact ih (kept.afterCall rpm (ordered.1 call List.mem_cons_self)) ordered.tail

theorem get?_bucketsAfter (rpm : Nat) {key : String} {others : List Call}
    (apart : ∀ other ∈ others, other.key ≠ key) :
    ∀ buckets : Buckets, (bucketsAfter rpm buckets others).get? key = buckets.get? key ∨
        (bucketsAfter rpm buckets others).get? key = none := by
  induction others with
  | nil => exact fun _ => Or.inl rfl
  | cons call others ih =>
    intro buckets
    have first : (tryConsumeAt rpm buckets call).2.get? key = buckets.get? key ∨
        (tryConsumeAt rpm buckets call).2.get? key = none := by
      rw [get?_tryConsumeAt, if_neg (apart call List.mem_cons_self).symm]
      split_ifs
      · exact Or.inr rfl
      · exact Or.inl rfl
    rcases ih (fun other member => apart other (List.mem_cons_of_mem _ member))
      (tryConsumeAt rpm buckets call).2 with same | none
    · rcases first with kept | gone
      · exact Or.inl (same.trans kept)
      · exact Or.inr (same.trans gone)
    · exact Or.inr none

/-! ### A key alone -/

theorem tryConsumeAt_congr {other : Buckets}
    (same : buckets.get? call.key = other.get? call.key) :
    (tryConsumeAt rpm buckets call).1 = (tryConsumeAt rpm other call).1 := by
  have balances : balance rpm buckets call.key call.now =
      balance rpm other call.key call.now := by
    unfold balance
    rw [same]
  unfold tryConsumeAt
  dsimp only
  rw [refilled_getD, refilled_getD, balances]
  split_ifs
  · rfl
  · rfl

theorem get?_bucketsAfter_callsOf (rpm : Nat) (key : String) {calls : List Call} :
    ∀ {buckets alone : Buckets}, buckets.get? key = alone.get? key →
      (∀ e ∈ history rpm buckets calls, e.evicted ≠ some key) →
      (bucketsAfter rpm buckets calls).get? key =
        (bucketsAfter rpm alone (callsOf key calls)).get? key := by
  induction calls with
  | nil => exact fun same _ => same
  | cons call calls ih =>
    intro buckets alone same stays
    have rest := fun e member => stays e (List.mem_cons_of_mem _ member)
    by_cases own : call.key = key
    · subst own
      have balances : balance rpm buckets call.key call.now =
          balance rpm alone call.key call.now := by
        unfold balance
        rw [same]
      have kept : callsOf call.key (call :: calls) = call :: callsOf call.key calls :=
        List.filter_cons_of_pos (decide_eq_true rfl)
      rw [kept]
      refine ih ?_ rest
      rw [get?_tryConsumeAt, get?_tryConsumeAt, if_pos rfl, if_pos rfl, balances]
    · have dropped : callsOf key (call :: calls) = callsOf key calls :=
        List.filter_cons_of_neg fun same => own (of_decide_eq_true same)
      rw [dropped]
      refine ih ?_ rest
      rw [get?_tryConsumeAt, if_neg (Ne.symm own),
        if_neg (stays _ List.mem_cons_self : oldestKey buckets call ≠ some key), same]

theorem allowedOf_cons (key : String) (e : CallEvent) (events : List CallEvent) :
    allowedOf key (e :: events) =
      (if e.key = key ∧ e.allowed = true then 1 else 0) + allowedOf key events := by
  unfold allowedOf
  rw [List.filter_cons]
  by_cases own : e.key = key
  · cases e.allowed <;> simp [own, add_comm]
  · simp [own]

theorem Kept.allowedOf_le (rpm : Nat) (key : String) {calls : List Call} :
    ∀ {since : ℚ} {buckets alone : Buckets} {ahead : Nat}, Kept since buckets →
      Kept since alone → InOrder since calls →
      balance rpm alone key since ≤ ahead + balance rpm buckets key since →
      allowedOf key (history rpm alone (callsOf key calls)) ≤
        ahead + allowedOf key (history rpm buckets calls) := by
  induction calls with
  | nil => exact fun _ _ _ _ => Nat.zero_le _
  | cons call calls ih =>
    intro since buckets alone ahead kept sound ordered behind
    have later := ordered.1 call List.mem_cons_self
    -- Until the call both balances grow alike.
    have before : balance rpm alone key call.now ≤ ahead + balance rpm buckets key call.now := by
      rw [kept.balance_of_le rpm key later, sound.balance_of_le rpm key later,
        ← min_add_add_left]
      refine le_min ((min_le_left _ _).trans ?_) ((min_le_right _ _).trans ?_)
      · exact le_add_of_nonneg_left (Nat.cast_nonneg _)
      · linarith
    have keptAfter := kept.afterCall rpm later
    by_cases own : call.key = key
    · subst own
      have listed : callsOf call.key (call :: calls) = call :: callsOf call.key calls :=
        List.filter_cons_of_pos (decide_eq_true rfl)
      have soundAfter := sound.afterCall rpm later
      rw [listed, history, history, allowedOf_cons, allowedOf_cons]
      have step := fun ahead' => @ih _ _ _ ahead' keptAfter soundAfter ordered.tail
      simp only [isOk_tryConsumeAt, true_and]
      rw [balance_own, balance_own] at step
      by_cases enough : 1 ≤ balance rpm buckets call.key call.now
      · rw [if_pos enough] at step ⊢
        by_cases enoughAlone : 1 ≤ balance rpm alone call.key call.now
        · rw [if_pos enoughAlone] at step ⊢
          have rest := step ahead (by linarith)
          omega
        · rw [if_neg enoughAlone] at step ⊢
          have rest := step (ahead + 1) (by push_cast; linarith)
          omega
      · rw [if_neg enough] at step ⊢
        by_cases enoughAlone : 1 ≤ balance rpm alone call.key call.now
        · rw [if_pos enoughAlone] at step ⊢
          -- Only a key that is ahead is refused where it would be allowed alone.
          have positive : ahead ≠ 0 := by
            rintro rfl
            rw [Nat.cast_zero, zero_add] at before
            exact enough (enoughAlone.trans before)
          obtain ⟨less, rfl⟩ := Nat.exists_eq_succ_of_ne_zero positive
          push_cast at before
          have rest := step less (by linarith)
          omega
        · rw [if_neg enoughAlone] at step ⊢
          have rest := step ahead (by linarith)
          omega
    · have dropped : callsOf key (call :: calls) = callsOf key calls :=
        List.filter_cons_of_neg fun same => own (of_decide_eq_true same)
      have soundLater : Kept call.now alone :=
        ⟨fun other bucket found => ⟨(sound.tokens other bucket found).1,
          (sound.tokens other bucket found).2.trans later⟩, sound.size⟩
      rw [dropped, history, allowedOf_cons, if_neg fun both => own both.1, zero_add]
      refine ih keptAfter soundLater ordered.tail (before.trans ?_)
      rw [balance_other own]
      split_ifs
      · exact add_le_add_right (balance_le rpm buckets key call.now) _
      · exact le_refl _

/-! ### The limit -/

/-- **Whoever waits as told is allowed.** -/
theorem ok_of_wait (positive : 1 ≤ rpm) {wait : Nat}
    (refused : (tryConsumeAt rpm buckets call).1 = .error wait) {later : Call}
    (own : later.key = call.key) (waited : call.now + wait ≤ later.now) :
    (tryConsumeAt rpm (tryConsumeAt rpm buckets call).2 later).1 = .ok () := by
  obtain ⟨few, told⟩ := tryConsumeAt_eq_error.mp refused
  have rate : 0 < refillPerSec rpm := by
    have : (0 : ℚ) < rpm := by exact_mod_cast positive
    unfold refillPerSec
    positivity
  have after : call.now ≤ later.now := by
    have : (0 : ℚ) ≤ wait := Nat.cast_nonneg _
    linarith
  -- The wait covers what is missing to one token.
  have enough : 1 - balance rpm buckets call.key call.now ≤
      (later.now - call.now) * refillPerSec rpm := by
    rw [← div_le_iff₀ rate]
    have ceil := Nat.le_ceil ((1 - balance rpm buckets call.key call.now) / refillPerSec rpm)
    have most : (⌈(1 - balance rpm buckets call.key call.now) / refillPerSec rpm⌉₊ : ℚ) ≤ wait := by
      rw [told]
      exact_mod_cast le_max_left _ _
    linarith
  rw [tryConsumeAt_eq_ok, balance, own, get?_tryConsumeAt, if_pos rfl, if_neg few.not_ge]
  dsimp only
  unfold refilled
  dsimp only
  rw [max_eq_right (sub_nonneg.mpr after), sub_zero]
  refine le_min ?_ (by exact_mod_cast positive)
  linarith

theorem exists_inOrder {calls : List Call} (ordered : calls.Pairwise fun a b => a.now ≤ b.now) :
    ∃ since, InOrder since calls := by
  cases calls with
  | nil => exact ⟨0, fun _ member => absurd member List.not_mem_nil, ordered⟩
  | cons first calls =>
    refine ⟨first.now, fun call member => ?_, ordered⟩
    rcases List.mem_cons.mp member with rfl | later
    · exact le_refl _
    · exact (List.pairwise_cons.mp ordered).1 call later

theorem InOrder.of_isPrefix {since : ℚ} {calls before : List Call}
    (ordered : InOrder since calls) (front : before <+: calls) : InOrder since before :=
  ⟨fun call member => ordered.1 call (front.subset member), ordered.2.sublist front.sublist⟩

/-- **The rate limit holds** in every run of calls in order. -/
theorem limited (rpm : Nat) (positive : 1 ≤ rpm) (calls : List Call)
    (ordered : calls.Pairwise fun a b => a.now ≤ b.now) : Limited rpm calls := by
  obtain ⟨since, inOrder⟩ := exists_inOrder ordered
  constructor
  · intro key a T span
    have bound := ((kept_empty since).pays rpm key inOrder).within_span_le
      (refillPerSec_nonneg rpm) (Nat.cast_nonneg _) (le_add_of_nonneg_right span : a ≤ a + T)
    rw [within_takenBy, within_grantedTo] at bound
    refine bound.trans (le_of_eq ?_)
    unfold refillPerSec
    ring
  · intro before call after wait _ refused later own waited
    unfold bucketsAfter at refused ⊢
    rw [List.foldl_append, List.foldl_cons, List.foldl_nil]
    exact ok_of_wait positive refused own waited
  · intro before front
    obtain ⟨now, kept⟩ := (kept_empty since).run rpm (inOrder.of_isPrefix front)
    exact kept.size
  · intro before others call after _ apart allowed
    rw [tryConsumeAt_eq_ok] at allowed ⊢
    have split : bucketsAfter rpm ∅ (before ++ others) =
        bucketsAfter rpm (bucketsAfter rpm ∅ before) others := List.foldl_append
    rw [split]
    rcases get?_bucketsAfter rpm apart (bucketsAfter rpm ∅ before) with same | gone
    · unfold balance at allowed ⊢
      rw [same]
      exact allowed
    · rw [balance_of_get? gone]
      exact_mod_cast positive
  · intro before call after _ stays
    exact tryConsumeAt_congr (get?_bucketsAfter_callsOf rpm call.key rfl stays)
  · intro before key front
    have level : balance rpm ∅ key since ≤ (0 : Nat) + balance rpm ∅ key since := by
      rw [Nat.cast_zero, zero_add]
    have most := (kept_empty since).allowedOf_le rpm key (kept_empty since)
      (inOrder.of_isPrefix front) level
    rwa [zero_add] at most

theorem limited_twice :
    Limited 1 [⟨"a", 0, ⟨id, fun _ => .refl _⟩⟩, ⟨"a", 1, ⟨id, fun _ => .refl _⟩⟩] :=
  limited 1 le_rfl _ (List.pairwise_pair.mpr zero_le_one)

/-! ### A bucket that is pushed out -/

def callerName (i : Nat) : String := String.ofList (List.replicate (i + 1) 'a')

theorem callerName_injective : Function.Injective callerName := by
  intro i j same
  have lengths := congrArg List.length (String.ofList_injective same)
  rw [List.length_replicate, List.length_replicate] at lengths
  exact Nat.succ_injective lengths

def callAt (i : Nat) (now : ℚ) : Call := ⟨callerName i, now, ⟨id, fun _ => .refl _⟩⟩

def flood (n : Nat) : List Call := (List.range n).map fun i => callAt (i + 1) 1

def Flooded (n : Nat) (buckets : Buckets) : Prop :=
  ∀ key, buckets.get? key =
    if key = callerName 0 then some ⟨0, 0⟩
    else if ∃ i < n, key = callerName (i + 1) then some ⟨0, 1⟩ else none

theorem Flooded.length_entries {n : Nat} (flooded : Flooded n buckets) :
    buckets.entries.length = n + 1 := by
  have keys : buckets.keys.toFinset = (Finset.range (n + 1)).image callerName := by
    ext key
    rw [List.mem_toFinset, SortedMap.mem_keys, flooded key, Finset.mem_image]
    by_cases first : key = callerName 0
    · rw [if_pos first]
      exact iff_of_true rfl ⟨0, Finset.mem_range.mpr n.succ_pos, first.symm⟩
    · rw [if_neg first]
      by_cases listed : ∃ i < n, key = callerName (i + 1)
      · rw [if_pos listed]
        obtain ⟨i, less, rfl⟩ := listed
        exact iff_of_true rfl ⟨i + 1, Finset.mem_range.mpr (Nat.succ_lt_succ less), rfl⟩
      · rw [if_neg listed]
        refine iff_of_false Bool.false_ne_true ?_
        rintro ⟨i, member, rfl⟩
        cases i with
        | zero => exact first rfl
        | succ i => exact listed ⟨i, Nat.lt_of_succ_lt_succ (Finset.mem_range.mp member), rfl⟩
  rw [Server.length_entries, keys, Finset.card_image_of_injective _ callerName_injective,
    Finset.card_range]

theorem Flooded.get?_new {n : Nat} (flooded : Flooded n buckets) :
    buckets.get? (callerName (n + 1)) = none := by
  rw [flooded, if_neg (callerName_injective.ne n.succ_ne_zero), if_neg]
  rintro ⟨i, less, same⟩
  exact absurd (Nat.succ_injective (callerName_injective same)) less.ne'

theorem Flooded.step {n : Nat} (flooded : Flooded n buckets) (room : n + 1 < rateLimitMaxBuckets) :
    Flooded (n + 1) (tryConsumeAt 1 buckets (callAt (n + 1) 1)).2 := by
  have nobody : oldestKey buckets (callAt (n + 1) 1) = none := by
    unfold oldestKey
    rw [if_neg]
    rw [Bool.and_eq_true, decide_eq_true_eq, flooded.length_entries]
    exact fun both => room.not_ge both.2
  have full : balance 1 buckets (callerName (n + 1)) 1 = 1 := by
    rw [balance_of_get? flooded.get?_new, Nat.cast_one]
  intro key
  rw [get?_tryConsumeAt, nobody, if_neg (Option.some_ne_none key).symm]
  change (if key = callerName (n + 1) then some (Bucket.mk (balance 1 buckets
    (callerName (n + 1)) 1 - if 1 ≤ balance 1 buckets (callerName (n + 1)) 1 then 1 else 0) 1)
    else buckets.get? key) = _
  rw [full, if_pos (le_refl _), sub_self, flooded key]
  by_cases own : key = callerName (n + 1)
  · rw [if_pos own, if_neg (own ▸ callerName_injective.ne n.succ_ne_zero),
      if_pos ⟨n, n.lt_succ_self, own⟩]
  · have same : (∃ i < n + 1, key = callerName (i + 1)) ↔ ∃ i < n, key = callerName (i + 1) := by
      constructor
      · rintro ⟨i, less, listed⟩
        rcases Nat.lt_succ_iff_lt_or_eq.mp less with before | rfl
        · exact ⟨i, before, listed⟩
        · exact absurd listed own
      · rintro ⟨i, less, listed⟩
        exact ⟨i, less.trans n.lt_succ_self, listed⟩
    rw [if_neg own]
    simp only [same]

theorem flooded_flood {n : Nat} (room : n < rateLimitMaxBuckets) :
    Flooded n (bucketsAfter 1 ∅ (callAt 0 0 :: flood n)) := by
  induction n with
  | zero =>
    intro key
    change (tryConsumeAt 1 ∅ (callAt 0 0)).2.get? key = _
    have nobody : oldestKey ∅ (callAt 0 0) = none := rfl
    have full : balance 1 ∅ (callerName 0) 0 = 1 := Nat.cast_one
    rw [get?_tryConsumeAt, nobody, if_neg (Option.some_ne_none key).symm]
    change (if key = callerName 0 then some (Bucket.mk (balance 1 ∅ (callerName 0) 0 -
      if 1 ≤ balance 1 ∅ (callerName 0) 0 then 1 else 0) 0) else none) = _
    rw [full, if_pos (le_refl _), sub_self]
    have nobodyElse : ¬∃ i < 0, key = callerName (i + 1) := fun ⟨i, less, _⟩ =>
      Nat.not_lt_zero i less
    rw [if_neg nobodyElse]
  | succ n ih =>
    have last : callAt 0 0 :: flood (n + 1) =
        (callAt 0 0 :: flood n) ++ [callAt (n + 1) 1] := by
      unfold flood
      rw [List.range_succ, List.map_append]
      rfl
    rw [last]
    unfold bucketsAfter
    rw [List.foldl_append]
    exact (ih (Nat.lt_of_succ_lt room)).step room

theorem Flooded.oldestKey {n : Nat} (flooded : Flooded n buckets)
    (full : rateLimitMaxBuckets ≤ n + 1) :
    oldestKey buckets (callAt (n + 1) 1) = some (callerName 0) := by
  have first := SortedMap.mem_entries.mpr ((flooded (callerName 0)).trans (if_pos rfl))
  have least : ∀ entry ∈ buckets.entries, entry.2.lastRefill ≤ 0 → entry.1 = callerName 0 := by
    intro entry member used
    have found := SortedMap.mem_entries.mp member
    rw [flooded] at found
    split_ifs at found with own listed
    · exact own
    · rw [← Option.some_inj.mp found] at used
      exact absurd used (by norm_num)
  unfold Server.oldestKey
  have isNew : buckets.get? (callAt (n + 1) 1).key = none := flooded.get?_new
  rw [isNew, flooded.length_entries, if_pos (by simpa using full)]
  change ((buckets.entries).argmin fun entry => entry.2.lastRefill).map Prod.fst = _
  cases found : buckets.entries.argmin fun entry => entry.2.lastRefill with
  | none =>
    rw [List.argmin_eq_none.mp found] at first
    exact absurd first List.not_mem_nil
  | some entry =>
    exact congrArg some (least entry (List.argmin_mem found) (List.le_of_mem_argmin first found))

theorem history_append (rpm : Nat) (calls more : List Call) :
    ∀ buckets : Buckets, history rpm buckets (calls ++ more) =
      history rpm buckets calls ++ history rpm (bucketsAfter rpm buckets calls) more := by
  induction calls with
  | nil => exact fun _ => rfl
  | cons call calls ih => exact fun buckets => congrArg (List.cons _) (ih _)

theorem allowedBetween_append (key : String) (a b : ℚ) (events more : List CallEvent) :
    allowedBetween key a b (events ++ more) =
      allowedBetween key a b events + allowedBetween key a b more := by
  unfold allowedBetween
  rw [List.filter_append, List.length_append]

theorem one_le_allowedBetween {key : String} {a b : ℚ} {e : CallEvent} {events : List CallEvent}
    (begun : a ≤ e.now) (ends : e.now ≤ b) (own : e.key = key) (allowed : e.allowed = true) :
    1 ≤ allowedBetween key a b (e :: events) := by
  unfold allowedBetween
  rw [List.filter_cons_of_pos (by simp [begun, ends, own, allowed]), List.length_cons]
  exact Nat.le_add_left 1 _

/-- A flood of other keys fills the map and pushes out a key without tokens: at one call a minute
it is allowed two calls in a second. -/
theorem limited_fails_evicted :
    ¬∀ rpm : Nat, 1 ≤ rpm → ∀ calls : List Call, (calls.Pairwise fun a b => a.now ≤ b.now) →
      ∀ key a T, 0 ≤ T →
        (allowedBetween key a (a + T) (history rpm ∅ calls) : ℚ) ≤ rpm + rpm * T / 60 := by
  intro holds
  obtain ⟨n, full⟩ : ∃ n, n + 1 = rateLimitMaxBuckets := ⟨4095, rfl⟩
  have ordered : (callAt 0 0 :: flood (n + 1) ++ [callAt 0 1]).Pairwise
      fun a b => a.now ≤ b.now := by
    have late : ∀ call ∈ flood (n + 1) ++ [callAt 0 1], call.now = 1 := by
      intro call member
      rcases List.mem_append.mp member with flooding | last
      · obtain ⟨i, _, rfl⟩ := List.mem_map.mp flooding
        rfl
      · rw [List.mem_singleton.mp last]
        rfl
    refine List.pairwise_cons.mpr ⟨fun call member => ?_, ?_⟩
    · rw [late call member]
      exact zero_le_one
    · exact List.pairwise_of_forall_mem_list fun one first two second =>
        ((late one first).trans (late two second).symm).le
  have bound := holds 1 le_rfl _ ordered (callerName 0) 0 1 zero_le_one
  rw [history_append, allowedBetween_append] at bound
  have flooded := flooded_flood (n := n) (full ▸ n.lt_succ_self)
  -- The last call of the flood leaves the first key without a bucket.
  have gone : (bucketsAfter 1 ∅ (callAt 0 0 :: flood (n + 1))).get? (callerName 0) = none := by
    have last : callAt 0 0 :: flood (n + 1) =
        (callAt 0 0 :: flood n) ++ [callAt (n + 1) 1] := by
      unfold flood
      rw [List.range_succ, List.map_append]
      rfl
    rw [last]
    unfold bucketsAfter at flooded ⊢
    rw [List.foldl_append, List.foldl_cons, List.foldl_nil, get?_tryConsumeAt,
      flooded.oldestKey full.ge, if_pos rfl]
    exact if_neg (callerName_injective.ne n.succ_ne_zero.symm)
  have before : 1 ≤ allowedBetween (callerName 0) 0 (0 + 1)
      (history 1 ∅ (callAt 0 0 :: flood (n + 1))) := by
    refine one_le_allowedBetween (le_refl _) (by norm_num [callAt]) rfl ?_
    rw [isOk_tryConsumeAt]
    exact Nat.cast_one.ge
  have after : 1 ≤ allowedBetween (callerName 0) 0 (0 + 1)
      (history 1 (bucketsAfter 1 ∅ (callAt 0 0 :: flood (n + 1))) [callAt 0 1]) := by
    refine one_le_allowedBetween (zero_le_one' ℚ) (zero_add (1 : ℚ)).ge rfl ?_
    rw [isOk_tryConsumeAt]
    exact (Nat.cast_one.symm.trans (balance_of_get? gone 1).symm).le
  have two : (2 : ℚ) ≤ ((allowedBetween (callerName 0) 0 (0 + 1)
      (history 1 ∅ (callAt 0 0 :: flood (n + 1))) + allowedBetween (callerName 0) 0 (0 + 1)
      (history 1 (bucketsAfter 1 ∅ (callAt 0 0 :: flood (n + 1))) [callAt 0 1]) : Nat) : ℚ) := by
    exact_mod_cast Nat.add_le_add before after
  have least := two.trans bound
  norm_num at least

end Lain.Server
