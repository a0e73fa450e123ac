import Mathlib
import Lain.Federation.Matching

/-!
# The indexed matcher finds what the plain one finds

The plain matcher and the indexed one score the same candidates by the same words, in whatever
order the hash maps of a run list their entries; sorting by similarity and id then forgets the
order in which the scores were collected.
-/

namespace Lain.Federation

open Foundation

/-! ### Words in common -/

def overlap (a b : List String) : Nat :=
  ∑ t ∈ a.toFinset, a.count t * b.count t

def square (a : List String) : Nat :=
  overlap a a

theorem square_eq_zero_iff {a : List String} : square a = 0 ↔ a = [] := by
  unfold square overlap
  rw [Finset.sum_eq_zero_iff]
  constructor
  · intro none
    refine List.eq_nil_iff_forall_not_mem.mpr fun t member => ?_
    have positive : 0 < a.count t := List.count_pos_iff.mpr member
    have zero := none t (List.mem_toFinset.mpr member)
    exact absurd zero (Nat.mul_pos positive positive).ne'
  · rintro rfl t member
    simp at member

theorem sum_append_left {a : List String} (b : List String) {weight : String → Nat}
    (own : ∀ t, t ∉ a → weight t = 0) :
    ∑ t ∈ (a ++ b).toFinset, weight t = ∑ t ∈ a.toFinset, weight t := by
  symm
  refine Finset.sum_subset (fun t member => ?_) fun t _ apart => own t ?_
  · rw [List.mem_toFinset] at member ⊢
    exact List.mem_append_left _ member
  · rwa [List.mem_toFinset] at apart

theorem sum_squares {tokens : List String} {counts : List (String × Nat)}
    (listed : counts.Perm (SortedMap.tally tokens).entries) :
    (counts.map fun c => c.2 * c.2).sum = square tokens :=
  SortedMap.sum_entries listed (SortedMap.get?_tally tokens) fun c => c.2 * c.2

theorem get?_pairCounts (a b : List String) (t : String) :
    (pairCounts a b).get? t =
      if t ∈ a ++ b then some (a.count t, b.count t) else none := by
  have first : (a.foldl (fun m token => m.alter token fun old =>
      ((old.getD (0, 0)).1 + 1, (old.getD (0, 0)).2)) (∅ : SortedMap String (Nat × Nat))).get? t =
      if t ∈ a then some (a.count t, 0) else none := by
    induction a using List.reverseRecOn with
    | nil => rfl
    | append_singleton a s ih =>
      rw [List.foldl_append, List.foldl_cons, List.foldl_nil, SortedMap.get?_alter]
      by_cases here : t = s
      · subst here
        rw [ih]
        by_cases old : t ∈ a
        · simp [old]
        · simp [old, List.count_eq_zero_of_not_mem old]
      · have apart : ¬ s = t := fun same => here same.symm
        rw [if_neg here, ih]
        simp [here, apart]
  unfold pairCounts
  dsimp only
  induction b using List.reverseRecOn with
  | nil => rw [List.foldl_nil, first]; simp
  | append_singleton b s ih =>
    rw [List.foldl_append, List.foldl_cons, List.foldl_nil, SortedMap.get?_alter]
    by_cases here : t = s
    · subst here
      rw [if_pos rfl, ih]
      by_cases old : t ∈ a ++ b
      · simp only [if_pos old, Option.getD_some]
        simp
      · rw [List.mem_append, not_or] at old
        simp [old.1, old.2, List.count_eq_zero_of_not_mem old.1,
          List.count_eq_zero_of_not_mem old.2]
    · have apart : ¬ s = t := fun same => here same.symm
      rw [if_neg here, ih]
      simp [here, apart]

section Scores

variable {σ : Type*} [LinearOrder σ] [Zero σ] {rules : TextRules} {sim : Nat → Nat → Nat → σ}

omit [LinearOrder σ] in
theorem signatureSimilarity_eq {a b : List String} (wordsA : a ≠ []) (wordsB : b ≠ []) :
    signatureSimilarity sim a b = sim (overlap a b) (square a) (square b) := by
  have sums : ∀ weight : Nat × Nat → Nat,
      (((pairCounts a b).entries.map Prod.snd).map weight).sum =
        ∑ t ∈ (a ++ b).toFinset, weight (a.count t, b.count t) := by
    intro weight
    rw [List.map_map]
    exact SortedMap.sum_entries (List.Perm.refl _) (get?_pairCounts a b) fun e => weight e.2
  have dot : ∑ t ∈ (a ++ b).toFinset, a.count t * b.count t = overlap a b :=
    sum_append_left b fun t apart => by rw [List.count_eq_zero_of_not_mem apart, Nat.zero_mul]
  have normA : ∑ t ∈ (a ++ b).toFinset, a.count t * a.count t = square a :=
    sum_append_left b fun t apart => by rw [List.count_eq_zero_of_not_mem apart, Nat.zero_mul]
  have normB : ∑ t ∈ (a ++ b).toFinset, b.count t * b.count t = square b := by
    have same : (a ++ b).toFinset = (b ++ a).toFinset := by
      ext t
      simp [or_comm]
    rw [same]
    exact sum_append_left a fun t apart => by rw [List.count_eq_zero_of_not_mem apart, Nat.zero_mul]
  unfold signatureSimilarity
  simp only [sums]
  rw [dot, normA, normB, if_neg, if_neg]
  · rw [square_eq_zero_iff, square_eq_zero_iff]
    exact not_or.mpr ⟨wordsA, wordsB⟩
  · simp [wordsA, wordsB]

theorem nonStopTokens_signatureTokens (sig : String) :
    nonStopTokens (signatureTokens rules sig) = signatureTokens rules sig := by
  unfold nonStopTokens signatureTokens
  rw [List.filter_filter]
  simp

end Scores

/-! ### The postings -/

variable {rules : TextRules}

def IndexedCandidate.tokens (rules : TextRules) (c : IndexedCandidate) : List String :=
  ((givenSignature c.node).map (signatureTokens rules)).getD []

def postingFor (rules : TextRules) (candidates : List IndexedCandidate) (token : String) :
    List (Nat × Nat) :=
  candidates.zipIdx.filterMap fun e =>
    ((SortedMap.tally (e.1.tokens rules)).get? token).map fun count => (e.2, count)

structure Numbered (matcher : CrossRepoMatcher) : Prop where
  bound : ∀ token id, matcher.tokenToId.get? token = some id → id < matcher.postings.length
  injective : ∀ token token' id, matcher.tokenToId.get? token = some id →
    matcher.tokenToId.get? token' = some id → token = token'

theorem Numbered.addPosting {matcher : CrossRepoMatcher} (numbered : Numbered matcher)
    (candIdx : Nat) (entry : String × Nat) : Numbered (matcher.addPosting candIdx entry) := by
  unfold CrossRepoMatcher.addPosting
  cases known : matcher.tokenToId.get? entry.1 with
  | some id =>
    refine ⟨fun token id' found => ?_, numbered.injective⟩
    rw [List.length_modify]
    exact numbered.bound token id' found
  | none =>
    constructor
    · intro token id found
      rw [SortedMap.get?_insert] at found
      rw [List.length_append, List.length_singleton]
      split_ifs at found
      · cases found
        exact Nat.lt_succ_self _
      · exact Nat.lt_succ_of_lt (numbered.bound token id found)
    · intro token token' id found found'
      rw [SortedMap.get?_insert] at found found'
      split_ifs at found found' with here here' here'
      · exact here.trans here'.symm
      · cases found
        exact absurd (numbered.bound token' _ found') (lt_irrefl _)
      · cases found'
        exact absurd (numbered.bound token _ found) (lt_irrefl _)
      · exact numbered.injective token token' id found found'

theorem Numbered.posting_addPosting {matcher : CrossRepoMatcher} (numbered : Numbered matcher)
    (candIdx : Nat) (entry : String × Nat) (token : String) :
    (matcher.addPosting candIdx entry).posting token =
      if token = entry.1 then matcher.posting token ++ [(candIdx, entry.2)]
      else matcher.posting token := by
  unfold CrossRepoMatcher.addPosting CrossRepoMatcher.posting
  cases known : matcher.tokenToId.get? entry.1 with
  | some id =>
    have inside := numbered.bound _ id known
    by_cases here : token = entry.1
    · subst here
      simp [known, inside]
    · rw [if_neg here]
      cases found : matcher.tokenToId.get? token with
      | none => rfl
      | some id' =>
        have apart : id ≠ id' := by
          rintro rfl
          exact here (numbered.injective _ _ _ found known)
        simp [List.getElem?_modify, apart]
  | none =>
    by_cases here : token = entry.1
    · subst here
      simp [known, SortedMap.get?_insert]
    · rw [if_neg here]
      dsimp only
      rw [SortedMap.get?_insert, if_neg here]
      cases found : matcher.tokenToId.get? token with
      | none => rfl
      | some id =>
        have inside := numbered.bound token id found
        simp [List.getElem?_append_left inside]

theorem candidates_addPosting (matcher : CrossRepoMatcher) (candIdx : Nat)
    (entry : String × Nat) :
    (matcher.addPosting candIdx entry).candidates = matcher.candidates := by
  unfold CrossRepoMatcher.addPosting
  split <;> rfl

theorem Numbered.foldl_addPosting (candIdx : Nat) (counts : List (String × Nat)) :
    ∀ {matcher : CrossRepoMatcher}, Numbered matcher →
      Numbered (counts.foldl (CrossRepoMatcher.addPosting candIdx) matcher) ∧
      (counts.foldl (CrossRepoMatcher.addPosting candIdx) matcher).candidates =
        matcher.candidates ∧
      ∀ token, (counts.foldl (CrossRepoMatcher.addPosting candIdx) matcher).posting token =
        matcher.posting token ++
          (counts.filter fun c => decide (c.1 = token)).map fun c => (candIdx, c.2) := by
  induction counts with
  | nil => exact fun numbered => ⟨numbered, rfl, fun token => (List.append_nil _).symm⟩
  | cons entry counts ih =>
    intro matcher numbered
    obtain ⟨later, kept, filed⟩ := ih (numbered.addPosting candIdx entry)
    refine ⟨later, kept.trans (candidates_addPosting _ _ _), fun token => ?_⟩
    rw [List.foldl_cons, filed, numbered.posting_addPosting]
    by_cases here : token = entry.1
    · subst here
      simp
    · have apart : ¬ entry.1 = token := fun same => here same.symm
      simp [here, apart]

theorem filter_counts {tokens : List String} {counts : List (String × Nat)}
    (listed : counts.Perm (SortedMap.tally tokens).entries) (token : String) :
    (counts.filter fun c => decide (c.1 = token)) =
      (((SortedMap.tally tokens).get? token).map fun count => (token, count)).toList := by
  have own : ((SortedMap.tally tokens).entries.filter fun c => decide (c.1 = token)).Perm
      (((SortedMap.tally tokens).get? token).map fun count => (token, count)).toList := by
    refine (List.perm_ext_iff_of_nodup ?_ ?_).mpr fun c => ?_
    · exact (List.Nodup.of_map Prod.fst (SortedMap.tally tokens).nodup_keys).filter _
    · cases ((SortedMap.tally tokens).get? token).map fun count => (token, count) with
      | none => exact List.nodup_nil
      | some c => exact List.nodup_singleton c
    · obtain ⟨word, count⟩ := c
      rw [List.mem_filter, SortedMap.mem_entries, Option.mem_toList,
        Option.map_eq_some_iff, decide_eq_true_eq]
      constructor
      · rintro ⟨found, rfl⟩
        exact ⟨count, found, rfl⟩
      · rintro ⟨count', found, same⟩
        cases same
        exact ⟨found, rfl⟩
  have whole := (listed.filter fun c => decide (c.1 = token)).trans own
  cases found : ((SortedMap.tally tokens).get? token).map fun count => (token, count) with
  | none =>
    rw [found] at whole
    exact List.perm_nil.mp whole
  | some c =>
    rw [found] at whole
    exact List.perm_singleton.mp whole

/-! ### Filing the candidates -/

def toIndexed (rules : TextRules) (cand : GraphNode) : Option IndexedCandidate :=
  if cand.nodeType ∉ sameSymbolTypes then none
  else
    match givenSignature cand, nodeRepo cand with
    | some sig, some repo =>
      if signatureTokens rules sig = [] then none
      else some ⟨cand, repo, square (signatureTokens rules sig)⟩
    | _, _ => none

structure Indexes (rules : TextRules) (matcher : CrossRepoMatcher) : Prop where
  numbered : Numbered matcher
  posting : ∀ token, matcher.posting token = postingFor rules matcher.candidates token

/-- **One candidate more**: it is filed as its words say. -/
theorem Indexes.addCandidate {matcher : CrossRepoMatcher} (indexes : Indexes rules matcher)
    (orders : HashOrders) (cand : GraphNode) :
    Indexes rules (matcher.addCandidate rules orders cand) ∧
      (matcher.addCandidate rules orders cand).candidates =
        matcher.candidates ++ (toIndexed rules cand).toList := by
  unfold CrossRepoMatcher.addCandidate toIndexed nodeRepo
  by_cases other : cand.nodeType ∉ sameSymbolTypes
  · rw [if_pos other, if_pos other]
    exact ⟨indexes, (List.append_nil _).symm⟩
  rw [if_neg other, if_neg other]
  cases signed : givenSignature cand with
  | none => exact ⟨indexes, (List.append_nil _).symm⟩
  | some sig =>
    cases parsed : GlobalId.parse cand.id with
    | none => exact ⟨indexes, (List.append_nil _).symm⟩
    | some gid =>
      set tokens := signatureTokens rules sig with words
      dsimp only [Option.map_some]
      by_cases none : tokens = []
      · rw [if_pos (List.isEmpty_iff.mpr none), if_pos none]
        exact ⟨indexes, (List.append_nil _).symm⟩
      have listed := orders.counts_perm matcher.candidates.length
        (SortedMap.tally tokens).entries
      have norm := sum_squares listed
      rw [if_neg (by rwa [List.isEmpty_iff]), if_neg none, norm,
        if_neg (mt square_eq_zero_iff.mp none)]
      obtain ⟨numbered, kept, filed⟩ := Numbered.foldl_addPosting matcher.candidates.length
        (orders.counts matcher.candidates.length (SortedMap.tally tokens).entries)
        indexes.numbered
      refine ⟨⟨⟨numbered.bound, numbered.injective⟩, fun token => ?_⟩, ?_⟩
      · have own : (IndexedCandidate.mk cand gid.repoId (square tokens)).tokens rules =
            tokens := by
          rw [IndexedCandidate.tokens, signed, Option.map_some, Option.getD_some]
        refine (filed token).trans ?_
        rw [indexes.posting, filter_counts listed, kept]
        unfold postingFor
        rw [List.zipIdx_append, List.filterMap_append]
        congr 1
        rw [List.zipIdx_singleton, List.filterMap_cons, own, Nat.zero_add]
        cases (SortedMap.tally tokens).get? token <;> rfl
      · rw [kept]
        rfl

/-- **The index of a list of candidates**: the candidates that are filed, under their words. -/
theorem indexes_new (rules : TextRules) (orders : HashOrders) (candidates : List GraphNode) :
    Indexes rules (CrossRepoMatcher.new rules orders candidates) ∧
      (CrossRepoMatcher.new rules orders candidates).candidates =
        candidates.filterMap (toIndexed rules) := by
  unfold CrossRepoMatcher.new
  induction candidates using List.reverseRecOn with
  | nil =>
    refine ⟨⟨⟨?_, ?_⟩, fun token => rfl⟩, rfl⟩
    · intro token id found
      cases found
    · intro token token' id found
      cases found
  | append_singleton candidates cand ih =>
    obtain ⟨indexes, candidates'⟩ := ih
    rw [List.foldl_append, List.foldl_cons, List.foldl_nil]
    obtain ⟨later, filed⟩ := indexes.addCandidate orders cand
    refine ⟨later, ?_⟩
    rw [filed, candidates', List.filterMap_append, List.filterMap_cons, List.filterMap_nil]
    cases toIndexed rules cand <;> rfl

/-! ### What a node has in common with the candidates -/

def SharesToken (a b : List String) : Prop :=
  ∃ t ∈ a, t ∈ b

instance (a b : List String) : Decidable (SharesToken a b) :=
  inferInstanceAs (Decidable (∃ t ∈ a, t ∈ b))

def commonWith (rules : TextRules) (candidates : List IndexedCandidate) (tokens : List String) :
    List (Nat × Nat) :=
  candidates.zipIdx.filterMap fun e =>
    if SharesToken tokens (e.1.tokens rules) then some (e.2, overlap tokens (e.1.tokens rules))
    else none

theorem mem_commonWith {candidates : List IndexedCandidate} {tokens : List String}
    {idx dot : Nat} :
    (idx, dot) ∈ commonWith rules candidates tokens ↔
      ∃ c, candidates[idx]? = some c ∧ SharesToken tokens (c.tokens rules) ∧
        overlap tokens (c.tokens rules) = dot := by
  unfold commonWith
  rw [List.mem_filterMap]
  constructor
  · rintro ⟨⟨c, i⟩, member, taken⟩
    split_ifs at taken with shares
    cases taken
    exact ⟨c, List.mem_zipIdx_iff_getElem?.mp member, shares, rfl⟩
  · rintro ⟨c, here, shares, rfl⟩
    refine ⟨(c, idx), List.mem_zipIdx_iff_getElem?.mpr here, ?_⟩
    rw [if_pos shares]

theorem nodup_commonWith (candidates : List IndexedCandidate) (tokens : List String) :
    ((commonWith rules candidates tokens).map Prod.fst).Nodup := by
  have own : ((commonWith rules candidates tokens).map Prod.fst).Sublist
      (candidates.zipIdx.map Prod.snd) := by
    unfold commonWith
    rw [List.map_filterMap]
    have kept : ∀ e : IndexedCandidate × Nat,
        (Option.map Prod.fst (if SharesToken tokens (e.1.tokens rules) then
          some (e.2, overlap tokens (e.1.tokens rules)) else none)) =
        if SharesToken tokens (e.1.tokens rules) then some e.2 else none := by
      intro e
      split_ifs <;> rfl
    simp only [kept]
    generalize candidates.zipIdx = l
    induction l with
    | nil => exact List.Sublist.refl _
    | cons e l ih =>
      rw [List.filterMap_cons, List.map_cons]
      by_cases shares : SharesToken tokens (e.1.tokens rules)
      · rw [if_pos shares]
        exact ih.cons_cons _
      · rw [if_neg shares]
        exact ih.cons _
  refine List.Nodup.sublist own ?_
  rw [List.zipIdx_map_snd]
  exact List.nodup_range' _

theorem total_postingFor (candidates : List IndexedCandidate) (token : String) (weight idx : Nat) :
    SortedMap.total ((postingFor rules candidates token).map fun b => (b.1, weight * b.2)) idx =
      weight * ((candidates[idx]?).elim 0 fun c => (c.tokens rules).count token) := by
  induction candidates using List.reverseRecOn with
  | nil => simp [postingFor, SortedMap.total]
  | append_singleton candidates c ih =>
    have split : postingFor rules (candidates ++ [c]) token =
        postingFor rules candidates token ++
          (((SortedMap.tally (c.tokens rules)).get? token).map fun count =>
            (candidates.length, count)).toList := by
      unfold postingFor
      rw [List.zipIdx_append, List.filterMap_append, List.zipIdx_singleton,
        List.filterMap_cons, Nat.zero_add]
      cases (SortedMap.tally (c.tokens rules)).get? token <;> rfl
    have tail : ∀ idx, SortedMap.total ((((SortedMap.tally (c.tokens rules)).get? token).map
        fun count => (candidates.length, count)).toList.map fun b => (b.1, weight * b.2)) idx =
        if candidates.length = idx then weight * (c.tokens rules).count token else 0 := by
      intro idx
      rw [SortedMap.get?_tally]
      by_cases member : token ∈ c.tokens rules
      · by_cases here : candidates.length = idx <;> simp [member, SortedMap.total, here]
      · simp [member, SortedMap.total, List.count_eq_zero_of_not_mem member]
    rw [split, List.map_append, SortedMap.total_append, ih, tail]
    rcases lt_trichotomy idx candidates.length with before | here | after
    · rw [List.getElem?_append_left before, if_neg before.ne', Nat.add_zero]
    · subst here
      simp
    · rw [if_neg after.ne, Nat.add_zero, List.getElem?_eq_none after.le]
      have none : (candidates ++ [c])[idx]? = none := by
        rw [List.getElem?_eq_none]
        rw [List.length_append, List.length_singleton]
        exact after
      rw [none]

theorem mem_postingFor {candidates : List IndexedCandidate} {token : String} {idx : Nat} :
    idx ∈ (postingFor rules candidates token).map Prod.fst ↔
      ∃ c, candidates[idx]? = some c ∧ token ∈ c.tokens rules := by
  unfold postingFor
  rw [List.mem_map]
  constructor
  · rintro ⟨⟨i, count⟩, member, rfl⟩
    obtain ⟨⟨c, i'⟩, listed, taken⟩ := List.mem_filterMap.mp member
    obtain ⟨count', found, same⟩ := Option.map_eq_some_iff.mp taken
    cases same
    rw [SortedMap.get?_tally] at found
    split_ifs at found with inside
    exact ⟨c, List.mem_zipIdx_iff_getElem?.mp listed, inside⟩
  · rintro ⟨c, here, inside⟩
    refine ⟨(idx, (c.tokens rules).count token), List.mem_filterMap.mpr ⟨(c, idx),
      List.mem_zipIdx_iff_getElem?.mpr here, ?_⟩, rfl⟩
    rw [SortedMap.get?_tally, if_pos inside]
    rfl

theorem Indexes.dots_perm {matcher : CrossRepoMatcher} (indexes : Indexes rules matcher)
    {tokens : List String} {counts : List (String × Nat)}
    (listed : counts.Perm (SortedMap.tally tokens).entries) :
    (matcher.dots counts).entries.Perm (commonWith rules matcher.candidates tokens) := by
  -- One list of the products, whatever map they are collected in.
  set pairs := counts.flatMap fun a =>
    (postingFor rules matcher.candidates a.1).map fun b => (b.1, a.2 * b.2) with collected
  have sums : matcher.dots counts = SortedMap.sums pairs := by
    unfold CrossRepoMatcher.dots SortedMap.sums
    rw [collected, List.foldl_flatMap]
    simp only [List.foldl_map, indexes.posting]
  have key : ∀ idx, idx ∈ pairs.map Prod.fst ↔
      ∃ c, matcher.candidates[idx]? = some c ∧ SharesToken tokens (c.tokens rules) := by
    intro idx
    rw [collected, List.map_flatMap]
    simp only [List.mem_flatMap, List.map_map]
    constructor
    · rintro ⟨⟨t, count⟩, member, posted⟩
      obtain ⟨c, here, inside⟩ := mem_postingFor.mp posted
      have own := SortedMap.mem_entries.mp (listed.mem_iff.mp member)
      rw [SortedMap.get?_tally] at own
      split_ifs at own with among
      exact ⟨c, here, t, among, inside⟩
    · rintro ⟨c, here, t, among, inside⟩
      refine ⟨(t, tokens.count t), listed.mem_iff.mpr (SortedMap.mem_entries.mpr ?_),
        mem_postingFor.mpr ⟨c, here, inside⟩⟩
      rw [SortedMap.get?_tally, if_pos among]
  have total : ∀ idx c, matcher.candidates[idx]? = some c →
      SortedMap.total pairs idx = overlap tokens (c.tokens rules) := by
    intro idx c here
    rw [collected, SortedMap.total_flatMap]
    simp only [total_postingFor, here, Option.elim_some]
    exact SortedMap.sum_entries listed (SortedMap.get?_tally tokens) fun a =>
      a.2 * (c.tokens rules).count a.1
  refine SortedMap.entries_perm (nodup_commonWith _ _) fun idx dot => ?_
  rw [sums, SortedMap.get?_sums, mem_commonWith]
  constructor
  · rintro ⟨c, here, shares, rfl⟩
    rw [if_pos ((key idx).mpr ⟨c, here, shares⟩), total idx c here]
  · intro found
    split_ifs at found with member
    obtain ⟨c, here, shares⟩ := (key idx).mp member
    refine ⟨c, here, shares, ?_⟩
    rw [← total idx c here]
    exact Option.some_inj.mp found

/-! ### The matchers agree -/

section Agreement

variable {σ : Type*} [LinearOrder σ] [Zero σ] {sim : Nat → Nat → Nat → σ} {newRepo : Option String}
  {tokens : List String} {threshold : Option σ}

def scoreShared (rules : TextRules) (sim : Nat → Nat → Nat → σ) (newRepo : Option String)
    (tokens : List String) (threshold : Option σ) (c : IndexedCandidate) :
    Option (CrossRepoMatch σ) :=
  if SharesToken tokens (c.tokens rules) ∧ some c.repo ≠ newRepo ∧ c.normSq ≠ 0 ∧
      reaches (sim (overlap tokens (c.tokens rules)) (square tokens) c.normSq) threshold = true then
    some ⟨c.node.id, sim (overlap tokens (c.tokens rules)) (square tokens) c.normSq, .signature⟩
  else none

omit [Zero σ] in
theorem filterMap_commonWith (matcher : CrossRepoMatcher) (words : tokens ≠ []) :
    (commonWith rules matcher.candidates tokens).filterMap
        (matcher.score sim newRepo (square tokens) threshold) =
      matcher.candidates.filterMap (scoreShared rules sim newRepo tokens threshold) := by
  have own : ∀ e ∈ matcher.candidates.zipIdx,
      ((if SharesToken tokens (e.1.tokens rules) then
          some (e.2, overlap tokens (e.1.tokens rules)) else none).bind
        (matcher.score sim newRepo (square tokens) threshold)) =
      scoreShared rules sim newRepo tokens threshold e.1 := by
    rintro ⟨c, idx⟩ member
    have here : matcher.candidates[idx]? = some c := List.mem_zipIdx_iff_getElem?.mp member
    have square : square tokens ≠ 0 := mt square_eq_zero_iff.mp words
    unfold scoreShared
    by_cases shares : SharesToken tokens (c.tokens rules)
    · rw [if_pos shares, Option.bind_some]
      unfold CrossRepoMatcher.score
      simp only [here, square, false_or, shares, true_and]
      by_cases same : some c.repo = newRepo
      · simp [same]
      · by_cases zero : c.normSq = 0
        · simp [zero]
        · simp [same, zero]
    · simp [shares]
  unfold commonWith
  rw [List.filterMap_filterMap, List.filterMap_congr own]
  have candidates : matcher.candidates = matcher.candidates.zipIdx.map Prod.fst :=
    (List.zipIdx_map_fst 0 _).symm
  conv_rhs => rw [candidates]
  rw [List.filterMap_map]
  rfl

/-- **One candidate**: filed and scored, or compared as it is, it yields the same. -/
theorem scoreShared_toIndexed {newNode : GraphNode} {sig : String}
    (signed : givenSignature newNode = some sig) (words : signatureTokens rules sig ≠ [])
    (cand : GraphNode) :
    (toIndexed rules cand).bind
        (scoreShared rules sim (nodeRepo newNode) (signatureTokens rules sig) threshold) =
      if cand.nodeType ∈ sameSymbolTypes then
        scoreCandidate rules sim newNode (signatureTokens rules sig) threshold false cand
      else none := by
  unfold toIndexed
  by_cases kind : cand.nodeType ∈ sameSymbolTypes
  · rw [if_pos kind, if_neg (not_not.mpr kind)]
    unfold scoreCandidate comparedTokens
    cases own : nodeRepo cand with
    | none => cases givenSignature cand <;> rfl
    | some repo =>
      cases signature : givenSignature cand with
      | none =>
        simp
      | some text =>
        dsimp only
        rw [nonStopTokens_signatureTokens, nonStopTokens_signatureTokens, signed]
        set b := signatureTokens rules text with wordsOf
        have any : ((signatureTokens rules sig).any fun t => decide (t ∈ b)) =
            decide (SharesToken (signatureTokens rules sig) b) := by
          rw [Bool.eq_iff_iff, List.any_eq_true, decide_eq_true_eq]
          simp only [decide_eq_true_eq]
          rfl
        by_cases none : b = []
        · simp [none, comparisonConfidence]
        · have norm : square b ≠ 0 := mt square_eq_zero_iff.mp none
          have filed : (IndexedCandidate.mk cand repo (square b)).tokens rules = b := by
            rw [IndexedCandidate.tokens, signature, Option.map_some, Option.getD_some]
          rw [if_neg none, Option.bind_some, any]
          unfold scoreShared
          rw [filed, signatureSimilarity_eq words none]
          by_cases shares : SharesToken (signatureTokens rules sig) b
          · by_cases same : some repo = nodeRepo newNode
            · simp [same]
            · simp [same, shares, norm, comparisonConfidence]
          · simp [shares, comparisonConfidence]
  · rw [if_neg kind, if_pos kind, Option.bind_none]

theorem comparisonConfidence_of_not_shared (bothSigned : Bool) :
    comparisonConfidence bothSigned false false = none := by
  cases bothSigned <;> rfl

omit [Zero σ] in
theorem confidence_of_scoreShared {c : IndexedCandidate} {found : CrossRepoMatch σ}
    (scored : scoreShared rules sim newRepo tokens threshold c = some found) :
    found.confidence = .signature := by
  unfold scoreShared at scored
  split_ifs at scored
  cases scored
  rfl

/-- **The indexed matcher finds what the plain one finds**, for every list of candidates, every
node, every limit and every threshold, whatever the orders of the hash maps. -/
theorem findMatches_eq_findCrossRepoMatches (rules : TextRules) (orders : HashOrders)
    (sim : Nat → Nat → Nat → σ) (candidates : List GraphNode) (newNode : GraphNode) (topK : Nat)
    (threshold : Option σ) :
    (CrossRepoMatcher.new rules orders candidates).findMatches rules orders sim newNode topK
        threshold =
      findCrossRepoMatches rules sim newNode candidates topK threshold false := by
  unfold CrossRepoMatcher.findMatches findCrossRepoMatches comparedTokens
  by_cases other : newNode.nodeType ∉ sameSymbolTypes
  · rw [if_pos other, if_pos other]
  rw [if_neg other, if_neg other]
  cases signed : givenSignature newNode with
  | none => simp
  | some sig =>
    dsimp only
    set tokens := signatureTokens rules sig with words
    by_cases none : tokens = []
    · -- Without words nothing is shared.
      have nothing : ∀ cand, scoreCandidate rules sim newNode tokens threshold false cand =
          Option.none := by
        intro cand
        unfold scoreCandidate
        cases nodeRepo cand with
        | none => rfl
        | some repo =>
          dsimp only
          split_ifs with same
          · rfl
          · cases comparedTokens rules cand false with
            | none => rfl
            | some b =>
              simp only [none, nonStopTokens, List.filter_nil, List.any_nil,
                comparisonConfidence_of_not_shared]
      rw [if_pos (List.isEmpty_iff.mpr none)]
      simp [nothing, bestFirst, sortByKey]
    have listed := orders.own_perm (SortedMap.tally tokens).entries
    rw [if_neg (by rwa [List.isEmpty_iff]), sum_squares listed,
      if_neg (mt square_eq_zero_iff.mp none)]
    obtain ⟨indexes, filed⟩ := indexes_new rules orders candidates
    set matcher := CrossRepoMatcher.new rules orders candidates with built
    -- The plain scores, candidate by candidate.
    have plain : (candidates.filter fun c => decide (c.nodeType ∈ sameSymbolTypes)).filterMap
        (scoreCandidate rules sim newNode tokens threshold false) =
        matcher.candidates.filterMap
          (scoreShared rules sim (nodeRepo newNode) tokens threshold) := by
      rw [filed, List.filterMap_filterMap, List.filterMap_filter]
      refine List.filterMap_congr fun cand _ => ?_
      rw [words, scoreShared_toIndexed signed none]
      by_cases kind : cand.nodeType ∈ sameSymbolTypes <;> simp [kind]
    have scores : ((orders.dots (matcher.dots (orders.own
        (SortedMap.tally tokens).entries)).entries).filterMap
          (matcher.score sim (nodeRepo newNode) (square tokens) threshold)).Perm
        (matcher.candidates.filterMap
          (scoreShared rules sim (nodeRepo newNode) tokens threshold)) := by
      rw [← filterMap_commonWith matcher none]
      exact ((orders.dots_perm _).trans (indexes.dots_perm listed)).filterMap _
    rw [plain]
    unfold bestFirst
    congr 1
    refine sortByKey_eq_of_perm scores fun a here b there same => ?_
    have kind : ∀ m ∈ matcher.candidates.filterMap
        (scoreShared rules sim (nodeRepo newNode) tokens threshold),
        m.confidence = .signature := by
      intro m member
      obtain ⟨c, _, scored⟩ := List.mem_filterMap.mp member
      exact confidence_of_scoreShared scored
    have both := Prod.ext_iff.mp (congrArg ofLex same)
    obtain ⟨id, similarity, confidence⟩ := a
    obtain ⟨id', similarity', confidence'⟩ := b
    have sameSimilarity : similarity = similarity' := OrderDual.toDual_inj.mp both.1
    have sameId : id = id' := both.2
    have signature : confidence = .signature := kind _ (scores.mem_iff.mp here)
    have signature' : confidence' = .signature := kind _ there
    rw [sameSimilarity, sameId, signature, signature']

end Agreement

end Lain.Federation
