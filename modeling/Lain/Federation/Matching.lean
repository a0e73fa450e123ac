import Mathlib
import Lain.Federation.RepoId
import Lain.Foundation.Tallies

/-!
# Matching symbols across repositories

Functions of other repositories are found by the words their signatures share.
-/

namespace Lain.Federation

open Foundation

/-! ### Signatures -/

/-- Words that say nothing about a signature. -/
def signatureStopWords : List String :=
  ["pub", "private", "protected", "public", "export", "default", "static", "async", "const", "let",
    "var", "final", "abstract", "override", "virtual", "unsafe", "fn", "def", "function", "class",
    "struct", "enum", "interface", "trait", "impl", "type", "record", "data", "use", "import",
    "from", "module", "namespace", "extern", "crate", "self", "cls", "func", "method", "new"]

def sameSymbolTypes : List NodeType :=
  [.function, .method]

/-- What a match rests on. -/
inductive MatchConfidence where
  | signature | nameOnly
  deriving DecidableEq

structure CrossRepoMatch (σ : Type*) where
  id : String
  similarity : σ
  confidence : MatchConfidence

structure TextRules where
  isAlphanumeric : Char → Bool
  toLowercase : String → String

/-- The words of a signature. -/
def signatureTokens (rules : TextRules) (sig : String) : List String :=
  let parts := sig.toList.splitOnP fun c => !rules.isAlphanumeric c && decide (c ≠ '_')
  (((parts.map String.ofList).filter (· ≠ "")).map rules.toLowercase).filter
    fun token => decide (token ∉ signatureStopWords)

/-- The words that say something. -/
def nonStopTokens (tokens : List String) : List String :=
  tokens.filter fun token => decide (token ∉ signatureStopWords)

def givenSignature (node : GraphNode) : Option String :=
  node.signature.filter (· ≠ "")

def nodeRepo (node : GraphNode) : Option String :=
  (GlobalId.parse node.id).map GlobalId.repoId

/-! ### The plain matcher -/

section Matchers

variable {σ : Type*} [LinearOrder σ] [Zero σ]

def pairCounts (a b : List String) : SortedMap String (Nat × Nat) :=
  let counted := a.foldl (fun m token => m.alter token fun old =>
    let count := old.getD (0, 0)
    (count.1 + 1, count.2)) ∅
  b.foldl (fun m token => m.alter token fun old =>
    let count := old.getD (0, 0)
    (count.1, count.2 + 1)) counted

/-- How similar two signatures are, from the product of their counts and their squares. -/
def signatureSimilarity (sim : Nat → Nat → Nat → σ) (a b : List String) : σ :=
  if a.isEmpty || b.isEmpty then 0
  else
    let counts := (pairCounts a b).entries.map Prod.snd
    let dot := (counts.map fun c => c.1 * c.2).sum
    let normA := (counts.map fun c => c.1 * c.1).sum
    let normB := (counts.map fun c => c.2 * c.2).sum
    if normA = 0 ∨ normB = 0 then 0 else sim dot normA normB

def reaches (similarity : σ) (threshold : Option σ) : Bool :=
  match threshold with
  | some least => decide (least ≤ similarity)
  | none => false

def bestFirst (topK : Nat) (scored : List (CrossRepoMatch σ)) : List (CrossRepoMatch σ) :=
  (sortByKey (fun m => toLex (OrderDual.toDual m.similarity, m.id)) scored).take topK

def comparedTokens (rules : TextRules) (node : GraphNode) (allowNameOnly : Bool) :
    Option (List String) :=
  match givenSignature node with
  | some sig => some (signatureTokens rules sig)
  | none => if allowNameOnly then some [rules.toLowercase node.name] else none

def comparisonConfidence (bothSigned sharesToken allowNameOnly : Bool) : Option MatchConfidence :=
  if bothSigned then
    if sharesToken then some .signature else if allowNameOnly then some .nameOnly else none
  else if allowNameOnly then some .nameOnly
  else none

def scoreCandidate (rules : TextRules) (sim : Nat → Nat → Nat → σ) (newNode : GraphNode)
    (newTokens : List String) (threshold : Option σ) (allowNameOnly : Bool)
    (candidate : GraphNode) : Option (CrossRepoMatch σ) :=
  match nodeRepo candidate with
  | none => none
  | some candidateRepo =>
    if some candidateRepo = nodeRepo newNode then none
    else
      match comparedTokens rules candidate allowNameOnly with
      | none => none
      | some candidateTokens =>
        let sharesToken := (nonStopTokens newTokens).any fun t =>
          decide (t ∈ nonStopTokens candidateTokens)
        let bothSigned := (givenSignature newNode).isSome && (givenSignature candidate).isSome
        match comparisonConfidence bothSigned sharesToken allowNameOnly with
        | none => none
        | some confidence =>
          let similarity := signatureSimilarity sim newTokens candidateTokens
          if reaches similarity threshold then some ⟨candidate.id, similarity, confidence⟩
          else none

/-- Find the symbols of other repositories a node matches. -/
def findCrossRepoMatches (rules : TextRules) (sim : Nat → Nat → Nat → σ) (newNode : GraphNode)
    (candidates : List GraphNode) (topK : Nat) (threshold : Option σ) (allowNameOnly : Bool) :
    List (CrossRepoMatch σ) :=
  if newNode.nodeType ∉ sameSymbolTypes then []
  else
    match comparedTokens rules newNode allowNameOnly with
    | none => []
    | some newTokens =>
      let targets := candidates.filter fun c => decide (c.nodeType ∈ sameSymbolTypes)
      bestFirst topK <| targets.filterMap <|
        scoreCandidate rules sim newNode newTokens threshold allowNameOnly

/-! ### The indexed matcher -/

/-- A candidate with its repository and the square of its counts. -/
structure IndexedCandidate where
  node : GraphNode
  repo : String
  normSq : Nat

/-- The candidates filed under their words: every word has a number, and under that number stand
the candidates with the word, each with how often it has it. -/
structure CrossRepoMatcher where
  candidates : List IndexedCandidate := []
  tokenToId : SortedMap String Nat := ∅
  postings : List (List (Nat × Nat)) := []

structure HashOrders where
  counts : Nat → List (String × Nat) → List (String × Nat)
  own : List (String × Nat) → List (String × Nat)
  dots : List (Nat × Nat) → List (Nat × Nat)
  counts_perm : ∀ n l, (counts n l).Perm l
  own_perm : ∀ l, (own l).Perm l
  dots_perm : ∀ l, (dots l).Perm l

namespace CrossRepoMatcher

def addPosting (candIdx : Nat) (matcher : CrossRepoMatcher) (entry : String × Nat) :
    CrossRepoMatcher :=
  match matcher.tokenToId.get? entry.1 with
  | some id =>
    { matcher with postings := matcher.postings.modify id (· ++ [(candIdx, entry.2)]) }
  | none =>
    { matcher with
      tokenToId := matcher.tokenToId.insert entry.1 matcher.postings.length
      postings := matcher.postings ++ [[(candIdx, entry.2)]] }

def addCandidate (rules : TextRules) (orders : HashOrders) (matcher : CrossRepoMatcher)
    (cand : GraphNode) : CrossRepoMatcher :=
  if cand.nodeType ∉ sameSymbolTypes then matcher
  else
    match givenSignature cand, GlobalId.parse cand.id with
    | some sig, some gid =>
      let tokens := signatureTokens rules sig
      if tokens.isEmpty then matcher
      else
        let candIdx := matcher.candidates.length
        let counts := orders.counts candIdx (SortedMap.tally tokens).entries
        let normSq := (counts.map fun c => c.2 * c.2).sum
        if normSq = 0 then matcher
        else
          let filed := counts.foldl (addPosting candIdx) matcher
          { filed with candidates := filed.candidates ++ [⟨cand, gid.repoId, normSq⟩] }
    | _, _ => matcher

/-- File all candidates. -/
def new (rules : TextRules) (orders : HashOrders) (candidates : List GraphNode) :
    CrossRepoMatcher :=
  candidates.foldl (addCandidate rules orders) {}

def posting (matcher : CrossRepoMatcher) (token : String) : List (Nat × Nat) :=
  ((matcher.tokenToId.get? token).bind fun id => matcher.postings[id]?).getD []

def dots (matcher : CrossRepoMatcher) (counts : List (String × Nat)) : SortedMap Nat Nat :=
  counts.foldl (fun dots a => (matcher.posting a.1).foldl (fun dots b =>
    dots.addTo (b.1, a.2 * b.2)) dots) ∅

/-- The match with a candidate, if it counts. -/
def score (sim : Nat → Nat → Nat → σ) (newRepo : Option String) (normSq : Nat)
    (threshold : Option σ) (matcher : CrossRepoMatcher) (entry : Nat × Nat) :
    Option (CrossRepoMatch σ) :=
  match matcher.candidates[entry.1]? with
  | none => none
  | some cand =>
    if some cand.repo = newRepo then none
    else if normSq = 0 ∨ cand.normSq = 0 then none
    else
      let similarity := sim entry.2 normSq cand.normSq
      if reaches similarity threshold then some ⟨cand.node.id, similarity, .signature⟩
      else none

/-- Find the symbols of other repositories a node matches. -/
def findMatches (rules : TextRules) (orders : HashOrders) (sim : Nat → Nat → Nat → σ)
    (matcher : CrossRepoMatcher) (newNode : GraphNode) (topK : Nat) (threshold : Option σ) :
    List (CrossRepoMatch σ) :=
  if newNode.nodeType ∉ sameSymbolTypes then []
  else
    match givenSignature newNode with
    | none => []
    | some sig =>
      let newTokens := signatureTokens rules sig
      if newTokens.isEmpty then []
      else
        let counts := orders.own (SortedMap.tally newTokens).entries
        let normSq := (counts.map fun c => c.2 * c.2).sum
        if normSq = 0 then []
        else
          bestFirst topK <| (orders.dots (matcher.dots counts).entries).filterMap <|
            score sim (nodeRepo newNode) normSq threshold matcher

end CrossRepoMatcher

end Matchers

end Lain.Federation
