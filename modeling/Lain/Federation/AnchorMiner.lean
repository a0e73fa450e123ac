import Mathlib
import Lain.Federation.GraphBackend
import Lain.Foundation.Offers
import Lain.Foundation.StableSort
import Lain.Foundation.TextEnds
import Lain.Joiner.ConsumerHttp

/-!
# The anchor miner

Names that occur in several repositories, commits that belong together and
commit subjects that mention a name become heuristic edges of the federation.
-/

namespace Lain.Federation

open Foundation Lain.Graph

/-! ### Observations -/

/-- The kinds of structural names. -/
inductive AnchorKind where
  | route | topic | queue | proto | env
  deriving DecidableEq

namespace AnchorKind

/-- The name of a kind. -/
def asStr : AnchorKind → String
  | .route => "route"
  | .topic => "topic"
  | .queue => "queue"
  | .proto => "proto"
  | .env => "env"

/-- The edge type an anchor of a kind rides. -/
def edgeType : AnchorKind → EdgeType
  | .route => .routeMatches
  | .topic | .queue => .busTopic
  | .proto => .calls
  | .env => .uses

def rank : AnchorKind → Nat
  | .route => 0
  | .topic => 1
  | .queue => 2
  | .proto => 3
  | .env => 4

theorem rank_injective : Function.Injective rank := by
  intro a b same
  cases a <;> cases b <;> first | rfl | cases same

instance : LinearOrder AnchorKind :=
  LinearOrder.lift' rank rank_injective

end AnchorKind

/-- A sighting of a name in a file of a repository. -/
structure AnchorOccurrence where
  repo : String
  path : String
  line : Nat
  kind : AnchorKind
  key : String
  constructorFallback : Option String := none
  deriving DecidableEq

/-- A commit of a repository; the author may be unknown. -/
structure CommitRecord where
  repo : String
  message : String
  time : Int
  files : List String
  author : String
  deriving DecidableEq

/-- What one pass did. -/
structure MintReport where
  anchorsIndexed : Nat
  anchorEdges : Nat
  cochangeEdges : Nat
  commitRefEdges : Nat
  crowdsSkipped : Nat
  synthesizedFileNodes : Nat
  retractedEdges : Nat
  deriving DecidableEq

def anchorMinRepos : Nat := 2
def anchorMaxRepos : Nat := 8
def cochangeTimeWindowSecs : Nat := 120
def maxEndpointsPerRepo : Nat := 5
def maxFilesPerCochangeCommit : Nat := 20
def maxCommitRefFiles : Nat := 5
def maxTemporalEdges : Nat := 5000

structure MinerText where
  isAlphanumeric : Char → Bool
  isWhitespace : Char → Bool
  toLowercase : String → String
  subjectAnchors : String → List (AnchorKind × String)

/-- An edge of this pass, by the name of its detector. -/
def isMintedEdge (e : GraphEdge) : Bool :=
  match e.provenance with
  | some (.heuristic detector _) =>
    Text.startsWith detector "anchor:" || decide (detector = "cochange") ||
      decide (detector = "commit-ref")
  | _ => false

/-! ### Text -/

def MinerText.trim (text : MinerText) (s : String) : String :=
  String.ofList ((s.toList.dropWhile text.isWhitespace).reverse.dropWhile
    text.isWhitespace).reverse

/-- A commit message in lower case with single spaces. -/
def normalizeMessage (text : MinerText) (message : String) : String :=
  String.intercalate " " <|
    (((text.toLowercase (text.trim message)).toList.splitOnP text.isWhitespace).filter
      fun word => !word.isEmpty).map String.ofList

def isHexDigit (c : Char) : Bool :=
  c.isDigit || decide ('a' ≤ c ∧ c ≤ 'f') || decide ('A' ≤ c ∧ c ≤ 'F')

/-- A text of five groups of hexadecimal digits. -/
def isUuid (s : String) : Bool :=
  let parts := Text.split s '-'
  decide (parts.map String.utf8ByteSize = [8, 4, 4, 4, 12]) &&
    parts.all fun part => part.toList.all isHexDigit

/-- A segment that stands for an identifier. -/
def isIdLikeSegment (seg : String) : Bool :=
  decide (seg = "{}") || decide (seg = "**") || decide (seg = "*") ||
    Text.startsWith seg "\x7b" || seg.toList.all Char.isDigit || isUuid seg ||
    (decide (16 ≤ seg.utf8ByteSize) && seg.toList.all isHexDigit)

/-- The stem of a route: its segments that are no identifiers. -/
def normalizeRouteStem (text : MinerText) (literal : String) : Option String :=
  let path := String.ofList (literal.toList.reverse.dropWhile fun c =>
    decide (c ∈ [',', ';', ')', ']', '}', Char.ofNat 34, Char.ofNat 39])).reverse
  if !Text.startsWith path "/" || decide (path.utf8ByteSize < 4) ||
      (Text.splitOnce path "//").isSome then none
  else
    let segments := (Text.split path '/').filter fun seg => decide (seg ≠ "")
    if !segments.all fun seg => seg.toList.all fun c => text.isAlphanumeric c ||
        decide (c ∈ ['_', '-', '.', ':', '%', '{', '}', '*', '+']) then none
    else
      let kept := segments.filter fun seg => !isIdLikeSegment seg
      match kept.getLast? with
      | none => none
      | some last =>
        if last.utf8ByteSize < 2 then none
        else if kept.length < 2 ∧ kept.length = segments.length then none
        else some ("/" ++ String.intercalate "/" kept)

/-- The last component of a path, if it names something. -/
def fileName (path : String) : Option String :=
  match ((Text.split path '/').filter fun piece => decide (piece ≠ "" ∧ piece ≠ ".")).getLast? with
  | some name => if name = ".." then none else some name
  | none => none

/-- What follows the last dot of the file name; a leading dot starts no extension. -/
def fileExtension (path : String) : Option String :=
  match fileName path with
  | none => none
  | some name =>
    match Text.rsplitOnce name '.' with
    | some (stem, extension) => if stem = "" then none else some extension
    | none => none

/-! ### What the pass reads of the graph -/

/-- The nodes of a graph in slot order. -/
def nodesOf (db : GraphDatabase) : List GraphNode :=
  db.graph.slots.filterMap id

/-- The nodes by what the detectors look for. -/
structure NodeIndex where
  symbols : SortedMap (String ×ₗ String) (List (Nat × Nat × String)) := ∅
  files : SortedMap (String ×ₗ String) String := ∅
  routes : SortedMap (String ×ₗ String) (List String) := ∅
  topics : SortedMap (String ×ₗ String) (List String) := ∅

/-- Index one node. -/
def NodeIndex.addNode (text : MinerText) (index : NodeIndex) (n : GraphNode) : NodeIndex :=
  match GlobalId.parse n.id with
  | none => index
  | some gid =>
    match n.nodeType with
    | .file => { index with files := index.files.insertNew (toLex (gid.repoId, n.path)) n.id }
    | .httpRoute =>
      match (Text.splitOnce n.name " ").bind fun cut => normalizeRouteStem text cut.2 with
      | some stem =>
        { index with routes := index.routes.extend (toLex (gid.repoId, stem)) [n.id] }
      | none => index
    | .topic => { index with topics := index.topics.extend (toLex (gid.repoId, n.name)) [n.id] }
    | _ =>
      match n.lineStart, n.lineEnd with
      | some first, some last =>
        { index with
          symbols :=
            index.symbols.extend (toLex (gid.repoId, n.path)) [(first, last, n.id)] }
      | _, _ => index

/-- The shortest spans of a file come first. -/
def NodeIndex.finish (index : NodeIndex) : NodeIndex :=
  { index with
    symbols := index.symbols.mapEntries fun _ spans =>
      sortByKey (fun span => toLex (span.2.1 - span.1, span.1)) spans }

/-- The index of some nodes. -/
def nodeIndex (text : MinerText) (nodes : List GraphNode) : NodeIndex :=
  (nodes.foldl (NodeIndex.addNode text) {}).finish

def topicLabels (nodes : List GraphNode) : SortedMap String String :=
  nodes.foldl (fun labels n =>
    if n.nodeType = .topic then labels.insert n.id n.name else labels) ∅

def isProof (e : GraphEdge) : Bool :=
  match e.provenance with
  | some (.static _) => true
  | some (.confirmed _) => true
  | _ => false

/-- Two endpoints in order. -/
def pairKey (a b : String) : String × String :=
  if a ≤ b then (a, b) else (b, a)

def blockedPairs (edges : List GraphEdge) : List (String × String) :=
  (edges.filter isProof).map fun e => pairKey e.sourceId e.targetId

structure BusCoverage where
  covered : SortedMap String (Finset String) := ∅
  coveredByPath : SortedMap (String ×ₗ String) (Finset String) := ∅

def placeOf (id : String) : Option (String ×ₗ String) := do
  let gid ← GlobalId.parse id
  let path ← gid.path
  return toLex (gid.repoId, path)

def BusCoverage.cover (coverage : BusCoverage) (participant topic : String) : BusCoverage where
  covered := coverage.covered.alter participant fun old => insert topic (old.getD ∅)
  coveredByPath :=
    match placeOf participant with
    | some place => coverage.coveredByPath.alter place fun old => insert topic (old.getD ∅)
    | none => coverage.coveredByPath

/-- Note what one edge covers. -/
def BusCoverage.add (labels : SortedMap String String) (coverage : BusCoverage) (e : GraphEdge) :
    BusCoverage :=
  if isProof e && decide (e.edgeType ∈ [EdgeType.busTopic, .consumes, .produces]) then
    let coverage := match labels.get? e.sourceId with
      | some topic => coverage.cover e.targetId topic
      | none => coverage
    match labels.get? e.targetId with
    | some topic => coverage.cover e.sourceId topic
    | none => coverage
  else coverage

def BusCoverage.covers (coverage : BusCoverage) (suffix id : String) : Bool :=
  let labeled (labels : Finset String) := decide (∃ label ∈ labels, Text.endsWith label suffix)
  ((coverage.covered.get? id).map labeled).getD false ||
    (((placeOf id).bind coverage.coveredByPath.get?).map labeled).getD false

/-! ### Sightings by anchor -/

abbrev AnchorGroups := SortedMap (AnchorKind ×ₗ String) (List AnchorOccurrence)

/-- A key without a package is spelled by generated code. -/
def isGeneratedProtoKey (key : String) : Bool :=
  !Text.contains key '.' && !Text.contains key '/'

/-- The service of a proto key. -/
def protoServiceSegment (key : String) : String :=
  let service := match Text.splitOnce key "/" with
    | some (front, _) => front
    | none => key
  ((Text.split service '.').getLast?).getD service

def eqIgnoreAsciiCase (a b : String) : Bool :=
  decide (a.toList.map Char.toLower = b.toList.map Char.toLower)

def declaredKeys (declared : List String) (occ : AnchorOccurrence) : List String :=
  let matching (segment : String) := declared.filter fun key =>
    eqIgnoreAsciiCase (protoServiceSegment key) segment
  match matching occ.key with
  | [] => (occ.constructorFallback.map matching).getD []
  | primary => primary

/-- File generated proto names under the declared services they stand for. -/
def foldGeneratedProtoKeys (groups : AnchorGroups) : AnchorGroups :=
  let isGenerated (key : AnchorKind ×ₗ String) :=
    decide ((ofLex key).1 = .proto) && isGeneratedProtoKey (ofLex key).2
  let keys := groups.keys.filter isGenerated
  let generated := keys.flatMap fun key => (groups.get? key).getD []
  let groups := keys.foldl SortedMap.erase groups
  let declared := (groups.keys.filter fun key =>
    decide ((ofLex key).1 = .proto) && !isGeneratedProtoKey (ofLex key).2).map
      fun key => (ofLex key).2
  generated.foldl (fun groups occ => (declaredKeys declared occ).foldl
    (fun groups key => groups.extend (toLex (.proto, key)) [occ]) groups) groups

def anchorGroups (occurrences : List AnchorOccurrence) : AnchorGroups :=
  foldGeneratedProtoKeys (SortedMap.group (occurrences.map fun occ =>
    (toLex (occ.kind, occ.key), occ)))

def reposOf (occs : List AnchorOccurrence) : Finset String :=
  (occs.map AnchorOccurrence.repo).toFinset

/-! ### Endpoints -/

structure Resolving where
  index : NodeIndex
  newFileNodes : List (String × String × String) := []

def NodeIndex.byLine (index : NodeIndex) (occ : AnchorOccurrence) : Option String :=
  (((index.symbols.get? (toLex (occ.repo, occ.path))).getD []).find? fun span =>
    decide (span.1 ≤ occ.line ∧ occ.line ≤ span.2.1)).map fun span => span.2.2

def firstUnder (nodes : SortedMap (String ×ₗ String) (List String)) (occ : AnchorOccurrence) :
    Option String :=
  (nodes.get? (toLex (occ.repo, occ.key))).bind List.head?

/-- The indexed node of a sighting: a sensor's node for a provider, else a symbol. -/
def NodeIndex.resolve (index : NodeIndex) (occ : AnchorOccurrence) : Option String :=
  let specLike := decide ((fileExtension occ.path).getD "" ∈
    ["yaml", "yml", "json", "toml", "proto"])
  match occ.kind with
  | .route =>
    if specLike then (firstUnder index.routes occ).or (index.byLine occ)
    else (index.byLine occ).or (firstUnder index.routes occ)
  | .topic => (firstUnder index.topics occ).or (index.byLine occ)
  | _ => (index.byLine occ).or (firstUnder index.routes occ)

/-- The node of a sighting; a file without one gets one. -/
def resolveEndpoint (state : Resolving) (occ : AnchorOccurrence) : Resolving × Option String :=
  match (state.index.resolve occ).or (state.index.files.get? (toLex (occ.repo, occ.path))) with
  | some id => (state, some id)
  | none =>
    let name := (fileName occ.path).getD ""
    match repoIdNew occ.repo with
    | none => (state, none)
    | some rid =>
      let gid := GlobalId.new rid .file occ.path name none
      ({ index := { state.index with
           files := state.index.files.insert (toLex (occ.repo, occ.path)) gid }
         newFileNodes := state.newFileNodes ++ [(gid, occ.path, name)] }, some gid)

def resolveGroup (state : Resolving) (occs : List AnchorOccurrence) :
    Resolving × SortedMap String (List String) :=
  occs.foldl (fun acc occ =>
    let (state, endpoint) := resolveEndpoint acc.1 occ
    match endpoint with
    | some id => (state, acc.2.extend occ.repo [id])
    | none => (state, acc.2)) (state, ∅)

abbrev AnchorEndpoints := SortedMap (AnchorKind ×ₗ String) (SortedMap String (List String))

structure Survey where
  state : Resolving
  endpoints : AnchorEndpoints := ∅
  crowds : Nat := 0

def Survey.addGroup (survey : Survey) (group : (AnchorKind ×ₗ String) × List AnchorOccurrence) :
    Survey :=
  let (state, perRepo) := resolveGroup survey.state group.2
  if anchorMaxRepos < (reposOf group.2).card then
    { survey with state, crowds := survey.crowds + 1 }
  else
    { survey with
      state
      endpoints := survey.endpoints.insert group.1 <| perRepo.mapEntries fun _ ids =>
        (SortedMap.ordered ids).take maxEndpointsPerRepo }

def takeSurvey (text : MinerText) (nodes : List GraphNode) (groups : AnchorGroups) : Survey :=
  groups.entries.foldl Survey.addGroup { state := { index := nodeIndex text nodes } }

/-! ### Offers -/

abbrev Triple := String × String × EdgeType

instance lawfulTriple : LawfulBEq Triple :=
  inferInstance

def pairsOf {α : Type*} : List α → List (α × α)
  | [] => []
  | a :: rest => rest.map (fun b => (a, b)) ++ pairsOf rest

def anchorDetector (kind : AnchorKind) (key : String) : String :=
  s!"anchor:{kind.asStr}:{key}"

section Offers

variable (blocked : List (String × String))

def anchorOffers (coverage : BusCoverage) (endpoints : AnchorEndpoints) :
    List (Triple × String) :=
  endpoints.entries.flatMap fun entry =>
    let kind := (ofLex entry.1).1
    let key := (ofLex entry.1).2
    if entry.2.entries.length < anchorMinRepos then []
    else (pairsOf entry.2.entries).flatMap fun repos =>
      repos.1.2.flatMap fun a => repos.2.2.flatMap fun b =>
        if pairKey a b ∈ blocked then []
        else if decide (kind = .queue ∨ kind = .topic) &&
            (coverage.covers s!"/{key}" a && coverage.covers s!"/{key}" b) then []
        else [((a, b, kind.edgeType), anchorDetector kind key),
          ((b, a, kind.edgeType), anchorDetector kind key)]

def secondsApart (a b : Int) : Option Nat :=
  if (a - b).natAbs < 2 ^ 63 then some (a - b).natAbs else none

def clustersFrom (start : Int) (cluster : List CommitRecord) :
    List CommitRecord → Option (List (List CommitRecord))
  | [] => some [cluster]
  | c :: rest => do
    let apart ← secondsApart c.time start
    if apart ≤ cochangeTimeWindowSecs then clustersFrom start (cluster ++ [c]) rest
    else
      let later ← clustersFrom c.time [c] rest
      return cluster :: later

def timeClusters (commits : List CommitRecord) : Option (List (List CommitRecord)) :=
  match sortByKey CommitRecord.time commits with
  | [] => some []
  | c :: rest => clustersFrom c.time [c] rest

def changesets (text : MinerText) (commits : List CommitRecord) :
    Option (List (List CommitRecord)) :=
  ((SortedMap.group (commits.map fun c => (normalizeMessage text c.message, c))).entries.mapM
    fun entry => timeClusters entry.2).map List.flatten

def isCrowd (cluster : List CommitRecord) : Bool :=
  decide (anchorMaxRepos < (cluster.map CommitRecord.repo).toFinset.card)

def cochangeOffers (files : SortedMap (String ×ₗ String) String) (cluster : List CommitRecord) :
    List (Triple × String) :=
  if isCrowd cluster then []
  else (pairsOf cluster).flatMap fun pair =>
    let a := pair.1
    let b := pair.2
    if a.repo = b.repo then []
    else if cochangeTimeWindowSecs < (a.time - b.time).natAbs then []
    else if a.author ≠ "" ∧ b.author ≠ "" ∧ a.author ≠ b.author then []
    else (a.files.take maxFilesPerCochangeCommit).flatMap fun fa =>
      (b.files.take maxFilesPerCochangeCommit).flatMap fun fb =>
        match files.get? (toLex (a.repo, fa)), files.get? (toLex (b.repo, fb)) with
        | some ida, some idb =>
          let ends :=
            if (toLex (a.repo, fa) : String ×ₗ String) ≤ toLex (b.repo, fb) then (ida, idb)
            else (idb, ida)
          if pairKey ends.1 ends.2 ∈ blocked then []
          else [((ends.1, ends.2, .coChangedWith), "cochange")]
        | _, _ => []

def commitRefOffers (text : MinerText) (files : SortedMap (String ×ₗ String) String)
    (endpoints : AnchorEndpoints) (c : CommitRecord) : List (List (Triple × String)) :=
  (text.subjectAnchors c.message).flatMap fun anchor =>
    match endpoints.get? (toLex anchor) with
    | none => []
    | some perRepo => perRepo.entries.filterMap fun entry =>
      if entry.1 = c.repo then none
      else entry.2.head?.map fun target =>
        (c.files.take maxCommitRefFiles).flatMap fun f =>
          match files.get? (toLex (c.repo, f)) with
          | some source =>
            if pairKey source target ∈ blocked then []
            else [((source, target, .coChangedWith), "commit-ref")]
          | none => []

end Offers

def edgeLimit (detector : String) : Option Nat :=
  if detector = "cochange" ∨ detector = "commit-ref" then some maxTemporalEdges else none

/-- An edge of the pass. -/
def heuristicEdge (offer : Triple × String) : GraphEdge :=
  let confidence := if (edgeLimit offer.2).isSome then Joiner.ambiguousConfidence
    else Joiner.unboundHostConfidence
  { edgeType := offer.1.2.2
    sourceId := offer.1.1
    targetId := offer.1.2.1
    weight := some confidence
    crossRepo := true
    provenance := some (.heuristic offer.2 confidence) }

/-! ### The pass -/

structure Observations where
  text : MinerText
  occurrences : List AnchorOccurrence
  commits : List CommitRecord

/-- The edges that lead to a node under a type. -/
def edgesTo (db : GraphDatabase) (target : String) (edgeType : EdgeType) : List GraphEdge :=
  match db.indexMap.lookup target with
  | none => []
  | some idx => ((db.graph.arcs.filter fun a => decide (a.target = idx)).map Arc.weight).filter
      fun e => decide (e.edgeType = edgeType)

def isPresent (db : GraphDatabase) (triple : Triple) : Bool :=
  (edgesTo db triple.2.1 triple.2.2).any fun e => decide (e.sourceId = triple.1)

def Observations.survey (seen : Observations) (nodes : List GraphNode) : Survey :=
  takeSurvey seen.text nodes (anchorGroups seen.occurrences)

def Observations.batches (seen : Observations) (nodes : List GraphNode) (edges : List GraphEdge) :
    Option (List (List (Triple × String))) :=
  let survey := seen.survey nodes
  let blocked := blockedPairs edges
  let coverage := edges.foldl (BusCoverage.add (topicLabels nodes)) {}
  let files := survey.state.index.files
  (changesets seen.text seen.commits).map fun clusters =>
    anchorOffers blocked coverage survey.endpoints ::
      clusters.map (cochangeOffers blocked files) ++
      seen.commits.flatMap (commitRefOffers blocked seen.text files survey.endpoints)

structure MintPlan where
  newFileNodes : List GraphNode
  newEdges : List GraphEdge
  obsolete : List GraphEdge
  report : MintReport

def mintPlan (seen : Observations) (db : GraphDatabase) : Option MintPlan := do
  let survey := seen.survey (nodesOf db)
  let clusters ← changesets seen.text seen.commits
  let batches ← seen.batches (nodesOf db) db.edges
  let offers := Offers.takeAll (isPresent db) edgeLimit batches
  let obsolete := (db.edges.filter isMintedEdge).filter fun e =>
    decide (e.triple ∉ offers.wanted)
  return {
    newFileNodes := survey.state.newFileNodes.map fun file =>
      { id := file.1, nodeType := .file, name := file.2.2, path := file.2.1 }
    newEdges := offers.taken.map heuristicEdge
    obsolete
    report :=
      { anchorsIndexed := (anchorGroups seen.occurrences).entries.length
        anchorEdges := (offers.taken.filter fun offer =>
          decide (edgeLimit offer.2 = none)).length
        cochangeEdges := offers.count "cochange"
        commitRefEdges := offers.count "commit-ref"
        crowdsSkipped := survey.crowds + (clusters.filter isCrowd).length
        synthesizedFileNodes := survey.state.newFileNodes.length
        retractedEdges := obsolete.length } }

structure SaveFailures where
  nodes : Option LainError := none
  edges : Option LainError := none
  removal : Option LainError := none

def MintPlan.carryOut (plan : MintPlan) (failures : SaveFailures) (db : GraphDatabase) :
    Outcome MintReport :=
  andThen (GraphBackend.upsertNodesBatch db failures.nodes plan.newFileNodes) fun db _ =>
    andThen (GraphBackend.upsertEdgesBatch db failures.edges plan.newEdges) fun db _ =>
      if plan.obsolete.isEmpty then .ok db plan.report
      else andThen (GraphBackend.removeEdges db failures.removal plan.obsolete) fun db _ =>
        .ok db plan.report

/-- One pass of the miner. -/
def mintCrossRepoObservations (seen : Observations) (failures : SaveFailures)
    (db : GraphDatabase) : Outcome MintReport :=
  match mintPlan seen db with
  | none => .panicked
  | some plan => plan.carryOut failures db

end Lain.Federation
