import Mathlib
import Lain.Federation.RepoId
import Lain.Graph.Digest
import Lain.Query.Glob

/-!
# Query specifications

A query is a list of operations on a working set of nodes: find them, follow edges from them,
filter, group, sort and limit them.
-/

namespace Lain

/-- Every edge type, in declaration order. -/
def EdgeType.all : List EdgeType :=
  [.contains, .calls, .uses, .implements, .imports, .coChangedWith, .pattern, .callsHttp,
    .produces, .consumes, .deployedTo, .crossRepoSameSymbol, .dynamicDispatch, .busTopic,
    .routeMatches, .runtimeCall, .sendsHttp, .requestSchema, .responseSchema, .payloadSchema,
    .hasField, .readsField, .readsFrom, .binds, .readsTable, .writesTable, .callsGraphql]

namespace Query

/-! ### Selectors -/

/-- A node type selector: one type or any of several. -/
inductive TypeSelector where
  | single (type : String)
  | or (types : List String)
  deriving DecidableEq

namespace TypeSelector

/-- The names a selector mentions. -/
def named : TypeSelector → List String
  | .single type => [type]
  | .or types => types

/-- The names that are not a node type. -/
def unknownTypes (selector : TypeSelector) : List String :=
  selector.named.filter fun name => decide (name ∉ NodeType.all.map NodeType.debug)

def takes (selector : TypeSelector) (nodeType : String) : Bool :=
  decide (nodeType ∈ selector.named)

end TypeSelector

/-- A label selector: one label, any of several, or none of several. -/
inductive LabelSelector where
  | single (label : String)
  | or (labels : List String)
  | not (labels : List String)
  deriving DecidableEq

def LabelSelector.takes : LabelSelector → Option String → Bool
  | .single label, l => decide (l = some label)
  | .or _, none => false
  | .or labels, some l => decide (l ∈ labels)
  | .not _, none => true
  | .not labels, some l => decide (l ∉ labels)

/-- An edge selector: one type, any of several, or none of several. -/
inductive EdgeSelector where
  | single (edge : String)
  | or (edges : List String)
  | not (edges : List String)
  deriving DecidableEq

namespace EdgeSelector

def takes : EdgeSelector → String → Bool
  | .single edge, e => decide (edge = e)
  | .or edges, e => decide (e ∈ edges)
  | .not edges, e => decide (e ∉ edges)

/-- Every edge name the selector mentions. -/
def namedTypes : EdgeSelector → List String
  | .single edge => [edge]
  | .or edges | .not edges => edges

/-- The names that are not an edge type. -/
def unknownTypes (selector : EdgeSelector) : List String :=
  selector.namedTypes.filter fun name => decide (name ∉ EdgeType.all.map EdgeType.debug)

end EdgeSelector

/-- How a name is matched. -/
inductive NameSelector where
  | exact (name : String)
  | glob (pattern : String)
  | startsWith (text : String)
  | endsWith (text : String)
  deriving DecidableEq

def NameSelector.takes : NameSelector → String → Bool
  | .exact s, name => decide (name = s)
  | .startsWith s, name => decide (s.toList <+: name.toList)
  | .endsWith s, name => decide (s.toList <:+ name.toList)
  | .glob pattern, name => globMatches pattern name

/-! ### Operations -/

/-- Which way edges are followed. -/
inductive Direction where
  | outgoing | incoming | both
  deriving DecidableEq

/-- How many hops are reported. -/
inductive DepthSpec where
  | single (n : Nat)
  | range (min max : Nat)
  deriving DecidableEq

/-- The least and the greatest number of hops that are reported. -/
def DepthSpec.toRange : DepthSpec → Nat × Nat
  | .single 0 => (0, 0)
  | .single n => (1, n)
  | .range min max => (min, max)

/-- Select nodes of the graph. -/
structure FindOp where
  typeSelector : Option TypeSelector := none
  name : Option NameSelector := none
  id : Option String := none
  labelSelector : Option LabelSelector := none
  path : Option String := none
  deriving DecidableEq

/-- Follow edges from the working set. -/
structure ConnectOp where
  edge : EdgeSelector
  direction : Direction := .outgoing
  depth : DepthSpec := .single 1
  target : Option FindOp := none
  deriving DecidableEq

/-- Keep some nodes of the working set. -/
structure FilterOp where
  typeFilter : Option TypeSelector := none
  labelFilter : Option LabelSelector := none
  name : Option NameSelector := none
  deriving DecidableEq

/-- Keep the nodes that are close enough to a text. -/
structure SemanticFilterOp where
  like : String
  threshold : ℚ := 3 / 10
  deriving DecidableEq

/-- What nodes are grouped by. -/
inductive GroupBy where
  | type | label | name
  deriving DecidableEq

/-- What nodes are sorted by. -/
inductive SortField where
  | name | type | label
  deriving DecidableEq

inductive SortDirection where
  | asc | desc
  deriving DecidableEq

structure SortOp where
  field : SortField
  direction : SortDirection := .asc
  deriving DecidableEq

/-- Skip some nodes and keep some of the rest. -/
structure LimitOp where
  count : Nat
  offset : Nat := 0
  deriving DecidableEq

/-- One operation of a query. -/
inductive GraphOp where
  | find (op : FindOp)
  | connect (op : ConnectOp)
  | filter (op : FilterOp)
  | semanticFilter (op : SemanticFilterOp)
  | group (groupBy : GroupBy)
  | sort (op : SortOp)
  | limit (op : LimitOp)
  deriving DecidableEq

/-! ### Queries -/

/-- Whether a query runs its operations, a named query, or whichever it has. -/
inductive QueryMode where
  | query | tool | auto
  deriving DecidableEq

/-- A query. -/
structure QuerySpec where
  ops : List GraphOp
  mode : QueryMode := .auto
  named : Option String := none
  deriving DecidableEq

def QuerySpec.prebuilt : String → Option (List GraphOp)
  | "get_blast_radius" => some
      [.find {},
        .connect { edge := .single "Calls", direction := .outgoing, depth := .range 1 2 },
        .connect { edge := .single "Calls", direction := .incoming, depth := .range 1 2 }]
  | "get_call_chain" => some
      [.find {},
        .connect { edge := .single "Calls", direction := .outgoing, depth := .single 10 }]
  | "get_file_functions" => some
      [.find { typeSelector := some (.single "File") },
        .connect
          { edge := .single "Contains", direction := .outgoing, depth := .single 1
            target := some { typeSelector := some (.single "Function") } }]
  | "get_callers" => some
      [.find {},
        .connect { edge := .single "Calls", direction := .incoming, depth := .single 1 }]
  | "get_callees" => some
      [.find {},
        .connect { edge := .single "Calls", direction := .outgoing, depth := .single 1 }]
  | "get_module_functions" => some
      [.find { typeSelector := some (.single "Module") },
        .connect
          { edge := .single "Contains", direction := .outgoing, depth := .single 2
            target := some { typeSelector := some (.single "Function") } }]
  | "get_deprecated_functions" => some
      [.find
        { typeSelector := some (.single "Function")
          labelSelector := some (.single "deprecated") }]
  | _ => none

end Query

end Lain
