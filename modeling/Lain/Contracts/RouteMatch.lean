import Mathlib
import Lain.Contracts.Keys
import Lain.Schema

/-!
# Route matching

Whether the template of a call matches the template of a route: by verb,
segment by segment, and as a fallback after stripping up to three leading
literal segments of the call.
-/

namespace Lain.Contracts

open Foundation

/-- How a call matches a route. -/
structure MatchDetail where
  kind : RouteMatch
  confidence : ℚ
  strippedPrefix : Option String
  deriving DecidableEq

/-- The confidence a pair of verbs allows, if they are compatible. -/
def methodConfidence : MethodSpec → HttpMethod → Option ℚ
  | .unknown, _ => some (6 / 10)
  | .known c, provider =>
    if c = provider then some 1 else if provider = .any then some 1 else none

/-- The segments of a template; empty ones are dropped. -/
def splitTemplate (template : String) : List String :=
  (Text.split template '/').filter (· ≠ "")

/-- A provider's hole matches any segment; a consumer's hole only a hole. -/
def segmentPairMatches (consumer provider : String) : Bool :=
  decide (consumer = provider) || decide (provider = "{}")

/-- The segments of a call match the segments of a route, which may end in a catch-all. -/
def segmentsMatch (consumerSegs providerSegs : List String) : Bool :=
  if providerSegs.isEmpty || consumerSegs.isEmpty then
    providerSegs.isEmpty && consumerSegs.isEmpty
  else
    let hasCatchall := decide (providerSegs.getLast? = some "{**}")
    let core := if hasCatchall then providerSegs.dropLast else providerSegs
    if !hasCatchall && decide (consumerSegs.length ≠ providerSegs.length) then false
    else if hasCatchall && decide (consumerSegs.length < core.length) then false
    else (consumerSegs.zip core).all fun pair => segmentPairMatches pair.1 pair.2

/-- The prefix whose removal makes the call match, if one of one to three literal
segments does. -/
def tryPrefixStrip (consumerSegs providerSegs : List String) : Option String :=
  [1, 2, 3].findSome? fun n =>
    if consumerSegs.length < n then none
    else if (consumerSegs.take n).any fun s => decide (s = "{}") || decide (s = "{**}") then none
    else if segmentsMatch (consumerSegs.drop n) providerSegs then
      some ("/" ++ "/".intercalate (consumerSegs.take n))
    else none

/-- Match a call against a route. -/
def matchRoute (consumerMethod : MethodSpec) (consumerTemplate : String)
    (providerMethod : HttpMethod) (providerTemplate : String) : Option MatchDetail :=
  match methodConfidence consumerMethod providerMethod with
  | none => none
  | some methodConf =>
    let consumerSegs := splitTemplate consumerTemplate
    let providerSegs := splitTemplate providerTemplate
    if segmentsMatch consumerSegs providerSegs then
      some
        { kind := if consumerSegs = providerSegs then .exact else .pattern
          confidence := methodConf
          strippedPrefix := none }
    else
      (tryPrefixStrip consumerSegs providerSegs).map fun text =>
        { kind := .prefixStripped
          confidence := min methodConf (5 / 10)
          strippedPrefix := some text }

/-- Literals count more than holes, holes more than catch-alls. -/
def templateSpecificity (template : String) : List Nat :=
  (splitTemplate template).map fun seg =>
    if seg = "{**}" then 0 else if seg = "{}" then 1 else 2

/-- The verbs of two keys are compatible. -/
def methodsCompatible : MethodSpec → MethodSpec → Bool
  | .known a, .known b => decide (a = b) || decide (b = .any) || decide (a = .any)
  | _, _ => true

/-- The templates of two keys are compatible, with the verdict's label. -/
def templatesCompatible (consumer : Option String) (provider : String) : Bool × String :=
  match consumer with
  | none => (true, "pattern")
  | some c =>
    if (matchRoute (.known .any) c .any provider).isSome then (true, "exact")
    else (false, "none")

/-- A confirmed binding may join these keys. -/
def keysCompatible : ContractKey → ContractKey → Bool
  | .http cm ct, .http pm pt => methodsCompatible cm pm && (templatesCompatible (some ct) pt).1
  | .graphql cop cf, .graphql pop pf => decide (cop = pop) && decide (cf = pf)
  | consumer, provider => decide (consumer = provider)

end Lain.Contracts
