import Mathlib
import Lain.Contracts.RouteMatch
import Lain.Contracts.Surface

/-!
# The could-match rule

Whether a consumer no endpoint was found for might still be a caller of a
changed endpoint.
-/

namespace Lain.Contracts

open Foundation Federation

/-- The templates match, with up to three leading segments of the call left out. -/
def templateMatches (consumer provider : String) : Bool :=
  let direct text := (matchRoute .unknown text .any provider).isSome
  let segments := Text.split consumer '/'
  direct consumer || [1, 2, 3].any fun k =>
    decide (k + 1 ≤ segments.length - 1) && direct ("/" ++ "/".intercalate (segments.drop (k + 1)))

/-- Whether a target of another protocol than HTTP might be an endpoint. A text might be any. -/
def nonHttpCouldMatch (target : ConsumerTargetKey) (endpoint : ContractKey) : Bool :=
  match target, endpoint with
  | .urlExpr _, _ => true
  | .contract (.topic broker name), .topic broker' name' =>
    decide (name = name') && (decide (broker = broker') || decide (broker = "") ||
      decide (broker' = ""))
  | .contract (.rpc _ service method), .rpc _ service' method' =>
    decide (method = method') && (decide (service = service') ||
      Text.endsWith service service' || Text.endsWith service' service)
  | .contract (.graphql _ field), .graphql _ field' => decide (field = field')
  | .contract (.table _), .table _ => true
  | _, _ => false

def targetServiceOk (resolution : SurfaceResolution) (service : ServiceName) : Bool :=
  match resolution with
  | .binds endpoints _ =>
    match endpoints.head? with
    | some id => decide (id.service = service)
    | none => false
  | .unresolved _ (some target) => decide (target = service)
  | .unresolved _ none => true
  | .external _ => false

def targetMethodTemplate : ConsumerTargetKey → MethodSpec × Option String
  | .contract (.http method template) => (method, some template)
  | .contract (.webSocket route) => (.known .any, some route)
  | _ => (.unknown, none)

def methodsCouldMatch : MethodSpec → MethodSpec → Bool
  | .known consumer, .known endpoint => decide (consumer = endpoint) || decide (endpoint = .any)
  | _, _ => true

def httpCouldMatch (target : ConsumerTargetKey) (endpoint : ContractKey) : Bool :=
  let (method, template) := targetMethodTemplate target
  match endpoint with
  | .http endpointMethod endpointTemplate =>
    methodsCouldMatch method endpointMethod &&
      match template with
      | some text => templateMatches text endpointTemplate
      | none => true
  | _ => methodsCouldMatch method (.known .any)

def ContractKey.isHttpLike : ContractKey → Bool
  | .http .. => true
  | .webSocket _ => true
  | _ => false

def ConsumerTargetKey.isHttpLike : ConsumerTargetKey → Bool
  | .contract key => key.isHttpLike
  | .urlExpr _ => true

/-- A consumer might be a caller of an endpoint. -/
def couldMatch (consumerKey : ConsumerKey) (endpoint : EndpointId) (head : ContractSurface) :
    Bool :=
  match head.consumers.get? consumerKey with
  | none => false
  | some consumer =>
    targetServiceOk consumer.resolution endpoint.service &&
      if consumerKey.target.isHttpLike && endpoint.key.isHttpLike then
        -- The check of operation ids that follows here answers yes either way.
        httpCouldMatch consumerKey.target endpoint.key
      else nonHttpCouldMatch consumerKey.target endpoint.key

theorem couldMatch_urlExpr {key : ConsumerKey} {text : String} (named : key.target = .urlExpr text)
    {head : ContractSurface} {consumer : ConsumerDef}
    (shown : head.consumers.get? key = some consumer) (endpoint : EndpointId) :
    couldMatch key endpoint head = targetServiceOk consumer.resolution endpoint.service := by
  unfold couldMatch
  rw [shown, named]
  dsimp only
  have anything : (if (ConsumerTargetKey.urlExpr text).isHttpLike && endpoint.key.isHttpLike then
      httpCouldMatch (.urlExpr text) endpoint.key
      else nonHttpCouldMatch (.urlExpr text) endpoint.key) = true := by
    cases endpoint.key <;> rfl
  rw [anything, Bool.and_true]

theorem targetServiceOk_all_iff (resolution : SurfaceResolution) :
    (∀ service, targetServiceOk resolution service = true) ↔
      ∃ reason, resolution = .unresolved reason none := by
  have other : ∀ service : String, service ≠ service ++ "-" := by
    intro service same
    have lengths := congrArg String.length same
    rw [String.length_append] at lengths
    have one : "-".length = 1 := rfl
    omega
  constructor
  · intro all
    cases resolution with
    | binds endpoints provenance =>
      cases endpoints with
      | nil => cases all ""
      | cons id rest => exact absurd (of_decide_eq_true (all (id.service ++ "-"))) (other _)
    | external host => cases all ""
    | unresolved reason target =>
      cases target with
      | none => exact ⟨reason, rfl⟩
      | some service => exact absurd (of_decide_eq_true (all (service ++ "-"))) (other _)
  · rintro ⟨reason, rfl⟩ service
    rfl

/-! ### What the joiner would bind -/

end Lain.Contracts
