import Mathlib
import Lain.Contracts.KeyText
import Lain.Contracts.RouteMatch
import Lain.Foundation.PathPattern

/-!
# The paths of a route

A normalised template stands for the concrete paths one gets by filling its holes and, where it
ends in a catch-all, by going on.
-/

namespace Lain.Contracts

open Foundation

/-! ### The paths of a template -/

def CatchallLast (template : String) : Prop :=
  "{**}" ∉ (splitTemplate template).dropLast

section

variable {consumerMethod : MethodSpec} {providerMethod : HttpMethod} {consumer provider : String}

end

end Lain.Contracts
