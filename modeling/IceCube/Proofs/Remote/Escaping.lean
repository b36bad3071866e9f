import IceCube.Proofs.Registry.Unresolved
import IceCube.Proofs.Remote.Stages

/-!
# Errors that get out of a call

A call that does not fit is turned down.  Any other error that ends a call comes from the code of the
component, which is run at many stages, or from what is around that code.  The last includes data
for an attribute that a class has as a property: nothing looks at that before the attribute is set.
-/

namespace IceCube

open Step

namespace Remote

open Component Run

section Errors

variable (registry : RegistryId) (payload : Json) (signature given : Option String) (w : World)

end Errors

variable {registry : RegistryId} {payload : Json} {signature given : Option String}
  {w : World} {e : Error}

/-! ## What ends a call -/

section Stages

variable {c : Checked} {o : ObjectId} {v u : World}

end Stages

section Key

variable {key : String} (hkey : outcome (secret given) w = (.ok key, w))

include hkey

end Key

/-! ## A gauge that fails

The body of the constructor of a gauge ends with an error of its own, which no check can foresee.
-/

def tag : Component.Class where
  name := "Tag"
  qualifiedName := "Tag"
  module := "icecube_compiled_app_Tag"
  base := .ice
  params := some [⟨"id", none, false, false, "_id"⟩]
  init := []
  attributes := [("component_name", .value (.text "app_Tag")),
    ("state_fields", .value (.tuple [.text "id"])), ("render", .render (.node "div" [] []))]

end Remote

end IceCube

