import IceCube.Proofs.Compiler.Compiling
import IceCube.Proofs.Json.File
import IceCube.Proofs.Registry.Defined
import IceCube.Proofs.Registry.Loaded

/-!
# Identifiers that cannot be resolved

Resolving an identifier reports most of what can go wrong as a failure.  What else can end it are
faults of the files while it is compiled, code that is no text, an error of the code, and a class
with the name of what every module is.
-/

namespace IceCube

open Step

namespace Resolve

open Component Run

variable {registry : RegistryId} {i : String} {record : Record} {w : World} {e : Error}

theorem readCode_of_readText {p : Path} {code : String}
    (h : Config.readText w.files p = .ok code) :
    outcome (readCode record p) w = (.ok code, w) := by
  have hread := outcome_readCode record p w
  rwa [h] at hread

section NoFailure

variable (he : ∀ f, e ≠ .failure f)

include he

end NoFailure

end Resolve

end IceCube
