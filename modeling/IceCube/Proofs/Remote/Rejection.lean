import IceCube.Proofs.Remote.Replay

/-!
# Calls that are turned down

The signature is checked before anything is looked up, so a call without the right one ends in the
same way whatever is registered, loaded or stored, and leaves nothing behind but a line in the log.
-/

namespace IceCube.Remote

open Step Component

variable {registry : RegistryId} {call : RemoteCall} {signature given : Option String}

/-! ## Calls without the right signature -/

end IceCube.Remote
