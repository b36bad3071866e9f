import IceCube.Failure

/-!
# Events

What the library does is logged as events.  A failure is logged with details that its message does
not have.
-/

namespace IceCube

/-- How much an event matters. -/
inductive Level where
  | info
  | warning
  | error
deriving DecidableEq, Repr

/-- The name of a level. -/
def Level.name : Level → String
  | .info => "info"
  | .warning => "warning"
  | .error => "error"

/-- Why a failure came about, for the log. -/
inductive Detail where
  | unknownComponent (name : String)
  | notAnObject
  | notRemote (name : String)
  | methodNotAllowed (name : String)
  | methodNotFound (name : String)
  | componentNotFound (identifier : String)
  | missingSource (path : String)
  | classNotDefined (path name : String)
  /-- A text from outside the library. -/
  | other
deriving DecidableEq, Repr

/-- The text of a detail. -/
def Detail.text : Detail → String
  | .unknownComponent name => "Unknown component " ++ name
  | .notAnObject => "Snapshot is not an object"
  | .notRemote name => name ++ " is not an IceComponent"
  | .methodNotAllowed name => "Method " ++ name ++ " not allowed"
  | .methodNotFound name => "Method " ++ name ++ " not found"
  | .componentNotFound identifier => (Failure.componentNotFound identifier).message
  | .missingSource path => "Missing component source at " ++ path
  | .classNotDefined path name => path ++ " does not define class " ++ name
  | .other => "other"

/-- Why a remote call was turned down before it reached its component. -/
inductive Rejection where
  | signature
  | arguments
deriving DecidableEq, Repr

/-- The name of a rejection. -/
def Rejection.name : Rejection → String
  | .signature => "signature_mismatch"
  | .arguments => "arguments_mismatch"

/-- Something worth a line in the log. -/
inductive Event where
  | failed (kind : String) (detail : Detail)
  | componentCompiled (componentName digest : String)
  | scanCompleted (count : Nat)
  | cacheStored (components : Nat) (includeStyles : Bool)
  | cacheUnavailable
  | cacheInvalid (issues : Nat)
  | cacheVersionMismatch (version : String)
  | cacheNameCollision (componentName : String)
  | cacheLoaded (components : Nat)
  | bootFromCache (configuration : String)
  | bootCacheFallback (configuration : String)
  | callRejected (reason : Rejection)
  | methodCalled
deriving DecidableEq, Repr

/-- The name of an event. -/
def Event.name : Event → String
  | .failed .. => "icecube_error"
  | .componentCompiled .. => "component_compiled"
  | .scanCompleted _ => "scan_completed"
  | .cacheStored .. => "cache_stored"
  | .cacheUnavailable => "cache_unavailable"
  | .cacheInvalid _ => "cache_invalid"
  | .cacheVersionMismatch _ => "cache_version_mismatch"
  | .cacheNameCollision _ => "cache_name_collision"
  | .cacheLoaded _ => "cache_loaded"
  | .bootFromCache _ => "boot_from_cache"
  | .bootCacheFallback _ => "boot_cache_fallback"
  | .callRejected _ => "component_call_rejected"
  | .methodCalled => "component_method_called"

/-- How much an event matters. -/
def Event.level : Event → Level
  | .failed .. => .error
  | .cacheInvalid _ | .cacheVersionMismatch _ | .cacheNameCollision _ | .bootCacheFallback _
  | .callRejected _ => .warning
  | _ => .info

end IceCube
