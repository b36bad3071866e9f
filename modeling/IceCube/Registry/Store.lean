import IceCube.Build
import IceCube.Config.Load

/-!
# Caches on disk

A registry is stored as a cache file and filled from one.  A cache file that cannot be used leaves
the registry as it is.
-/

namespace IceCube.Registry

open Build

/-- The registry is stored in a cache file. -/
def storeCache (p : Path) (includeStyles : Bool) : Build Path := do
  let cache := (← get).registry.toCache includeStyles
  ensureDirectory p.parent
  let _ ← writeIfChanged p cache.write
  note (.cacheStored cache.components.length includeStyles)
  return p

/-- What stands against a text as a cache for a registry. -/
def usable (r : Registry) (text : String) : Except Event Cache :=
  match Cache.read text with
  | .bad issues => .error (.cacheInvalid issues.length)
  | .good cache =>
    if cache.version ≠ Cache.formatVersion then .error (.cacheVersionMismatch cache.version)
    else match firstCollision? r.owners cache.components.values with
      | some name => .error (.cacheNameCollision name)
      | none => .ok cache

/-- The registry is filled from a cache file.  The result says whether that could be used. -/
def loadCache (p : Path) : Build Bool := do
  match Config.readText (← get).files p with
  | .error _ =>
    note .cacheUnavailable
    return false
  | .ok text =>
    match (← get).registry.usable text with
    | .error event =>
      note event
      return false
    | .ok cache =>
      changeRegistry (·.registerAll cache.components.values)
      note (.cacheLoaded cache.components.length)
      return true

end IceCube.Registry
