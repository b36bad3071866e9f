import IceCube.Cache
import IceCube.Compiler.Basic

/-!
# Registries

A registry holds the record of every registered identifier, the identifier that owns each component
name, the classes that are loaded, and the compilers to ask for identifiers that are not registered.
-/

namespace IceCube

/-- The components of one process or worker. -/
structure Registry where
  records : Table String Record
  owners : Table String String
  loaded : Table String ClassId
  compilers : List Compiler
deriving Repr, DecidableEq, Inhabited

namespace Registry

/-- The registry without any components. -/
def empty : Registry := ⟨[], [], [], []⟩

/-- The record of an identifier. -/
def get? (r : Registry) (identifier : String) : Option Record := Table.get? r.records identifier

/-- The record of the identifier that owns a component name. -/
def getByName? (r : Registry) (componentName : String) : Option Record :=
  (Table.get? r.owners componentName).bind r.get?

/-- The failure of an identifier to own a name that another one owns. -/
def checkName (r : Registry) (identifier componentName : String) : Except Failure Unit :=
  match Table.get? r.owners componentName with
  | some existing =>
    if existing = identifier then .ok ()
    else .error (.nameCollision componentName identifier existing)
  | none => .ok ()

/-- The registry with a record for an identifier, unless another one owns the component name. -/
def register (r : Registry) (identifier : String) (record : Record) : Except Failure Registry := do
  r.checkName identifier record.componentName
  return { r with
    records := Table.insert r.records identifier record
    owners := Table.insert r.owners record.componentName identifier }

/-- The registry with one more compiler to ask. -/
def attach (r : Registry) (c : Compiler) : Registry :=
  if r.compilers.contains c then r else { r with compilers := r.compilers ++ [c] }

/-- The first compiler that covers an identifier. -/
def compilerFor? (r : Registry) (identifier : String) : Option Compiler :=
  r.compilers.find? fun c ↦ c.handles identifier

/-- The registry with a class loaded for an identifier. -/
def setLoaded (r : Registry) (identifier : String) (c : ClassId) : Registry :=
  { r with loaded := Table.insert r.loaded identifier c }

/-! ## Caches -/

/-- The first name among cached components that its identifier cannot own, given who owns which
name. -/
def firstCollision? : (owners : Table String String) → List CachedComponent → Option String
  | _, [] => none
  | owners, c :: cs =>
    let (owner, owners) := Table.getOrInsert owners c.componentName c.identifier
    if owner = c.identifier then firstCollision? owners cs else some c.componentName

/-- The registry with all components of a cache. -/
def registerAll (r : Registry) (cached : List CachedComponent) : Except Failure Registry :=
  cached.foldlM (fun r c ↦ r.register c.identifier (.cached c)) r

/-- The cache of all records. -/
def toCache (r : Registry) (includeStyles : Bool) : Cache :=
  .ofRecords r.records.values includeStyles

end Registry

end IceCube
