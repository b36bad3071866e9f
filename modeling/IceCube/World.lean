import IceCube.Build
import IceCube.Component.Class
import IceCube.Environment

/-!
# The world of a process

A process has files, variables, registries, loaded classes, objects and elements.  Objects and
elements are shared: whoever refers to one sees every change.
-/

namespace IceCube

open Component (Classes Value NodeId ObjectId)

/-- An object: its class and its own attributes. -/
structure Instance where
  classId : ClassId
  fields : Table String Value
deriving Repr, Inhabited

/-- An element of a page. -/
structure Element where
  tag : String
  attributes : Table String Value
  children : List Value
deriving Repr, Inhabited

/-- All that a process works on. -/
structure World where
  files : FileTree
  environment : Environment
  registries : Table RegistryId Registry
  classes : Classes
  objects : List Instance
  elements : List Element
  /-- The values that code can refer to by names. -/
  named : Table String Value
  /-- How many ids have been made up. -/
  issued : Nat
  log : List Event
deriving Repr, Inhabited

/-- A step of a process. -/
abbrev Run := ExceptT Error (StateM World)

namespace World

/-- The world of a process that has done nothing. -/
def start (files : FileTree) (environment : Environment) : World where
  files := files
  environment := environment
  registries := []
  classes := []
  objects := []
  elements := []
  named := []
  issued := 0
  log := []

/-- The registry of a name, which is made on first use. -/
def registry (w : World) (id : RegistryId) : Registry :=
  (Table.get? w.registries id).getD .empty

/-- The part of the world that building in one registry works on. -/
def workspace (w : World) (id : RegistryId) : Workspace := ⟨w.files, w.registry id, w.log⟩

/-- The world after building in one registry. -/
def withWorkspace (w : World) (id : RegistryId) (s : Workspace) : World :=
  { w with
    files := s.files
    registries := Table.insert w.registries id s.registry
    log := s.log }

end World

namespace Run

/-- Building in one registry. -/
def build {α : Type} (id : RegistryId) (step : Build α) : Run α := do
  let w ← get
  let (result, s) := step.run (w.workspace id)
  set (w.withWorkspace id s)
  match result with
  | .ok a => return a
  | .error e => throw e

/-- An event is logged. -/
def note (e : Event) : Run Unit := modify fun w ↦ { w with log := w.log ++ [e] }

/-- A failure without details. -/
def fail {α : Type} (f : Failure) : Run α := throw (.failure f)

/-- A failure with details for the log. -/
def failWith {α : Type} (f : Failure) (d : Detail) : Run α := do
  note (.failed f.kind d)
  fail f

/-- A change of one registry. -/
def changeRegistry (id : RegistryId) (change : Registry → Registry) : Run Unit :=
  modify fun w ↦
    { w with registries := Table.insert w.registries id (change (w.registry id)) }

/-! ## Elements -/

/-- A new element. -/
def newElement (e : Element) : Run NodeId := do
  let w ← get
  set { w with elements := w.elements ++ [e] }
  return w.elements.length

/-- An element. -/
def element (id : NodeId) : Run Element := do
  match (← get).elements[id]? with
  | some e => return e
  | none => throw .noKey

/-- A change of an element. -/
def changeElement (id : NodeId) (change : Element → Element) : Run Unit :=
  modify fun w ↦ { w with elements := w.elements.modify id change }

/-- An attribute of an element, nothing where there is none. -/
def elementAttribute (id : NodeId) (name : String) : Run Value := do
  return (Table.get? (← element id).attributes name).getD .none

/-- An element gets an attribute. -/
def setElementAttribute (id : NodeId) (name : String) (v : Value) : Run Unit :=
  changeElement id fun e ↦ { e with attributes := Table.insert e.attributes name v }

/-! ## Objects and classes -/

/-- A new object of a class. -/
def newObject (c : ClassId) : Run ObjectId := do
  let w ← get
  set { w with objects := w.objects ++ [({ classId := c, fields := [] } : Instance)] }
  return w.objects.length

/-- An object. -/
def object (id : ObjectId) : Run Instance := do
  match (← get).objects[id]? with
  | some o => return o
  | none => throw .noKey

/-- An object keeps a value as an attribute of its own. -/
def keep (id : ObjectId) (name : String) (v : Value) : Run Unit :=
  modify fun w ↦ { w with objects := w.objects.modify id fun o ↦
    { o with fields := Table.insert o.fields name v } }

/-- A new class. -/
def newClass (c : Component.Class) : Run ClassId := do
  let w ← get
  set { w with classes := w.classes ++ [c] }
  return w.classes.length

/-- A class gets an attribute. -/
def setClassAttribute (id : ClassId) (name : String) (v : Value) : Run Unit :=
  modify fun w ↦ { w with classes := w.classes.modify id (·.setAttribute name v) }

/-- An id that no object has had before. -/
def freshId : Run String := do
  let w ← get
  set { w with issued := w.issued + 1 }
  return "icecube-" ++ String.ofList (Text.hexDigits 13 (w.issued + 1))

end Run

end IceCube
