import IceCube.Component.Syntax
import IceCube.Component.Value
import IceCube.Compiler.Basic

/-!
# Classes

A class finds an attribute in its own definitions first, then in those of the class it is built on,
and so on to one of the four classes that are not defined by code.
-/

namespace IceCube.Component

/-- What a class has under a name. -/
inductive Attribute where
  | member (m : Member)
  | render (e : Expr)
  | value (v : Value)
deriving Repr, Inhabited

/-- A class.  Its attributes can change after it is defined. -/
structure Class where
  name : String
  qualifiedName : String
  module : String
  base : Base ClassId
  params : Option (List Param)
  init : List Action
  attributes : Table String Attribute
deriving Repr, Inhabited

namespace Class

/-- The attributes that a class has by its definition. -/
def attributesOf (spec : ClassSpec) : Table String Attribute :=
  let value (name : String) (v : Option Json) : Table String Attribute :=
    match v with
    | some v => [(name, .value (.ofJson v))]
    | none => []
  let fields : Table String Attribute := match spec.stateFields with
    | some names => [("state_fields", .value (.tuple (names.map .text)))]
    | none => []
  let rendering : Table String Attribute := match spec.render with
    | some e => [("render", .render e)]
    | none => []
  Table.ofEntries (value "component_name" spec.componentName ++ value "identifier" spec.identifier
    ++ fields ++ rendering ++ spec.members.map fun m ↦ (m.1, .member m.2))

/-- A class in a module, on a base that is known. -/
def ofSpec (module : String) (base : Base ClassId) (spec : ClassSpec) : Class where
  name := spec.name
  qualifiedName := spec.qualifiedName.getD spec.name
  module := module
  base := base
  params := spec.params
  init := spec.init
  attributes := attributesOf spec

/-- The class with a value for an attribute. -/
def setAttribute (c : Class) (name : String) (v : Value) : Class :=
  { c with attributes := Table.insert c.attributes name (.value v) }

end Class

/-- All classes, each at the place of its identity. -/
abbrev Classes := List Class

namespace Classes

/-- The classes from one on to the last that code defines, and what that one is built on.  A class
is built on an older one, so there are no more than its identity allows. -/
def chain (cs : Classes) : (fuel : Nat) → ClassId → List Class × Base ClassId
  | 0, _ => ([], .object)
  | fuel + 1, id =>
    match cs[id]? with
    | none => ([], .object)
    | some c =>
      match c.base with
      | .class parent =>
        let (rest, root) := chain cs fuel parent
        (c :: rest, root)
      | root => ([c], root)

/-- The classes that a class inherits from, itself first. -/
def ancestry (cs : Classes) (id : ClassId) : List Class := (cs.chain (id + 1) id).1

/-- What the oldest of the classes that a class inherits from is built on. -/
def root (cs : Classes) (id : ClassId) : Base ClassId := (cs.chain (id + 1) id).2

/-- The attribute of a class, from the first class that has it. -/
def attribute? (cs : Classes) (id : ClassId) (name : String) : Option Attribute :=
  (cs.ancestry id).findSome? fun c ↦ Table.get? c.attributes name

/-- The class whose constructor a class has. -/
def constructor? (cs : Classes) (id : ClassId) : Option Class :=
  (cs.ancestry id).find? fun c ↦ c.params.isSome

/-- Whether a class can have objects: components have to have a rendering. -/
def isConcrete (cs : Classes) (id : ClassId) : Bool :=
  cs.root id == .object || (cs.attribute? id "render").isSome

/-- Whether the objects of a class are components. -/
def isComponent (cs : Classes) (id : ClassId) : Bool := cs.root id != .object

/-- Whether the objects of a class carry their name and state. -/
def isSingle (cs : Classes) (id : ClassId) : Bool :=
  cs.root id == .single || cs.root id == .ice

/-- Whether the objects of a class take remote calls. -/
def isIce (cs : Classes) (id : ClassId) : Bool := cs.root id == .ice

end Classes

/-- Names that the classes without code have, so that no method of these names can be called
remotely. -/
def reservedNames : List String :=
  ["state_fields", "component_name", "identifier", "render", "get_component_name", "expose_state",
   "on_render", "slots", "id", "set_id", "slot", "children", "fill_slot", "register", "mro"]

/-- Whether a method of a name can be called remotely at all. -/
def isReserved (name : String) : Bool :=
  name.toList.head? == some '_' || reservedNames.contains name

end IceCube.Component
