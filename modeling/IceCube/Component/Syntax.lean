import IceCube.Json.Basic

/-!
# The component language

The code of a component is a list of statements that define classes and values.  A class has a
constructor, a rendering and members, whose bodies set attributes and compute values by expressions.
-/

namespace IceCube.Component

/-- An expression. -/
inductive Expr where
  | lit (v : Json)
  /-- A value taken as HTML. -/
  | markup (e : Expr)
  /-- The texts of values, one after the other. -/
  | concat (es : List Expr)
  | node (tag : String) (attributes : List (String × Expr)) (children : List Expr)
  /-- An object by its name outside the code. -/
  | object (name : String)
  | arg (name : String)
  /-- An attribute of the object itself. -/
  | field (name : String)
  | ownId
  | self
  /-- The rendered text of the object itself. -/
  | ownText
  /-- The content of a slot, with what stands there when the slot is empty. -/
  | slot (name : String) (fallback : Option Expr)
  /-- The content of a slot, or the id of the object. -/
  | slotOrId (name : String)
deriving Repr, Inhabited

/-- A statement of a body. -/
inductive Action where
  | set (field : String) (e : Expr)
  | add (field : String) (e : Expr)
  | fail (kind message : String)
deriving Repr, Inhabited

/-- A parameter. -/
structure Param where
  name : String
  default : Option Json
  /-- Whether it takes all further arguments. -/
  star : Bool
  /-- Whether it is given only by name. -/
  keywordOnly : Bool
  /-- The attribute in which a constructor keeps it. -/
  store : String
deriving Repr, Inhabited

/-- What a body of a member does. -/
structure Method where
  params : List Param
  body : List Action
  returns : Expr
deriving Repr, Inhabited

/-- A member of a class. -/
inductive Member where
  | method (m : Method)
  | static (m : Method)
  | classMethod (m : Method)
  | property (m : Method)
  | value (v : Json)
deriving Repr, Inhabited

/-- What a class is built on. -/
inductive Base (κ : Type) where
  /-- Any object. -/
  | object
  /-- An object with an id, slots and a rendering. -/
  | component
  /-- A component whose root element carries its name and state. -/
  | single
  /-- A component that also takes remote calls. -/
  | ice
  /-- Another class. -/
  | class (name : κ)
deriving Repr, DecidableEq, Inhabited

/-- A class as it is written. -/
structure ClassSpec where
  name : String
  base : Base String
  qualifiedName : Option String
  componentName : Option Json
  identifier : Option Json
  stateFields : Option (List String)
  params : Option (List Param)
  init : List Action
  render : Option Expr
  members : List (String × Member)
deriving Repr, Inhabited

/-- A definition. -/
inductive Definition where
  | value (name : String) (v : Json)
  | class (spec : ClassSpec)
deriving Repr, Inhabited

/-- A statement of the code of a component. -/
inductive Statement where
  | define (d : Definition)
  | fail (kind message : String)
deriving Repr, Inhabited

end IceCube.Component
