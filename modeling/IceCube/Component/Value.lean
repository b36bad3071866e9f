import IceCube.Json.Basic

/-!
# Values of components

Besides the values of JSON documents there are HTML texts, fixed lists, and references to elements
and objects, which are shared by all that refer to them.
-/

namespace IceCube.Component

open Number (Binary64)

/-- The identity of an element. -/
abbrev NodeId := Nat

/-- The identity of an object. -/
abbrev ObjectId := Nat

/-- A value. -/
inductive Value where
  | none
  | bool (b : Bool)
  | int (i : Int)
  | float (x : Binary64)
  | text (s : String)
  /-- A text that is HTML. -/
  | markup (s : String)
  | list (items : List Value)
  | tuple (items : List Value)
  | dict (entries : List (String × Value))
  | node (id : NodeId)
  | object (id : ObjectId)
  /-- The function that gives the id of a component. -/
  | idOf
  /-- Another function. -/
  | callable
deriving Repr, BEq, Inhabited

namespace Value

mutual

/-- A document as a value. -/
def ofJson : Json → Value
  | .null => .none
  | .bool b => .bool b
  | .int i => .int i
  | .float x => .float x
  | .str s => .text s
  | .arr vs => .list (ofItems vs)
  | .obj ms => .dict (ofMembers ms)

/-- Documents as values. -/
def ofItems : List Json → List Value
  | [] => []
  | v :: vs => ofJson v :: ofItems vs

/-- The members of a document as entries. -/
def ofMembers : List (String × Json) → List (String × Value)
  | [] => []
  | (name, v) :: ms => (name, ofJson v) :: ofMembers ms

end

mutual

/-- A value as a document.  Elements, objects and what can be called have none. -/
def toJson? : Value → Option Json
  | .none => some .null
  | .bool b => some (.bool b)
  | .int i => some (.int i)
  | .float x => some (.float x)
  | .text s | .markup s => some (.str s)
  | .list vs | .tuple vs => (itemsToJson? vs).map .arr
  | .dict es => (entriesToJson? es).map .obj
  | .node _ | .object _ | .idOf | .callable => Option.none

/-- Values as documents. -/
def itemsToJson? : List Value → Option (List Json)
  | [] => some []
  | v :: vs => do
    let j ← toJson? v
    let js ← itemsToJson? vs
    return j :: js

/-- Entries as members. -/
def entriesToJson? : List (String × Value) → Option (List (String × Json))
  | [] => some []
  | (name, v) :: es => do
    let j ← toJson? v
    let js ← entriesToJson? es
    return (name, j) :: js

end

/-- Whether a value counts as true.  Nothing, zero and what is empty do not. -/
def isTrue : Value → Bool
  | .none => false
  | .bool b => b
  | .int i => i != 0
  | .float x => !x.isZero
  | .text s | .markup s => !s.isEmpty
  | .list vs | .tuple vs => !vs.isEmpty
  | .dict es => !es.isEmpty
  | .node _ | .object _ | .idOf | .callable => true

/-- The integer of a truth value or integer. -/
def int? : Value → Option Int
  | .bool b => some (if b then 1 else 0)
  | .int i => some i
  | _ => Option.none

/-- The floating-point number of a number, infinite for an integer beyond all of them. -/
def float? : Value → Option Binary64
  | .float x => some x
  | v => v.int?.map Binary64.ofInt

end Value

end IceCube.Component
