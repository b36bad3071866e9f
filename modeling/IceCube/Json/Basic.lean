import IceCube.Number.Binary64
import IceCube.Table

/-!
# JSON documents

A document keeps the order of its members and the difference between an integer and a number with a
fraction or an exponent.
-/

namespace IceCube

open Number (Binary64)

/-- A JSON document.  Numbers without a fraction or an exponent are integers of any size. -/
inductive Json where
  | null
  | bool (b : Bool)
  | int (i : Int)
  | float (x : Binary64)
  | str (s : String)
  | arr (items : List Json)
  | obj (members : List (String × Json))
deriving Repr, BEq, Inhabited

namespace Json

/-- The members of an object. -/
def members? : Json → Option (Table String Json)
  | .obj ms => some ms
  | _ => none

/-- The value of a member of an object. -/
def member? (v : Json) (name : String) : Option Json :=
  v.members?.bind (Table.get? · name)

/-- An array of texts. -/
def ofTexts (ss : List String) : Json := .arr (ss.map .str)

/-- A text, or null where there is none. -/
def ofText? : Option String → Json
  | some s => .str s
  | none => .null

mutual

/-- The document with one member for each name of an object: the last value in the first place. -/
def settle : Json → Json
  | .arr vs => .arr (settleItems vs)
  | .obj ms => .obj (Table.ofEntries (settleMembers ms))
  | v => v

/-- The items with all names of their objects settled. -/
def settleItems : List Json → List Json
  | [] => []
  | v :: vs => settle v :: settleItems vs

/-- The members with all names of the objects in them settled. -/
def settleMembers : List (String × Json) → List (String × Json)
  | [] => []
  | (name, v) :: ms => (name, settle v) :: settleMembers ms

end

end Json

end IceCube
