import IceCube.Yaml.Value

/-!
# Nodes of YAML documents

A document is read in two stages.  First all of it is parsed into nodes, and then these are made into
values, from the outermost level of nesting to the innermost.  So a problem of the text shows before
anything that has no value does.
-/

namespace IceCube.Yaml

/-- What is written in a document.  Each entry of a table has the place of its key. -/
inductive Node where
  | scalar (text : String) (quoted : Bool)
  | list (items : List Node)
  | table (entries : List (Mark × Node × Node))
deriving Inhabited

namespace Node

/-- Null, where nothing is written. -/
def nothing : Node := .scalar "" false

/-! ## Values -/

/-- What a scalar denotes, null for anything else. -/
def toScalar : Node → Scalar
  | .scalar text true => .text text
  | .scalar text false => Scalar.ofPlain text
  | _ => .null

mutual

/-- The value of a node. -/
def toValue : Node → Value
  | .scalar text quoted => .scalar (toScalar (.scalar text quoted))
  | .list items => .list (toValues items)
  | .table entries => .table (toEntries entries [])

/-- The values of nodes. -/
def toValues : List Node → List Value
  | [] => []
  | n :: ns => toValue n :: toValues ns

/-- The entries of a table, after those that have been read. -/
def toEntries : List (Mark × Node × Node) → List (Scalar × Value) → List (Scalar × Value)
  | [], read => read
  | (_, key, value) :: rest, read => toEntries rest (insertEntry key.toScalar value.toValue read)

end

/-! ## Nodes without a value -/

/-- What keeps a scalar from having a value. -/
def scalarFlaw? : Node → Option Error
  | .scalar text false => Scalar.flaw? text
  | _ => none

/-- What keeps an entry from having a key and a value. -/
def entryFlaw? : Mark × Node × Node → Option Error
  | (_, .scalar text quoted, value) => (scalarFlaw? (.scalar text quoted)).or value.scalarFlaw?
  | (mark, _, _) => some (.problem "found unhashable key" mark)

/-- What shows of a node when what is directly in it is made. -/
def levelFlaw? : Node → Option Error
  | .scalar .. => none
  | .list items => items.findSome? scalarFlaw?
  | .table entries => entries.findSome? entryFlaw?

/-- The values directly in a node. -/
def children : Node → List Node
  | .scalar .. => []
  | .list items => items
  | .table entries => entries.map fun e ↦ e.2.2

/-- What shows first when some nodes and all that is in them are made, level by level, given how many
levels there are at most. -/
def flaw? : (levels : Nat) → List Node → Option Error
  | 0, _ => none
  | levels + 1, ns => (ns.findSome? levelFlaw?).or (flaw? levels (ns.flatMap children))

/-- The value of a document with a number of levels at most. -/
def make (levels : Nat) (n : Node) : Except Error Value :=
  match n.scalarFlaw?.or (flaw? levels [n]) with
  | some e => .error e
  | none => .ok n.toValue

end Node

end IceCube.Yaml
