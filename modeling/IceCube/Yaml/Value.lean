import IceCube.Number.Shortest
import IceCube.Schema.Document
import IceCube.Yaml.Scalar

/-!
# Values of YAML documents

The keys of a table are scalars of any kind.  Keys that are equal as numbers are one key: its first
place and its last value count.
-/

namespace IceCube.Yaml

open Number (Binary64)

/-- A value of a document. -/
inductive Value where
  | scalar (s : Scalar)
  | list (items : List Value)
  | table (entries : List (Scalar × Value))
deriving Repr, BEq, Inhabited

/-- The integer that a truth value or number equals. -/
def Scalar.int? : Scalar → Option Int
  | .bool b => some (if b then 1 else 0)
  | .int i => some i
  | .float x => x.toInt?
  | _ => none

/-- Whether two scalars are one key. -/
def Scalar.sameKey (a b : Scalar) : Bool :=
  match a.int?, b.int? with
  | some i, some j => i == j
  | none, none => match a, b with
    | .float x, .float y => x.valueEq y
    | _, _ => a == b
  | _, _ => false

/-- The entries with a value for a key. -/
def insertEntry (key : Scalar) (value : Value) :
    List (Scalar × Value) → List (Scalar × Value)
  | [] => [(key, value)]
  | (k, v) :: rest =>
    if k.sameKey key then (k, value) :: rest else (k, v) :: insertEntry key value rest

/-- A scalar as a key of a document to check. -/
def Scalar.toKey : Scalar → Schema.Key
  | .null => .other (.key "None")
  | .bool b => .other (.number (if b then 1 else 0))
  | .int i => .other (.number i)
  | .float x => .other (.key (String.ofList (Number.plain.text x)))
  | .text s => .text s

/-- The outermost level of a value. -/
def Value.shape : Value → Schema.Shape Value
  | .scalar .null => .null
  | .scalar (.bool b) => .bool b
  | .scalar (.int i) => .int i
  | .scalar (.float x) => .float x
  | .scalar (.text s) => .text s
  | .list items => .list items
  | .table entries => .table (entries.map fun e ↦ (e.1.toKey, e.2))

instance : Schema.Document Value := ⟨Value.shape⟩

/-- Whether a value counts as no document: null, false, zero, or empty. -/
def Value.isBlank : Value → Bool
  | .scalar .null => true
  | .scalar (.bool b) => !b
  | .scalar (.int i) => i == 0
  | .scalar (.float x) => x.isZero
  | .scalar (.text s) => s.isEmpty
  | .list items => items.isEmpty
  | .table entries => entries.isEmpty

end IceCube.Yaml
