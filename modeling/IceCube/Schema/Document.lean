import IceCube.Json.Basic
import IceCube.Schema.Issue

/-!
# Documents to check

A schema looks at one level of a document at a time, so that the same checks serve every kind of
document that can show its outermost level.
-/

namespace IceCube.Schema

open Number (Binary64)

/-- A key of a table.  Some kinds of documents have keys that are no text; a step stands for them.
-/
inductive Key where
  | text (name : String)
  | other (step : Step)
deriving DecidableEq, Repr

/-- The step into the value under a key. -/
def Key.step : Key → Step
  | .text name => .key name
  | .other step => step

/-- The outermost level of a document. -/
inductive Shape (δ : Type) where
  | null
  | bool (b : Bool)
  | int (i : Int)
  | float (x : Binary64)
  | text (s : String)
  | list (items : List δ)
  | table (entries : List (Key × δ))

/-- A kind of documents: each shows its outermost level. -/
class Document (δ : Type) where
  shape : δ → Shape δ

/-- The outermost level of a JSON document. -/
def ofJson : Json → Shape Json
  | .null => .null
  | .bool b => .bool b
  | .int i => .int i
  | .float x => .float x
  | .str s => .text s
  | .arr items => .list items
  | .obj members => .table (members.map fun m ↦ (.text m.1, m.2))

instance : Document Json := ⟨ofJson⟩

end IceCube.Schema
