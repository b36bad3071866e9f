import IceCube.Component.Text
import IceCube.Config.Basic
import IceCube.Json.Writer

/-!
# Manifests of bundlers

A manifest lists the chunks that a bundler has made, with the stylesheets that belong to each.  The
stylesheets of components are packed into one file, which the entry point then lists instead.
-/

namespace IceCube.Manifest

open Component (Value)

/-- Why a manifest cannot be packed. -/
inductive Flaw where
  /-- A value that is not what it has to be. -/
  | mismatch
  /-- A value that lacks what its kind should have. -/
  | noAttribute
deriving DecidableEq, Repr

/-- The integer that a number or a truth value is equal to. -/
def integer? : Json → Option Int
  | .bool b => some (if b then 1 else 0)
  | .int i => some i
  | .float x => x.toInt?
  | _ => none

/-- Whether two items are one: numbers and truth values are compared by value.  Arrays and objects
cannot be told apart from others, so they are no item again. -/
def sameItem (a b : Json) : Bool :=
  match integer? a, integer? b with
  | some i, some j => i == j
  | none, none => match a, b with
    | .float x, .float y => x.valueEq y
    | .str s, .str t => s == t
    | .null, .null => true
    | _, _ => false
  | _, _ => false

/-- The items without those that came before. -/
def distinct : List Json → List Json
  | [] => []
  | v :: vs => v :: (distinct vs).filter fun w ↦ !sameItem v w

/-- Whether an item can be told apart from others. -/
def isScalar : Json → Bool
  | .arr _ | .obj _ => false
  | _ => true

/-- The items that a list of stylesheets stands for. -/
def itemsOf : Json → Except Flaw (List Json)
  | .arr vs => .ok vs
  | .obj ms => .ok (ms.map fun m ↦ .str m.1)
  | .str s => .ok (s.toList.map fun c ↦ .str (String.ofList [c]))
  | _ => .error .mismatch

/-- The name of a chunk as a text. -/
def chunkName (chunk : Table String Json) : String :=
  match Table.get? chunk "name" with
  | some (.str s) => s
  | some v => (Value.ofJson v).shown
  | none => ""

/-- Whether a chunk belongs to the components below a prefix, as far as its name tells. -/
def matchesPrefix (start : String) (chunk : Table String Json) : Bool :=
  start.toList.isPrefixOf (chunkName chunk).toList

/-- The stylesheets of a chunk that belongs to some components, and the chunk without them. -/
def takeStyles (start : String) : Json → Except Flaw (List Json × Json)
  | .obj chunk =>
    match matchesPrefix start chunk, Table.get? chunk "css" with
    | true, some css => do
      let items ← itemsOf css
      return (items, .obj (Table.erase chunk "css"))
    | _, _ => .ok ([], .obj chunk)
  | v => .ok ([], v)

/-- The stylesheets of all chunks of some components, and the chunks without them. -/
def takeAll (start : String) :
    List (String × Json) → Except Flaw (List Json × List (String × Json))
  | [] => .ok ([], [])
  | (key, chunk) :: rest => do
    let (items, chunk) ← takeStyles start chunk
    let (more, rest) ← takeAll start rest
    return (items ++ more, (key, chunk) :: rest)

/-- The stylesheets of the components below a prefix, each once, and the manifest without them. -/
def extract (start : String) : Json → Except Flaw (List Json × Json)
  | .obj chunks => do
    let (items, chunks) ← takeAll start chunks
    if items.all isScalar then return (distinct items, .obj chunks) else .error .mismatch
  | _ => .error .noAttribute

/-- The name of the packed stylesheet of a configuration. -/
def packedName (name : String) : String := "icecube_" ++ name ++ "_styles.css"

/-- Where the packed stylesheet of a configuration is, from the directory of the manifest. -/
def packedFile (name : String) : String := "assets/" ++ packedName name

/-- The chunk of the packed stylesheet of a configuration. -/
def packedChunk (name : String) : Json :=
  .obj [("file", .str (packedFile name)), ("name", .str (packedName name)),
    ("src", .str (packedFile name)), ("isEntry", .bool false), ("isDynamicEntry", .bool false)]

/-- Whether a word stands in a text. -/
def occurs (word : List Char) : List Char → Bool
  | [] => word.isEmpty
  | c :: cs => word.isPrefixOf (c :: cs) || occurs word cs

/-- A list of stylesheets with one more, unless it has it already. -/
def withStyle (file : String) : Json → Except Flaw Json
  | .arr vs => .ok (.arr (if vs.any (sameItem (.str file)) then vs else vs ++ [.str file]))
  | .str s => if occurs file.toList s.toList then .ok (.str s) else .error .noAttribute
  | .obj ms => if Table.contains ms file then .ok (.obj ms) else .error .noAttribute
  | _ => .error .mismatch

/-- A chunk that lists one more stylesheet. -/
def withEntryStyle (file : String) : Json → Except Flaw Json
  | .obj chunk => do
    let css ← withStyle file ((Table.get? chunk "css").getD (.arr []))
    return .obj (Table.insert chunk "css" css)
  | _ => .error .noAttribute

/-- The manifest with the packed stylesheet of a configuration, listed by an entry point. -/
def addPacked (name entry : String) : Json → Except Flaw Json
  | .obj chunks => do
    let chunks := Table.insert chunks (packedName name) (packedChunk name)
    let chunk ← withEntryStyle (packedFile name) ((Table.get? chunks entry).getD (.obj []))
    return .obj (Table.insert chunks entry chunk)
  | _ => .error .mismatch

end IceCube.Manifest
