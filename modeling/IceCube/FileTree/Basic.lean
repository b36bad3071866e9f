import IceCube.Path
import IceCube.Table
import IceCube.Text.Utf8

/-!
# File trees

A file tree holds a node for every location that exists.  A location is the list of names that leads
to it from the root.  There are no links, so a location has one list.  Every write takes a new time
from the clock of the tree and leaves it on the file.
-/

namespace IceCube

/-- The names from the root to a node. -/
abbrev Location := List String

/-- A file with its permission bits and the time of its last write, or a directory. -/
inductive Node where
  | file (content : Bytes) (mode : Nat) (modified : Nat)
  | directory (mode : Nat)
deriving DecidableEq, Repr, Inhabited

/-- The ways in which an access to a file tree fails. -/
inductive FaultKind where
  | notFound
  | exists
  | notADirectory
  | isADirectory
deriving DecidableEq, Repr

/-- A failed access, with the path as it was asked for. -/
structure Fault where
  kind : FaultKind
  path : String
deriving DecidableEq, Repr

/-- The number of a kind of fault. -/
def FaultKind.number : FaultKind → Nat
  | .notFound => 2
  | .exists => 17
  | .notADirectory => 20
  | .isADirectory => 21

/-- The wording of a kind of fault. -/
def FaultKind.message : FaultKind → String
  | .notFound => "No such file or directory"
  | .exists => "File exists"
  | .notADirectory => "Not a directory"
  | .isADirectory => "Is a directory"

/-- All nodes, the directory where relative paths start, and the time. -/
structure FileTree where
  nodes : Table Location Node
  current : Location
  clock : Nat
deriving Repr, Inhabited

namespace FileTree

/-- Permission bits of directories that are made on the way to another one. -/
def parentMode : Nat := 0o755

/-- Permission bits of directories for compiled output. -/
def outputMode : Nat := 0o750

/-- Permission bits of files. -/
def fileMode : Nat := 0o644

/-- Permission bits of files that are not complete yet. -/
def privateMode : Nat := 0o600

/-- The tree in which only the current directory and those above it exist. -/
def empty (current : Location) : FileTree where
  nodes := (List.range (current.length + 1)).map fun n ↦ (current.take n, .directory parentMode)
  current := current
  clock := 1

/-- The node at a location. -/
def at? (t : FileTree) (l : Location) : Option Node := Table.get? t.nodes l

/-- The tree with a node at a location. -/
def set (t : FileTree) (l : Location) (n : Node) : FileTree :=
  { t with nodes := Table.insert t.nodes l n }

/-- The tree without a location. -/
def drop (t : FileTree) (l : Location) : FileTree := { t with nodes := Table.erase t.nodes l }

/-- The location that parts lead to from a directory.  All but the last part have to lead through
directories. -/
def walk (t : FileTree) (path : String) : List String → Location → Except Fault Location
  | [], l => .ok l
  | part :: parts, l =>
    match t.at? l with
    | some (.directory _) => walk t path parts (if part = ".." then l.dropLast else l ++ [part])
    | some (.file ..) => .error ⟨.notADirectory, path⟩
    | none => .error ⟨.notFound, path⟩

/-- The location of a path, whether or not there is a node. -/
def locate (t : FileTree) (p : Path) : Except Fault Location :=
  t.walk p.text p.parts (if p.isAbsolute then [] else t.current)

/-- The node at a path. -/
def node? (t : FileTree) (p : Path) : Option Node :=
  (t.locate p).toOption.bind t.at?

/-- Whether there is a node at a path. -/
def pathExists (t : FileTree) (p : Path) : Bool := (t.node? p).isSome

/-- Whether there is a file at a path. -/
def isFile (t : FileTree) (p : Path) : Bool := match t.node? p with
  | some (.file ..) => true
  | _ => false

/-- Whether there is a directory at a path. -/
def isDirectory (t : FileTree) (p : Path) : Bool := match t.node? p with
  | some (.directory _) => true
  | _ => false

/-- The content of a file. -/
def read (t : FileTree) (p : Path) : Except Fault Bytes := do
  let l ← t.locate p
  match t.at? l with
  | some (.file content ..) => return content
  | some (.directory _) => .error ⟨.isADirectory, p.text⟩
  | none => .error ⟨.notFound, p.text⟩

/-- The tree with new content for a file, which is made where there was none. -/
def write (t : FileTree) (p : Path) (content : Bytes) : Except Fault FileTree := do
  let l ← t.locate p
  let stamped := { t with clock := t.clock + 1 }
  match t.at? l, t.at? l.dropLast with
  | some (.file _ mode _), _ => return stamped.set l (.file content mode t.clock)
  | some (.directory _), _ => .error ⟨.isADirectory, p.text⟩
  | none, some (.directory _) => return stamped.set l (.file content fileMode t.clock)
  | none, _ => .error ⟨.notFound, p.text⟩

/-- The names in a directory, in order. -/
def names (t : FileTree) (l : Location) : List String :=
  (t.nodes.filterMap fun e ↦
    if !e.1.isEmpty && e.1.dropLast == l then e.1.getLast? else none).mergeSort

end FileTree

end IceCube
