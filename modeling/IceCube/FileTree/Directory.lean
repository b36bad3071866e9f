import IceCube.FileTree.Basic

/-!
# Making and removing directories
-/

namespace IceCube.FileTree

/-- The tree with a new directory in one that exists. -/
def createDirectory (t : FileTree) (mode : Nat) (p : Path) : Except Fault FileTree := do
  let l ← t.locate p
  match t.at? l, t.at? l.dropLast with
  | some _, _ => .error ⟨.exists, p.text⟩
  | none, some (.directory _) => return t.set l (.directory mode)
  | none, _ => .error ⟨.notFound, p.text⟩

/-- The tree with a directory and those above it, given the number of parts of its path. -/
def makeWithParents (t : FileTree) : (parts : Nat) → (mode : Nat) → Path → Except Fault FileTree
  | parts, mode, p =>
    match t.createDirectory mode p with
    | .ok t => .ok t
    | .error ⟨.notFound, path⟩ =>
      match parts with
      | 0 => .error ⟨.notFound, path⟩
      | parts + 1 => do
        let t ← makeWithParents t parts parentMode p.parent
        t.createDirectory mode p
    | .error fault => if t.isDirectory p then .ok t else .error fault

/-- The tree with a directory of the given permission bits at a path, and with those above it.  A
directory that exists stays as it is. -/
def makeDirectories (t : FileTree) (mode : Nat) (p : Path) : Except Fault FileTree :=
  makeWithParents t p.parts.length mode p

/-- The tree with a directory for compiled output. -/
def ensureDirectory (t : FileTree) (p : Path) : Except Fault FileTree :=
  if t.isDirectory p then .ok t else t.makeDirectories outputMode p

/-- The tree without a node and all that is below it. -/
def remove (t : FileTree) (p : Path) : Except Fault FileTree := do
  let l ← t.locate p
  match t.at? l with
  | some _ => return { t with nodes := t.nodes.filter fun e ↦ !l.isPrefixOf e.1 }
  | none => .error ⟨.notFound, p.text⟩

/-- The nodes strictly below a location, with the names that lead to them from there. -/
def below (t : FileTree) (l : Location) : List (Location × Node) :=
  t.nodes.filterMap fun e ↦
    if l.isPrefixOf e.1 && l.length < e.1.length then some (e.1.drop l.length, e.2) else none

end IceCube.FileTree
