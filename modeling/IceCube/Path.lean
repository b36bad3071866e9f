/-!
# Paths

A path is a root and parts.  Empty parts and single dots are left out when a path is read; double
dots stay, because what they mean depends on the directories that are there.
-/

namespace IceCube

/-- Where a path starts. -/
inductive Root where
  | relative
  | slash
  | doubleSlash
deriving DecidableEq, Repr, Inhabited

/-- How a root is written. -/
def Root.text : Root → String
  | .relative => ""
  | .slash => "/"
  | .doubleSlash => "//"

/-- A path. -/
structure Path where
  root : Root
  parts : List String
deriving DecidableEq, Repr, Inhabited

namespace Path

/-- The pieces of a text between slashes. -/
def splitOn (separator : Char) : List Char → List (List Char)
  | [] => [[]]
  | c :: cs =>
    if c == separator then [] :: splitOn separator cs
    else match splitOn separator cs with
      | [] => [[c]]
      | p :: ps => (c :: p) :: ps

/-- The root of a written path: exactly two slashes are a root of their own. -/
def rootOf : List Char → Root
  | '/' :: '/' :: '/' :: _ => .slash
  | '/' :: '/' :: _ => .doubleSlash
  | '/' :: _ => .slash
  | _ => .relative

/-- The path that a text writes. -/
def ofText (s : String) : Path :=
  let cs := s.toList
  let pieces := splitOn '/' cs
  { root := rootOf cs
    parts := (pieces.filter fun p ↦ !(p.isEmpty || p == ['.'])).map String.ofList }

/-- The written form of a path, a dot for the path without root and parts. -/
def text (p : Path) : String :=
  if p.root = .relative ∧ p.parts = [] then "." else p.root.text ++ "/".intercalate p.parts

/-- Whether a path starts at a root. -/
def isAbsolute (p : Path) : Bool := p.root != .relative

/-- A path seen from a directory.  An absolute path stays what it is. -/
def join (base p : Path) : Path :=
  if p.isAbsolute then p else { base with parts := base.parts ++ p.parts }

/-- The path of a written path seen from a directory. -/
def joinText (base : Path) (s : String) : Path := base.join (ofText s)

/-- The last part, empty where there is none. -/
def name (p : Path) : String := p.parts.getLastD ""

/-- The path without its last part. -/
def parent (p : Path) : Path := { p with parts := p.parts.dropLast }

/-- The path with another last part. -/
def withName (p : Path) (name : String) : Path :=
  { p with parts := p.parts.dropLast ++ [name] }

end Path

end IceCube
