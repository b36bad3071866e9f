import IceCube.Path

/-!
# Identifiers

An identifier is a text of segments between dots.  The name of a component is its identifier with an
underscore for every dot; it names files and scopes styles, so two identifiers must not share one.
-/

namespace IceCube.Identifier

/-- The character between two segments. -/
def separator : Char := '.'

/-- The component name of an identifier. -/
def flatten (identifier : String) : String :=
  String.ofList (identifier.toList.map fun c ↦ if c == separator then '_' else c)

/-- The segments of an identifier. -/
def segments (identifier : String) : List String :=
  (Path.splitOn separator identifier.toList).map String.ofList

/-- The last segment: the name of the class of a component. -/
def className (identifier : String) : String := (segments identifier).getLastD ""

/-- An identifier below a prefix. -/
def below (start name : String) : String := start ++ "." ++ name

/-- What follows a prefix and its dot. -/
def after? (start identifier : String) : Option String :=
  let cs := start.toList ++ [separator]
  if cs.isPrefixOf identifier.toList then some (String.ofList (identifier.toList.drop cs.length))
  else none

end IceCube.Identifier
