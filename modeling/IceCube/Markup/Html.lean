import IceCube.Markup.Escape

/-!
# HTML

A tree of elements is written as HTML.  Texts are escaped; parts that are HTML already are written
as they are.
-/

namespace IceCube

/-- The value of an attribute. -/
inductive AttributeValue where
  /-- The attribute is left out. -/
  | absent
  /-- The attribute stands without a value. -/
  | flag
  | text (s : String)
  | raw (s : String)
deriving DecidableEq, Repr

/-- A part of a page. -/
inductive Html where
  /-- Nothing is written. -/
  | absent
  | text (s : String)
  | raw (s : String)
  | element (tag : String) (attributes : List (String × AttributeValue)) (children : List Html)
deriving Repr, BEq, Inhabited

namespace Html

/-- The elements that have no content and no closing tag. -/
def voidTags : List String :=
  ["area", "base", "br", "col", "embed", "hr", "img", "input", "link", "meta", "source", "track",
   "wbr"]

/-- Whether an element has no content. -/
def isVoid (tag : String) : Bool := voidTags.contains tag

/-- An attribute, with a space before it. -/
def renderAttribute (name : String) : AttributeValue → String
  | .absent => ""
  | .flag => " " ++ name
  | .text s => " " ++ name ++ "=\"" ++ Markup.escape s ++ "\""
  | .raw s => " " ++ name ++ "=\"" ++ s ++ "\""

/-- All attributes of an element. -/
def renderAttributes (attributes : List (String × AttributeValue)) : String :=
  String.join (attributes.map fun a ↦ renderAttribute a.1 a.2)

mutual

/-- A part as HTML. -/
def render : Html → String
  | .absent => ""
  | .text s => Markup.escape s
  | .raw s => s
  | .element tag attributes children =>
    let opening := "<" ++ tag ++ renderAttributes attributes ++ ">"
    if isVoid tag then opening else opening ++ renderAll children ++ "</" ++ tag ++ ">"

/-- Parts one after the other. -/
def renderAll : List Html → String
  | [] => ""
  | h :: hs => render h ++ renderAll hs

end

end Html

end IceCube
