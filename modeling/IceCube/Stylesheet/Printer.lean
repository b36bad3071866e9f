import IceCube.Stylesheet.Nested

/-!
# Printing flat style rules

Compressed sheets have no spaces that can be left out; expanded ones have a line for every
declaration.  A sheet with characters outside ASCII says so at its start.
-/

namespace IceCube.Stylesheet

/-- How a sheet is laid out. -/
inductive Output where
  | compressed
  | expanded
deriving DecidableEq, Repr, Inhabited

/-- The sign of a combinator. -/
def Combinator.sign : Combinator → List Char
  | .descendant => [' ']
  | .child => ['>']
  | .adjacent => ['+']
  | .sibling => ['~']

/-- What stands between two compound selectors, or before the first one. -/
def Combinator.text (output : Output) (first : Bool) (c : Combinator) : List Char :=
  match c, output with
  | .descendant, _ => if first then [] else [' ']
  | _, .compressed => c.sign
  | _, .expanded => (if first then [] else [' ']) ++ c.sign ++ [' ']

/-- A chain of compound selectors. -/
def Selector.print (output : Output) (s : Selector) : List Char :=
  (s.mapIdx fun i c ↦ c.combinator.text output (i == 0) ++ c.text).flatten

/-- A flat rule. -/
def FlatRule.print (output : Output) (r : FlatRule) : List Char :=
  let selectors := r.selectors.map (Selector.print output)
  match output with
  | .compressed =>
    List.intercalate [','] selectors ++ ['\x7b']
      ++ List.intercalate [';'] (r.declarations.map fun d ↦ d.property ++ ':' :: d.value)
      ++ ['\x7d']
  | .expanded =>
    List.intercalate [',', ' '] selectors ++ [' ', '\x7b', '\n']
      ++ (r.declarations.flatMap fun d ↦
        ' ' :: ' ' :: d.property ++ ':' :: ' ' :: d.value ++ [';', '\n'])
      ++ ['\x7d', '\n']

/-- What a sheet with characters outside ASCII starts with. -/
def charsetMark : Output → List Char
  | .compressed => ['\ufeff']
  | .expanded => "@charset \"UTF-8\";\n".toList

/-- A sheet of flat rules, with a line end after it unless it is empty. -/
def print (output : Output) (rules : List FlatRule) : String :=
  let text := match output with
    | .compressed => rules.flatMap (FlatRule.print output)
    | .expanded => List.intercalate ['\n'] (rules.map (FlatRule.print output))
  if text.isEmpty then ""
  else
    let mark := if text.all fun c ↦ c.toNat < 128 then [] else charsetMark output
    let ending := if text.getLast? == some '\n' then [] else ['\n']
    String.ofList (mark ++ text ++ ending)

end IceCube.Stylesheet
