import IceCube.Component.Value
import IceCube.Number.Shortest
import IceCube.Text.Quoted

/-!
# Values as texts

Inside lists and tables a text is shown in quotes, so that the kinds of values can be told apart.
-/

namespace IceCube.Component.Value

/-- A number with a fraction or an exponent. -/
def floatText (x : Number.Binary64) : String := String.ofList (Number.plain.text x)

mutual

/-- A value as it is shown inside a list. -/
def shown : Value → String
  | .none => "None"
  | .bool b => if b then "True" else "False"
  | .int i => toString i
  | .float x => floatText x
  | .text s => Text.quoted s
  | .markup s => "Markup(" ++ Text.quoted s ++ ")"
  | .list vs => "[" ++ ", ".intercalate (shownAll vs) ++ "]"
  | .tuple vs =>
    match shownAll vs with
    | [one] => "(" ++ one ++ ",)"
    | all => "(" ++ ", ".intercalate all ++ ")"
  | .dict es => "\x7b" ++ ", ".intercalate (shownEntries es) ++ "\x7d"
  | .node _ => "<node>"
  | .object _ => "<object>"
  | .idOf | .callable => "<function>"

/-- Values as they are shown. -/
def shownAll : List Value → List String
  | [] => []
  | v :: vs => shown v :: shownAll vs

/-- Entries as they are shown. -/
def shownEntries : List (String × Value) → List String
  | [] => []
  | (name, v) :: es => (Text.quoted name ++ ": " ++ shown v) :: shownEntries es

end

end IceCube.Component.Value
