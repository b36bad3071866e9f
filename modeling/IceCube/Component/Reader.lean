import IceCube.Component.Syntax
import IceCube.Json.Reader

/-!
# Reading the component language

A definition is a JSON document between triple quotes.  Lines that are no statement of the language
have no effect.
-/

namespace IceCube.Component

/-! ## Documents as definitions -/

mutual

/-- How deeply a document is nested. -/
def depth : Json → Nat
  | .arr vs => depthAll vs + 1
  | .obj ms => depthMembers ms + 1
  | _ => 1

/-- How deeply the deepest of some documents is nested. -/
def depthAll : List Json → Nat
  | [] => 0
  | v :: vs => max (depth v) (depthAll vs)

/-- How deeply the deepest member is nested. -/
def depthMembers : List (String × Json) → Nat
  | [] => 0
  | (_, v) :: ms => max (depth v) (depthMembers ms)

end

/-- A text, empty where the document is none. -/
def asText : Json → String
  | .str s => s
  | _ => ""

/-- The items of an array. -/
def asItems : Json → List Json
  | .arr vs => vs
  | _ => []

/-- A text member of a document. -/
def textMember? (v : Json) (name : String) : Option String :=
  match v.member? name with
  | some (.str s) => some s
  | _ => none

/-- The items of an array member, none where there is no such member. -/
def itemsMember (v : Json) (name : String) : List Json := asItems ((v.member? name).getD .null)

/-- Whether a member is present and true. -/
def flagMember (v : Json) (name : String) : Bool :=
  match v.member? name with
  | some (.bool b) => b
  | some (.int i) => i != 0
  | _ => false

/-- A document as an expression. -/
def exprOf : (fuel : Nat) → Json → Expr
  | 0, v => .lit v
  | fuel + 1, v =>
    let sub (name : String) : Option Expr := (v.member? name).map (exprOf fuel)
    let slot (name : String) : Expr :=
      if flagMember v "default_id" then .slotOrId name else .slot name (sub "default")
    match v with
    | .obj ((name, inner) :: _) =>
      match v.member? "lit", v.member? "markup", v.member? "concat", v.member? "node" with
      | some w, _, _, _ => .lit w
      | _, some w, _, _ => .markup (exprOf fuel w)
      | _, _, some w, _ => .concat ((asItems w).map (exprOf fuel))
      | _, _, _, some w =>
        .node ((textMember? w "tag").getD "")
          ((itemsMember w "attributes").map fun pair ↦
            match pair with
            | .arr [n, e] => (asText n, exprOf fuel e)
            | _ => ("", .lit .null))
          ((itemsMember w "children").map (exprOf fuel))
      | none, none, none, none =>
        match v.member? "slot", v.member? "children" with
        | some w, _ => slot (asText w)
        | none, some _ => slot "children"
        | none, none =>
          match name with
          | "object" => .object (asText inner)
          | "arg" => .arg (asText inner)
          | "field" => .field (asText inner)
          | "id" => .ownId
          | "self" => .self
          | "str_self" => .ownText
          | _ => .lit v
    | _ => .lit v

/-- A document as an expression. -/
def Expr.ofJson (v : Json) : Expr := exprOf (depth v + 1) v

/-- A document as a statement of a body. -/
def Action.ofJson? : Json → Option Action
  | .arr [.str "set", .str field, e] => some (.set field (.ofJson e))
  | .arr [.str "add", .str field, e] => some (.add field (.ofJson e))
  | .arr [.str "fail", .str kind, .str message] => some (.fail kind message)
  | _ => none

/-- A document as a parameter. -/
def Param.ofJson (v : Json) : Param :=
  let name := (textMember? v "name").getD ""
  { name
    default := v.member? "default"
    star := flagMember v "star"
    keywordOnly := flagMember v "kwonly"
    store := (textMember? v "store").getD name }

/-- A document as what a member does. -/
def Method.ofJson (v : Json) : Method where
  params := (itemsMember v "params").map Param.ofJson
  body := (itemsMember v "body").filterMap Action.ofJson?
  returns := ((v.member? "returns").map Expr.ofJson).getD (.lit .null)

/-- A document as a member with its name. -/
def Member.ofJson (v : Json) : String × Member :=
  let member : Member := match textMember? v "kind" with
    | some "static" => .static (.ofJson v)
    | some "class" => .classMethod (.ofJson v)
    | some "property" => .property (.ofJson v)
    | some "value" => .value ((v.member? "value").getD .null)
    | _ => .method (.ofJson v)
  ((textMember? v "name").getD "", member)

/-- What a word for a base names. -/
def Base.ofText : Option String → Base String
  | none | some "ice" => .ice
  | some "single" => .single
  | some "component" => .component
  | some "object" => .object
  | some name => .class name

/-- A document as a class. -/
def ClassSpec.ofJson (v : Json) : ClassSpec where
  name := (textMember? v "class").getD ""
  base := .ofText (textMember? v "base")
  qualifiedName := textMember? v "qualname"
  componentName := v.member? "component_name"
  identifier := v.member? "identifier"
  stateFields := (v.member? "state_fields").map fun w ↦ (asItems w).map asText
  params := (v.member? "params").map fun w ↦ (asItems w).map Param.ofJson
  init := (itemsMember v "init").filterMap Action.ofJson?
  render := (v.member? "render").map Expr.ofJson
  members := (itemsMember v "members").map Member.ofJson

/-- A document as a definition. -/
def Definition.ofJson (v : Json) : Definition :=
  match textMember? v "name" with
  | some name => .value name ((v.member? "value").getD .null)
  | none => .class (.ofJson v)

/-! ## Code -/

/-- What follows a word at the start of a text. -/
def after? (word : String) (cs : List Char) : Option (List Char) :=
  if word.toList.isPrefixOf cs then some (cs.drop word.length) else none

/-- The text before and after the first place of a word. -/
def splitAt? (word : List Char) : List Char → Option (List Char × List Char)
  | [] => if word.isEmpty then some ([], []) else none
  | c :: cs =>
    if word.isPrefixOf (c :: cs) then some ([], (c :: cs).drop word.length)
    else (splitAt? word cs).map fun (before, rest) ↦ (c :: before, rest)

/-- The characters of a text in single quotes, after the opening one, and what follows. -/
def singleQuoted? : List Char → Option (List Char × List Char)
  | [] => none
  | '\'' :: cs => some ([], cs)
  | '\\' :: 'n' :: cs => (singleQuoted? cs).map fun (text, rest) ↦ ('\n' :: text, rest)
  | '\\' :: c :: cs => (singleQuoted? cs).map fun (text, rest) ↦ (c :: text, rest)
  | c :: cs => (singleQuoted? cs).map fun (text, rest) ↦ (c :: text, rest)

/-- The definition at the start of a text, and what follows. -/
def definition? (cs : List Char) : Option (Statement × List Char) := do
  let rest ← after? "define(r'''" cs
  let (text, rest) ← splitAt? "''')".toList rest
  let v ← Json.read? (String.ofList text)
  return (.define (.ofJson v), rest)

/-- The failing statement at the start of a text, and what follows. -/
def failing? (cs : List Char) : Option (Statement × List Char) := do
  let rest ← after? "fail('" cs
  let (kind, rest) ← singleQuoted? rest
  let rest ← after? "'" ((rest.dropWhile (· == ',')).dropWhile (· == ' '))
  let (message, rest) ← singleQuoted? rest
  return (.fail (String.ofList kind) (String.ofList message), rest)

/-- The statements of a text, at most as many as there are characters. -/
def statements : (fuel : Nat) → List Char → List Statement
  | 0, _ => []
  | _ + 1, [] => []
  | fuel + 1, c :: cs =>
    match definition? (c :: cs) <|> failing? (c :: cs) with
    | some (s, rest) => s :: statements fuel (rest.dropWhile (· != '\n'))
    | none => statements fuel ((c :: cs).dropWhile (· != '\n') |>.drop 1)

/-- The statements of the code of a component. -/
def statementsOf (code : String) : List Statement :=
  statements (code.length + 1) code.toList

end IceCube.Component
