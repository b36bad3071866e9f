import IceCube.Component.Text
import IceCube.Markup.Html
import IceCube.World

/-!
# Evaluating component code

An expression is evaluated along its structure.  What reaches the code of another object, or of the
same one again, goes through a `Dispatch`, which bounds how deeply such calls can nest.
-/

namespace IceCube.Component

/-- What an evaluation asks of objects and elements. -/
structure Dispatch where
  /-- The rendered text of an object. -/
  text : ObjectId → Run String
  /-- An element with all that is in it. -/
  html : NodeId → Run Html
  /-- An attribute of an object. -/
  get : ObjectId → String → Run Value
  /-- What a method of an object returns. -/
  call : ObjectId → String → List Value → Run Value

/-- The object that runs, if one does, and its arguments. -/
structure Frame where
  self : Option ObjectId
  args : Table String Value

/-! ## Texts and HTML -/

/-- The text of a value. -/
def textOf (d : Dispatch) : Value → Run String
  | .text s | .markup s => return s
  | .node id => do return (← d.html id).render
  | .object id => d.text id
  | v => return v.shown

/-- A value between tags.  What is HTML stays as it is. -/
def htmlOf (d : Dispatch) : Value → Run Html
  | .markup s => return .raw s
  | .node id => d.html id
  | .object id => do
    let s ← d.text id
    let w ← get
    let isComponent := match w.objects[id]? with
      | some o => w.classes.isComponent o.classId
      | none => false
    return if isComponent then .raw s else .text s
  | v => do return .text (← textOf d v)

/-- A value as the value of an attribute. -/
def attributeOf (d : Dispatch) : Value → Run AttributeValue
  | .none | .bool false => return .absent
  | .bool true => return .flag
  | v => do
    match ← htmlOf d v with
    | .text s => return .text s
    | h => return .raw h.render

/-- A child of an element. -/
def childOf (d : Dispatch) : Value → Run Html
  | .none => return .absent
  | v => htmlOf d v

/-- An element with all that is in it. -/
def elementHtml (d : Dispatch) (id : NodeId) : Run Html := do
  let e ← Run.element id
  let attributes ← e.attributes.mapM fun a ↦ do
    let v ← attributeOf d a.2
    return (a.1, v)
  let children ← if Html.isVoid e.tag then pure [] else e.children.mapM (childOf d)
  return .element e.tag attributes children

/-! ## Sums -/

/-- The sum of two numbers: an integer if both are, else rounded. -/
def addNumbers (a b : Value) : Run Value :=
  match a.int?, b.int?, a.float?, b.float? with
  | some i, some j, _, _ => return .int (i + j)
  | _, _, some x, some y =>
    let beyond (v : Value) (x : Number.Binary64) : Bool := v.int?.isSome && !x.isFinite
    if beyond a x || beyond b y then throw .overflow else return .float (x.add y)
  | _, _, _, _ => throw .mismatch

/-- Whether a value is HTML or has an HTML form. -/
def isMarkup (w : World) : Value → Bool
  | .markup _ | .node _ => true
  | .object id => match w.objects[id]? with
    | some o => w.classes.isComponent o.classId
    | none => false
  | _ => false

/-- Whether a value can be joined to HTML. -/
def joinsMarkup (w : World) : Value → Bool
  | .text _ => true
  | v => isMarkup w v

/-- The sum of two values: numbers are added, and texts and lists are joined.  A text that is joined
to HTML is escaped. -/
def add (d : Dispatch) (a b : Value) : Run Value := do
  let w ← get
  match a, b with
  | .text s, .text t => return .text (s ++ t)
  | .list xs, .list ys => return .list (xs ++ ys)
  | .tuple xs, .tuple ys => return .tuple (xs ++ ys)
  | .markup s, b =>
    if joinsMarkup w b then return .markup (s ++ (← htmlOf d b).render) else throw .mismatch
  | a, .markup t =>
    if joinsMarkup w a then return .markup ((← htmlOf d a).render ++ t) else throw .mismatch
  | a, b => addNumbers a b

/-! ## Expressions -/

/-- The object that runs. -/
def Frame.object (f : Frame) : Run ObjectId :=
  match f.self with
  | some id => return id
  | none => throw .noKey

mutual

/-- The value of an expression. -/
def eval (d : Dispatch) (f : Frame) : Expr → Run Value
  | .lit v => return .ofJson v
  | .markup e => do return .markup (← textOf d (← eval d f e))
  | .concat es => do return .text (String.join (← evalTexts d f es))
  | .node tag attributes children => do
    let attributes ← evalAttributes d f attributes
    let children ← evalAll d f children
    return .node (← Run.newElement ⟨tag, Table.ofEntries attributes, children⟩)
  | .object name => do
    match Table.get? (← get).named name with
    | some v => return v
    | none => throw .noKey
  | .arg name =>
    match Table.get? f.args name with
    | some v => return v
    | none => throw .noKey
  | .field name => do d.get (← f.object) name
  | .ownId => do d.get (← f.object) "id"
  | .self => do return .object (← f.object)
  | .ownText => do return .text (← d.text (← f.object))
  | .slot name none => do d.call (← f.object) "slot" [.text name]
  | .slot name (some e) => do
    let fallback ← eval d f e
    d.call (← f.object) "slot" [.text name, fallback]
  | .slotOrId name => do d.call (← f.object) "slot" [.text name, .idOf]

/-- The values of expressions. -/
def evalAll (d : Dispatch) (f : Frame) : List Expr → Run (List Value)
  | [] => return []
  | e :: es => do
    let v ← eval d f e
    let vs ← evalAll d f es
    return v :: vs

/-- The texts of the values of expressions. -/
def evalTexts (d : Dispatch) (f : Frame) : List Expr → Run (List String)
  | [] => return []
  | e :: es => do
    let s ← textOf d (← eval d f e)
    let ss ← evalTexts d f es
    return s :: ss

/-- The values of attributes. -/
def evalAttributes (d : Dispatch) (f : Frame) : List (String × Expr) → Run (List (String × Value))
  | [] => return []
  | (name, e) :: es => do
    let v ← eval d f e
    let vs ← evalAttributes d f es
    return (name, v) :: vs

end

end IceCube.Component
