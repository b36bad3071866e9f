import IceCube.Component.Eval
import IceCube.Hash.Sha256
import IceCube.Json.Writer

/-!
# Objects

An object finds an attribute in properties of its class, in its own attributes and in its class, in
this order.  Components have methods that no code defines; a class can define methods of its own in
their place.
-/

namespace IceCube.Component

open Run

/-- The name of the slot of the content of a component. -/
def defaultSlot : String := "children"

/-- The attribute in which a component keeps its id. -/
def idField : String := "_id"

/-- The attribute in which a component keeps its slots. -/
def slotsField : String := "_slots"

/-! ## Arguments -/

/-- The value of a parameter that is left out. -/
def Param.fallback (p : Param) : Except Unit (String × Value) :=
  match p.default with
  | some v => .ok (p.name, .ofJson v)
  | none => .error ()

/-- Values in order for the parameters that take them, and the values left over. -/
def bindInOrder : List Param → List Value → Except Unit (Table String Value × List Value)
  | [], vs => .ok ([], vs)
  | p :: ps, v :: vs => do
    let (bound, rest) ← bindInOrder ps vs
    return ((p.name, v) :: bound, rest)
  | p :: ps, [] => do
    let first ← p.fallback
    let (bound, rest) ← bindInOrder ps []
    return (first :: bound, rest)

/-- Values bound to the parameters of a method, unless they do not fit. -/
def bindValues (params : List Param) (vs : List Value) : Except Unit (Table String Value) := do
  let (bound, rest) ← bindInOrder (params.filter fun p ↦ !p.star && !p.keywordOnly) vs
  let named ← (params.filter fun p ↦ !p.star && p.keywordOnly).mapM Param.fallback
  match params.find? (·.star), rest with
  | some p, rest => return bound ++ [(p.name, .tuple rest)] ++ named
  | none, [] => return bound ++ named
  | none, _ :: _ => .error ()

/-- Values with names bound to the parameters of a constructor, unless they do not fit. -/
def bindNamed (params : List Param) (vs : Table String Value) :
    Except Unit (List (Param × Value)) :=
  let known (name : String) : Bool := params.any fun p ↦ !p.star && p.name == name
  if vs.keys.all known then
    params.mapM fun p ↦
      if p.star then .ok (p, .tuple [])
      else match Table.get? vs p.name with
        | some v => .ok (p, v)
        | none => (p.fallback).map fun e ↦ (p, e.2)
  else .error ()

/-! ## Attributes -/

/-- An object gets an attribute.  Properties cannot be set. -/
def setAttribute (id : ObjectId) (name : String) (v : Value) : Run Unit := do
  let o ← object id
  let cs := (← get).classes
  match cs.attribute? o.classId name with
  | some (.member (.property _)) => throw .noAttribute
  | some _ => keep id name v
  | none =>
    if cs.isComponent o.classId && (name = "id" || name = "slots") then throw .noAttribute
    else keep id name v

/-- An error of a named kind with a message. -/
def raisedError (kind message : String) : Error :=
  if kind = "IceCubeError" then .failure (.general message)
  else if kind = "CompilationError" then .failure (.compilation message)
  else if kind = "ConfigurationError" then .failure (.configuration message none none)
  else if kind = "ComponentNotFoundError" then .failure (.componentNotFound message)
  else if kind = "BadComponentRequest" then .failure (.badRequest message)
  else .raised kind message

/-- The effect of a statement of a body. -/
def perform (d : Dispatch) (f : Frame) : Action → Run Unit
  | .set field e => do
    let v ← eval d f e
    setAttribute (← f.object) field v
  | .add field e => do
    let id ← f.object
    let old ← d.get id field
    let v ← eval d f e
    setAttribute id field (← add d old v)
  | .fail kind message => throw (raisedError kind message)

/-- What a method returns for arguments. -/
def runMethod (d : Dispatch) (self : Option ObjectId) (m : Method) (args : List Value) :
    Run Value := do
  match bindValues m.params args with
  | .error _ => throw .mismatch
  | .ok bound =>
    let f : Frame := ⟨self, bound⟩
    m.body.forM (perform d f)
    eval d f m.returns

/-- The slots of a component. -/
def slots (id : ObjectId) : Run (Table String Value) := do
  match Table.get? (← object id).fields slotsField with
  | some (.dict es) => return es
  | some _ => throw .noAttribute
  | none =>
    keep id slotsField (.dict [])
    return []

/-- The id of a component, which is made up when it is first asked for. -/
def ownId (d : Dispatch) (id : ObjectId) : Run Value := do
  match ← d.get id idField with
  | .none =>
    let _ ← d.call id "set_id" []
    d.get id idField
  | v => return v

/-- The methods that no code defines, of all components and of those with a name and state. -/
def builtinNames (isSingle : Bool) : List String :=
  ["set_id", "slot", "children", "fill_slot", "render"]
    ++ if isSingle then ["get_component_name", "expose_state", "on_render"] else []

/-- An attribute of an object that no code defines. -/
def builtinAttribute (d : Dispatch) (id : ObjectId) (classId : ClassId) (name : String) :
    Run Value := do
  let cs := (← get).classes
  if !cs.isComponent classId then throw .noAttribute
  else if name = "id" then ownId d id
  else if name = "slots" then return .dict (← slots id)
  else if name = idField then return .none
  else if cs.isSingle classId && name = "state_fields" then return .tuple []
  else if cs.isSingle classId && (name = "component_name" || name = "identifier") then return .none
  else if (builtinNames (cs.isSingle classId)).contains name then return .callable
  else throw .noAttribute

/-- An attribute of an object. -/
def getAttribute (d : Dispatch) (id : ObjectId) (name : String) : Run Value := do
  let o ← object id
  let cs := (← get).classes
  match cs.attribute? o.classId name with
  | some (.member (.property m)) => runMethod d (some id) m []
  | found =>
    let isOwnProperty := found.isNone && cs.isComponent o.classId && (name = "id" || name = "slots")
    match (if isOwnProperty then none else Table.get? o.fields name), found with
    | some v, _ => return v
    | none, some (.value v) => return v
    | none, some (.member (.value v)) => return .ofJson v
    | none, some _ => return .callable
    | none, none => builtinAttribute d id o.classId name

/-! ## Methods that no code defines -/

/-- The component keeps an id, one that is made up where none is given. -/
def setId (id : ObjectId) (v : Value) : Run Value := do
  let v ← if v.isTrue then pure v else do pure (Value.text (← freshId))
  setAttribute id idField v
  return .object id

/-- A slot of a component is filled. -/
def fillSlot (id : ObjectId) (content name : Value) : Run Value := do
  let es ← slots id
  match name with
  | .text s | .markup s =>
    keep id slotsField (.dict (Table.insert es s content))
    return .object id
  | _ => throw .mismatch

/-- The content of a slot, or what stands there when the slot is empty. -/
def slotContent (d : Dispatch) (id : ObjectId) (name fallback : Value) : Run Value := do
  let es ← slots id
  let content := match name with
    | .text s | .markup s => (Table.get? es s).getD .none
    | _ => .none
  match content, fallback with
  | .none, .idOf => d.get id "id"
  | .none, .callable => throw .mismatch
  | .none, .object other =>
    if isMarkup (← get) (.object other) then fillSlot other (.object id) (.text defaultSlot)
    else return .object other
  | .none, v => return v
  | v, _ => return v

/-- The name of a class that its elements carry. -/
def classComponentName (classId : ClassId) : Run Value := do
  let cs := (← get).classes
  match cs.attribute? classId "component_name", cs[classId]? with
  | some (.value v), some c =>
    return if v.isTrue then v else .text (Identifier.flatten (c.module ++ "." ++ c.qualifiedName))
  | _, some c => return .text (Identifier.flatten (c.module ++ "." ++ c.qualifiedName))
  | _, none => throw .noKey

/-- The names of the state of a component. -/
def stateNames : Value → Except Error (List String)
  | .tuple vs | .list vs => vs.mapM fun v ↦
    match v with
    | .text s | .markup s => .ok s
    | _ => .error .mismatch
  | _ => .error .mismatch

/-- The state of a component. -/
def exposeState (d : Dispatch) (id : ObjectId) : Run Value := do
  match stateNames (← d.get id "state_fields") with
  | .error e => throw e
  | .ok names =>
    let entries ← names.mapM fun name ↦ do
      let v ← d.get id name
      return (name, v)
    return .dict (Table.ofEntries entries)

/-- The attribute of root elements that holds the state. -/
def stateAttribute : String := "data-props"

/-- The attribute of root elements that holds the signature of the state. -/
def signatureAttribute : String := "x-ice"

/-- The signature of a state. -/
def sign (secret snapshot : String) : String :=
  Hash.Sha256.hexDigest (Utf8.encode (secret ++ snapshot))

/-- The root element of a component carries its id, its name and its state. -/
def stamp (d : Dispatch) (id : ObjectId) (root : NodeId) : Run Unit := do
  match ← elementAttribute root "id" with
  | .none => setElementAttribute root "id" (← d.get id "id")
  | _ => pure ()
  setElementAttribute root Stylesheet.scopeAttribute (← d.call id "get_component_name" [])
  match (← d.call id "expose_state" []).toJson? with
  | some state => setElementAttribute root stateAttribute (.text state.compact)
  | none => throw .mismatch

/-- The root element of a component that takes remote calls carries the signature of its state. -/
def stampSignature (root : NodeId) : Run Unit := do
  match (← get).environment.secret with
  | .error f => fail f
  | .ok secret =>
    match ← elementAttribute root stateAttribute with
    | .text snapshot =>
      setElementAttribute root signatureAttribute (.text (sign secret snapshot))
      setElementAttribute root "x-data" (.text "IceComponent($el)")
    | _ => throw .mismatch

/-- The root element of a rendered component. -/
def onRender (d : Dispatch) (id : ObjectId) (root : Value) : Run Value := do
  match root with
  | .node n =>
    stamp d id n
    if (← get).classes.isIce (← object id).classId then stampSignature n
    return root
  | _ => throw .noAttribute

/-- What a method that no code defines returns. -/
def callBuiltin (d : Dispatch) (id : ObjectId) (name : String) (args : List Value) :
    Run Value := do
  let o ← object id
  let cs := (← get).classes
  if !cs.isComponent o.classId then throw .noAttribute
  else match name, args with
  | "set_id", [] => setId id .none
  | "set_id", [v] => setId id v
  | "slot", [slot] => slotContent d id slot .none
  | "slot", [slot, v] => slotContent d id slot v
  | "children", [] => slotContent d id (.text defaultSlot) .none
  | "children", [v] => slotContent d id (.text defaultSlot) v
  | "fill_slot", [] => fillSlot id .none (.text defaultSlot)
  | "fill_slot", [v] => fillSlot id v (.text defaultSlot)
  | "fill_slot", [v, slot] => fillSlot id v slot
  | "render", [] => return .none
  | _, _ =>
    if !cs.isSingle o.classId then throw .noAttribute
    else match name, args with
    | "get_component_name", [] => classComponentName o.classId
    | "expose_state", [] => exposeState d id
    | "on_render", [root] => onRender d id root
    | _, _ =>
      if (builtinNames true).contains name then throw .mismatch else throw .noAttribute

/-- What an object returns when it is called as a method. -/
def callValue (id : ObjectId) (v : Value) (args : List Value) : Run Value := do
  match v, args with
  | .object other, [] =>
    if isMarkup (← get) v then fillSlot other .none (.text defaultSlot) else throw .mismatch
  | .object other, [content] =>
    if isMarkup (← get) v then fillSlot other content (.text defaultSlot) else throw .mismatch
  | .idOf, _ => return .object id
  | _, _ => throw .mismatch

/-- What a method of an object returns. -/
def callMethod (d : Dispatch) (id : ObjectId) (name : String) (args : List Value) : Run Value := do
  let o ← object id
  let cs := (← get).classes
  match cs.attribute? o.classId name with
  | some (.member (.property m)) => callValue id (← runMethod d (some id) m []) args
  | found =>
    match Table.get? o.fields name, found with
    | some v, _ => callValue id v args
    | none, some (.member (.method m)) => runMethod d (some id) m args
    | none, some (.member (.static m)) => runMethod d none m args
    | none, some (.member (.classMethod m)) => runMethod d none m args
    | none, some (.render e) =>
      if args.isEmpty then eval d ⟨some id, []⟩ e else throw .mismatch
    | none, some _ => throw .mismatch
    | none, none => callBuiltin d id name args

/-- The rendered text of an object. -/
def renderedText (d : Dispatch) (id : ObjectId) : Run String := do
  let o ← object id
  let cs := (← get).classes
  if cs.isSingle o.classId then
    let root ← d.call id "render" []
    textOf d (← d.call id "on_render" [root])
  else if cs.isComponent o.classId then textOf d (← d.call id "render" [])
  else return "<object>"

/-! ## Nested calls -/

namespace Dispatch

/-- Nothing may be called any more. -/
def none : Dispatch where
  text _ := throw .depth
  html _ := throw .depth
  get _ _ := throw .depth
  call _ _ _ := throw .depth

/-- One more level of calls. -/
def next (d : Dispatch) : Dispatch where
  text := renderedText d
  html := elementHtml d
  get := getAttribute d
  call := callMethod d

/-- A number of levels of calls. -/
def atDepth : Nat → Dispatch
  | 0 => none
  | n + 1 => (atDepth n).next

/-- The levels of calls that a process has. -/
def full : Dispatch := atDepth 1000

end Dispatch

/-! ## Constructing -/

/-- Why no object of a class was made. -/
inductive ConstructError where
  /-- The class has no rendering. -/
  | abstract
  /-- The arguments do not fit its constructor. -/
  | arguments
deriving DecidableEq, Repr

/-- The constructor of a class with values for its parameters. -/
def bindConstructor (cs : Classes) (classId : ClassId) (props : Table String Value) :
    Except ConstructError (Option Class × List (Param × Value)) :=
  if !cs.isConcrete classId then .error .abstract
  else match cs.constructor? classId with
    | some c =>
      match bindNamed (c.params.getD []) props with
      | .ok bound => .ok (some c, bound)
      | .error _ => .error .arguments
    | none => if props.isEmpty then .ok (none, []) else .error .arguments

/-- The body of a constructor: every parameter is kept, and then the statements follow. -/
def construct (d : Dispatch) (id : ObjectId) (c : Class) (bound : List (Param × Value)) :
    Run Unit := do
  bound.forM fun e ↦ setAttribute id e.1.store e.2
  c.init.forM (perform d ⟨some id, bound.map fun e ↦ (e.1.name, e.2)⟩)

/-- A new object of a class. -/
def instantiate (d : Dispatch) (classId : ClassId) (props : Table String Value) :
    Run ObjectId := do
  match bindConstructor (← get).classes classId props with
  | .error _ => throw .mismatch
  | .ok (c, bound) =>
    let id ← newObject classId
    match c with
    | some c => construct d id c bound
    | none => pure ()
    return id

end IceCube.Component
