import IceCube.Resolve

/-!
# Remote calls

A page sends back the state that it was rendered with, the signature of that state and the name of a
method.  All checks come before the component is made, so a call that is turned down runs nothing.
-/

namespace IceCube

open Component (Value Member Method ObjectId Dispatch)

/-- A call of a method from a page. -/
structure RemoteCall where
  id : String
  component : String
  snapshot : String
  method : Option String
  args : List Json
  data : Table String Json
deriving Repr, Inhabited

/-- What a page receives: HTML to put in place of the component, or else its new state. -/
structure CallResult where
  html : String
  data : Value
deriving Repr, Inhabited

namespace Schema

/-- Any document. -/
def anything (v : Json) : Verdict Json := .good v.settle

/-- A call of a method. -/
def remoteCall (w : Wording) : Json → Verdict RemoteCall :=
  record w "ComponentCall" ["id", "component", "snapshot", "method", "args", "data"] fun ms ↦
    RemoteCall.mk
      <$> required ms "id" nonempty
      <*> required ms "component" nonempty
      <*> required ms "snapshot" text
      <*> optional ms "method" none (nullable text)
      <*> optional ms "args" [] (list w anything)
      <*> optional ms "data" [] (table w anything)

/-- The result of a call, as a document. -/
def callResult (w : Wording) : Json → Verdict (String × Table String Json) :=
  record w "ComponentCallResult" ["html", "data"] fun ms ↦
    Prod.mk <$> optional ms "html" "" text <*> optional ms "data" [] (table w anything)

end Schema

namespace Remote

open Run

/-- A call that is turned down, with the reason for the log. -/
def reject {α : Type} (d : Detail) : Run α := failWith .badCall d

/-- Whether an error says that a value is of a wrong kind, and whether it has a message. -/
def mismatchMessage? : Error → Option Bool
  | .mismatch => some true
  | .raised kind message => if kind = "TypeError" then some (!message.isEmpty) else none
  | _ => none

/-- The detail of a failure that has its message as its only text. -/
def detailOf : Failure → Detail
  | .componentNotFound identifier => .componentNotFound identifier
  | _ => .other

/-- The secret to sign with: the one that is given, or that of the environment. -/
def secret (given : Option String) : Run String := do
  match given with
  | some s => return s
  | none =>
    match (← get).environment.secret with
    | .ok s => return s
    | .error f => fail f

/-- A call with the right signature of its snapshot passes. -/
def checkSignature (call : RemoteCall) (signature given : Option String) : Run Unit := do
  let expected := Component.sign (← secret given) call.snapshot
  if signature ≠ some expected then
    note (.callRejected .signature)
    fail .badCall

/-- The class of the component that a call names. -/
def componentClass (registry : RegistryId) (name : String) : Run ClassId := do
  match ((← get).registry registry).getByName? name with
  | none => reject (.unknownComponent name)
  | some record =>
    let id ← tryCatch (Resolve.resolve registry record.identifier false) fun e ↦
      match e with
      | .failure f => if f.message.isEmpty then fail .badCall else reject (detailOf f)
      | e => throw e
    if (← get).classes.isIce id then return id else reject (.notRemote name)

/-- The state that a snapshot holds. -/
def props (snapshot : String) : Run (Table String Value) := do
  match Json.read snapshot with
  | .error _ => reject .other
  | .ok (.obj ms) => return Value.ofMembers ms
  | .ok _ => reject .notAnObject

/-- The method of a class that a call names.  It has to be a plain method of the component itself.
-/
def method (id : ClassId) (name : String) : Run Method := do
  if Component.isReserved name then reject (.methodNotAllowed name)
  else match (← get).classes.attribute? id name with
    | some (.member (.method m)) => return m
    | _ => reject (.methodNotFound name)

/-- The method that a call names, if it names one, with arguments that fit. -/
def checkedMethod (id : ClassId) (call : RemoteCall) : Run (Option Method) := do
  match call.method with
  | none | some "" => return none
  | some name =>
    let m ← method id name
    match Component.bindValues m.params (call.args.map Value.ofJson) with
    | .ok _ => return some m
    | .error _ =>
      note (.callRejected .arguments)
      reject .other

/-- The component in the state of a snapshot. -/
def instantiate (d : Dispatch) (id : ClassId) (state : Table String Value) : Run ObjectId :=
  tryCatch (Component.instantiate d id state) fun e ↦
    match mismatchMessage? e with
    | some true => reject .other
    | some false => fail .badCall
    | none => throw e

/-- The component with the id and the data that a call brings.  Only attributes that the snapshot
has are set. -/
def applyData (d : Dispatch) (o : ObjectId) (call : RemoteCall) (state : Table String Value) :
    Run Unit := do
  let _ ← d.call o "set_id" [.text call.id]
  call.data.forM fun e ↦
    if Table.contains state e.1 then Component.setAttribute o e.1 (.ofJson e.2) else pure ()

/-- The new state of a component. -/
def newState (d : Dispatch) (o : ObjectId) : Run CallResult := do
  match ← d.call o "expose_state" [] with
  | .dict es => return ⟨"", .dict es⟩
  | _ => throw (.invalid [⟨[.key "data"], .notTable .value⟩])

/-- The result of a method: its HTML, or the new state of the component. -/
def runMethod (d : Dispatch) (o : ObjectId) (call : RemoteCall) (m : Method) : Run CallResult := do
  let result ← Component.runMethod d (some o) m (call.args.map Value.ofJson)
  note .methodCalled
  if Component.joinsMarkup (← get) result then
    return ⟨← Component.textOf d result, .dict []⟩
  else newState d o

/-- A call is checked and carried out. -/
def handle (registry : RegistryId) (payload : Json) (signature given : Option String) :
    Run CallResult := do
  match Schema.remoteCall .value payload with
  | .bad _ => reject .other
  | .good call =>
    let d := Dispatch.full
    checkSignature call signature given
    let id ← componentClass registry call.component
    let state ← props call.snapshot
    let m ← checkedMethod id call
    let o ← instantiate d id state
    applyData d o call state
    match m with
    | some m => runMethod d o call m
    | none => newState d o

end Remote

end IceCube
