import IceCube.Proofs.Component.Twins
import IceCube.Proofs.Remote.SentBack

/-!
# Calls in the place of one object

A page that keeps the first state of a component with its signature, and posts with every call the
state that it has received last, is answered as one object would answer that has taken all these
calls.  No two calls reach the same object: each makes one in the first state, which then gets the
state of the page.  So the object of a call and the one that has taken all calls before are in the
same state when the call comes, and code that keeps to the state leaves them in the same state.
-/

namespace IceCube

open Step Component

/-! ## Calls of an object -/

/-- A call of a method by its name. -/
structure MethodCall where
  method : String
  args : List Json
deriving Repr

/-- What a call has done: what the method has returned, and the state that is exposed then. -/
structure Effect where
  returned : Value
  exposed : Value
deriving Repr

namespace MethodCall

/-- The effect of a call on an object. -/
def run (o : ObjectId) (c : MethodCall) : Run Effect := do
  let returned ← Dispatch.full.call o c.method (c.args.map .ofJson)
  let exposed ← Dispatch.full.call o "expose_state" []
  return ⟨returned, exposed⟩

/-- A call of a method that pages can name and that keeps to the state.  Its arguments are plain
documents. -/
structure Names (c : MethodCall) (cs : Classes) (cls : ClassId) (fields : List String)
    (m : Method) : Prop where
  named : c.method ≠ ""
  unreserved : isReserved c.method = false
  method : cs.attribute? cls c.method = some (.member (.method m))
  within : m.Within fields
  args : ∀ v ∈ c.args, v.Plain

end MethodCall

/-- The effects of calls, one after the other, on one object that is made from a state. -/
def lifetime (cls : ClassId) (state : Table String Json) (calls : List MethodCall) :
    Run (List Effect) := do
  let o ← Component.instantiate Dispatch.full cls (Value.ofMembers state)
  calls.mapM (MethodCall.run o)

/-! ## Calls of a page -/

/-- What a page posts to have a method called, with the state that it has. -/
def Page.request (p : Page) (c : MethodCall) (data : Table String Json) : Json :=
  .obj [("id", .str p.id), ("component", .str p.component), ("snapshot", .str p.snapshot),
    ("method", .str c.method), ("args", .arr c.args), ("data", .obj data)]

/-- The call that this is read as. -/
def Page.call (p : Page) (c : MethodCall) (data : Table String Json) : RemoteCall where
  id := p.id
  component := p.component
  snapshot := p.snapshot
  method := some c.method
  args := c.args
  data := data

namespace Remote

/-- A document is sent as its text. -/
def transmit (j : Json) : Run Json :=
  match Json.read j.compact with
  | .ok j => return j
  | .error e => throw (.json e)

/-- The state that a page receives. -/
def received (answer : CallResult) : Run (Table String Json) := do
  match answer.data.toJson? with
  | some j =>
    match ← transmit j with
    | .obj ms => return ms
    | _ => throw .mismatch
  | none => throw .mismatch

/-- The answers to calls that a page posts, one after the other, each with the state that it has
received last. -/
def converse (registry : RegistryId) (given : Option String) (page : Page) :
    Table String Json → List MethodCall → Run (List CallResult)
  | _, [] => return []
  | data, c :: cs => do
    let payload ← transmit (page.request c data)
    let answer ← handle registry payload (some page.signature) given
    let data ← received answer
    let answers ← converse registry given page data cs
    return answer :: answers

/-- A plain document arrives as it was sent. -/
theorem outcome_transmit {j : Json} (h : j.Plain) (w : World) :
    outcome (transmit j) w = (.ok j, w) := by
  rw [transmit, Json.compact, h.read_write]
  rfl

theorem outcome_received {answer : CallResult} {state : Table String Json}
    (hanswer : answer.data = .dict (Value.ofMembers state)) (h : (Json.obj state).Plain)
    (w : World) : outcome (received answer) w = (.ok state, w) := by
  have hjson : answer.data.toJson? = some (.obj state) := by
    rw [hanswer, Value.toJson?, Value.entriesToJson?_ofMembers]
    rfl
  rw [received, hjson]
  exact outcome_bind_of_ok (outcome_transmit h w) _

end Remote

theorem MethodCall.Names.plain_request {c : MethodCall} {cs : Classes} {cls : ClassId}
    {fields : List String} {m : Method} (h : c.Names cs cls fields m) (p : Page)
    {data : Table String Json} (hdata : (Json.obj data).Plain) : (p.request c data).Plain := by
  have hargs : (Json.arr c.args).Plain := Json.plainItems_of_forall h.args
  have hkeys : (Table.keys [("id", Json.str p.id), ("component", .str p.component),
      ("snapshot", .str p.snapshot), ("method", .str c.method), ("args", .arr c.args),
      ("data", .obj data)]).Nodup := by
    rw [Table.keys]
    simp
  exact ⟨hkeys, trivial, trivial, trivial, trivial, hargs, hdata, trivial⟩

/-- A posted call is read as it was meant. -/
theorem MethodCall.Names.remoteCall_request {c : MethodCall} {cs : Classes} {cls : ClassId}
    {fields : List String} {m : Method} (h : c.Names cs cls fields m) {p : Page} {key : String}
    {state data : Table String Json} (hp : p.Signed key state) (hdata : (Json.obj data).Plain) :
    Schema.remoteCall .value (p.request c data) = .good (p.call c data) := by
  have hargs : Schema.list .value Schema.anything (.arr c.args) = .good c.args := by
    have hcheck (v : Json) (hv : v ∈ c.args) : Schema.anything v = .good (id v) :=
      congrArg Schema.Verdict.good (h.args v hv).settle_eq_self
    rw [Schema.list_good hcheck, List.map_id]
  have hdata : Schema.table .value Schema.anything (.obj data) = .good data := by
    have hcheck (e : String × Json) (he : e ∈ data) : Schema.anything (id e.2) = .good e.2 :=
      congrArg Schema.Verdict.good (hdata.2.forall e he).settle_eq_self
    have hsame : data.map (fun e ↦ (e.1, id e.2)) = data := List.map_id data
    rw [← Schema.table_good id hcheck hdata.1, hsame]
  exact Schema.remoteCall_of_fields (Schema.required_nonempty rfl hp.id)
    (Schema.required_nonempty rfl hp.component) rfl rfl (Schema.optional_good rfl hargs)
    (Schema.optional_good rfl hdata) (by simp)

/-! ## The object of a call -/

namespace Component

/-- A class that replies with its state, and whose constructor does nothing but to keep the state
that it is given. -/
structure Classes.Keeps (cs : Classes) (cls : ClassId) (fields : List String) (c : Class) : Prop
    extends cs.Replies cls fields, cs.Takes cls fields c where
  init : c.init = []

theorem Classes.Keeps.outcome_instantiate {w : World} {cls : ClassId} {fields : List String}
    {c : Class} (h : w.classes.Keeps cls fields c) (value : String → Json) :
    outcome (instantiate Dispatch.full cls (Value.ofMembers (stateOf fields value))) w =
      (.ok w.objects.length, restored w cls (c.kept (Value.ofMembers (stateOf fields value)))) := by
  rw [Component.outcome_instantiate h.toTakes, h.init]
  rfl

end Component

/-- The world with a new object in a first state, which has then got an id and another state. -/
def World.resumed (u : World) (cls : ClassId) (c : Component.Class) (first : Table String Json)
    (id : String) (state : Table String Json) : World :=
  ((restored u cls (c.kept (Value.ofMembers first))).kept u.objects.length idField
    (.text id)).keptAll u.objects.length (Value.ofMembers state)

namespace Remote

section Resumed

variable {registry : RegistryId} {cls : ClassId} {fields : List String} {c : Component.Class}
  {first value : String → Json} {u : World} {page : Page} {key : String} {given : Option String}
  {call : MethodCall} {m : Method}

theorem exists_exposes_resumed (hkeeps : u.classes.Keeps cls fields c) (first value : String → Json)
    (id : String) : ∃ inst,
      (u.resumed cls c (stateOf fields first) id (stateOf fields value)).objects[
        u.objects.length]? = some inst ∧
      Exposes inst cls fields fun name ↦ .ofJson (value name) := by
  have hobject := objects_restored u cls (c.kept (Value.ofMembers (stateOf fields first)))
  have hexposes := exposes_restored hkeeps.toTakes first
  obtain ⟨value', hid⟩ := hexposes.insert_id (.text id)
  refine ⟨_, World.objects_keptAll_self (World.objects_kept_self hobject idField (.text id)) _, ?_⟩
  rw [ofMembers_stateOf fields value]
  exact hid.insertAll _

/-- Making the object of a call leaves all else as it was. -/
theorem extends_resumed (u : World) (cls : ClassId) (c : Component.Class) (first : Table String Json)
    (id : String) (state : Table String Json) : u.Extends (u.resumed cls c first id state) where
  files := rfl
  environment := rfl
  registries := rfl
  classes := rfl
  objects := by
    intro o inst h
    have hlt : o < u.objects.length := (List.getElem?_eq_some_iff.mp h).1
    refine ⟨inst, ?_, rfl, fun _ hnone ↦ hnone⟩
    simp [World.resumed, World.keptAll, World.kept, restored, List.getElem?_append_left hlt,
      hlt.ne', h]

theorem outcome_checkedMethod {rc : RemoteCall} {name : String} (hmethod : rc.method = some name)
    (hnamed : name ≠ "") (hunreserved : isReserved name = false)
    (hclass : u.classes.attribute? cls name = some (.member (.method m)))
    (hbound : ∃ bound, bindValues m.params (rc.args.map Value.ofJson) = .ok bound) :
    outcome (checkedMethod cls rc) u = (.ok (some m), u) := by
  have hfound : outcome (method cls name) u = (.ok m, u) := by
    rw [method, if_neg (by simp [hunreserved]), outcome_get_bind, hclass]
    rfl
  obtain ⟨bound, hbound⟩ := hbound
  unfold checkedMethod
  rw [hmethod]
  split
  · contradiction
  · rename_i heq
    exact absurd (Option.some.inj heq) hnamed
  · rename_i heq
    cases heq
    rw [outcome_bind_of_ok hfound, hbound]
    rfl

/-- An object that has some attributes gets those that a call brings. -/
theorem outcome_applyData {o : ObjectId} {inst : Instance} {rc : RemoteCall} {v₀ : String → Value}
    (hcls : u.classes.Replies cls fields) (hobject : u.objects[o]? = some inst)
    (hinst : Exposes inst cls fields v₀) (hid : rc.id ≠ "") (hdata : rc.data = stateOf fields value)
    (first : String → Json) :
    outcome (applyData Dispatch.full o rc (Value.ofMembers (stateOf fields first))) u =
      (.ok PUnit.unit, (u.kept o idField (.text rc.id)).keptAll o
        (Value.ofMembers (stateOf fields value))) := by
  have hmem (e : String × Json) (he : e ∈ stateOf fields value) : e.1 ∈ fields :=
    mem_keys_stateOf.mp (List.mem_map.mpr ⟨e, he, rfl⟩)
  have hall : clientData rc (Value.ofMembers (stateOf fields first)) = stateOf fields value := by
    rw [clientData, hdata]
    refine List.filter_eq_self.mpr fun e he ↦ Table.contains_iff.mpr ?_
    rw [keys_ofMembers]
    exact mem_keys_stateOf.mpr (hmem e he)
  have hset := outcome_setId hobject hinst hcls 999 hid
  have hstore := outcome_store Prod.fst (fun e : String × Json ↦ Value.ofJson e.2)
    (stateOf fields value) (World.objects_kept_self hobject idField (.text rc.id))
    fun e he ↦ hinst.classId ▸ hcls.settable e.1 (hmem e he)
  rw [applyData_eq, Dispatch.full, outcome_bind_of_ok hset, hall, ofMembers_eq_map]
  exact hstore

/-- A posted call runs its method on a new object in the state that was posted. -/
theorem outcome_handle_request (hkeeps : u.classes.Keeps cls fields c)
    (hserves : u.Serves registry cls page.component)
    (hkey : outcome (secret given) u = (.ok key, u))
    (hpage : page.Signed key (stateOf fields first))
    (hfirst : ∀ name ∈ fields, (first name).Plain) (hvalue : ∀ name ∈ fields, (value name).Plain)
    (hcall : call.Names u.classes cls fields m)
    (hbound : ∃ bound, bindValues m.params (call.args.map Value.ofJson) = .ok bound) :
    outcome (handle registry (page.request call (stateOf fields value)) (some page.signature)
      given) u =
    outcome (runMethod Dispatch.full u.objects.length (page.call call (stateOf fields value)) m)
      (u.resumed cls c (stateOf fields first) page.id (stateOf fields value)) := by
  have hmade := hkeeps.outcome_instantiate first
  have hobject := objects_restored u cls (c.kept (Value.ofMembers (stateOf fields first)))
  have hmethod : outcome (checkedMethod cls (page.call call (stateOf fields value))) u =
      (.ok (some m), u) :=
    outcome_checkedMethod rfl hcall.named hcall.unreserved hcall.method hbound
  have hread : Json.read (page.call call (stateOf fields value)).snapshot =
      .ok (.obj (stateOf fields first)) := read_of_signed hpage hfirst
  have hnamed : u.Serves registry cls (page.call call (stateOf fields value)).component := hserves
  have hprepare := outcome_prepare hnamed hkeeps.ice hread hmethod hmade
  have hcls : (restored u cls (c.kept (Value.ofMembers (stateOf fields first)))).classes.Replies
      cls fields := hkeeps.toReplies
  have happly : outcome (applyData Dispatch.full u.objects.length
      (page.call call (stateOf fields value)) (Value.ofMembers (stateOf fields first)))
      (restored u cls (c.kept (Value.ofMembers (stateOf fields first)))) = (.ok PUnit.unit,
        u.resumed cls c (stateOf fields first) page.id (stateOf fields value)) :=
    outcome_applyData hcls hobject (exposes_restored hkeeps.toTakes first) hpage.id rfl first
  have hsignature : some page.signature =
      some (sign key (page.call call (stateOf fields value)).snapshot) :=
    congrArg some hpage.signature
  rw [hsignature, outcome_handle_of_signed
    (hcall.remoteCall_request hpage (plain_stateOf hvalue)) hkey, outcome_bind_of_ok hprepare,
    outcome_bind_of_ok happly]
  rfl

end Resumed

/-! ## One call -/

section Step

variable {registry : RegistryId} {cls : ClassId} {fields : List String} {c : Component.Class}
  {first value : String → Json} {w w₁ w₂ u : World} {o : ObjectId} {page : Page} {key : String}
  {given : Option String} {call : MethodCall} {m : Method} {e : Effect}

/-- An object in a state of plain documents, that has nothing of its own that can be called. -/
structure Stands (w : World) (o : ObjectId) (cls : ClassId) (fields : List String)
    (value : String → Json) : Prop where
  object : ∃ inst, w.objects[o]? = some inst ∧
    (Exposes inst cls fields fun name ↦ .ofJson (value name)) ∧ inst.Inert
  plain : ∀ name ∈ fields, (value name).Plain

/-- Values that make up a document are documents. -/
theorem exists_plain_of_exposed {value : String → Value} {j : Json} (hj : j.Plain)
    (h : Value.dict (stateOf fields value) = .ofJson j) :
    ∃ next : String → Json, ∀ name ∈ fields,
      value name = .ofJson (next name) ∧ (next name).Plain := by
  cases j with
  | obj ms =>
    have hms : stateOf fields value = Value.ofMembers ms := Value.dict.inj h
    refine ⟨fun name ↦ (Table.get? ms name).getD .null, fun name hname ↦ ?_⟩
    have hget : Table.get? (stateOf fields value) name = some (value name) := by
      rw [get?_stateOf, if_pos hname]
    rw [hms, ofMembers_eq_map, Table.get?_map] at hget
    obtain ⟨v, hv, hvalue⟩ := Option.map_eq_some_iff.mp hget
    dsimp only
    rw [hv]
    exact ⟨hvalue.symm, hj.2.forall _ (Table.mem_of_get? hv)⟩
  | _ => cases h

theorem bindValues_of_outcome_runMethod {d : Dispatch} {self : Option ObjectId} {vs : List Value}
    {r : Value} (h : outcome (Component.runMethod d self m vs) w = (.ok r, w₁)) :
    ∃ bound, bindValues m.params vs = .ok bound := by
  rw [Component.runMethod] at h
  cases hbound : bindValues m.params vs with
  | ok bound => exact ⟨bound, rfl⟩
  | error e =>
    rw [hbound] at h
    cases h

/-- An object that exposes a plain document stands in the state that it exposes, and another one that
has run alike exposes the same. -/
theorem exists_exposed {p : Pair} {v : Value} (hworlds : p.Worlds w u)
    (hcls : w.classes.Replies p.cls p.fields)
    (hexpose : outcome (Dispatch.full.call p.left "expose_state" []) w = (.ok v, w₁))
    (hplain : ∃ j : Json, j.Plain ∧ v = .ofJson j) :
    w₁ = w ∧ ∃ next, Stands w p.left p.cls p.fields next ∧
      v = .dict (Value.ofMembers (stateOf p.fields next)) ∧
      outcome (Dispatch.full.call p.right "expose_state" []) u = (.ok v, u) := by
  obtain ⟨inst, inst', hobject, hobject', ⟨exposed, exposed', hinst, hinst', hstate⟩, hinert⟩ :=
    hworlds.objects
  have hcls' : u.classes.Replies p.cls p.fields := hworlds.classes ▸ hcls
  have hexposes := outcome_expose hobject hinst hcls.toStateful 998
  have hexposes' := outcome_expose hobject' hinst' hcls'.toStateful 998
  cases hexpose.symm.trans hexposes
  obtain ⟨j, hj, hexposed⟩ := hplain
  obtain ⟨next, hnext⟩ := exists_plain_of_exposed hj hexposed
  have hsame : stateOf p.fields exposed' = stateOf p.fields exposed :=
    stateOf_congr fun name hname ↦ (hstate name hname).eq_of_document
      ((hnext name hname).1 ▸ Value.isDocument_ofJson (next name))
  refine ⟨rfl, next, ⟨⟨inst, hobject, hinst.congr fun name hname ↦ (hnext name hname).1, hinert⟩,
    fun name hname ↦ (hnext name hname).2⟩, ?_, hsame ▸ hexposes'⟩
  rw [ofMembers_stateOf, stateOf_congr fun name hname ↦ (hnext name hname).1]

/-- What an object does when it is called, the object of a posted call does as well, and the answer
is the state that the first one exposes then. -/
theorem exists_answer (hkeeps : u.classes.Keeps cls fields c) (hclasses : u.classes = w.classes)
    (hserves : u.Serves registry cls page.component)
    (hkey : outcome (secret given) u = (.ok key, u))
    (hpage : page.Signed key (stateOf fields first)) (hfirst : ∀ name ∈ fields, (first name).Plain)
    (hcall : call.Names u.classes cls fields m) (hw : Stands w o cls fields value)
    (hrun : outcome (call.run o) w = (.ok e, w₁)) (hquiet : joinsMarkup w₂ e.returned = false)
    (hplain : ∃ j : Json, j.Plain ∧ e.exposed = .ofJson j) :
    ∃ next u₁, Stands w₁ o cls fields next ∧ w₁.classes = w.classes ∧
      e.exposed = .dict (Value.ofMembers (stateOf fields next)) ∧
      outcome (handle registry (page.request call (stateOf fields value)) (some page.signature)
        given) u = (.ok ⟨"", e.exposed⟩, u₁) ∧ u.Extends u₁ := by
  obtain ⟨⟨inst, hobject, hinst, hinert⟩, hvalue⟩ := hw
  obtain ⟨r, wr, hcalled, hrun⟩ := outcome_bind_eq_ok.mp hrun
  obtain ⟨v, we, hexpose, hend⟩ := outcome_bind_eq_ok.mp hrun
  cases hend
  have hdocuments : ∀ v ∈ call.args.map Value.ofJson, v.IsDocument := by
    intro v hv
    obtain ⟨j, -, rfl⟩ := List.mem_map.mp hv
    exact Value.isDocument_ofJson j
  -- the method on the one object
  have hmethod : outcome (Component.runMethod (.atDepth 999) (some o) m
      (call.args.map Value.ofJson)) w = (.ok r, wr) :=
    outcome_runMethod_of_call hobject hinert (hinst.classId ▸ hclasses ▸ hcall.method) hcalled
  have hbound := bindValues_of_outcome_runMethod hmethod
  -- the method on the object of the call
  obtain ⟨inst', hobject', hinst'⟩ := exists_exposes_resumed hkeeps first value page.id
  generalize hu₀ : u.resumed cls c (stateOf fields first) page.id (stateOf fields value) = u₀
    at hobject'
  have hextends : u.Extends u₀ := hu₀ ▸ extends_resumed u cls c _ _ _
  have hworlds := Pair.worlds_of_exposes (hextends.classes.trans hclasses)
    (hclasses ▸ hkeeps.settable) hobject hobject' hinst hinst' hinert
    fun name _ ↦ Value.isDocument_ofJson (value name)
  obtain ⟨r', u₁, hrun', hr, hworlds'⟩ := follows_runMethod (by decide : 999 ≤ 1000) hcall.within
    hdocuments hworlds hmethod
  have hextends' : u₀.Extends u₁ :=
    (extends_runMethod (Dispatch.extending_atDepth 1000) _ _ _).of_outcome hrun'
  have hnoted : u₁.Extends { u₁ with log := u₁.log ++ [Event.methodCalled] } :=
    .of_objects_eq rfl rfl rfl rfl rfl
  -- the states that they expose
  have hclassesr : wr.classes = w.classes :=
    ((extends_runMethod (Dispatch.extending_atDepth 999) _ _ _).of_outcome hmethod).classes
  have hcls : wr.classes.Replies cls fields := hclassesr ▸ hclasses ▸ hkeeps.toReplies
  obtain ⟨rfl, next, hstands, rfl, hexposes'⟩ := exists_exposed
    (u := { u₁ with log := u₁.log ++ [Event.methodCalled] }) { hworlds' with } hcls hexpose hplain
  change outcome ((Dispatch.atDepth 1000).call u.objects.length "expose_state" []) _ = _ at hexposes'
  refine ⟨next, { u₁ with log := u₁.log ++ [Event.methodCalled] }, hstands, hclassesr, rfl, ?_,
    IsTrans.trans _ _ _ hextends (IsTrans.trans _ _ _ hextends' hnoted)⟩
  rw [outcome_handle_request hkeeps hserves hkey hpage hfirst hvalue hcall hbound, hu₀, runMethod]
  change outcome (Component.runMethod (.atDepth 1000) (some u.objects.length) m
    (call.args.map Value.ofJson) >>= _) u₀ = _
  have hnote : outcome (Run.note .methodCalled) u₁ =
      (.ok PUnit.unit, { u₁ with log := u₁.log ++ [Event.methodCalled] }) := rfl
  rw [outcome_bind_of_ok hrun', outcome_bind_of_ok hnote, outcome_get_bind, hr.joinsMarkup_eq w₂,
    hquiet]
  change outcome (newState (.atDepth 1000) u.objects.length) _ = _
  rw [newState, outcome_bind_of_ok hexposes']
  rfl

end Step

/-! ## All calls -/

section Calls

variable {registry : RegistryId} {cls : ClassId} {fields : List String} {c : Component.Class}
  {first value : String → Json} {w w' w₂ u u₁ : World} {o : ObjectId} {page : Page}
  {key name : String} {given : Option String} {calls : List MethodCall} {effects : List Effect}

theorem outcome_secret_of_extends (hkey : outcome (secret given) u = (.ok key, u))
    (h : u.Extends u₁) : outcome (secret given) u₁ = (.ok key, u₁) := by
  cases given with
  | some s =>
    cases hkey
    rfl
  | none =>
    rw [secret, outcome_get_bind] at hkey ⊢
    rw [h.environment]
    cases hsecret : u.environment.secret with
    | ok s =>
      rw [hsecret] at hkey
      cases hkey
      rfl
    | error f =>
      rw [hsecret] at hkey
      cases hkey

theorem serves_of_extends (hserves : u.Serves registry cls name) (h : u.Extends u₁) :
    u₁.Serves registry cls name := by
  have hregistry : u₁.registry registry = u.registry registry := by
    rw [World.registry, World.registry, h.registries]
  rwa [World.Serves, hregistry]

/-- A page that has the state of an object is answered as the object does. -/
theorem outcome_converse (hkeeps : u.classes.Keeps cls fields c) (hclasses : u.classes = w.classes)
    (hserves : u.Serves registry cls page.component)
    (hkey : outcome (secret given) u = (.ok key, u))
    (hpage : page.Signed key (stateOf fields first)) (hfirst : ∀ name ∈ fields, (first name).Plain)
    (hcalls : ∀ call ∈ calls, ∃ m, call.Names u.classes cls fields m)
    (hw : Stands w o cls fields value)
    (hrun : outcome (calls.mapM (MethodCall.run o)) w = (.ok effects, w'))
    (hquiet : ∀ e ∈ effects, joinsMarkup w₂ e.returned = false)
    (hplain : ∀ e ∈ effects, ∃ j : Json, j.Plain ∧ e.exposed = .ofJson j) :
    ∃ u', outcome (converse registry given page (stateOf fields value) calls) u =
      (.ok (effects.map fun e ↦ ⟨"", e.exposed⟩), u') := by
  induction calls generalizing w u value effects with
  | nil =>
    cases hrun
    exact ⟨u, rfl⟩
  | cons call calls ih =>
    rw [List.mapM_cons] at hrun
    obtain ⟨e, w₁, hcall, hrun⟩ := outcome_bind_eq_ok.mp hrun
    obtain ⟨es, w₃, hrest, hend⟩ := outcome_bind_eq_ok.mp hrun
    cases hend
    obtain ⟨⟨m, hnames⟩, hcalls⟩ := List.forall_mem_cons.mp hcalls
    obtain ⟨hquiet, hquiets⟩ := List.forall_mem_cons.mp hquiet
    obtain ⟨hplain, hplains⟩ := List.forall_mem_cons.mp hplain
    obtain ⟨next, u₁, hstands, hclassesw, hexposed, hhandle, hextends⟩ := exists_answer hkeeps
      hclasses hserves hkey hpage hfirst hnames hw hcall hquiet hplain
    obtain ⟨u', hanswers⟩ := ih (hextends.classes ▸ hkeeps)
      (hextends.classes.trans (hclasses.trans hclassesw.symm)) (serves_of_extends hserves hextends)
      (outcome_secret_of_extends hkey hextends) (hextends.classes ▸ hcalls) hstands hrest hquiets
      hplains
    have hreceived : outcome (received ⟨"", e.exposed⟩) u₁ = (.ok (stateOf fields next), u₁) :=
      outcome_received hexposed (plain_stateOf hstands.plain) u₁
    refine ⟨u', ?_⟩
    rw [converse, outcome_bind_of_ok (outcome_transmit
      (hnames.plain_request page (plain_stateOf hw.plain)) u), outcome_bind_of_ok hhandle,
      outcome_bind_of_ok hreceived, outcome_bind_of_ok hanswers]
    rfl

/-- A page that keeps the first state of a component with its signature, and posts with each call
the state that it has received last, is answered with the states that one object exposes, which is
made from the first state and takes the calls one after the other.  It is given that the methods
keep to the state and leave plain documents in it, and that none returns a text or HTML. -/
theorem converse_follows_lifetime (hkeeps : w.classes.Keeps cls fields c)
    (hclasses : u.classes = w.classes) (hserves : u.Serves registry cls page.component)
    (hkey : outcome (secret given) u = (.ok key, u))
    (hpage : page.Signed key (stateOf fields value)) (hvalue : ∀ name ∈ fields, (value name).Plain)
    (hcalls : ∀ call ∈ calls, ∃ m, call.Names w.classes cls fields m)
    (hlife : outcome (lifetime cls (stateOf fields value) calls) w = (.ok effects, w'))
    (hquiet : ∀ e ∈ effects, joinsMarkup w' e.returned = false)
    (hplain : ∀ e ∈ effects, ∃ j : Json, j.Plain ∧ e.exposed = .ofJson j) :
    ∃ u', outcome (converse registry given page (stateOf fields value) calls) u =
      (.ok (effects.map fun e ↦ ⟨"", e.exposed⟩), u') := by
  have hmade := hkeeps.outcome_instantiate value
  have hstands : Stands (restored w cls (c.kept (Value.ofMembers (stateOf fields value))))
      w.objects.length cls fields value :=
    ⟨⟨_, objects_restored w cls _, exposes_restored hkeeps.toTakes value,
      inert_restored cls c (documents_ofMembers _)⟩, hvalue⟩
  rw [lifetime, outcome_bind_of_ok hmade] at hlife
  exact outcome_converse (w := restored w cls _) (hclasses ▸ hkeeps) hclasses hserves hkey hpage
    hvalue (hclasses ▸ hcalls) hstands hlife hquiet hplain

end Calls

/-! ## A counter that is called remotely -/

/-- A counter adds a number to its count, one if none is given. -/
def counter : Component.Class where
  name := "Counter"
  qualifiedName := "Counter"
  module := "icecube_compiled_app_Counter"
  base := .ice
  params := some [⟨"count", none, false, false, "count"⟩]
  init := []
  attributes := [("component_name", .value (.text "app_Counter")),
    ("state_fields", .value (.tuple [.text "count"])), ("render", .render (.node "div" [] [])),
    ("add", .member (.method ⟨[⟨"by", some (.int 1), false, false, ""⟩],
      [.add "count" (.arg "by")], .lit .null⟩))]

def counterRecord : Record :=
  .cached ⟨"app.Counter", "app_Counter", "counter.py", "out/app_Counter", none, none, "0123abcd"⟩

/-- The class of the counter is loaded. -/
def arcade : World := serving counter counterRecord

/-- The page of a counter that was rendered at 0. -/
def counterPage : Page := pageOf "app_Counter" [("count", .int 0)]

theorem keeps_counter : arcade.classes.Keeps 0 ["count"] counter :=
  have hcount : arcade.classes.Settable 0 "count" :=
    Classes.settable_of_none rfl (by decide) (by decide)
  { ice := rfl
    state := rfl
    exposing := rfl
    identifying := rfl
    id := Classes.settable_of_none rfl (by decide) (by decide)
    settable := List.forall_mem_singleton.mpr hcount
    concrete := rfl
    constructor := rfl
    takes := by decide
    keeps := by decide
    required := by decide
    stores := List.forall_mem_singleton.mpr hcount
    apart := by decide
    init := rfl }

/-- The counter is at 2 after the first call of its page, and at 3 after the second. -/
theorem counter_counts_on : ∃ u', outcome (converse "main" none counterPage [("count", .int 0)]
      [⟨"add", [.int 2]⟩, ⟨"add", []⟩]) arcade =
    (.ok [⟨"", .dict [("count", .int 2)]⟩, ⟨"", .dict [("count", .int 3)]⟩], u') := by
  have hadd : Method.Within ["count"] ⟨[⟨"by", some (.int 1), false, false, ""⟩],
      [.add "count" (.arg "by")], .lit .null⟩ :=
    ⟨List.forall_mem_singleton.mpr ⟨by simp, trivial⟩, trivial⟩
  have hcalls : ∀ call ∈ [(⟨"add", [.int 2]⟩ : MethodCall), ⟨"add", []⟩],
      ∃ m, call.Names arcade.classes 0 ["count"] m := by
    intro call hcall
    simp only [List.mem_cons, List.not_mem_nil, or_false] at hcall
    rcases hcall with rfl | rfl
    · exact ⟨_, by decide, by decide, rfl, hadd, List.forall_mem_singleton.mpr trivial⟩
    · exact ⟨_, by decide, by decide, rfl, hadd, by simp⟩
  have hlife : ∃ w', outcome (lifetime 0 (stateOf ["count"] fun _ ↦ .int 0)
      [⟨"add", [.int 2]⟩, ⟨"add", []⟩]) arcade =
      (.ok [⟨.none, .dict [("count", .int 2)]⟩, ⟨.none, .dict [("count", .int 3)]⟩], w') :=
    ⟨_, rfl⟩
  obtain ⟨w', hlife⟩ := hlife
  have hpage : counterPage.Signed "key" (stateOf ["count"] fun _ ↦ .int 0) :=
    signed_pageOf (by decide) [("count", .int 0)]
  have hserves : arcade.Serves "main" 0 counterPage.component := ⟨counterRecord, rfl, rfl⟩
  have hkey : outcome (secret none) arcade = (.ok "key", arcade) := rfl
  have hquiet : ∀ e ∈ [(⟨.none, .dict [("count", .int 2)]⟩ : Effect),
      ⟨.none, .dict [("count", .int 3)]⟩], joinsMarkup w' e.returned = false := by
    simp [joinsMarkup, isMarkup]
  have hplain : ∀ e ∈ [(⟨.none, .dict [("count", .int 2)]⟩ : Effect),
      ⟨.none, .dict [("count", .int 3)]⟩], ∃ j : Json, j.Plain ∧ e.exposed = .ofJson j := by
    have hcount (i : Int) : (Json.obj [("count", .int i)]).Plain :=
      ⟨by simp [Table.keys], trivial, trivial⟩
    simp only [List.forall_mem_cons]
    exact ⟨⟨_, hcount 2, rfl⟩, ⟨_, hcount 3, rfl⟩, by simp⟩
  have hvalue : ∀ name ∈ ["count"], ((fun _ ↦ .int 0 : String → Json) name).Plain :=
    fun _ _ ↦ trivial
  obtain ⟨u', hanswers⟩ := converse_follows_lifetime keeps_counter rfl hserves hkey hpage hvalue
    hcalls hlife hquiet hplain
  exact ⟨u', hanswers⟩

/-! ## A tray whose items come back as a list

What a tray keeps are the further arguments of a call, and these are a fixed list.  The page of the
tray receives a list and sends it back.
-/

/-- A tray keeps what it is given, and can put the text of it in its place. -/
def tray : Component.Class where
  name := "Tray"
  qualifiedName := "Tray"
  module := "icecube_compiled_app_Tray"
  base := .ice
  params := some [⟨"x", none, false, false, "x"⟩]
  init := []
  attributes := [("component_name", .value (.text "app_Tray")),
    ("state_fields", .value (.tuple [.text "x"])), ("render", .render (.node "div" [] [])),
    ("keep", .member (.method ⟨[⟨"xs", none, true, false, ""⟩], [.set "x" (.arg "xs")],
      .lit .null⟩)),
    ("show", .member (.method ⟨[], [.set "x" (.concat [.field "x"])], .lit .null⟩))]

def trayRecord : Record :=
  .cached ⟨"app.Tray", "app_Tray", "tray.py", "out/app_Tray", none, none, "0123abcd"⟩

/-- The class of the tray is loaded. -/
def pantry : World := serving tray trayRecord

/-- The page of a tray that was rendered with 0. -/
def trayPage : Page := pageOf "app_Tray" [("x", .int 0)]

/-- A tray gets two items, and then their text. -/
def trayCalls : List MethodCall := [⟨"keep", [.int 1, .int 2]⟩, ⟨"show", []⟩]

theorem keeps_tray : pantry.classes.Keeps 0 ["x"] tray :=
  have hx : pantry.classes.Settable 0 "x" := Classes.settable_of_none rfl (by decide) (by decide)
  { ice := rfl
    state := rfl
    exposing := rfl
    identifying := rfl
    id := Classes.settable_of_none rfl (by decide) (by decide)
    settable := List.forall_mem_singleton.mpr hx
    concrete := rfl
    constructor := rfl
    takes := by decide
    keeps := by decide
    required := by decide
    stores := List.forall_mem_singleton.mpr hx
    apart := by decide
    init := rfl }

theorem names_keep : MethodCall.Names ⟨"keep", [.int 1, .int 2]⟩ pantry.classes 0 ["x"]
    ⟨[⟨"xs", none, true, false, ""⟩], [.set "x" (.arg "xs")], .lit .null⟩ where
  named := by decide
  unreserved := by decide
  method := rfl
  within := ⟨List.forall_mem_singleton.mpr ⟨by simp, trivial⟩, trivial⟩
  args := List.forall_mem_cons.mpr ⟨trivial, List.forall_mem_singleton.mpr trivial⟩

theorem names_show : MethodCall.Names ⟨"show", []⟩ pantry.classes 0 ["x"]
    ⟨[], [.set "x" (.concat [.field "x"])], .lit .null⟩ where
  named := by decide
  unreserved := by decide
  method := rfl
  within := by
    have hshow : (Expr.concat [.field "x"]).Within ["x"] := ⟨by simp [Expr.Within], trivial⟩
    exact ⟨List.forall_mem_singleton.mpr ⟨by simp, hshow⟩, trivial⟩
  args := by simp

/-- The first call has reached a tray, which keeps its items. -/
def pantryWithItems : World :=
  { (pantry.resumed 0 tray [("x", .int 0)] "a" [("x", .int 0)]).kept 0 "x"
      (.tuple [.int 1, .int 2]) with
    log := [.methodCalled] }

/-- One tray that takes both calls shows its items in parentheses, and the page of a tray that posts
them receives the text with brackets. -/
theorem tray_comes_back_as_list :
    pantry.classes.Keeps 0 ["x"] tray ∧
    (∀ call ∈ trayCalls, ∃ m, call.Names pantry.classes 0 ["x"] m) ∧
    trayPage.Signed "key" [("x", .int 0)] ∧
    (∃ w', outcome (lifetime 0 [("x", .int 0)] trayCalls) pantry =
      (.ok [⟨.none, .dict [("x", .tuple [.int 1, .int 2])]⟩,
        ⟨.none, .dict [("x", .text "(1, 2)")]⟩], w')) ∧
    ∃ u', outcome (converse "main" none trayPage [("x", .int 0)] trayCalls) pantry =
      (.ok [⟨"", .dict [("x", .tuple [.int 1, .int 2])]⟩,
        ⟨"", .dict [("x", .text "[1, 2]")]⟩], u') := by
  have hpage : trayPage.Signed "key" (stateOf ["x"] fun _ ↦ .int 0) :=
    signed_pageOf (by decide) [("x", .int 0)]
  have hfirst : ∀ name ∈ ["x"], ((fun _ ↦ .int 0 : String → Json) name).Plain :=
    fun _ _ ↦ trivial
  have hitems : ∀ name ∈ ["x"],
      ((fun _ ↦ .arr [.int 1, .int 2] : String → Json) name).Plain :=
    fun _ _ ↦ ⟨trivial, trivial, trivial⟩
  have hserves : pantry.Serves "main" 0 trayPage.component := ⟨trayRecord, rfl, rfl⟩
  have hserves' : pantryWithItems.Serves "main" 0 trayPage.component := ⟨trayRecord, rfl, rfl⟩
  have hkey : outcome (secret none) pantry = (.ok "key", pantry) := rfl
  have hkey' : outcome (secret none) pantryWithItems = (.ok "key", pantryWithItems) := rfl
  have hkeep : outcome (handle "main" (trayPage.request ⟨"keep", [.int 1, .int 2]⟩
      (stateOf ["x"] fun _ ↦ .int 0)) (some trayPage.signature) none) pantry =
      (.ok ⟨"", .dict [("x", .tuple [.int 1, .int 2])]⟩, pantryWithItems) := by
    rw [outcome_handle_request keeps_tray hserves hkey hpage hfirst hfirst names_keep ⟨_, rfl⟩]
    rfl
  have hreceived : outcome (received ⟨"", .dict [("x", .tuple [.int 1, .int 2])]⟩)
      pantryWithItems = (.ok (stateOf ["x"] fun _ ↦ .arr [.int 1, .int 2]), pantryWithItems) :=
    outcome_bind_of_ok (outcome_transmit (plain_stateOf hitems) pantryWithItems) _
  obtain ⟨u', hshow⟩ : ∃ u', outcome (handle "main" (trayPage.request ⟨"show", []⟩
      (stateOf ["x"] fun _ ↦ .arr [.int 1, .int 2])) (some trayPage.signature) none)
      pantryWithItems = (.ok ⟨"", .dict [("x", .text "[1, 2]")]⟩, u') := by
    rw [outcome_handle_request (u := pantryWithItems) keeps_tray hserves' hkey' hpage hfirst hitems
      names_show ⟨_, rfl⟩]
    exact ⟨_, rfl⟩
  have hreceived' : outcome (received ⟨"", .dict [("x", .text "[1, 2]")]⟩) u' =
      (.ok [("x", .str "[1, 2]")], u') := by
    have htext : (Json.obj [("x", .str "[1, 2]")]).Plain := ⟨by decide, trivial, trivial⟩
    exact outcome_received rfl htext u'
  have hsecond : outcome (converse "main" none trayPage
      (stateOf ["x"] fun _ ↦ .arr [.int 1, .int 2]) [⟨"show", []⟩]) pantryWithItems =
      (.ok [⟨"", .dict [("x", .text "[1, 2]")]⟩], u') := by
    rw [converse, outcome_bind_of_ok (outcome_transmit (names_show.plain_request trayPage
      (plain_stateOf hitems)) pantryWithItems), outcome_bind_of_ok hshow,
      outcome_bind_of_ok hreceived']
    rfl
  refine ⟨keeps_tray, ?_, hpage, ⟨_, rfl⟩, u', ?_⟩
  · intro call hcall
    simp only [trayCalls, List.mem_cons, List.not_mem_nil, or_false] at hcall
    rcases hcall with rfl | rfl
    · exact ⟨_, names_keep⟩
    · exact ⟨_, names_show⟩
  · change outcome (converse "main" none trayPage (stateOf ["x"] fun _ ↦ .int 0)
      [⟨"keep", [.int 1, .int 2]⟩, ⟨"show", []⟩]) pantry = _
    rw [converse, outcome_bind_of_ok (outcome_transmit (names_keep.plain_request trayPage
      (plain_stateOf hfirst)) pantry), outcome_bind_of_ok hkeep, outcome_bind_of_ok hreceived,
      outcome_bind_of_ok hsecond]
    rfl

end Remote

end IceCube
