import IceCube.Proofs.Json.Lossless
import IceCube.Proofs.Remote.Page
import IceCube.Proofs.Remote.Replay

/-!
# Pages sent back

What a page has read from the start tag of a component is accepted when it comes back: the signature
is that of the state, the name finds the class, and the state makes an object that has it.
-/

namespace IceCube

open Step Component

/-- A registry finds a class by a name, and has loaded it. -/
def World.Serves (w : World) (registry : RegistryId) (cls : ClassId) (name : String) : Prop :=
  ∃ record, (w.registry registry).getByName? name = some record ∧
    Table.get? (w.registry registry).loaded record.identifier = some cls

namespace Component

/-- A class of components that take remote calls, under the name that it was loaded with.  All that
its constructor needs is its declared state. -/
structure Classes.Restorable (cs : Classes) (cls : ClassId) (fields : List String) (c : Class)
    (name : String) : Prop extends cs.Declares cls fields, cs.Takes cls fields c where
  named : cs.attribute? cls "component_name" = some (.value (.text name))
  nonempty : name ≠ ""

end Component

namespace Remote

section Prepare

variable {registry : RegistryId} {cls : ClassId} {name : String} {w w' : World} {call : RemoteCall}
  {state : Table String Json} {m : Option Method} {o : ObjectId}

theorem outcome_componentClass (hserves : w.Serves registry cls name)
    (hice : w.classes.isIce cls = true) :
    outcome (componentClass registry name) w = (.ok cls, w) := by
  obtain ⟨record, hrecord, hloaded⟩ := hserves
  have hresolve : outcome (Resolve.resolve registry record.identifier false) w = (.ok cls, w) := by
    rw [Resolve.resolve, outcome_get_bind, hloaded]
    rfl
  rw [componentClass, outcome_get_bind, hrecord]
  dsimp only
  rw [outcome_bind_of_ok (outcome_tryCatch_of_ok hresolve _), outcome_get_bind, hice]
  rfl

theorem outcome_props {snapshot : String} (hread : Json.read snapshot = .ok (.obj state)) :
    outcome (props snapshot) w = (.ok (Value.ofMembers state), w) := by
  rw [props, hread]
  rfl

/-- A call of a class that is loaded makes an object from the state that it brings. -/
theorem outcome_prepare (hserves : w.Serves registry cls call.component)
    (hice : w.classes.isIce cls = true) (hread : Json.read call.snapshot = .ok (.obj state))
    (hmethod : outcome (checkedMethod cls call) w = (.ok m, w))
    (hmade : outcome (Component.instantiate Dispatch.full cls (Value.ofMembers state)) w =
      (.ok o, w')) :
    outcome (prepare registry call) w = (.ok ⟨o, Value.ofMembers state, m⟩, w') := by
  have hinstantiate : outcome (instantiate Dispatch.full cls (Value.ofMembers state)) w =
      (.ok o, w') := outcome_tryCatch_of_ok hmade _
  rw [prepare, outcome_bind_of_ok (outcome_componentClass hserves hice),
    outcome_bind_of_ok (outcome_props hread), outcome_bind_of_ok hmethod,
    outcome_bind_of_ok hinstantiate]
  rfl

end Prepare

/-! ## The state that comes back -/

theorem plain_stateOf {fields : List String} {value : String → Json}
    (h : ∀ name ∈ fields, (value name).Plain) : (Json.obj (stateOf fields value)).Plain := by
  refine ⟨Table.nodup_keys_ofEntries _, Json.plainMembers_of_forall fun m hm ↦ ?_⟩
  obtain ⟨name, hname, rfl⟩ := List.mem_map.mp (Table.mem_of_mem_ofEntries hm)
  exact h name hname

/-- The state that a page was signed in is the one that is read from its snapshot. -/
theorem read_of_signed {page : Page} {key : String} {fields : List String} {value : String → Json}
    (h : page.Signed key (stateOf fields value)) (hplain : ∀ name ∈ fields, (value name).Plain) :
    Json.read page.snapshot = .ok (.obj (stateOf fields value)) := by
  rw [h.snapshot]
  exact (plain_stateOf hplain).read_write _

section Returned

variable {registry : RegistryId} {cls : ClassId} {fields : List String} {value : String → Json}
  {u u₁ : World} {o : ObjectId} {inst : Instance} {page : Page} {key : String}
  {given : Option String}

/-- A page with a state of a loaded class gets this state back. -/
theorem outcome_handle_payload (hcls : u.classes.Declares cls fields)
    (hserves : u.Serves registry cls page.component)
    (hkey : outcome (secret given) u = (.ok key, u))
    (hpage : page.Signed key (stateOf fields value))
    (hplain : ∀ name ∈ fields, (value name).Plain)
    (hmade : outcome (Component.instantiate Dispatch.full cls
      (Value.ofMembers (stateOf fields value))) u = (.ok o, u₁))
    (hobject : u₁.objects[o]? = some inst) (hinst : HasState inst cls fields value) :
    ∃ u', outcome (handle registry page.payload (some page.signature) given) u =
      (.ok ⟨"", .dict (Value.ofMembers (stateOf fields value))⟩, u') := by
  have hprepare : outcome (prepare registry ⟨page.id, page.component, page.snapshot, none, [], []⟩)
      u = (.ok ⟨o, Value.ofMembers (stateOf fields value), none⟩, u₁) :=
    outcome_prepare hserves hcls.ice (read_of_signed hpage hplain) rfl hmade
  have hextends := (extends_instantiate (Dispatch.extending_atDepth 1000) cls _).of_outcome hmade
  have hcls₁ : u₁.classes.Declares cls fields := hextends.classes ▸ hcls
  have hset := outcome_setId hobject hinst.toExposes hcls₁.toReplies 999 hpage.id
  have hobject' := World.objects_kept_self hobject idField (.text page.id)
  have hinst' := hinst.insert_id hcls.idField (.text page.id)
  have hexpose := outcome_expose hobject' hinst'.toExposes hcls₁.toStateful 998
  refine ⟨u₁.kept o idField (.text page.id), ?_⟩
  rw [hpage.signature, outcome_handle_of_signed hpage.remoteCall_payload hkey,
    outcome_bind_of_ok hprepare, applyData_eq, bind_assoc]
  change outcome (Dispatch.full.call o "set_id" [.text page.id] >>= _) u₁ = _
  rw [Dispatch.full, outcome_bind_of_ok hset]
  change outcome (newState (.atDepth 1000) o) _ = _
  rw [newState, outcome_bind_of_ok hexpose, ofMembers_stateOf]
  rfl

end Returned

/-- What a process renders is accepted when it comes back with the same key, and the reply is the
state that was exposed.  The constructor of the class is given nothing but this state, so its body
has to end well with it and to leave it as it is. -/
theorem rendered_page_is_accepted {registry : RegistryId} {cls : ClassId} {fields : List String}
    {value : String → Json} {c : Component.Class} {name key html tag : String} {given : Option String}
    {w w₁ w' u u₁ : World} {o : ObjectId} {n : NodeId} {inst : Instance} {as : Table String String}
    {children : List Value} (hcls : w.classes.Restorable cls fields c name)
    (hplain : ∀ name ∈ fields, (value name).Plain) (hkey : w.environment.secret = .ok key)
    (hobject : w.objects[o]? = some inst) (hinst : inst.classId = cls)
    (hrender : outcome ((Dispatch.atDepth 999).call o "render" []) w = (.ok (.node n), w₁))
    (hroot : Shows cls fields value o n tag as children w₁) (htag : Markup.PlainName tag)
    (hid : ∀ s, Table.get? as "id" = some s → s ≠ "")
    (hown : ∀ inst, w₁.objects[o]? = some inst → IdWritable inst)
    (htext : outcome (Dispatch.full.text o) w = (.ok html, w'))
    (hclasses : u.classes = w.classes) (hserves : u.Serves registry cls name)
    (hkey' : outcome (secret given) u = (.ok key, u))
    (hbody : outcome (c.init.forM (perform Dispatch.full ⟨some u.objects.length,
        c.bound (Value.ofMembers (stateOf fields value))⟩))
      (restored u cls (c.kept (Value.ofMembers (stateOf fields value)))) = (.ok PUnit.unit, u₁))
    (hmade : ∀ inst, u₁.objects[u.objects.length]? = some inst →
      HasState inst cls fields value) :
    ∃ page u', Page.ofHtml? html = some page ∧
      outcome (Dispatch.full.call o "expose_state" []) w₁ =
        (.ok (.dict (Value.ofMembers (stateOf fields value))), w₁) ∧
      outcome (handle registry page.payload (some page.signature) given) u =
        (.ok ⟨"", .dict (Value.ofMembers (stateOf fields value))⟩, u') := by
  obtain ⟨page, hpage, hpageName, hsigned⟩ :=
    exists_page_of_text 995 hobject hinst hcls.toDeclares hrender hroot htag hid hown hcls.named
      hcls.nonempty hkey htext
  have hextends :=
    ((Dispatch.extending_atDepth 999).call o "render" []).of_outcome hrender
  obtain ⟨inst₁, hobject₁, hinst₁⟩ := hroot.object
  have hexpose := outcome_expose hobject₁ hinst₁.toExposes (hextends.classes ▸ hcls.toStateful) 998
  -- the object that is made from the state has it
  have hinstantiate : outcome (Component.instantiate Dispatch.full cls
      (Value.ofMembers (stateOf fields value))) u = (.ok u.objects.length, u₁) := by
    rw [outcome_instantiate (hclasses ▸ hcls.toTakes), outcome_bind_of_ok hbody]
    rfl
  have hnew := objects_restored u cls (c.kept (Value.ofMembers (stateOf fields value)))
  obtain ⟨inst₂, hobject₂, -⟩ :=
    ((moves_forM (extends_perform (Dispatch.extending_atDepth 1000) _) _).of_outcome
      hbody).objects hnew
  obtain ⟨u', hhandle⟩ := outcome_handle_payload (hclasses ▸ hcls.toDeclares)
    (hpageName ▸ hserves) hkey' hsigned hplain hinstantiate hobject₂ (hmade inst₂ hobject₂)
  exact ⟨page, u', hpage, ofMembers_stateOf fields value ▸ hexpose, hhandle⟩

/-! ## A panel that comes back -/

/-- A world in which one class is loaded, under the name of its record. -/
def serving (c : Component.Class) (record : Record) : World :=
  { World.start (.empty []) ⟨none, some "key"⟩ with
    registries := [("main", ⟨[(record.identifier, record)],
      [(record.componentName, record.identifier)], [(record.identifier, 0)], []⟩)]
    classes := [c] }

def panelRecord : Record :=
  .cached ⟨"app.Panel", "app_Panel", "panel.py", "out/app_Panel", none, none, "0123abcd"⟩

/-- The class of the panel is loaded, and there is a panel whose `x` is 1. -/
def parlor : World := { serving panel panelRecord with objects := [⟨0, [("x", .int 1)]⟩] }

/-- The panel has returned its root. -/
def parlorWithRoot : World := { parlor with elements := [⟨"div", [], []⟩] }

theorem restorable_panel : parlor.classes.Restorable 0 ["x"] panel "app_Panel" :=
  have hx : parlor.classes.Settable 0 "x" := Classes.settable_of_none rfl (by decide) (by decide)
  { ice := rfl
    state := rfl
    exposing := by decide
    identifying := by decide
    id := Classes.settable_of_none rfl (by decide) (by decide)
    carriers := by decide
    idField := by decide
    settable := List.forall_mem_singleton.mpr hx
    concrete := rfl
    constructor := rfl
    takes := by decide
    keeps := by decide
    required := by decide
    stores := List.forall_mem_singleton.mpr hx
    apart := by decide
    named := rfl
    nonempty := by decide }

theorem panel_comes_back : ∃ html page w' u',
    outcome (Dispatch.full.text 0) parlor = (.ok html, w') ∧
    Page.ofHtml? html = some page ∧
    outcome (handle "main" page.payload (some page.signature) none) parlor =
      (.ok ⟨"", .dict [("x", .int 1)]⟩, u') := by
  obtain ⟨html, w', htext, -⟩ := exists_outcome_eq_ok (m := Dispatch.full.text 0) (s := parlor)
    (P := fun _ ↦ True) (by decide +kernel) trivial
  have hstate : HasState ⟨0, [("x", .int 1)]⟩ 0 ["x"] fun _ ↦ .int 1 :=
    ⟨⟨rfl, List.forall_mem_singleton.mpr rfl, by decide⟩, by decide⟩
  have hroot : Shows 0 ["x"] (fun _ ↦ .int 1) 0 0 "div" [] [] parlorWithRoot :=
    ⟨⟨_, rfl, hstate⟩, rfl, by simp⟩
  have hown : ∀ inst, parlorWithRoot.objects[0]? = some inst → IdWritable inst := by
    rintro inst hinst v hv
    cases hinst
    cases hv
  have hserves : parlor.Serves "main" 0 "app_Panel" := ⟨panelRecord, rfl, rfl⟩
  have hplain : ∀ name ∈ ["x"], ((fun _ ↦ .int 1 : String → Json) name).Plain := fun _ _ ↦ trivial
  have hkey : outcome (secret none) parlor = (.ok "key", parlor) := rfl
  obtain ⟨page, u', hpage, -, hhandle⟩ := rendered_page_is_accepted restorable_panel hplain rfl rfl
    rfl rfl hroot (by decide) (fun s hs ↦ by cases hs) hown htext rfl hserves hkey rfl
    (fun inst hinst ↦ by
      cases hinst
      exact hstate)
  exact ⟨html, page, w', u', htext, hpage, hhandle⟩

/-! ## A ladder that does not

The constructor of a ladder takes besides the state a number of steps, and adds one to it.  What it
takes by default is a text.
-/

def ladder : Component.Class where
  name := "Ladder"
  qualifiedName := "Ladder"
  module := "icecube_compiled_app_Ladder"
  base := .ice
  params := some [⟨"a", none, false, false, "a"⟩, ⟨"n", some (.str "x"), false, false, "n"⟩]
  init := [.add "n" (.lit (.int 1))]
  attributes := [("component_name", .value (.text "app_Ladder")),
    ("state_fields", .value (.tuple [.text "a"])), ("render", .render (.node "div" [] []))]

def ladderRecord : Record :=
  .cached ⟨"app.Ladder", "app_Ladder", "ladder.py", "out/app_Ladder", none, none, "0123abcd"⟩

/-- The class of the ladder is loaded. -/
def shed : World := serving ladder ladderRecord

/-- A ladder has been made with two steps. -/
def shedWithLadder : World := { shed with objects := [⟨0, [("a", .int 1), ("n", .int 3)]⟩] }

/-- The ladder has returned its root. -/
def shedWithRoot : World := { shedWithLadder with elements := [⟨"div", [], []⟩] }

theorem restorable_ladder : shedWithLadder.classes.Restorable 0 ["a"] ladder "app_Ladder" :=
  have ha : shedWithLadder.classes.Settable 0 "a" :=
    Classes.settable_of_none rfl (by decide) (by decide)
  have hn : shedWithLadder.classes.Settable 0 "n" :=
    Classes.settable_of_none rfl (by decide) (by decide)
  { ice := rfl
    state := rfl
    exposing := by decide
    identifying := by decide
    id := Classes.settable_of_none rfl (by decide) (by decide)
    carriers := by decide
    idField := by decide
    settable := List.forall_mem_singleton.mpr ha
    concrete := rfl
    constructor := rfl
    takes := by decide
    keeps := by decide
    required := by decide
    stores := List.forall_mem_cons.mpr ⟨ha, List.forall_mem_singleton.mpr hn⟩
    apart := by decide
    named := rfl
    nonempty := by decide }

/-- The ladder was made and rendered, and its page is turned down: without the number of steps the
body of its constructor fails. -/
theorem ladder_does_not_come_back :
    outcome (Component.instantiate Dispatch.full 0 [("a", .int 1), ("n", .int 2)]) shed =
      (.ok 0, shedWithLadder) ∧
    shedWithLadder.classes.Restorable 0 ["a"] ladder "app_Ladder" ∧
    ∃ html page w' u', outcome (Dispatch.full.text 0) shedWithLadder = (.ok html, w') ∧
      Page.ofHtml? html = some page ∧
      outcome (handle "main" page.payload (some page.signature) none) shedWithLadder =
        (.error (.failure .badCall), u') := by
  refine ⟨rfl, restorable_ladder, ?_⟩
  obtain ⟨html, w', htext, -⟩ := exists_outcome_eq_ok (m := Dispatch.full.text 0)
    (s := shedWithLadder) (P := fun _ ↦ True) (by decide +kernel) trivial
  have hstate : HasState ⟨0, [("a", .int 1), ("n", .int 3)]⟩ 0 ["a"] fun _ ↦ .int 1 :=
    ⟨⟨rfl, List.forall_mem_singleton.mpr rfl, by decide⟩, by decide⟩
  have hroot : Shows 0 ["a"] (fun _ ↦ .int 1) 0 0 "div" [] [] shedWithRoot :=
    ⟨⟨_, rfl, hstate⟩, rfl, by simp⟩
  have hown : ∀ inst, shedWithRoot.objects[0]? = some inst → IdWritable inst := by
    rintro inst hinst v hv
    cases hinst
    cases hv
  obtain ⟨page, hpage, hname, hsigned⟩ := exists_page_of_text 995 rfl rfl
    restorable_ladder.toDeclares rfl hroot (by decide) (fun s hs ↦ by cases hs) hown rfl
    restorable_ladder.nonempty rfl htext
  have hread : Json.read page.snapshot = .ok (.obj [("a", .int 1)]) :=
    read_of_signed hsigned fun _ _ ↦ trivial
  have hserves : shedWithLadder.Serves "main" 0 page.component :=
    hname ▸ ⟨ladderRecord, rfl, rfl⟩
  obtain ⟨u', hmade⟩ : ∃ u', outcome (instantiate Dispatch.full 0 [("a", .int 1)])
      shedWithLadder = (.error (.failure .badCall), u') := ⟨_, rfl⟩
  have hcall := hsigned.remoteCall_payload
  have hkey : outcome (secret none) shedWithLadder = (.ok "key", shedWithLadder) := rfl
  have hprepare : outcome (prepare "main" ⟨page.id, page.component, page.snapshot, none, [], []⟩)
      shedWithLadder = (.error (.failure .badCall), u') := by
    rw [prepare, outcome_bind_of_ok (outcome_componentClass hserves rfl),
      outcome_bind_of_ok (outcome_props hread)]
    exact outcome_bind_of_error hmade _
  refine ⟨html, page, w', u', htext, hpage, ?_⟩
  rw [hsigned.signature, outcome_handle_of_signed hcall hkey]
  exact outcome_bind_of_error hprepare _

end Remote

end IceCube
