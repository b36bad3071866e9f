import IceCube.Proofs.Remote.Handling

/-!
# Replayed calls

The signature that a rendered component leaves on its root is that of the text of its state and of
nothing else.  So a call that brings it back has the state that was rendered, but nothing says of
which component: the call can name any component that takes remote calls, and client data then sets
the attributes that the rendered component has declared, whether or not the named one declares them.
-/

namespace IceCube

open Step Component

/-- A run of rendering an object, with the worlds before and after it. -/
structure Rendering where
  depth : Nat
  object : ObjectId
  root : NodeId
  before : World
  after : World

namespace Rendering

/-- The text of an attribute that the root has after a rendering. -/
def text? (ρ : Rendering) (name : String) : Option String :=
  match ρ.after.attribute? ρ.root name with
  | some (.text s) => some s
  | _ => none

/-- The state that a rendering leaves on the root. -/
def snapshot? (ρ : Rendering) : Option String := ρ.text? stateAttribute

/-- The signature that a rendering leaves on the root. -/
def signature? (ρ : Rendering) : Option String := ρ.text? signatureAttribute

/-- The name under which the class of the rendered object was loaded. -/
def Of (ρ : Rendering) (componentName : String) : Prop :=
  ∃ inst, ρ.before.objects[ρ.object]? = some inst ∧
    ρ.before.classes.attribute? inst.classId "component_name" =
      some (.value (.text componentName))

/-- The state that the class of the rendered object declares.  The class leaves it to the classes
without code to expose that state, and the object has no other declaration of its own. -/
def Declares (ρ : Rendering) (fields : List String) : Prop :=
  ∃ inst inst', ρ.before.objects[ρ.object]? = some inst ∧
    ρ.after.objects[ρ.object]? = some inst' ∧
    ρ.before.classes.attribute? inst.classId "state_fields" =
      some (.value (.tuple (fields.map .text))) ∧
    ρ.before.classes.attribute? inst.classId "expose_state" = none ∧
    Table.get? inst'.fields "state_fields" = none

/-- A rendering of a component that takes remote calls, by a process that signs with a key. -/
structure Issued (key : String) (ρ : Rendering) : Prop where
  ice : ∃ inst, ρ.before.objects[ρ.object]? = some inst ∧
    ρ.before.classes.isIce inst.classId = true
  signsWith : ρ.before.environment.secret = .ok key
  renders : ∃ v, outcome (onRender (.atDepth ρ.depth) ρ.object (.node ρ.root)) ρ.before =
    (.ok v, ρ.after)

variable {key : String} {ρ : Rendering}

/-- What a rendering leaves on the root. -/
theorem Issued.signed (h : ρ.Issued key) :
    ∃ s, ρ.snapshot? = some s ∧ ρ.signature? = some (sign key s) ∧
      ∀ fields, ρ.Declares fields →
        ∃ ms, s = (Json.obj ms).compact ∧ ∀ name ∈ Table.keys ms, name ∈ fields := by
  obtain ⟨inst, hobject, hice⟩ := h.ice
  obtain ⟨v, hrun⟩ := h.renders
  have hd := Dispatch.extending_atDepth ρ.depth
  obtain ⟨w₁, w₂, state, j, hw₁, hw₂, hcall, hj, hsnapshot, hsignature⟩ :=
    outcome_onRender_eq_ok hd hobject hice h.signsWith hrun
  refine ⟨j.compact, by rw [snapshot?, text?, hsnapshot], by rw [signature?, text?, hsignature],
    fun fields hdeclares ↦ ?_⟩
  obtain ⟨inst₀, inst', hobject₀, hafter, hfields, hexpose, hown⟩ := hdeclares
  obtain rfl : inst = inst₀ := Option.some.inj (hobject.symm.trans hobject₀)
  -- own attributes are never taken away, so what is missing at the end was missing before
  obtain ⟨inst₁, hobject₁, hclass, -⟩ := hw₁.objects hobject
  have hlater : w₁.Extends ρ.after := IsTrans.trans _ _ _ ((hd.call _ _ _).of_outcome hcall) hw₂
  obtain ⟨inst₂, hobject₂, -, hnone⟩ := hlater.objects hobject₁
  obtain rfl : inst' = inst₂ := Option.some.inj (hafter.symm.trans hobject₂)
  rw [← hclass, ← hw₁.classes] at hexpose hfields
  obtain ⟨ms, rfl, hnames⟩ := declared_of_expose hcall hobject₁ hexpose hfields (hnone _ hown) hj
  exact ⟨ms, rfl, hnames⟩

/-- A rendering has left the signature of a text exactly if it has left the text. -/
theorem Issued.signature?_eq_some_iff (h : ρ.Issued key) {t : String}
    (hfree : ∀ s, ρ.snapshot? = some s → sign key s = sign key t → s = t) :
    ρ.signature? = some (sign key t) ↔ ρ.snapshot? = some t := by
  obtain ⟨s, hs, hsign, -⟩ := h.signed
  rw [hs, hsign, Option.some.injEq, Option.some.injEq]
  constructor
  · exact hfree s hs
  · rintro rfl
    rfl

end Rendering

namespace Remote

/-- Client data sets only what the rendered component has declared. -/
theorem sameBut_of_declares {key : String} {registry : RegistryId} {signature given : Option String}
    {call : RemoteCall} {ρ : Rendering} {fields : List String} {a : Accepted} {w w₁ w₂ w₃ : World}
    {u : PUnit} (hissued : ρ.Issued key) (hfields : ρ.Declares fields)
    (hsnapshot : ρ.snapshot? = some call.snapshot)
    (haccept : outcome (accept registry call signature given) w = (.ok a, w₁))
    (hset : outcome ((clientData call a.state).forM fun e ↦
      setAttribute a.object e.1 (.ofJson e.2)) w₂ = (.ok u, w₃)) :
    World.SameBut a.object fields w₂ w₃ := by
  obtain ⟨s, hs, -, hdeclared⟩ := hissued.signed
  obtain rfl : s = call.snapshot := Option.some.inj (hs.symm.trans hsnapshot)
  obtain ⟨ms, hms, hnames⟩ := hdeclared fields hfields
  obtain ⟨ms', hread, hkeys⟩ := Json.read_write_obj ⟨.ascii, .oneLine⟩ ms
  obtain ⟨ms₀, hread₀, hstate⟩ := state_of_accept haccept
  rw [hms, Json.compact, hread] at hread₀
  obtain rfl : ms' = ms₀ := by simpa using hread₀
  intro o name hne
  obtain ⟨ho, hname⟩ := (sameBut_clientData a.object call a.state).of_outcome hset o name hne
  rw [hstate, keys_ofMembers, hkeys] at hname
  exact ⟨ho, hnames name hname⟩

/-- An accepted call has the state that was rendered, and sets only what the rendered component has
declared.  The signature would let any component through with this state, so the call is bound to
the component that it names exactly where a rendering of this component has left the signature. -/
theorem accepted_call_replays {key signature : String} {registry : RegistryId} {payload : Json}
    {given : Option String} {call : RemoteCall} {w w' : World} {r : CallResult}
    {history : List Rendering} (hcall : Schema.remoteCall .value payload = .good call)
    (hkey : outcome (secret given) w = (.ok key, w))
    (hissued : ∀ ρ ∈ history, ρ.Issued key)
    (hfree : ∀ ρ ∈ history, ∀ s, ρ.snapshot? = some s → sign key s = sign key call.snapshot →
      s = call.snapshot)
    (haccepted : outcome (handle registry payload (some signature) given) w = (.ok r, w')) :
    ∃ a id w₁ w₂ w₃, outcome (accept registry call (some signature) given) w = (.ok a, w₁) ∧
      outcome (Dispatch.full.call a.object "set_id" [.text call.id]) w₁ = (.ok id, w₂) ∧
      outcome ((clientData call a.state).forM fun e ↦ setAttribute a.object e.1 (.ofJson e.2)) w₂ =
        (.ok PUnit.unit, w₃) ∧
      outcome (finish call a) w₃ = (.ok r, w') ∧
      (∀ other : RemoteCall, other.snapshot = call.snapshot →
        outcome (checkSignature other (some signature) given) w = (.ok PUnit.unit, w)) ∧
      (∀ ρ ∈ history, ρ.signature? = some signature ↔ ρ.snapshot? = some call.snapshot) ∧
      (∀ c, (∃ ρ ∈ history, ρ.Of c ∧ ρ.snapshot? = some call.snapshot) ↔
        ∃ ρ ∈ history, ρ.Of c ∧ ρ.signature? = some signature) ∧
      (∀ ρ ∈ history, ρ.signature? = some signature → ∀ fields, ρ.Declares fields →
        World.SameBut a.object fields w₂ w₃) := by
  obtain ⟨a, id, w₁, w₂, w₃, haccept, hid, hset, hfinish⟩ := outcome_handle_eq_ok hcall haccepted
  obtain rfl : signature = sign key call.snapshot :=
    Option.some.inj (signature_of_accept hkey haccept)
  have hiff : ∀ ρ ∈ history, ρ.signature? = some (sign key call.snapshot) ↔
      ρ.snapshot? = some call.snapshot :=
    fun ρ hρ ↦ (hissued ρ hρ).signature?_eq_some_iff (hfree ρ hρ)
  refine ⟨a, id, w₁, w₂, w₃, haccept, hid, hset, hfinish, fun other hother ↦ ?_, hiff, fun c ↦ ?_,
    fun ρ hρ hsign fields hfields ↦ ?_⟩
  · rw [← hother]
    exact outcome_checkSignature_of_signed hkey
  · constructor
    · rintro ⟨ρ, hρ, hc, hs⟩
      exact ⟨ρ, hρ, hc, (hiff ρ hρ).mpr hs⟩
    · rintro ⟨ρ, hρ, hc, hs⟩
      exact ⟨ρ, hρ, hc, (hiff ρ hρ).mp hs⟩
  · exact sameBut_of_declares (hissued ρ hρ) hfields ((hiff ρ hρ).mp hsign) haccept hset

/-! ## A replay

A panel with a field `x` has been rendered.  A vault takes `x` too but declares `y` alone.
-/

def panel : Component.Class where
  name := "Panel"
  qualifiedName := "Panel"
  module := "icecube_compiled_app_Panel"
  base := .ice
  params := some [⟨"x", none, false, false, "x"⟩]
  init := []
  attributes := [("component_name", .value (.text "app_Panel")),
    ("state_fields", .value (.tuple [.text "x"])), ("render", .render (.node "div" [] []))]

def vault : Component.Class where
  name := "Vault"
  qualifiedName := "Vault"
  module := "icecube_compiled_app_Vault"
  base := .ice
  params := some [⟨"x", some (.int 0), false, false, "x"⟩, ⟨"y", some (.int 0), false, false, "y"⟩]
  init := []
  attributes := [("component_name", .value (.text "app_Vault")),
    ("state_fields", .value (.tuple [.text "y"])), ("render", .render (.node "div" [] []))]

def vaultRecord : Record :=
  .cached ⟨"app.Vault", "app_Vault", "vault.py", "out/app_Vault", none, none, "0123abcd"⟩

/-- Both classes are loaded, and there is a panel whose `x` is 1. -/
def studio : World :=
  { World.start (.empty []) ⟨none, some "key"⟩ with
    registries := [("main",
      ⟨[("app.Vault", vaultRecord)], [("app_Vault", "app.Vault")], [("app.Vault", 1)], []⟩)]
    classes := [panel, vault]
    objects := [⟨0, [("x", .int 1)]⟩]
    elements := [⟨"div", [], []⟩] }

/-- The rendering of the panel. -/
def shown : Rendering where
  depth := 8
  object := 0
  root := 0
  before := studio
  after := (outcome (onRender (.atDepth 8) 0 (.node 0)) studio).2

/-- A call of the vault with the state of the panel. -/
def replayed : RemoteCall := ⟨"a", "app_Vault", "\x7b\"x\": 1\x7d", none, [], [("x", .int 5)]⟩

def replayedPayload : Json :=
  .obj [("id", .str "a"), ("component", .str "app_Vault"), ("snapshot", .str "\x7b\"x\": 1\x7d"),
    ("data", .obj [("x", .int 5)])]

theorem remoteCall_replayedPayload :
    Schema.remoteCall .value replayedPayload = .good replayed := rfl

theorem secret_shown : outcome (secret none) shown.after = (.ok "key", shown.after) := rfl

theorem snapshot?_shown : shown.snapshot? = some replayed.snapshot := rfl

theorem issued_shown : shown.Issued "key" where
  ice := ⟨⟨0, [("x", .int 1)]⟩, rfl, rfl⟩
  signsWith := rfl
  renders := ⟨.node 0, rfl⟩

theorem signature?_shown : shown.signature? = some (sign "key" replayed.snapshot) := by
  obtain ⟨s, hs, hsign, -⟩ := issued_shown.signed
  obtain rfl : s = replayed.snapshot := Option.some.inj (hs.symm.trans snapshot?_shown)
  exact hsign

/-- The vault takes the call, and its `x` is then what the client has sent. -/
theorem replay_accepted : ∃ r w',
    outcome (handle "main" replayedPayload (some (sign "key" replayed.snapshot)) none)
      shown.after = (.ok r, w') ∧
    w'.objects[1]?.map Instance.classId = some 1 ∧
    (w'.ownAttribute? 1 "x").bind Value.int? = some 5 := by
  rw [outcome_handle_of_signed remoteCall_replayedPayload secret_shown]
  exact exists_outcome_eq_ok (by decide +kernel) ⟨by decide +kernel, by decide +kernel⟩

/-- The signature of the panel's state is taken for a call of the vault, which nobody has rendered,
and sets what the vault does not declare. -/
theorem replay_across_components :
    shown.Issued "key" ∧
    (∃ r w',
      outcome (handle "main" replayedPayload shown.signature? none) shown.after = (.ok r, w') ∧
      w'.objects[1]?.map Instance.classId = some 1 ∧
      (w'.ownAttribute? 1 "x").bind Value.int? = some 5) ∧
    (¬ ∃ ρ ∈ [shown], ρ.Of replayed.component) ∧
    shown.after.classes.attribute? 1 "component_name" = some (.value (.text replayed.component)) ∧
    shown.after.classes.attribute? 1 "state_fields" = some (.value (.tuple [.text "y"])) := by
  refine ⟨issued_shown, ?_, ?_, rfl, rfl⟩
  · rw [signature?_shown]
    exact replay_accepted
  · rintro ⟨ρ, hρ, inst, hobject, hname⟩
    obtain rfl : ρ = shown := List.mem_singleton.mp hρ
    obtain rfl : ⟨0, [("x", .int 1)]⟩ = inst := Option.some.inj hobject
    have hpanel : shown.before.classes.attribute? 0 "component_name" =
        some (.value (.text "app_Panel")) := rfl
    have hne := hpanel.symm.trans hname
    simp [replayed] at hne

/-- What the replayed call sets is nothing but what the panel declares. -/
theorem replayed_call_sets_declared :
    shown.Declares ["x"] ∧ ∃ (a : Accepted) (w₂ w₃ : World),
      outcome ((clientData replayed a.state).forM fun e ↦
        setAttribute a.object e.1 (.ofJson e.2)) w₂ = (.ok PUnit.unit, w₃) ∧
      World.SameBut a.object ["x"] w₂ w₃ := by
  have hdeclares : shown.Declares ["x"] := ⟨_, _, rfl, rfl, rfl, rfl, rfl⟩
  obtain ⟨r, w', haccepted, -⟩ := replay_accepted
  obtain ⟨a, -, -, w₂, w₃, -, -, hset, -, -, -, -, hsame⟩ :=
    accepted_call_replays remoteCall_replayedPayload secret_shown
      (List.forall_mem_singleton.mpr issued_shown)
      (List.forall_mem_singleton.mpr fun s hs _ ↦ Option.some.inj (hs.symm.trans snapshot?_shown))
      haccepted
  exact ⟨hdeclares, a, w₂, w₃, hset,
    hsame shown (List.mem_singleton_self shown) signature?_shown ["x"] hdeclares⟩

end Remote

end IceCube
