import IceCube.Proofs.Cache
import IceCube.Proofs.Component.Stateful
import IceCube.Proofs.Markup.StartTag
import IceCube.Remote

/-!
# Pages

A page finds the id, the name, the state and the signature of a component in the start tag of its
root, and sends them back.  A component that leaves all of these to the classes without code is
rendered with its own state and the signature of exactly that text.
-/

namespace IceCube

open Step Component

namespace Schema

/-- The members of an object under their keys. -/
def keyed (ms : Table String Json) : Members Json := ms.map fun m ↦ (.text m.1, m.2)

theorem remoteCall_of_fields {ms : Table String Json} {c : RemoteCall}
    (hid : required (keyed ms) "id" nonempty = .good c.id)
    (hcomponent : required (keyed ms) "component" nonempty = .good c.component)
    (hsnapshot : required (keyed ms) "snapshot" text = .good c.snapshot)
    (hmethod : Schema.optional (keyed ms) "method" none (nullable text) = .good c.method)
    (hargs : Schema.optional (keyed ms) "args" [] (list .value anything) = .good c.args)
    (hdata : Schema.optional (keyed ms) "data" [] (table .value anything) = .good c.data)
    (hnames : ∀ m ∈ ms, m.1 ∈ ["id", "component", "snapshot", "method", "args", "data"]) :
    Schema.remoteCall .value (.obj ms) = .good c := by
  refine record_good ?_ hnames
  change RemoteCall.mk
      <$> required (keyed ms) "id" nonempty
      <*> required (keyed ms) "component" nonempty
      <*> required (keyed ms) "snapshot" text
      <*> Schema.optional (keyed ms) "method" none (nullable text)
      <*> Schema.optional (keyed ms) "args" [] (list .value anything)
      <*> Schema.optional (keyed ms) "data" [] (table .value anything) = _
  rw [hid, hcomponent, hsnapshot, hmethod, hargs, hdata]
  rfl

theorem required_nonempty {ms : Members Json} {name s : String}
    (hfind : ms.find? name = some (.str s)) (hs : s ≠ "") :
    required ms name nonempty = .good s := by
  refine required_good hfind ?_
  change (if s.isEmpty then _ else _) = _
  rw [if_neg (by simpa using hs)]

end Schema

/-- What a page knows of a component. -/
structure Page where
  id : String
  component : String
  snapshot : String
  signature : String
deriving DecidableEq, Repr

namespace Page

/-- What a page reads from the start tag of a component. -/
def ofHtml? (html : String) : Option Page := do
  let (_, attributes) ← Markup.startTag? html
  return {
    id := ← Table.get? attributes "id"
    component := ← Table.get? attributes Stylesheet.scopeAttribute
    snapshot := ← Table.get? attributes stateAttribute
    signature := ← Table.get? attributes signatureAttribute }

/-- What a page sends back to have the state of its component, without a method or data. -/
def payload (p : Page) : Json :=
  .obj [("id", .str p.id), ("component", .str p.component), ("snapshot", .str p.snapshot)]

/-- A page of a component that was signed under a key in a state. -/
structure Signed (p : Page) (key : String) (state : Table String Json) : Prop where
  id : p.id ≠ ""
  component : p.component ≠ ""
  snapshot : p.snapshot = (Json.obj state).compact
  signature : p.signature = sign key p.snapshot

theorem Signed.remoteCall_payload {p : Page} {key : String} {state : Table String Json}
    (h : p.Signed key state) :
    Schema.remoteCall .value p.payload = .good ⟨p.id, p.component, p.snapshot, none, [], []⟩ :=
  Schema.remoteCall_of_fields (Schema.required_nonempty rfl h.id)
    (Schema.required_nonempty rfl h.component) rfl rfl rfl rfl (by simp)

end Page

namespace Component

open Run

/-! ## Roots with texts -/

/-- An element whose attributes are texts. -/
def textual (tag : String) (as : Table String String) (children : List Value) : Element :=
  ⟨tag, as.map fun a ↦ (a.1, .text a.2), children⟩

/-- An object with its state beside an element whose attributes are texts under plain names. -/
structure Shows (cls : ClassId) (fields : List String) (value : String → Json) (o : ObjectId)
    (n : NodeId) (tag : String) (as : Table String String) (children : List Value) (w : World) :
    Prop where
  object : ∃ inst, w.objects[o]? = some inst ∧ HasState inst cls fields value
  root : w.elements[n]? = some (textual tag as children)
  names : ∀ a ∈ as, Markup.PlainName a.1

section Stamps

variable {w : World} {o : ObjectId} {n : NodeId} {cls : ClassId} {fields : List String}
  {value : String → Json} {tag : String} {as : Table String String} {children : List Value}
  {name : String}

theorem Shows.outcome_elementAttribute (h : Shows cls fields value o n tag as children w)
    (name : String) : outcome (elementAttribute n name) w =
      (.ok (((Table.get? as name).map Value.text).getD .none), w) := by
  have helement : outcome (element n) w = (.ok (textual tag as children), w) := by
    rw [element, outcome_get_bind, h.root]
    rfl
  rw [elementAttribute, outcome_bind_of_ok helement, textual, Table.get?_map]
  rfl

/-- The element gets a text as an attribute. -/
theorem Shows.outcome_setElementAttribute (h : Shows cls fields value o n tag as children w)
    (hname : Markup.PlainName name) (s : String) :
    ∃ w', outcome (setElementAttribute n name (.text s)) w = (.ok PUnit.unit, w') ∧
      Shows cls fields value o n tag (Table.insert as name s) children w' ∧
      w'.classes = w.classes ∧ w'.environment = w.environment := by
  refine ⟨_, rfl, ⟨h.object, ?_, fun a ha ↦ ?_⟩, rfl, rfl⟩
  · simp [h.root, textual, Table.insert_map]
  · rcases Table.mem_of_mem_insert ha with rfl | ha
    · exact hname
    · exact h.names a ha

variable (hcls : w.classes.Declares cls fields) (h : Shows cls fields value o n tag as children w)

include hcls h

/-- The element has the id that it had, or else that of the object. -/
theorem Shows.outcome_stampId (k : Nat) (hid : ∀ s, Table.get? as "id" = some s → s ≠ "")
    (hown : ∀ inst, w.objects[o]? = some inst → IdWritable inst) :
    ∃ s w' as', outcome (stampId (.atDepth (k + 3)) o n) w = (.ok PUnit.unit, w') ∧
      Shows cls fields value o n tag as' children w' ∧
      Table.get? as' "id" = some s ∧ s ≠ "" ∧
      w'.classes = w.classes ∧ w'.environment = w.environment := by
  rw [stampId, outcome_bind_of_ok (h.outcome_elementAttribute "id")]
  cases hget : Table.get? as "id" with
  | some s => exact ⟨s, w, as, rfl, h, hget, hid s hget, rfl, rfl⟩
  | none =>
    obtain ⟨inst, hobject, hinst⟩ := h.object
    obtain ⟨s, w₁, inst', hs, hrun, helements, hclasses, henvironment, hobject', hinst'⟩ :=
      outcome_id hcls hobject hinst k (hown inst hobject)
    have h₁ : Shows cls fields value o n tag as children w₁ :=
      ⟨⟨inst', hobject', hinst'⟩, helements ▸ h.root, h.names⟩
    obtain ⟨w₂, hset, h₂, hclasses', henvironment'⟩ :=
      h₁.outcome_setElementAttribute (by decide : Markup.PlainName "id") s
    refine ⟨s, w₂, _, ?_, h₂, Table.get?_insert_self _ _ _, hs, hclasses'.trans hclasses,
      henvironment'.trans henvironment⟩
    change outcome ((Dispatch.atDepth (k + 3)).get o "id" >>= _) w = _
    rw [outcome_bind_of_ok hrun]
    exact hset

/-- The element gets the id, the name and the state. -/
theorem Shows.outcome_stamp (k : Nat) (hid : ∀ s, Table.get? as "id" = some s → s ≠ "")
    (hown : ∀ inst, w.objects[o]? = some inst → IdWritable inst)
    (hname : w.classes.attribute? cls "component_name" = some (.value (.text name)))
    (hne : name ≠ "") :
    ∃ s w' as', outcome (stamp (.atDepth (k + 3)) o n) w = (.ok PUnit.unit, w') ∧
      Shows cls fields value o n tag as' children w' ∧ s ≠ "" ∧
      Table.get? as' "id" = some s ∧
      Table.get? as' Stylesheet.scopeAttribute = some name ∧
      Table.get? as' stateAttribute = some (Json.obj (stateOf fields value)).compact ∧
      w'.classes = w.classes ∧ w'.environment = w.environment := by
  obtain ⟨s, w₁, as₁, hrun₁, h₁, hs, hne', hclasses₁, henvironment₁⟩ :=
    h.outcome_stampId hcls k hid hown
  have hcls₁ : w₁.classes.Declares cls fields := hclasses₁ ▸ hcls
  obtain ⟨inst₁, hobject₁, hinst₁⟩ := h₁.object
  have hrunName := outcome_componentName hcls₁ hobject₁ hinst₁ (k + 2) (hclasses₁ ▸ hname) hne
  obtain ⟨w₂, hrun₂, h₂, hclasses₂, henvironment₂⟩ :=
    h₁.outcome_setElementAttribute (by decide : Markup.PlainName Stylesheet.scopeAttribute) name
  have hcls₂ : w₂.classes.Declares cls fields := hclasses₂ ▸ hcls₁
  obtain ⟨inst₂, hobject₂, hinst₂⟩ := h₂.object
  have hrunState := outcome_expose hobject₂ hinst₂.toExposes hcls₂.toStateful (k + 1)
  obtain ⟨w₃, hrun₃, h₃, hclasses₃, henvironment₃⟩ :=
    h₂.outcome_setElementAttribute (by decide : Markup.PlainName stateAttribute)
      (Json.obj (stateOf fields value)).compact
  refine ⟨s, w₃, _, ?_, h₃, hne', ?_, ?_, Table.get?_insert_self _ _ _,
    (hclasses₃.trans hclasses₂).trans hclasses₁,
    (henvironment₃.trans henvironment₂).trans henvironment₁⟩
  · rw [stamp_eq, outcome_bind_of_ok hrun₁, outcome_bind_of_ok hrunName,
      outcome_bind_of_ok hrun₂, stampState, outcome_bind_of_ok hrunState, ← ofMembers_stateOf,
      Value.toJson?, Value.entriesToJson?_ofMembers]
    exact hrun₃
  · simpa [Table.get?_insert, Stylesheet.scopeAttribute, stateAttribute] using hs
  · simp [Table.get?_insert, Stylesheet.scopeAttribute, stateAttribute]

omit hcls in
/-- The element gets the signature of the state that it has. -/
theorem Shows.outcome_stampSignature {key snapshot : String}
    (hkey : w.environment.secret = .ok key) (hget : Table.get? as stateAttribute = some snapshot) :
    ∃ w' as', outcome (stampSignature n) w = (.ok PUnit.unit, w') ∧
      Shows cls fields value o n tag as' children w' ∧
      Table.get? as' signatureAttribute = some (sign key snapshot) ∧
      ∀ name ∉ [signatureAttribute, "x-data"], Table.get? as' name = Table.get? as name := by
  obtain ⟨w₁, hrun₁, h₁, -, -⟩ :=
    h.outcome_setElementAttribute (by decide : Markup.PlainName signatureAttribute)
      (sign key snapshot)
  obtain ⟨w₂, hrun₂, h₂, -, -⟩ :=
    h₁.outcome_setElementAttribute (by decide : Markup.PlainName "x-data") "IceComponent($el)"
  refine ⟨w₂, _, ?_, h₂, ?_, fun name hname ↦ ?_⟩
  · rw [stampSignature, outcome_get_bind, hkey]
    change outcome (elementAttribute n stateAttribute >>= _) w = _
    rw [outcome_bind_of_ok (h.outcome_elementAttribute stateAttribute), hget]
    change outcome (setElementAttribute n signatureAttribute _ >>= _) w = _
    rw [outcome_bind_of_ok hrun₁]
    exact hrun₂
  · simp [Table.get?_insert, signatureAttribute]
  · simp only [List.mem_cons, List.not_mem_nil, or_false, not_or] at hname
    rw [Table.get?_insert, if_neg (Ne.symm hname.2), Table.get?_insert, if_neg (Ne.symm hname.1)]

/-- The rendered root carries the id, the name, the state and the signature. -/
theorem Shows.outcome_onRender (k : Nat) {key : String}
    (hid : ∀ s, Table.get? as "id" = some s → s ≠ "")
    (hown : ∀ inst, w.objects[o]? = some inst → IdWritable inst)
    (hname : w.classes.attribute? cls "component_name" = some (.value (.text name)))
    (hne : name ≠ "") (hkey : w.environment.secret = .ok key) :
    ∃ s w' as', outcome (onRender (.atDepth (k + 3)) o (.node n)) w = (.ok (.node n), w') ∧
      Shows cls fields value o n tag as' children w' ∧ s ≠ "" ∧
      Table.get? as' "id" = some s ∧
      Table.get? as' Stylesheet.scopeAttribute = some name ∧
      Table.get? as' stateAttribute = some (Json.obj (stateOf fields value)).compact ∧
      Table.get? as' signatureAttribute =
        some (sign key (Json.obj (stateOf fields value)).compact) := by
  obtain ⟨s, w₁, as₁, hstamp, h₁, hs, hgetId, hgetName, hgetState, hclasses, henvironment⟩ :=
    h.outcome_stamp hcls k hid hown hname hne
  obtain ⟨w₂, as₂, hsign, h₂, hgetSign, hrest⟩ :=
    h₁.outcome_stampSignature (henvironment ▸ hkey) hgetState
  obtain ⟨inst, hobject, hinst⟩ := h₁.object
  refine ⟨s, w₂, as₂, ?_, h₂, hs, ?_, ?_, ?_, hgetSign⟩
  · change outcome (stamp (.atDepth (k + 3)) o n >>= _) w = _
    rw [outcome_bind_of_ok hstamp, outcome_get_bind, outcome_bind_of_ok (outcome_object hobject),
      hinst.classId, hclasses, hcls.ice, if_pos rfl, outcome_bind_of_ok hsign]
    rfl
  · rw [hrest _ (by decide), hgetId]
  · rw [hrest _ (by decide), hgetName]
  · rw [hrest _ (by decide), hgetState]

omit hcls in
/-- The text of the element starts with its name and its attributes. -/
theorem Shows.startTag?_html (d : Dispatch) (htag : Markup.PlainName tag) {html : Html} {w' : World}
    (hhtml : outcome (elementHtml d n) w = (.ok html, w')) :
    Markup.startTag? html.render = some (tag, as) := by
  have helement : outcome (element n) w = (.ok (textual tag as children), w) := by
    rw [element, outcome_get_bind, h.root]
    rfl
  have hattributes (bs : Table String String) : outcome ((bs.map fun a ↦ (a.1, Value.text a.2)).mapM
      fun a ↦ do
        let v ← attributeOf d a.2
        return (a.1, v)) w = (.ok (Markup.texts bs), w) := by
    induction bs with
    | nil => rfl
    | cons b bs ih =>
      have hone : outcome (attributeOf d (.text b.2)) w = (.ok (.text b.2), w) := rfl
      rw [List.map_cons, List.mapM_cons, bind_assoc, outcome_bind_of_ok hone, outcome_pure_bind,
        outcome_bind_of_ok ih]
      rfl
  rw [elementHtml, outcome_bind_of_ok helement] at hhtml
  change outcome (List.mapM _ (as.map fun a ↦ (a.1, Value.text a.2)) >>= _) w = _ at hhtml
  rw [outcome_bind_of_ok (hattributes as)] at hhtml
  obtain ⟨children', rfl⟩ : ∃ children', html = .element tag (Markup.texts as) children' := by
    dsimp only at hhtml
    split at hhtml
    · exact ⟨[], (Except.ok.inj (Prod.mk.inj hhtml).1).symm⟩
    · obtain ⟨children', w₁, -, hend⟩ := outcome_bind_eq_ok.mp hhtml
      exact ⟨children', (Except.ok.inj (Prod.mk.inj hend).1).symm⟩
  exact Markup.startTag?_render htag h.names children'

end Stamps

/-- A page finds in the text of a component its state and the signature of it. -/
theorem exists_page_of_text {w w₁ w' : World} {o : ObjectId} {n : NodeId} {inst : Instance}
    {cls : ClassId} {fields : List String} {value : String → Json} {tag : String}
    {as : Table String String} {children : List Value} {name key html : String} (k : Nat)
    (hobject : w.objects[o]? = some inst) (hinst : inst.classId = cls)
    (hcls : w.classes.Declares cls fields)
    (hrender : outcome ((Dispatch.atDepth (k + 4)).call o "render" []) w = (.ok (.node n), w₁))
    (hshows : Shows cls fields value o n tag as children w₁) (htag : Markup.PlainName tag)
    (hid : ∀ s, Table.get? as "id" = some s → s ≠ "")
    (hown : ∀ inst, w₁.objects[o]? = some inst → IdWritable inst)
    (hname : w.classes.attribute? cls "component_name" = some (.value (.text name)))
    (hne : name ≠ "") (hkey : w.environment.secret = .ok key)
    (htext : outcome ((Dispatch.atDepth (k + 5)).text o) w = (.ok html, w')) :
    ∃ page : Page, Page.ofHtml? html = some page ∧ page.component = name ∧
      page.Signed key (stateOf fields value) := by
  have hextends := ((Dispatch.extending_atDepth (k + 4)).call o "render" []).of_outcome hrender
  obtain ⟨s, w₂, as', hrun, h₂, hs, hgetId, hgetName, hgetState, hgetSign⟩ :=
    hshows.outcome_onRender (hextends.classes ▸ hcls) k hid hown (hextends.classes ▸ hname) hne
      (hextends.environment ▸ hkey)
  obtain ⟨inst₁, hobject₁, hinst₁⟩ := hshows.object
  have hcall : outcome ((Dispatch.atDepth (k + 4)).call o "on_render" [.node n]) w₁ =
      (.ok (.node n), w₂) := by
    rw [outcome_carrier (hextends.classes ▸ hcls) hobject₁ hinst₁ (by decide) (k + 3),
      callBuiltin, outcome_bind_of_ok (outcome_object hobject₁), outcome_get_bind]
    simp only [hinst₁.classId, hextends.classes, Classes.isComponent_of_isIce hcls.ice,
      Classes.isSingle_of_isIce hcls.ice]
    exact hrun
  change outcome (renderedText (.atDepth (k + 4)) o) w = _ at htext
  rw [renderedText, outcome_bind_of_ok (outcome_object hobject), outcome_get_bind] at htext
  simp only [hinst, Classes.isSingle_of_isIce hcls.ice, if_true] at htext
  rw [outcome_bind_of_ok hrender, outcome_bind_of_ok hcall] at htext
  obtain ⟨h, w₃, hhtml, hend⟩ := outcome_bind_eq_ok.mp htext
  obtain rfl : h.render = html := by simpa using (Prod.mk.inj hend).1
  have hstart := h₂.startTag?_html (.atDepth (k + 3)) htag hhtml
  refine ⟨⟨s, name, (Json.obj (stateOf fields value)).compact, sign key _⟩, ?_, rfl,
    ⟨hs, hne, rfl, rfl⟩⟩
  simp only [Page.ofHtml?, hstart, Option.bind_eq_bind, Option.bind_some, hgetId, hgetName,
    hgetState, hgetSign]
  rfl

end Component

namespace Remote

open Component

/-- The page of a component that was rendered in a state. -/
def pageOf (component : String) (state : Table String Json) : Page :=
  ⟨"a", component, (Json.obj state).compact, sign "key" (Json.obj state).compact⟩

theorem signed_pageOf {component : String} (h : component ≠ "") (state : Table String Json) :
    (pageOf component state).Signed "key" state := ⟨by simp [pageOf], h, rfl, rfl⟩

end Remote

end IceCube
