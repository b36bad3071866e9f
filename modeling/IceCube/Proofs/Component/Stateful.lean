import IceCube.Proofs.Component.Rendering

/-!
# Components that keep their state

A class declares the names of its state and leaves it to the classes without code to expose it.  An
object that has every declared name as an attribute of its own exposes these attributes, and making
an object from a state gives it them.
-/

namespace IceCube

open Step

/-- The world after an object has kept a value as an attribute of its own. -/
def World.kept (w : World) (o : Nat) (name : String) (v : Component.Value) : World :=
  { w with objects := w.objects.modify o fun inst ↦
    { inst with fields := Table.insert inst.fields name v } }

theorem World.objects_kept_self {w : World} {o : Nat} {inst : Instance}
    (h : w.objects[o]? = some inst) (name : String) (v : Component.Value) :
    (w.kept o name v).objects[o]? = some { inst with fields := Table.insert inst.fields name v } := by
  simp [kept, h]

/-- The world after an object has kept values as attributes of its own, one after the other. -/
def World.keptAll (w : World) (o : Nat) (es : Table String Component.Value) : World :=
  { w with objects := w.objects.modify o fun inst ↦
    { inst with fields := Table.insertAll inst.fields es } }

theorem World.objects_keptAll_self {w : World} {o : Nat} {inst : Instance}
    (h : w.objects[o]? = some inst) (es : Table String Component.Value) :
    (w.keptAll o es).objects[o]? =
      some { inst with fields := Table.insertAll inst.fields es } := by
  simp [keptAll, h]

theorem World.keptAll_nil (w : World) (o : Nat) : w.keptAll o [] = w := by
  have hsame : w.objects.modify o (fun inst ↦ { inst with fields := inst.fields }) = w.objects :=
    List.modify_id o w.objects
  rw [keptAll]
  simp only [Table.insertAll_nil, hsame]

theorem World.keptAll_cons (w : World) (o : Nat) (e : String × Component.Value)
    (es : Table String Component.Value) :
    w.keptAll o (e :: es) = (w.kept o e.1 e.2).keptAll o es := by
  simp only [keptAll, kept, List.modify_modify_eq]
  rfl

namespace Component

open Run

/-! ## Attributes that can be kept -/

/-- An attribute that objects of a class can have of their own. -/
structure Classes.Settable (cs : Classes) (cls : ClassId) (name : String) : Prop where
  property : ∀ m, cs.attribute? cls name ≠ some (.member (.property m))
  builtin : cs.attribute? cls name = none → name ≠ "id" ∧ name ≠ "slots"

theorem Classes.settable_of_none {cs : Classes} {cls : ClassId} {name : String}
    (h : cs.attribute? cls name = none) (hid : name ≠ "id") (hslots : name ≠ "slots") :
    cs.Settable cls name where
  property m hm := by simp [h] at hm
  builtin _ := ⟨hid, hslots⟩

variable {d : Dispatch} {w : World} {o : ObjectId} {inst : Instance} {name : String} {v : Value}

theorem outcome_setAttribute (hobject : w.objects[o]? = some inst)
    (hname : w.classes.Settable inst.classId name) :
    outcome (setAttribute o name v) w = (.ok PUnit.unit, w.kept o name v) := by
  rw [setAttribute, outcome_bind_of_ok (outcome_object hobject), outcome_get_bind]
  cases hfound : w.classes.attribute? inst.classId name with
  | none =>
    obtain ⟨hid, hslots⟩ := hname.builtin hfound
    simp [hfound, hid, hslots, keep, World.kept]
  | some a =>
    cases a with
    | member m =>
      cases m with
      | property m => exact absurd hfound (hname.property m)
      | _ => simp [hfound, keep, World.kept]
    | _ => simp [hfound, keep, World.kept]

theorem outcome_getAttribute_of_own (hobject : w.objects[o]? = some inst)
    (hname : w.classes.Settable inst.classId name) (hown : Table.get? inst.fields name = some v) :
    outcome (getAttribute d o name) w = (.ok v, w) := by
  rw [getAttribute, outcome_bind_of_ok (outcome_object hobject), outcome_get_bind]
  cases hfound : w.classes.attribute? inst.classId name with
  | none =>
    obtain ⟨hid, hslots⟩ := hname.builtin hfound
    simp [hfound, hid, hslots, hown]
  | some a =>
    cases a with
    | member m =>
      cases m with
      | property m => exact absurd hfound (hname.property m)
      | _ => simp [hfound, hown]
    | _ => simp [hfound, hown]

/-- A method that neither the class nor the object defines is the one that all components have. -/
theorem outcome_callMethod_of_builtin (hobject : w.objects[o]? = some inst)
    (hclass : w.classes.attribute? inst.classId name = none)
    (hown : Table.get? inst.fields name = none) (vs : List Value) :
    outcome (callMethod d o name vs) w = outcome (callBuiltin d o name vs) w := by
  rw [callMethod, outcome_bind_of_ok (outcome_object hobject), outcome_get_bind]
  simp only [hclass, hown]

/-! ## States -/

namespace Value

mutual

/-- The document of a value that is a document. -/
@[simp] theorem toJson?_ofJson (v : Json) : (ofJson v).toJson? = some v := by
  cases v with
  | arr vs => rw [ofJson, toJson?, itemsToJson?_ofItems]; rfl
  | obj ms => rw [ofJson, toJson?, entriesToJson?_ofMembers]; rfl
  | _ => rw [ofJson, toJson?]

theorem itemsToJson?_ofItems (vs : List Json) : itemsToJson? (ofItems vs) = some vs := by
  cases vs with
  | nil => rfl
  | cons v vs =>
    rw [ofItems, itemsToJson?, toJson?_ofJson, itemsToJson?_ofItems]
    rfl

theorem entriesToJson?_ofMembers (ms : List (String × Json)) :
    entriesToJson? (ofMembers ms) = some ms := by
  cases ms with
  | nil => rfl
  | cons m ms =>
    obtain ⟨name, v⟩ := m
    rw [ofMembers, entriesToJson?, toJson?_ofJson, entriesToJson?_ofMembers]
    rfl

end

end Value

/-- The state that has a value for each of some names. -/
def stateOf {α : Type} (fields : List String) (value : String → α) : Table String α :=
  Table.ofEntries (fields.map fun name ↦ (name, value name))

theorem get?_stateOf {α : Type} (fields : List String) (value : String → α) (name : String) :
    Table.get? (stateOf fields value) name = if name ∈ fields then some (value name) else none :=
  Table.get?_ofEntries_function value fields name

theorem get?_insertAll_stateOf {α : Type} (t : Table String α) (fields : List String)
    (value : String → α) (name : String) : Table.get? (Table.insertAll t (stateOf fields value)) name =
      if name ∈ fields then some (value name) else Table.get? t name := by
  have hnodup : (Table.keys (stateOf fields value)).Nodup := Table.nodup_keys_ofEntries _
  rw [Table.get?_insertAll_of_nodup t hnodup, get?_stateOf]
  split_ifs <;> rfl

theorem stateOf_congr {α : Type} {fields : List String} {value value' : String → α}
    (h : ∀ name ∈ fields, value name = value' name) : stateOf fields value = stateOf fields value' := by
  have hentries : (fields.map fun name ↦ (name, value name)) =
      fields.map fun name ↦ (name, value' name) :=
    List.map_congr_left fun name hname ↦ by rw [h name hname]
  rw [stateOf, stateOf, hentries]

theorem mem_keys_stateOf {α : Type} {fields : List String} {value : String → α} {name : String} :
    name ∈ Table.keys (stateOf fields value) ↔ name ∈ fields := by
  rw [stateOf, Table.mem_keys_ofEntries]
  simp [Table.keys]

theorem ofMembers_eq_map (ms : Table String Json) :
    Value.ofMembers ms = ms.map fun m ↦ (m.1, Value.ofJson m.2) := by
  induction ms with
  | nil => rfl
  | cons m ms ih =>
    obtain ⟨name, v⟩ := m
    rw [Value.ofMembers, ih]
    rfl

theorem ofMembers_stateOf (fields : List String) (value : String → Json) :
    Value.ofMembers (stateOf fields value) = stateOf fields fun name ↦ .ofJson (value name) := by
  rw [ofMembers_eq_map, stateOf, ← Table.ofEntries_map, List.map_map]
  rfl

/-- The methods by which a component replies to a call. -/
def repliers : List String := ["set_id", "expose_state"]

/-- The names by which a component is rendered. -/
def carriers : List String := ["id", "get_component_name", "on_render"]

/-- A class of components that take remote calls, with the names of its state.  It leaves it to the
classes without code to expose the state. -/
structure Classes.Stateful (cs : Classes) (cls : ClassId) (fields : List String) : Prop where
  ice : cs.isIce cls = true
  state : cs.attribute? cls "state_fields" = some (.value (.tuple (fields.map .text)))
  exposing : cs.attribute? cls "expose_state" = none
  settable : ∀ name ∈ fields, cs.Settable cls name

/-- A class that leaves it to the classes without code to take an id as well. -/
structure Classes.Replies (cs : Classes) (cls : ClassId) (fields : List String) : Prop
    extends cs.Stateful cls fields where
  identifying : cs.attribute? cls "set_id" = none
  id : cs.Settable cls idField

/-- A class that leaves it to the classes without code to carry the state as well.  Its state is
apart from the id. -/
structure Classes.Declares (cs : Classes) (cls : ClassId) (fields : List String) : Prop
    extends cs.Replies cls fields where
  carriers : ∀ name ∈ idField :: carriers, cs.attribute? cls name = none
  idField : idField ∉ fields

/-- An object of a class that has a state in attributes of its own, and none of its own in the place
of the methods by which it replies. -/
structure Exposes (inst : Instance) (cls : ClassId) (fields : List String)
    (value : String → Value) : Prop where
  classId : inst.classId = cls
  state : ∀ name ∈ fields, Table.get? inst.fields name = some (value name)
  replies : ∀ name ∈ "state_fields" :: repliers, Table.get? inst.fields name = none

/-- An object that has documents as its state, and no attributes of its own in the place of other
methods either. -/
structure HasState (inst : Instance) (cls : ClassId) (fields : List String)
    (value : String → Json) : Prop
    extends Exposes inst cls fields fun name ↦ .ofJson (value name) where
  carriers : ∀ name ∈ carriers, Table.get? inst.fields name = none

theorem Classes.isSingle_of_isIce {cs : Classes} {cls : ClassId} (h : cs.isIce cls = true) :
    cs.isSingle cls = true := by
  rw [isIce] at h
  rw [isSingle, h, Bool.or_true]

theorem Classes.isComponent_of_isIce {cs : Classes} {cls : ClassId} (h : cs.isIce cls = true) :
    cs.isComponent cls = true := by
  rw [isIce, beq_iff_eq] at h
  rw [isComponent, h]
  rfl

section Object

variable {cls : ClassId} {fields : List String}

section Reply

variable {value : String → Value}

theorem Exposes.congr (h : Exposes inst cls fields value) {value' : String → Value}
    (hvalue : ∀ name ∈ fields, value name = value' name) : Exposes inst cls fields value' where
  classId := h.classId
  state f hf := hvalue f hf ▸ h.state f hf
  replies := h.replies

/-- No method by which the object replies is a part of the state. -/
theorem Exposes.not_mem (h : Exposes inst cls fields value)
    (hname : name ∈ "state_fields" :: repliers) : name ∉ fields := by
  intro hmem
  have hstate := h.state name hmem
  rw [h.replies name hname] at hstate
  cases hstate

/-- A part of the state gets a value. -/
theorem Exposes.set (h : Exposes inst cls fields value) (hname : name ∈ fields) (v : Value) :
    Exposes { inst with fields := Table.insert inst.fields name v } cls fields
      (Function.update value name v) where
  classId := h.classId
  state f hf := by
    rw [Table.get?_insert]
    split_ifs with heq
    · rw [← heq, Function.update_self]
    · rw [Function.update_of_ne (Ne.symm heq)]
      exact h.state f hf
  replies m hm := by
    rw [Table.get?_insert, if_neg (by rintro rfl; exact h.not_mem hm hname)]
    exact h.replies m hm

/-- Keeping what is neither a part of the state nor in the place of a method leaves the state. -/
theorem Exposes.insert (h : Exposes inst cls fields value) (hstate : name ∉ fields)
    (hreplies : name ∉ "state_fields" :: repliers) (v : Value) :
    Exposes { inst with fields := Table.insert inst.fields name v } cls fields value where
  classId := h.classId
  state f hf := by
    rw [Table.get?_insert, if_neg (by rintro rfl; exact hstate hf)]
    exact h.state f hf
  replies m hm := by
    rw [Table.get?_insert, if_neg (by rintro rfl; exact hreplies hm)]
    exact h.replies m hm

/-- Whether or not the id is a part of the state, it can be set. -/
theorem Exposes.insert_id (h : Exposes inst cls fields value) (v : Value) :
    ∃ value', Exposes { inst with fields := Table.insert inst.fields idField v } cls fields
      value' := by
  by_cases hid : idField ∈ fields
  · exact ⟨_, h.set hid v⟩
  · exact ⟨value, h.insert hid (by decide) v⟩

/-- Another state takes the place of the one that there was. -/
theorem Exposes.insertAll (h : Exposes inst cls fields value) (value' : String → Value) :
    Exposes { inst with fields := Table.insertAll inst.fields (stateOf fields value') } cls fields
      value' where
  classId := h.classId
  state f hf := by
    rw [get?_insertAll_stateOf, if_pos hf]
  replies m hm := by
    rw [get?_insertAll_stateOf, if_neg (h.not_mem hm)]
    exact h.replies m hm

variable (hobject : w.objects[o]? = some inst) (hinst : Exposes inst cls fields value)

include hobject hinst

/-- A method by which the object replies, and that its class leaves to the classes without code. -/
theorem outcome_reply (hname : name ∈ repliers) (hclass : w.classes.attribute? cls name = none)
    (n : Nat) (vs : List Value) :
    outcome ((Dispatch.atDepth (n + 1)).call o name vs) w =
      outcome (callBuiltin (.atDepth n) o name vs) w := by
  obtain rfl := hinst.classId
  exact outcome_callMethod_of_builtin hobject hclass
    (hinst.replies name (List.mem_cons_of_mem _ hname)) vs

/-- The object exposes its state. -/
theorem outcome_expose (hcls : w.classes.Stateful cls fields) (n : Nat) :
    outcome ((Dispatch.atDepth (n + 2)).call o "expose_state" []) w =
      (.ok (.dict (stateOf fields value)), w) := by
  have hnames : outcome ((Dispatch.atDepth (n + 1)).get o "state_fields") w =
      (.ok (.tuple (fields.map .text)), w) :=
    outcome_getAttribute_of_class hobject (hinst.classId ▸ hcls.state)
      (hinst.replies _ (by simp))
  have hentries (names : List String) (hmem : ∀ name ∈ names, name ∈ fields) :
      outcome (names.mapM fun name ↦ do
        let v ← (Dispatch.atDepth (n + 1)).get o name
        return (name, v)) w =
      (.ok (names.map fun name ↦ (name, value name)), w) := by
    induction names with
    | nil => rfl
    | cons name names ih =>
      obtain ⟨hname, hnames⟩ := List.forall_mem_cons.mp hmem
      have hget : outcome ((Dispatch.atDepth (n + 1)).get o name) w = (.ok (value name), w) :=
        outcome_getAttribute_of_own hobject (hinst.classId ▸ hcls.settable name hname)
          (hinst.state name hname)
      rw [List.mapM_cons, bind_assoc, outcome_bind_of_ok hget, outcome_pure_bind,
        outcome_bind_of_ok (ih hnames)]
      rfl
  rw [outcome_reply hobject hinst (by decide) hcls.exposing (n + 1),
    callBuiltin, outcome_bind_of_ok (outcome_object hobject), outcome_get_bind]
  simp only [hinst.classId, Classes.isComponent_of_isIce hcls.ice,
    Classes.isSingle_of_isIce hcls.ice]
  change outcome (exposeState (.atDepth (n + 1)) o) w = _
  rw [exposeState, outcome_bind_of_ok hnames, stateNames_text]
  exact outcome_bind_of_ok (hentries fields fun _ ↦ id) _

/-- The object is given an id. -/
theorem outcome_setId (hcls : w.classes.Replies cls fields) (n : Nat) {s : String}
    (hs : s ≠ "") :
    outcome ((Dispatch.atDepth (n + 1)).call o "set_id" [.text s]) w =
      (.ok (.object o), w.kept o idField (.text s)) := by
  have htrue : (Value.text s).isTrue = true := by simp [Value.isTrue, hs]
  rw [outcome_reply hobject hinst (by decide) hcls.identifying n, callBuiltin,
    outcome_bind_of_ok (outcome_object hobject), outcome_get_bind]
  simp only [hinst.classId, Classes.isComponent_of_isIce hcls.ice]
  change outcome (setId o (.text s)) w = _
  rw [setId, if_pos htrue, pure_bind,
    outcome_bind_of_ok (outcome_setAttribute hobject (hinst.classId ▸ hcls.id))]
  rfl

/-- The object makes up an id. -/
theorem outcome_setId_fresh (hcls : w.classes.Replies cls fields) (n : Nat) :
    ∃ s, s ≠ "" ∧ outcome ((Dispatch.atDepth (n + 1)).call o "set_id" []) w =
      (.ok (.object o), { w with issued := w.issued + 1 }.kept o idField (.text s)) := by
  refine ⟨"icecube-" ++ String.ofList (Text.hexDigits 13 (w.issued + 1)), by simp, ?_⟩
  rw [outcome_reply hobject hinst (by decide) hcls.identifying n, callBuiltin,
    outcome_bind_of_ok (outcome_object hobject), outcome_get_bind]
  simp only [hinst.classId, Classes.isComponent_of_isIce hcls.ice]
  change outcome (setId o .none) w = _
  have hfresh : outcome freshId w = (.ok ("icecube-" ++ String.ofList
      (Text.hexDigits 13 (w.issued + 1))), { w with issued := w.issued + 1 }) := rfl
  rw [setId, if_neg (by decide), outcome_bind_of_ok hfresh, pure_bind]
  have hset := outcome_setAttribute (w := { w with issued := w.issued + 1 })
    (v := .text ("icecube-" ++ String.ofList (Text.hexDigits 13 (w.issued + 1)))) hobject
    (hinst.classId ▸ hcls.id)
  rw [outcome_bind_of_ok hset]
  rfl

end Reply

section Carrier

variable {value : String → Json}

/-- The id is no part of the state. -/
theorem HasState.insert_id (h : HasState inst cls fields value) (hid : idField ∉ fields)
    (v : Value) :
    HasState { inst with fields := Table.insert inst.fields idField v } cls fields value where
  toExposes := h.toExposes.insert hid (by decide) v
  carriers m hm := by
    rw [Table.get?_insert, if_neg (by rintro rfl; revert hm; decide)]
    exact h.carriers m hm

variable (hcls : w.classes.Declares cls fields) (hobject : w.objects[o]? = some inst)
  (hinst : HasState inst cls fields value)

include hcls hobject hinst

/-- A method by which the object is rendered. -/
theorem outcome_carrier (hname : name ∈ carriers) (n : Nat) (vs : List Value) :
    outcome ((Dispatch.atDepth (n + 1)).call o name vs) w =
      outcome (callBuiltin (.atDepth n) o name vs) w := by
  obtain rfl := hinst.classId
  exact outcome_callMethod_of_builtin hobject (hcls.carriers name (List.mem_cons_of_mem _ hname))
    (hinst.carriers name hname) vs

/-- The name of the component is that of its class. -/
theorem outcome_componentName (n : Nat) {name : String}
    (hname : w.classes.attribute? cls "component_name" = some (.value (.text name)))
    (hne : name ≠ "") :
    outcome ((Dispatch.atDepth (n + 1)).call o "get_component_name" []) w =
      (.ok (.text name), w) := by
  have hloaded : ∃ c, w.classes[cls]? = some c := by
    rw [← Option.ne_none_iff_exists']
    intro hnone
    have : w.classes.attribute? cls "component_name" = none := by
      simp [Classes.attribute?, Classes.ancestry, Classes.chain, hnone]
    rw [this] at hname
    cases hname
  obtain ⟨c, hc⟩ := hloaded
  rw [outcome_carrier hcls hobject hinst (by decide) n, callBuiltin,
    outcome_bind_of_ok (outcome_object hobject), outcome_get_bind]
  simp only [hinst.classId, Classes.isComponent_of_isIce hcls.ice,
    Classes.isSingle_of_isIce hcls.ice]
  change outcome (classComponentName cls) w = _
  rw [classComponentName, outcome_get_bind]
  simp [hname, hc, Value.isTrue, hne]

/-- An object that has no id, or one that can be written. -/
def IdWritable (inst : Instance) : Prop :=
  ∀ v, Table.get? inst.fields idField = some v → v = .none ∨ ∃ s, v = .text s ∧ s ≠ ""

theorem outcome_get_idField (n : Nat) :
    outcome ((Dispatch.atDepth (n + 1)).get o idField) w =
      (.ok ((Table.get? inst.fields idField).getD .none), w) := by
  cases hown : Table.get? inst.fields idField with
  | some v =>
    exact outcome_getAttribute_of_own hobject (hinst.classId ▸ hcls.id) hown
  | none =>
    have hclass := hinst.classId ▸ hcls.carriers idField (by decide)
    change outcome (getAttribute (.atDepth n) o idField) w = _
    rw [getAttribute, outcome_bind_of_ok (outcome_object hobject), outcome_get_bind]
    simp only [hclass, hown, ite_self]
    rw [builtinAttribute, outcome_get_bind]
    simp [hinst.classId, Classes.isComponent_of_isIce hcls.ice, idField]

/-- The object says its id, and makes one up if it has none. -/
theorem outcome_id (n : Nat) (hid : IdWritable inst) :
    ∃ s w' inst', s ≠ "" ∧
      outcome ((Dispatch.atDepth (n + 3)).get o "id") w = (.ok (.text s), w') ∧
      w'.elements = w.elements ∧ w'.classes = w.classes ∧ w'.environment = w.environment ∧
      w'.objects[o]? = some inst' ∧ HasState inst' cls fields value := by
  obtain rfl := hinst.classId
  have hclass := hcls.carriers "id" (by decide)
  have hown : outcome ((Dispatch.atDepth (n + 3)).get o "id") w =
      outcome (ownId (.atDepth (n + 2)) o) w := by
    change outcome (getAttribute (.atDepth (n + 2)) o "id") w = _
    rw [getAttribute, outcome_bind_of_ok (outcome_object hobject), outcome_get_bind]
    simp only [hclass, Classes.isComponent_of_isIce hcls.ice]
    change outcome (builtinAttribute (.atDepth (n + 2)) o inst.classId "id") w = _
    rw [builtinAttribute, outcome_get_bind]
    simp [Classes.isComponent_of_isIce hcls.ice]
  rw [hown, ownId, outcome_bind_of_ok (outcome_get_idField hcls hobject hinst (n + 1))]
  have hmade : ∃ s w' inst', s ≠ "" ∧
      outcome (do
        let _ ← (Dispatch.atDepth (n + 2)).call o "set_id" []
        (Dispatch.atDepth (n + 2)).get o idField) w = (.ok (.text s), w') ∧
      w'.elements = w.elements ∧ w'.classes = w.classes ∧ w'.environment = w.environment ∧
      w'.objects[o]? = some inst' ∧ HasState inst' inst.classId fields value := by
    obtain ⟨s, hs, hset⟩ := outcome_setId_fresh hobject hinst.toExposes hcls.toReplies (n + 1)
    generalize hw : { w with issued := w.issued + 1 }.kept o idField (.text s) = w' at hset
    have hclasses : w'.classes = w.classes := by rw [← hw]; rfl
    have hobject' : w'.objects[o]? =
        some { inst with fields := Table.insert inst.fields idField (.text s) } := by
      rw [← hw]
      exact World.objects_kept_self hobject idField (.text s)
    have hinst' := hinst.insert_id hcls.idField (.text s)
    refine ⟨s, w', _, hs, ?_, by rw [← hw]; rfl, hclasses, by rw [← hw]; rfl, hobject', hinst'⟩
    rw [outcome_bind_of_ok hset,
      outcome_get_idField (hclasses ▸ hcls) hobject' hinst' (n + 1), Table.get?_insert_self]
    rfl
  cases hfield : Table.get? inst.fields idField with
  | none => exact hmade
  | some v =>
    obtain rfl | ⟨s, rfl, hs⟩ := hid v hfield
    · exact hmade
    · exact ⟨s, w, inst, hs, rfl, rfl, rfl, rfl, hobject, hinst⟩

end Carrier

end Object

/-! ## Making an object from a state -/

/-- The constructor of a class keeps every part of the state, which it takes by its name, under this
name, and has a default for whatever else it takes. -/
structure Classes.Takes (cs : Classes) (cls : ClassId) (fields : List String) (c : Class) :
    Prop where
  concrete : cs.isConcrete cls = true
  constructor : cs.constructor? cls = some c
  takes : ∀ name ∈ fields, ∃ p ∈ c.params.getD [], p.star = false ∧ p.name = name ∧ p.store = name
  keeps : ∀ p ∈ c.params.getD [], p.store ∈ fields → p.star = false ∧ p.name = p.store
  required : ∀ p ∈ c.params.getD [], p.star = false → p.default = none → p.name ∈ fields
  stores : ∀ p ∈ c.params.getD [], cs.Settable cls p.store
  apart : ∀ p ∈ c.params.getD [], p.store ∉ "state_fields" :: repliers

/-- The value of a parameter of a constructor that is called with values of some names. -/
def argument (vs : Table String Value) (p : Param) : Value :=
  if p.star then .tuple []
  else (Table.get? vs p.name).getD ((p.default.map .ofJson).getD .none)

/-- Values for all parameters of a constructor. -/
def arguments (params : List Param) (vs : Table String Value) : List (Param × Value) :=
  params.map fun p ↦ (p, argument vs p)

theorem mapM_eq_ok_map {α β ε : Type} {f : α → Except ε β} {g : α → β} {as : List α}
    (h : ∀ a ∈ as, f a = .ok (g a)) : as.mapM f = .ok (as.map g) := by
  induction as with
  | nil => rfl
  | cons a as ih =>
    obtain ⟨ha, has⟩ := List.forall_mem_cons.mp h
    rw [List.mapM_cons, ha, ih has]
    rfl

theorem bindNamed_eq {params : List Param} {vs : Table String Value}
    (hknown : ∀ name ∈ Table.keys vs, ∃ p ∈ params, p.star = false ∧ p.name = name)
    (hrequired : ∀ p ∈ params, p.star = false → p.default = none →
      p.name ∈ Table.keys vs) : bindNamed params vs = .ok (arguments params vs) := by
  have hall : (Table.keys vs).all (fun name ↦ params.any fun p ↦ !p.star && p.name == name) =
      true := by
    refine List.all_eq_true.mpr fun name hname ↦ ?_
    obtain ⟨p, hp, hstar, rfl⟩ := hknown name hname
    exact List.any_eq_true.mpr ⟨p, hp, by simp [hstar]⟩
  rw [bindNamed, if_pos hall]
  refine mapM_eq_ok_map fun p hp ↦ ?_
  cases hstar : p.star with
  | true => simp [argument, hstar]
  | false =>
    cases hget : Table.get? vs p.name with
    | some v => simp [argument, hstar, hget]
    | none =>
      cases hdefault : p.default with
      | none =>
        exact absurd (hrequired p hp hstar hdefault) (Table.get?_eq_none_iff.mp hget)
      | some j => simp [argument, hstar, hget, hdefault, Param.fallback, Except.map]

/-- What the constructor of a class keeps before its body runs. -/
def Class.kept (c : Class) (vs : Table String Value) : Table String Value :=
  (c.params.getD []).map fun p ↦ (p.store, argument vs p)

/-- What the body of the constructor of a class can refer to. -/
def Class.bound (c : Class) (vs : Table String Value) : Table String Value :=
  (c.params.getD []).map fun p ↦ (p.name, argument vs p)

theorem Class.map_store_arguments (c : Class) (vs : Table String Value) :
    (arguments (c.params.getD []) vs).map (fun e ↦ (e.1.store, e.2)) = c.kept vs := by
  rw [arguments, List.map_map]
  rfl

theorem Class.map_name_arguments (c : Class) (vs : Table String Value) :
    (arguments (c.params.getD []) vs).map (fun e ↦ (e.1.name, e.2)) = c.bound vs := by
  rw [arguments, List.map_map]
  rfl

/-- The world with a new object of a class that has kept values as its attributes. -/
def restored (w : World) (cls : ClassId) (es : Table String Value) : World :=
  { w with objects := w.objects ++ [⟨cls, Table.ofEntries es⟩] }

theorem objects_restored (w : World) (cls : ClassId) (es : Table String Value) :
    (restored w cls es).objects[w.objects.length]? = some ⟨cls, Table.ofEntries es⟩ := by
  simp [restored]

theorem modify_length {α : Type} (as : List α) (a : α) (f : α → α) :
    (as ++ [a]).modify as.length f = as ++ [f a] := by
  induction as with
  | nil => rfl
  | cons b as ih => simp [ih]

/-- The object keeps a value for every entry, under the name of the entry. -/
theorem outcome_store {α : Type} (key : α → String) (val : α → Value) (es : List α)
    (hobject : w.objects[o]? = some inst)
    (hes : ∀ e ∈ es, w.classes.Settable inst.classId (key e)) :
    outcome (es.forM fun e ↦ setAttribute o (key e) (val e)) w =
      (.ok PUnit.unit, w.keptAll o (es.map fun e ↦ (key e, val e))) := by
  induction es generalizing w inst with
  | nil =>
    rw [List.map_nil, World.keptAll_nil]
    rfl
  | cons e es ih =>
    obtain ⟨he, hes⟩ := List.forall_mem_cons.mp hes
    rw [List.map_cons, World.keptAll_cons]
    change outcome (setAttribute o (key e) (val e) >>= fun _ ↦ _) w = _
    rw [outcome_bind_of_ok (outcome_setAttribute hobject he)]
    exact ih (World.objects_kept_self hobject _ _) hes

section Takes

variable {cls : ClassId} {fields : List String} {value : String → Json} {c : Class}
  (htakes : w.classes.Takes cls fields c)

include htakes

/-- Making an object from a state: the values are kept, and then the body of the constructor runs. -/
theorem outcome_instantiate (d : Dispatch) (value : String → Json) :
    outcome (instantiate d cls (Value.ofMembers (stateOf fields value))) w =
      outcome (do
        c.init.forM (perform d ⟨some w.objects.length,
          c.bound (Value.ofMembers (stateOf fields value))⟩)
        return w.objects.length)
      (restored w cls (c.kept (Value.ofMembers (stateOf fields value)))) := by
  generalize hvs : Value.ofMembers (stateOf fields value) = vs
  have hkeys (name : String) : name ∈ Table.keys vs ↔ name ∈ fields := by
    rw [← hvs, ofMembers_stateOf, mem_keys_stateOf]
  have hbind : bindConstructor w.classes cls vs =
      .ok (some c, arguments (c.params.getD []) vs) := by
    have hbound : bindNamed (c.params.getD []) vs = .ok (arguments (c.params.getD []) vs) := by
      refine bindNamed_eq (fun name hname ↦ ?_) fun p hp hstar hdefault ↦
        (hkeys _).mpr (htakes.required p hp hstar hdefault)
      obtain ⟨p, hp, hstar, hpname, -⟩ := htakes.takes name ((hkeys name).mp hname)
      exact ⟨p, hp, hstar, hpname⟩
    simp [bindConstructor, htakes.concrete, htakes.constructor, hbound]
  have hnew : outcome (newObject cls) w =
    (.ok w.objects.length, { w with objects := w.objects ++ [⟨cls, []⟩] }) := rfl
  have hobject : ({ w with objects := w.objects ++ [⟨cls, []⟩] } : World).objects[
      w.objects.length]? = some ⟨cls, []⟩ := by
    simp
  have hstore := outcome_store (fun e : Param × Value ↦ e.1.store) Prod.snd
    (arguments (c.params.getD []) vs) hobject fun e he ↦ by
      obtain ⟨p, hp, rfl⟩ := List.mem_map.mp he
      exact htakes.stores p hp
  rw [Class.map_store_arguments, World.keptAll] at hstore
  rw [instantiate, outcome_get_bind, hbind]
  change outcome (newObject cls >>= _) w = _
  rw [outcome_bind_of_ok hnew]
  change outcome (construct d w.objects.length c _ >>= _) _ = _
  rw [construct, bind_assoc, outcome_bind_of_ok hstore, Class.map_name_arguments]
  simp only [modify_length]
  rfl

omit htakes in
/-- A key has the value that all of its entries have. -/
theorem get?_ofEntries_of_forall {es : Table String Value} {name : String} {v : Value}
    (hmem : (name, v) ∈ es) (hall : ∀ v', (name, v') ∈ es → v' = v) :
    Table.get? (Table.ofEntries es) name = some v := by
  have hkey : name ∈ Table.keys (Table.ofEntries es) :=
    Table.mem_keys_ofEntries.mpr (List.mem_map.mpr ⟨_, hmem, rfl⟩)
  obtain ⟨v', hv'⟩ := Table.mem_keys_iff.mp hkey
  rw [hv', hall v' (Table.mem_of_mem_ofEntries (Table.mem_of_get? hv'))]

/-- The object has the state before the body of the constructor runs. -/
theorem exposes_restored (value : String → Json) :
    Exposes ⟨cls, Table.ofEntries (c.kept (Value.ofMembers (stateOf fields value)))⟩ cls fields
      (fun name ↦ .ofJson (value name)) where
  classId := rfl
  state name hname := by
    have hvalue (p : Param) (hstar : p.star = false) (hp : p.name = name) :
        argument (Value.ofMembers (stateOf fields value)) p = .ofJson (value name) := by
      simp [argument, hstar, hp, ofMembers_stateOf, get?_stateOf, hname]
    obtain ⟨p, hp, hstar, hpname, hpstore⟩ := htakes.takes name hname
    refine get?_ofEntries_of_forall (List.mem_map.mpr ⟨p, hp, ?_⟩) fun v' hv' ↦ ?_
    · rw [hvalue p hstar hpname, hpstore]
    · obtain ⟨q, hq, he⟩ := List.mem_map.mp hv'
      cases he
      obtain ⟨hqstar, hqname⟩ := htakes.keeps q hq hname
      exact hvalue q hqstar hqname
  replies name hname := by
    refine Table.get?_eq_none_iff.mpr fun hmem ↦ ?_
    obtain ⟨e, he, rfl⟩ := List.mem_map.mp (Table.mem_keys_ofEntries.mp hmem)
    obtain ⟨p, hp, rfl⟩ := List.mem_map.mp he
    exact htakes.apart p hp hname

end Takes

end Component

end IceCube
