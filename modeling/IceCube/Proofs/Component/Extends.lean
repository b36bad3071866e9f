import IceCube.Component.Object
import IceCube.Proofs.Step
import IceCube.Proofs.Table

/-!
# What component code can do

Whatever code a component has, running it makes new objects and elements and sets attributes of
those that are there.  Files, environment, registries and classes stay as they are, an object keeps
its class, and an attribute that an object has of its own is never taken away.
-/

namespace IceCube

open Step

/-- What running component code can do to a world. -/
structure World.Extends (s t : World) : Prop where
  files : t.files = s.files
  environment : t.environment = s.environment
  registries : t.registries = s.registries
  classes : t.classes = s.classes
  objects : ∀ {o : Nat} {inst : Instance}, s.objects[o]? = some inst →
    ∃ inst' : Instance, t.objects[o]? = some inst' ∧ inst'.classId = inst.classId ∧
      ∀ name, Table.get? inst'.fields name = none → Table.get? inst.fields name = none

namespace World.Extends

/-- The objects are as they were. -/
theorem of_objects_eq {s t : World} (files : t.files = s.files)
    (environment : t.environment = s.environment) (registries : t.registries = s.registries)
    (classes : t.classes = s.classes) (objects : t.objects = s.objects) : s.Extends t where
  files := files
  environment := environment
  registries := registries
  classes := classes
  objects h := ⟨_, objects ▸ h, rfl, fun _ ↦ id⟩

instance : IsPreorder World World.Extends where
  refl _ := of_objects_eq rfl rfl rfl rfl rfl
  trans _ _ _ hst htu := {
    files := htu.files.trans hst.files
    environment := htu.environment.trans hst.environment
    registries := htu.registries.trans hst.registries
    classes := htu.classes.trans hst.classes
    objects := fun h ↦ by
      obtain ⟨inst, ht, hclass, hnone⟩ := hst.objects h
      obtain ⟨inst', hu, hclass', hnone'⟩ := htu.objects ht
      exact ⟨inst', hu, hclass'.trans hclass, fun name hname ↦ hnone name (hnone' name hname)⟩ }

end World.Extends

/-! ## Objects and elements -/

namespace Run

open World.Extends (of_objects_eq)

theorem extends_newElement (e : Element) : Moves World.Extends (newElement e) :=
  moves_get_bind fun _ ↦ of_objects_eq rfl rfl rfl rfl rfl

theorem extends_element (n : Nat) : Moves World.Extends (element n) := by
  refine moves_bind moves_get fun w ↦ ?_
  split
  · exact moves_pure _
  · exact moves_throw _

theorem extends_changeElement (n : Nat) (change : Element → Element) :
    Moves World.Extends (changeElement n change) :=
  moves_modify fun _ ↦ of_objects_eq rfl rfl rfl rfl rfl

theorem extends_elementAttribute (n : Nat) (name : String) :
    Moves World.Extends (elementAttribute n name) :=
  moves_bind (extends_element n) fun _ ↦ moves_pure _

theorem extends_setElementAttribute (n : Nat) (name : String) (v : Component.Value) :
    Moves World.Extends (setElementAttribute n name v) := extends_changeElement n _

theorem extends_object (o : Nat) : Moves World.Extends (object o) := by
  refine moves_bind moves_get fun w ↦ ?_
  split
  · exact moves_pure _
  · exact moves_throw _

theorem extends_keep (o : Nat) (name : String) (v : Component.Value) :
    Moves World.Extends (keep o name v) := by
  refine moves_modify fun w ↦
    { files := rfl, environment := rfl, registries := rfl, classes := rfl, objects := ?_ }
  intro o' inst h
  by_cases ho : o = o'
  · refine ⟨{ inst with fields := Table.insert inst.fields name v }, ?_, rfl, ?_⟩
    · simp [ho, h]
    · intro name' hname'
      rw [Table.get?_insert] at hname'
      split_ifs at hname' with heq
      exact hname'
  · exact ⟨inst, by simp [ho, h], rfl, fun _ ↦ id⟩

theorem extends_freshId : Moves World.Extends freshId :=
  moves_get_bind fun _ ↦ of_objects_eq rfl rfl rfl rfl rfl

end Run

namespace Component

open Run

/-- Everything that can be asked of objects and elements only extends the world. -/
structure Dispatch.Extending (d : Dispatch) : Prop where
  text : ∀ o, Moves World.Extends (d.text o)
  html : ∀ n, Moves World.Extends (d.html n)
  get : ∀ o name, Moves World.Extends (d.get o name)
  call : ∀ o name vs, Moves World.Extends (d.call o name vs)

variable {d : Dispatch}

/-! ## Texts and HTML -/

theorem extends_textOf (hd : d.Extending) (v : Value) : Moves World.Extends (textOf d v) := by
  cases v with
  | node n => exact moves_bind (hd.html n) fun _ ↦ moves_pure _
  | object o => exact hd.text o
  | _ => exact moves_pure _

theorem extends_htmlOf (hd : d.Extending) (v : Value) : Moves World.Extends (htmlOf d v) := by
  cases v with
  | markup s => exact moves_pure _
  | node n => exact hd.html n
  | object o => exact moves_bind (hd.text o) fun _ ↦ moves_bind moves_get fun _ ↦ moves_pure _
  | _ => exact moves_bind (extends_textOf hd _) fun _ ↦ moves_pure _

theorem extends_attributeOf (hd : d.Extending) (v : Value) :
    Moves World.Extends (attributeOf d v) := by
  unfold attributeOf
  split
  · exact moves_pure _
  · exact moves_pure _
  · exact moves_pure _
  · refine moves_bind (extends_htmlOf hd _) fun h ↦ ?_
    split <;> exact moves_pure _

theorem extends_childOf (hd : d.Extending) (v : Value) : Moves World.Extends (childOf d v) := by
  unfold childOf
  split
  · exact moves_pure _
  · exact extends_htmlOf hd _

theorem extends_elementHtml (hd : d.Extending) (n : Nat) :
    Moves World.Extends (elementHtml d n) := by
  refine moves_bind (extends_element n) fun e ↦ moves_bind (moves_mapM fun (a : String × Value) _ ↦
    moves_bind (extends_attributeOf hd a.2) fun _ ↦ moves_pure _) fun attributes ↦ ?_
  split
  · exact moves_bind (moves_pure _) fun _ ↦ moves_pure _
  · exact moves_bind (moves_mapM fun v _ ↦ extends_childOf hd v) fun _ ↦ moves_pure _

/-! ## Expressions -/

theorem extends_addNumbers (a b : Value) : Moves World.Extends (addNumbers a b) := by
  unfold addNumbers
  split
  · exact moves_pure _
  · dsimp only
    split
    · exact moves_throw _
    · exact moves_pure _
  · exact moves_throw _

theorem extends_add (hd : d.Extending) (a b : Value) : Moves World.Extends (add d a b) := by
  refine moves_bind moves_get fun w ↦ ?_
  split
  · exact moves_pure _
  · exact moves_pure _
  · exact moves_pure _
  · split
    · exact moves_bind (extends_htmlOf hd _) fun _ ↦ moves_pure _
    · exact moves_throw _
  · split
    · exact moves_bind (extends_htmlOf hd _) fun _ ↦ moves_pure _
    · exact moves_throw _
  · exact extends_addNumbers _ _

theorem extends_frame_object (f : Frame) : Moves World.Extends f.object := by
  unfold Frame.object
  split
  · exact moves_pure _
  · exact moves_throw _

mutual

theorem extends_eval (hd : d.Extending) (f : Frame) (e : Expr) :
    Moves World.Extends (eval d f e) := by
  cases e with
  | lit v => exact moves_pure _
  | markup e =>
    exact moves_bind (extends_eval hd f e) fun _ ↦ moves_bind (extends_textOf hd _) fun _ ↦
      moves_pure _
  | concat es => exact moves_bind (extends_evalTexts hd f es) fun _ ↦ moves_pure _
  | node tag attributes children =>
    exact moves_bind (extends_evalAttributes hd f attributes) fun _ ↦
      moves_bind (extends_evalAll hd f children) fun _ ↦
        moves_bind (extends_newElement _) fun _ ↦ moves_pure _
  | object name =>
    refine moves_bind moves_get fun w ↦ ?_
    split
    · exact moves_pure _
    · exact moves_throw _
  | arg name =>
    rw [eval]
    split
    · exact moves_pure _
    · exact moves_throw _
  | field name => exact moves_bind (extends_frame_object f) fun _ ↦ hd.get _ _
  | ownId => exact moves_bind (extends_frame_object f) fun _ ↦ hd.get _ _
  | self => exact moves_bind (extends_frame_object f) fun _ ↦ moves_pure _
  | ownText =>
    exact moves_bind (extends_frame_object f) fun _ ↦ moves_bind (hd.text _) fun _ ↦ moves_pure _
  | slot name fallback =>
    cases fallback with
    | none => exact moves_bind (extends_frame_object f) fun _ ↦ hd.call _ _ _
    | some e =>
      exact moves_bind (extends_eval hd f e) fun _ ↦ moves_bind (extends_frame_object f) fun _ ↦
        hd.call _ _ _
  | slotOrId name => exact moves_bind (extends_frame_object f) fun _ ↦ hd.call _ _ _

theorem extends_evalAll (hd : d.Extending) (f : Frame) (es : List Expr) :
    Moves World.Extends (evalAll d f es) := by
  cases es with
  | nil => exact moves_pure _
  | cons e es =>
    exact moves_bind (extends_eval hd f e) fun _ ↦ moves_bind (extends_evalAll hd f es) fun _ ↦
      moves_pure _

theorem extends_evalTexts (hd : d.Extending) (f : Frame) (es : List Expr) :
    Moves World.Extends (evalTexts d f es) := by
  cases es with
  | nil => exact moves_pure _
  | cons e es =>
    exact moves_bind (extends_eval hd f e) fun _ ↦ moves_bind (extends_textOf hd _) fun _ ↦
      moves_bind (extends_evalTexts hd f es) fun _ ↦ moves_pure _

theorem extends_evalAttributes (hd : d.Extending) (f : Frame) (es : List (String × Expr)) :
    Moves World.Extends (evalAttributes d f es) := by
  cases es with
  | nil => exact moves_pure _
  | cons e es =>
    obtain ⟨name, e⟩ := e
    exact moves_bind (extends_eval hd f e) fun _ ↦
      moves_bind (extends_evalAttributes hd f es) fun _ ↦ moves_pure _

end

/-! ## Attributes -/

theorem extends_setAttribute (o : Nat) (name : String) (v : Value) :
    Moves World.Extends (setAttribute o name v) := by
  refine moves_bind (extends_object o) fun inst ↦ moves_bind moves_get fun w ↦ ?_
  dsimp only
  split
  · exact moves_throw _
  · exact extends_keep o name v
  · split
    · exact moves_throw _
    · exact extends_keep o name v

theorem extends_perform (hd : d.Extending) (f : Frame) (a : Action) :
    Moves World.Extends (perform d f a) := by
  cases a with
  | set field e =>
    exact moves_bind (extends_eval hd f e) fun v ↦ moves_bind (extends_frame_object f) fun o ↦
      extends_setAttribute o field v
  | add field e =>
    exact moves_bind (extends_frame_object f) fun o ↦ moves_bind (hd.get o field) fun old ↦
      moves_bind (extends_eval hd f e) fun v ↦ moves_bind (extends_add hd old v) fun sum ↦
        extends_setAttribute o field sum
  | fail kind message => exact moves_throw _

theorem extends_runMethod (hd : d.Extending) (self : Option ObjectId) (m : Method)
    (args : List Value) : Moves World.Extends (runMethod d self m args) := by
  unfold runMethod
  split
  · exact moves_throw _
  · exact moves_bind (moves_forM (extends_perform hd _) _) fun _ ↦ extends_eval hd _ _

theorem extends_slots (o : Nat) : Moves World.Extends (slots o) := by
  refine moves_bind (extends_object o) fun inst ↦ ?_
  split
  · exact moves_pure _
  · exact moves_throw _
  · exact moves_bind (extends_keep o _ _) fun _ ↦ moves_pure _

theorem extends_ownId (hd : d.Extending) (o : Nat) : Moves World.Extends (ownId d o) := by
  refine moves_bind (hd.get o _) fun v ↦ ?_
  split
  · exact moves_bind (hd.call o _ _) fun _ ↦ hd.get o _
  · exact moves_pure _

theorem extends_builtinAttribute (hd : d.Extending) (o : Nat) (c : ClassId) (name : String) :
    Moves World.Extends (builtinAttribute d o c name) := by
  refine moves_bind moves_get fun w ↦ ?_
  dsimp only
  split_ifs
  · exact moves_throw _
  · exact extends_ownId hd o
  · exact moves_bind (extends_slots o) fun _ ↦ moves_pure _
  · exact moves_pure _
  · exact moves_pure _
  · exact moves_pure _
  · exact moves_pure _
  · exact moves_throw _

theorem extends_getAttribute (hd : d.Extending) (o : Nat) (name : String) :
    Moves World.Extends (getAttribute d o name) := by
  refine moves_bind (extends_object o) fun inst ↦ moves_bind moves_get fun w ↦ ?_
  dsimp only
  split
  · exact extends_runMethod hd _ _ _
  · split
    · exact moves_pure _
    · exact moves_pure _
    · exact moves_pure _
    · exact moves_pure _
    · exact extends_builtinAttribute hd o _ name

/-! ## Methods -/

theorem extends_setId (o : Nat) (v : Value) : Moves World.Extends (setId o v) := by
  unfold setId
  split
  · exact moves_bind (moves_pure _) fun _ ↦ moves_bind (extends_setAttribute o _ _) fun _ ↦
      moves_pure _
  · exact moves_bind extends_freshId fun _ ↦ moves_bind (moves_pure _) fun _ ↦
      moves_bind (extends_setAttribute o _ _) fun _ ↦ moves_pure _

theorem extends_fillSlot (o : Nat) (content name : Value) :
    Moves World.Extends (fillSlot o content name) := by
  refine moves_bind (extends_slots o) fun es ↦ ?_
  split
  · exact moves_bind (extends_keep o _ _) fun _ ↦ moves_pure _
  · exact moves_bind (extends_keep o _ _) fun _ ↦ moves_pure _
  · exact moves_throw _

theorem extends_slotContent (hd : d.Extending) (o : Nat) (name fallback : Value) :
    Moves World.Extends (slotContent d o name fallback) := by
  refine moves_bind (extends_slots o) fun es ↦ ?_
  dsimp only
  split
  · exact hd.get o _
  · exact moves_throw _
  · refine moves_bind moves_get fun w ↦ ?_
    split
    · exact extends_fillSlot _ _ _
    · exact moves_pure _
  · exact moves_pure _
  · exact moves_pure _

theorem extends_classComponentName (c : ClassId) :
    Moves World.Extends (classComponentName c) := by
  refine moves_bind moves_get fun w ↦ ?_
  dsimp only
  split
  · exact moves_pure _
  · exact moves_pure _
  · exact moves_throw _

theorem extends_exposeState (hd : d.Extending) (o : Nat) :
    Moves World.Extends (exposeState d o) := by
  refine moves_bind (hd.get o _) fun fields ↦ ?_
  split
  · exact moves_throw _
  · exact moves_bind (moves_mapM fun name _ ↦ moves_bind (hd.get o name) fun _ ↦ moves_pure _)
      fun _ ↦ moves_pure _

/-- An element that has no id gets the one of an object. -/
def stampId (d : Dispatch) (o : ObjectId) (n : NodeId) : Run Unit := do
  match ← elementAttribute n "id" with
  | .none => setElementAttribute n "id" (← d.get o "id")
  | _ => pure ()

/-- An element gets the state that an object exposes. -/
def stampState (d : Dispatch) (o : ObjectId) (n : NodeId) : Run Unit := do
  match (← d.call o "expose_state" []).toJson? with
  | some state => setElementAttribute n stateAttribute (.text state.compact)
  | none => throw .mismatch

theorem stamp_eq (d : Dispatch) (o : ObjectId) (n : NodeId) : stamp d o n = (do
    stampId d o n
    setElementAttribute n Stylesheet.scopeAttribute (← d.call o "get_component_name" [])
    stampState d o n) := by
  rw [stamp, stampId, bind_assoc]
  refine congrArg _ (funext fun id ↦ ?_)
  cases id with
  | none =>
    dsimp only
    rw [bind_assoc]
    rfl
  | _ => rfl

theorem extends_stampId (hd : d.Extending) (o n : Nat) : Moves World.Extends (stampId d o n) := by
  refine moves_bind (extends_elementAttribute n _) fun id ↦ ?_
  split
  · exact moves_bind (hd.get o _) fun _ ↦ extends_setElementAttribute n _ _
  · exact moves_pure _

theorem extends_stampState (hd : d.Extending) (o n : Nat) :
    Moves World.Extends (stampState d o n) := by
  refine moves_bind (hd.call o _ _) fun v ↦ ?_
  split
  · exact extends_setElementAttribute n _ _
  · exact moves_throw _

theorem extends_stamp (hd : d.Extending) (o n : Nat) : Moves World.Extends (stamp d o n) := by
  rw [stamp_eq]
  exact moves_bind (extends_stampId hd o n) fun _ ↦ moves_bind (hd.call o _ _) fun _ ↦
    moves_bind (extends_setElementAttribute n _ _) fun _ ↦ extends_stampState hd o n

theorem extends_stampSignature (n : Nat) : Moves World.Extends (stampSignature n) := by
  refine moves_bind moves_get fun w ↦ ?_
  split
  · exact moves_throw _
  · refine moves_bind (extends_elementAttribute n _) fun v ↦ ?_
    split
    · exact moves_bind (extends_setElementAttribute n _ _) fun _ ↦
        extends_setElementAttribute n _ _
    · exact moves_throw _

theorem extends_onRender (hd : d.Extending) (o : Nat) (root : Value) :
    Moves World.Extends (onRender d o root) := by
  unfold onRender
  split
  · refine moves_bind (extends_stamp hd o _) fun _ ↦ moves_bind moves_get fun w ↦
      moves_bind (extends_object o) fun inst ↦ ?_
    split
    · exact moves_bind (extends_stampSignature _) fun _ ↦ moves_pure _
    · exact moves_pure _
  · exact moves_throw _

theorem extends_callBuiltin (hd : d.Extending) (o : Nat) (name : String) (vs : List Value) :
    Moves World.Extends (callBuiltin d o name vs) := by
  refine moves_bind (extends_object o) fun inst ↦ moves_bind moves_get fun w ↦ ?_
  dsimp only
  split
  · exact moves_throw _
  · split
    · exact extends_setId o _
    · exact extends_setId o _
    · exact extends_slotContent hd o _ _
    · exact extends_slotContent hd o _ _
    · exact extends_slotContent hd o _ _
    · exact extends_slotContent hd o _ _
    · exact extends_fillSlot o _ _
    · exact extends_fillSlot o _ _
    · exact extends_fillSlot o _ _
    · exact moves_pure _
    · split
      · exact moves_throw _
      · split
        · exact extends_classComponentName _
        · exact extends_exposeState hd o
        · exact extends_onRender hd o _
        · split
          · exact moves_throw _
          · exact moves_throw _

theorem extends_callValue (o : Nat) (v : Value) (vs : List Value) :
    Moves World.Extends (callValue o v vs) := by
  unfold callValue
  split
  · refine moves_bind moves_get fun w ↦ ?_
    split
    · exact extends_fillSlot _ _ _
    · exact moves_throw _
  · refine moves_bind moves_get fun w ↦ ?_
    split
    · exact extends_fillSlot _ _ _
    · exact moves_throw _
  · exact moves_pure _
  · exact moves_throw _

theorem extends_callMethod (hd : d.Extending) (o : Nat) (name : String) (vs : List Value) :
    Moves World.Extends (callMethod d o name vs) := by
  refine moves_bind (extends_object o) fun inst ↦ moves_bind moves_get fun w ↦ ?_
  dsimp only
  split
  · exact moves_bind (extends_runMethod hd _ _ _) fun _ ↦ extends_callValue o _ _
  · split
    · exact extends_callValue o _ _
    · exact extends_runMethod hd _ _ _
    · exact extends_runMethod hd _ _ _
    · exact extends_runMethod hd _ _ _
    · split
      · exact extends_eval hd _ _
      · exact moves_throw _
    · exact moves_throw _
    · exact extends_callBuiltin hd o _ _

theorem extends_renderedText (hd : d.Extending) (o : Nat) :
    Moves World.Extends (renderedText d o) := by
  refine moves_bind (extends_object o) fun inst ↦ moves_bind moves_get fun w ↦ ?_
  dsimp only
  split_ifs
  · exact moves_bind (hd.call o _ _) fun _ ↦ moves_bind (hd.call o _ _) fun _ ↦
      extends_textOf hd _
  · exact moves_bind (hd.call o _ _) fun _ ↦ extends_textOf hd _
  · exact moves_pure _

/-! ## Nested calls -/

/-- However deeply calls nest, they only extend the world. -/
theorem Dispatch.extending_atDepth (n : Nat) : (Dispatch.atDepth n).Extending := by
  induction n with
  | zero =>
    exact ⟨fun _ ↦ moves_throw _, fun _ ↦ moves_throw _, fun _ _ ↦ moves_throw _,
      fun _ _ _ ↦ moves_throw _⟩
  | succ n ih =>
    exact ⟨extends_renderedText ih, extends_elementHtml ih, extends_getAttribute ih,
      extends_callMethod ih⟩

/-! ## Constructing -/

theorem extends_newObject (c : ClassId) : Moves World.Extends (newObject c) :=
  moves_get_bind fun w ↦
    { files := rfl, environment := rfl, registries := rfl, classes := rfl
      objects := fun {o inst} h ↦ ⟨inst, by
        change (w.objects ++ [_])[o]? = some inst
        rw [List.getElem?_append_left (List.getElem?_eq_some_iff.mp h).1, h], rfl, fun _ ↦ id⟩ }

theorem extends_construct {d : Dispatch} (hd : d.Extending) (o : Nat) (c : Class)
    (bound : List (Param × Value)) : Moves World.Extends (construct d o c bound) :=
  moves_bind (moves_forM (fun _ ↦ extends_setAttribute o _ _) _) fun _ ↦
    moves_forM (extends_perform hd _) _

theorem extends_instantiate {d : Dispatch} (hd : d.Extending) (c : ClassId)
    (vs : Table String Value) : Moves World.Extends (instantiate d c vs) := by
  refine moves_bind moves_get fun w ↦ ?_
  split
  · exact moves_throw _
  · refine moves_bind (extends_newObject c) fun o ↦ ?_
    dsimp only
    split
    · exact moves_bind (extends_construct hd o _ _) fun _ ↦ moves_pure _
    · exact moves_pure _

end Component

end IceCube
