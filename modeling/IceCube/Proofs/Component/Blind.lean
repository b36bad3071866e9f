import IceCube.Component.Object
import IceCube.Proofs.Component.Extends
import IceCube.Proofs.Component.Lineage

/-!
# Code that does not see identities of classes

Component code learns nothing of a class but what its lineage tells.  So in two worlds whose objects
have the same attributes and classes of the same lineages, whatever component code does ends well in
the one as in the other, with the same values, and leaves such worlds behind.  Which classes are
loaded, under which identities, and what files and registries hold makes no difference.
-/

namespace IceCube

open Step Component

/-- Objects with the same attributes and classes of the same lineage. -/
structure Instance.Alike (cs cs' : Classes) (a b : Instance) : Prop where
  fields : b.fields = a.fields
  lineage : cs'.lineage b.classId = cs.lineage a.classId

/-- Worlds with their classes that are the same in all else that component code can see. -/
structure World.Alike (cs cs' : Classes) (w u : World) : Prop where
  classes : w.classes = cs
  classes' : u.classes = cs'
  environment : u.environment = w.environment
  elements : u.elements = w.elements
  named : u.named = w.named
  issued : u.issued = w.issued
  objects : List.Forall₂ (Instance.Alike cs cs') w.objects u.objects

namespace Component

open Run

/-- A step that does not see identities of classes. -/
abbrev Blind {α : Type} (cs cs' : Classes) (m : Run α) : Prop := Follows (World.Alike cs cs') Eq m m

variable {cs cs' : Classes} {α β : Type}

theorem blind_pure (a : α) : Blind cs cs' (pure a : Run α) := follows_pure rfl

theorem blind_throw (e : Error) : Blind cs cs' (throw e : Run α) := follows_throw e _

theorem blind_bind {m : Run α} {f : α → Run β} (hm : Blind cs cs' m)
    (hf : ∀ a, Blind cs cs' (f a)) : Blind cs cs' (m >>= f) := follows_bind hm fun a _ h ↦ h ▸ hf a

theorem blind_mapM {f : α → Run β} (as : List α) (hf : ∀ a, Blind cs cs' (f a)) :
    Blind cs cs' (as.mapM f) := by
  induction as with
  | nil => exact blind_pure []
  | cons a as ih =>
    rw [List.mapM_cons]
    exact blind_bind (hf a) fun _ ↦ blind_bind ih fun _ ↦ blind_pure _

theorem blind_forM {f : α → Run PUnit} (as : List α) (hf : ∀ a, Blind cs cs' (f a)) :
    Blind cs cs' (as.forM f) := follows_forM fun a _ ↦ hf a

/-! ## Objects and elements -/

/-- A change of the world that does not depend on classes. -/
theorem blind_modify {change : World → World}
    (h : ∀ w u, World.Alike cs cs' w u → World.Alike cs cs' (change w) (change u)) :
    Blind cs cs' (modify change) := by
  intro w u hwu a w' hrun
  cases hrun
  exact ⟨_, _, rfl, rfl, h w u hwu⟩

theorem blind_element (n : Nat) : Blind cs cs' (element n) := by
  refine follows_get_bind fun w u hwu ↦ ?_
  rw [hwu.elements]
  cases w.elements[n]? with
  | none => exact follows_throw _ _
  | some e => exact follows_pure rfl

theorem blind_newElement (e : Element) : Blind cs cs' (newElement e) := by
  intro w u hwu n w' hrun
  cases hrun
  exact ⟨u.elements.length, { u with elements := u.elements ++ [e] }, rfl, by rw [hwu.elements],
    { hwu with elements := by rw [hwu.elements] }⟩

theorem blind_changeElement (n : Nat) (change : Element → Element) :
    Blind cs cs' (changeElement n change) :=
  blind_modify fun w u hwu ↦ { hwu with elements := by rw [hwu.elements] }

theorem blind_elementAttribute (n : Nat) (name : String) :
    Blind cs cs' (elementAttribute n name) :=
  blind_bind (blind_element n) fun _ ↦ blind_pure _

theorem blind_setElementAttribute (n : Nat) (name : String) (v : Value) :
    Blind cs cs' (setElementAttribute n name v) := blind_changeElement n _

/-- What goes on with an object goes on alike with its like. -/
theorem follows_object (o : Nat) :
    Follows (World.Alike cs cs') (Instance.Alike cs cs') (object o) (object o) := by
  refine follows_get_bind fun w u hwu ↦ ?_
  have hobjects := hwu.objects
  cases hw : w.objects[o]? with
  | none => exact follows_throw _ _
  | some a =>
    obtain ⟨b, hu, hab⟩ := exists_getElem?_of_forall₂ hobjects hw
    rw [hu]
    exact follows_pure hab

theorem forall₂_modify {R : α → α → Prop} {f : α → α} {as bs : List α} (h : List.Forall₂ R as bs)
    (hf : ∀ a b, R a b → R (f a) (f b)) (n : Nat) :
    List.Forall₂ R (as.modify n f) (bs.modify n f) := by
  induction h generalizing n with
  | nil => simp
  | cons hab h ih =>
    cases n with
    | zero => exact .cons (hf _ _ hab) h
    | succ n => exact .cons hab (ih n)

theorem blind_keep (o : Nat) (name : String) (v : Value) : Blind cs cs' (keep o name v) := by
  refine blind_modify fun w u hwu ↦ { hwu with objects := ?_ }
  refine forall₂_modify hwu.objects (fun a b hab ↦ ?_) o
  exact ⟨congrArg (Table.insert · name v) hab.fields, hab.lineage⟩

theorem blind_freshId : Blind cs cs' freshId := by
  intro w u hwu s w' hrun
  cases hrun
  refine ⟨_, { u with issued := u.issued + 1 }, rfl, by rw [hwu.issued], ?_⟩
  exact { hwu with issued := by rw [hwu.issued] }

/-- Whether a value is HTML can be seen, as it depends on the lineage of its class. -/
theorem isMarkup_eq {w u : World} (hwu : World.Alike cs cs' w u) (v : Value) :
    isMarkup u v = isMarkup w v := by
  cases v with
  | object o =>
    rw [isMarkup, isMarkup, hwu.classes, hwu.classes']
    cases hw : w.objects[o]? with
    | none =>
      have hlength := hwu.objects.length_eq
      rw [List.getElem?_eq_none_iff] at hw
      rw [List.getElem?_eq_none_iff.mpr (by omega)]
    | some a =>
      obtain ⟨b, hu, hab⟩ := exists_getElem?_of_forall₂ hwu.objects hw
      rw [hu]
      exact Classes.isComponent_of_lineage hab.lineage
  | _ => rfl

theorem joinsMarkup_eq {w u : World} (hwu : World.Alike cs cs' w u) (v : Value) :
    joinsMarkup u v = joinsMarkup w v := by
  have hmarkup := isMarkup_eq hwu v
  cases v with
  | text s => rfl
  | _ => exact hmarkup

/-! ## Texts and HTML -/

/-- Nothing that can be asked of objects and elements tells of identities of classes. -/
structure Dispatch.Blind (cs cs' : Classes) (d : Dispatch) : Prop where
  text : ∀ o, Component.Blind cs cs' (d.text o)
  html : ∀ n, Component.Blind cs cs' (d.html n)
  get : ∀ o name, Component.Blind cs cs' (d.get o name)
  call : ∀ o name vs, Component.Blind cs cs' (d.call o name vs)

variable {d : Dispatch}

theorem blind_textOf (hd : d.Blind cs cs') (v : Value) : Blind cs cs' (textOf d v) := by
  cases v with
  | node n => exact blind_bind (hd.html n) fun _ ↦ blind_pure _
  | object o => exact hd.text o
  | _ => exact blind_pure _

theorem blind_htmlOf (hd : d.Blind cs cs') (v : Value) : Blind cs cs' (htmlOf d v) := by
  cases v with
  | markup s => exact blind_pure _
  | node n => exact hd.html n
  | object o =>
    refine blind_bind (hd.text o) fun s ↦ follows_get_bind fun w u hwu ↦ ?_
    have hcomponent : isMarkup u (.object o) = isMarkup w (.object o) := isMarkup_eq hwu _
    rw [isMarkup, isMarkup] at hcomponent
    dsimp only
    rw [hcomponent]
    exact blind_pure _
  | _ => exact blind_bind (blind_textOf hd _) fun _ ↦ blind_pure _

theorem blind_attributeOf (hd : d.Blind cs cs') (v : Value) : Blind cs cs' (attributeOf d v) := by
  unfold attributeOf
  split
  · exact blind_pure _
  · exact blind_pure _
  · exact blind_pure _
  · refine blind_bind (blind_htmlOf hd _) fun h ↦ ?_
    cases h <;> exact blind_pure _

theorem blind_childOf (hd : d.Blind cs cs') (v : Value) : Blind cs cs' (childOf d v) := by
  unfold childOf
  split
  · exact blind_pure _
  · exact blind_htmlOf hd _

theorem blind_elementHtml (hd : d.Blind cs cs') (n : Nat) : Blind cs cs' (elementHtml d n) := by
  refine blind_bind (blind_element n) fun e ↦ blind_bind (blind_mapM _ fun a ↦
    blind_bind (blind_attributeOf hd a.2) fun _ ↦ blind_pure _) fun attributes ↦ ?_
  dsimp only
  cases Html.isVoid e.tag with
  | true => exact blind_bind (blind_pure _) fun _ ↦ blind_pure _
  | false => exact blind_bind (blind_mapM _ fun v ↦ blind_childOf hd v) fun _ ↦ blind_pure _

/-! ## Expressions -/

theorem blind_addNumbers (a b : Value) : Blind cs cs' (addNumbers a b) := by
  unfold addNumbers
  split
  · exact blind_pure _
  · dsimp only
    split
    · exact blind_throw _
    · exact blind_pure _
  · exact blind_throw _

theorem blind_add (hd : d.Blind cs cs') (a b : Value) : Blind cs cs' (add d a b) := by
  refine follows_get_bind fun w u hwu ↦ ?_
  have hjoins := joinsMarkup_eq hwu
  split
  · exact blind_pure _
  · exact blind_pure _
  · exact blind_pure _
  · rw [hjoins]
    split
    · exact blind_bind (blind_htmlOf hd _) fun _ ↦ blind_pure _
    · exact blind_throw _
  · rw [hjoins]
    split
    · exact blind_bind (blind_htmlOf hd _) fun _ ↦ blind_pure _
    · exact blind_throw _
  · exact blind_addNumbers _ _

theorem blind_frame_object (f : Frame) : Blind cs cs' f.object := by
  unfold Frame.object
  split
  · exact blind_pure _
  · exact blind_throw _

mutual

theorem blind_eval (hd : d.Blind cs cs') (f : Frame) (e : Expr) : Blind cs cs' (eval d f e) := by
  cases e with
  | lit v => exact blind_pure _
  | markup e =>
    exact blind_bind (blind_eval hd f e) fun _ ↦ blind_bind (blind_textOf hd _) fun _ ↦ blind_pure _
  | concat es => exact blind_bind (blind_evalTexts hd f es) fun _ ↦ blind_pure _
  | node tag attributes children =>
    exact blind_bind (blind_evalAttributes hd f attributes) fun _ ↦
      blind_bind (blind_evalAll hd f children) fun _ ↦
        blind_bind (blind_newElement _) fun _ ↦ blind_pure _
  | object name =>
    refine follows_get_bind fun w u hwu ↦ ?_
    rw [hwu.named]
    split
    · exact blind_pure _
    · exact blind_throw _
  | arg name =>
    rw [eval]
    split
    · exact blind_pure _
    · exact blind_throw _
  | field name => exact blind_bind (blind_frame_object f) fun _ ↦ hd.get _ _
  | ownId => exact blind_bind (blind_frame_object f) fun _ ↦ hd.get _ _
  | self => exact blind_bind (blind_frame_object f) fun _ ↦ blind_pure _
  | ownText =>
    exact blind_bind (blind_frame_object f) fun _ ↦ blind_bind (hd.text _) fun _ ↦ blind_pure _
  | slot name fallback =>
    cases fallback with
    | none => exact blind_bind (blind_frame_object f) fun _ ↦ hd.call _ _ _
    | some e =>
      exact blind_bind (blind_eval hd f e) fun _ ↦ blind_bind (blind_frame_object f) fun _ ↦
        hd.call _ _ _
  | slotOrId name => exact blind_bind (blind_frame_object f) fun _ ↦ hd.call _ _ _

theorem blind_evalAll (hd : d.Blind cs cs') (f : Frame) (es : List Expr) :
    Blind cs cs' (evalAll d f es) := by
  cases es with
  | nil => exact blind_pure _
  | cons e es =>
    exact blind_bind (blind_eval hd f e) fun _ ↦ blind_bind (blind_evalAll hd f es) fun _ ↦
      blind_pure _

theorem blind_evalTexts (hd : d.Blind cs cs') (f : Frame) (es : List Expr) :
    Blind cs cs' (evalTexts d f es) := by
  cases es with
  | nil => exact blind_pure _
  | cons e es =>
    exact blind_bind (blind_eval hd f e) fun _ ↦ blind_bind (blind_textOf hd _) fun _ ↦
      blind_bind (blind_evalTexts hd f es) fun _ ↦ blind_pure _

theorem blind_evalAttributes (hd : d.Blind cs cs') (f : Frame) (es : List (String × Expr)) :
    Blind cs cs' (evalAttributes d f es) := by
  cases es with
  | nil => exact blind_pure _
  | cons e es =>
    obtain ⟨name, e⟩ := e
    exact blind_bind (blind_eval hd f e) fun _ ↦ blind_bind (blind_evalAttributes hd f es) fun _ ↦
      blind_pure _

end

/-! ## Attributes -/

theorem blind_setAttribute (o : Nat) (name : String) (v : Value) :
    Blind cs cs' (setAttribute o name v) := by
  refine follows_bind (follows_object o) fun a b hab ↦ follows_get_bind fun w u hwu ↦ ?_
  dsimp only
  rw [hwu.classes, hwu.classes', Classes.attribute?_of_lineage hab.lineage,
    Classes.isComponent_of_lineage hab.lineage]
  split
  · exact blind_throw _
  · exact blind_keep o name v
  · split
    · exact blind_throw _
    · exact blind_keep o name v

theorem blind_perform (hd : d.Blind cs cs') (f : Frame) (a : Action) :
    Blind cs cs' (perform d f a) := by
  cases a with
  | set field e =>
    exact blind_bind (blind_eval hd f e) fun v ↦ blind_bind (blind_frame_object f) fun o ↦
      blind_setAttribute o field v
  | add field e =>
    exact blind_bind (blind_frame_object f) fun o ↦ blind_bind (hd.get o field) fun old ↦
      blind_bind (blind_eval hd f e) fun v ↦ blind_bind (blind_add hd old v) fun sum ↦
        blind_setAttribute o field sum
  | fail kind message => exact blind_throw _

theorem blind_runMethod (hd : d.Blind cs cs') (self : Option ObjectId) (m : Method)
    (args : List Value) : Blind cs cs' (runMethod d self m args) := by
  unfold runMethod
  split
  · exact blind_throw _
  · exact blind_bind (blind_forM _ (blind_perform hd _)) fun _ ↦ blind_eval hd _ _

theorem blind_slots (o : Nat) : Blind cs cs' (slots o) := by
  refine follows_bind (follows_object o) fun a b hab ↦ ?_
  rw [hab.fields]
  split
  · exact blind_pure _
  · exact blind_throw _
  · exact blind_bind (blind_keep o _ _) fun _ ↦ blind_pure _

theorem blind_ownId (hd : d.Blind cs cs') (o : Nat) : Blind cs cs' (ownId d o) := by
  refine blind_bind (hd.get o _) fun v ↦ ?_
  split
  · exact blind_bind (hd.call o _ _) fun _ ↦ hd.get o _
  · exact blind_pure _

theorem follows_builtinAttribute (hd : d.Blind cs cs') {c c' : ClassId}
    (hc : cs'.lineage c' = cs.lineage c) (o : Nat) (name : String) :
    Follows (World.Alike cs cs') Eq (builtinAttribute d o c name)
      (builtinAttribute d o c' name) := by
  refine follows_get_bind fun w u hwu ↦ ?_
  dsimp only
  rw [hwu.classes, hwu.classes', Classes.isComponent_of_lineage hc, Classes.isSingle_of_lineage hc]
  split_ifs
  · exact blind_throw _
  · exact blind_ownId hd o
  · exact blind_bind (blind_slots o) fun _ ↦ blind_pure _
  · exact blind_pure _
  · exact blind_pure _
  · exact blind_pure _
  · exact blind_pure _
  · exact blind_throw _

theorem blind_getAttribute (hd : d.Blind cs cs') (o : Nat) (name : String) :
    Blind cs cs' (getAttribute d o name) := by
  refine follows_bind (follows_object o) fun a b hab ↦ follows_get_bind fun w u hwu ↦ ?_
  dsimp only
  rw [hwu.classes, hwu.classes', Classes.attribute?_of_lineage hab.lineage,
    Classes.isComponent_of_lineage hab.lineage, hab.fields]
  split
  · exact blind_runMethod hd _ _ _
  · split
    · exact blind_pure _
    · exact blind_pure _
    · exact blind_pure _
    · exact blind_pure _
    · exact follows_builtinAttribute hd hab.lineage o name

/-! ## Methods -/

theorem blind_setId (o : Nat) (v : Value) : Blind cs cs' (setId o v) := by
  unfold setId
  split
  · exact blind_bind (blind_pure _) fun _ ↦ blind_bind (blind_setAttribute o _ _) fun _ ↦
      blind_pure _
  · exact blind_bind blind_freshId fun _ ↦ blind_bind (blind_pure _) fun _ ↦
      blind_bind (blind_setAttribute o _ _) fun _ ↦ blind_pure _

theorem blind_fillSlot (o : Nat) (content name : Value) :
    Blind cs cs' (fillSlot o content name) := by
  refine blind_bind (blind_slots o) fun es ↦ ?_
  split
  · exact blind_bind (blind_keep o _ _) fun _ ↦ blind_pure _
  · exact blind_bind (blind_keep o _ _) fun _ ↦ blind_pure _
  · exact blind_throw _

theorem blind_slotContent (hd : d.Blind cs cs') (o : Nat) (name fallback : Value) :
    Blind cs cs' (slotContent d o name fallback) := by
  refine blind_bind (blind_slots o) fun es ↦ ?_
  dsimp only
  split
  · exact hd.get o _
  · exact blind_throw _
  · refine follows_get_bind fun w u hwu ↦ ?_
    rw [isMarkup_eq hwu]
    split
    · exact blind_fillSlot _ _ _
    · exact blind_pure _
  · exact blind_pure _
  · exact blind_pure _

/-- The name that the elements of a class carry depends on what the class itself is, up to what it
is built on. -/
theorem follows_classComponentName {c c' : ClassId} (hc : cs'.lineage c' = cs.lineage c) :
    Follows (World.Alike cs cs') Eq (classComponentName c) (classComponentName c') := by
  refine follows_get_bind fun w u hwu ↦ ?_
  dsimp only
  have hclass := Classes.class_of_lineage hc
  rw [hwu.classes, hwu.classes', Classes.attribute?_of_lineage hc]
  cases hw : cs[c]? with
  | none =>
    rw [hw, Option.map_none, Option.map_eq_none_iff] at hclass
    rw [hclass]
    split
    · contradiction
    · contradiction
    · exact blind_throw _
  | some a =>
    rw [hw, Option.map_some, Option.map_eq_some_iff] at hclass
    obtain ⟨b, hu, hab⟩ := hclass
    obtain ⟨hname, hmodule, -, -⟩ := Class.eq_of_unbased hab
    rw [hu]
    generalize cs.attribute? c "component_name" = found
    rcases found with _ | (_ | _ | v) <;> dsimp only <;> rw [hmodule, hname] <;> exact blind_pure _

theorem blind_exposeState (hd : d.Blind cs cs') (o : Nat) : Blind cs cs' (exposeState d o) := by
  refine blind_bind (hd.get o _) fun fields ↦ ?_
  split
  · exact blind_throw _
  · exact blind_bind (blind_mapM _ fun name ↦ blind_bind (hd.get o name) fun _ ↦ blind_pure _)
      fun _ ↦ blind_pure _

theorem blind_stampId (hd : d.Blind cs cs') (o n : Nat) : Blind cs cs' (stampId d o n) := by
  refine blind_bind (blind_elementAttribute n _) fun id ↦ ?_
  split
  · exact blind_bind (hd.get o _) fun _ ↦ blind_setElementAttribute n _ _
  · exact blind_pure _

theorem blind_stampState (hd : d.Blind cs cs') (o n : Nat) : Blind cs cs' (stampState d o n) := by
  refine blind_bind (hd.call o _ _) fun v ↦ ?_
  split
  · exact blind_setElementAttribute n _ _
  · exact blind_throw _

theorem blind_stamp (hd : d.Blind cs cs') (o n : Nat) : Blind cs cs' (stamp d o n) := by
  rw [stamp_eq]
  exact blind_bind (blind_stampId hd o n) fun _ ↦ blind_bind (hd.call o _ _) fun _ ↦
    blind_bind (blind_setElementAttribute n _ _) fun _ ↦ blind_stampState hd o n

theorem blind_stampSignature (n : Nat) : Blind cs cs' (stampSignature n) := by
  refine follows_get_bind fun w u hwu ↦ ?_
  rw [hwu.environment]
  split
  · exact blind_throw _
  · refine blind_bind (blind_elementAttribute n _) fun v ↦ ?_
    split
    · exact blind_bind (blind_setElementAttribute n _ _) fun _ ↦ blind_setElementAttribute n _ _
    · exact blind_throw _

theorem blind_onRender (hd : d.Blind cs cs') (o : Nat) (root : Value) :
    Blind cs cs' (onRender d o root) := by
  unfold onRender
  split
  · refine blind_bind (blind_stamp hd o _) fun _ ↦ follows_get_bind fun w u hwu ↦
      follows_bind (follows_object o) fun a b hab ↦ ?_
    rw [hwu.classes, hwu.classes', Classes.isIce_of_lineage hab.lineage]
    split
    · exact blind_bind (blind_stampSignature _) fun _ ↦ blind_pure _
    · exact blind_pure _
  · exact blind_throw _

theorem blind_callBuiltin (hd : d.Blind cs cs') (o : Nat) (name : String) (vs : List Value) :
    Blind cs cs' (callBuiltin d o name vs) := by
  refine follows_bind (follows_object o) fun a b hab ↦ follows_get_bind fun w u hwu ↦ ?_
  dsimp only
  rw [hwu.classes, hwu.classes', Classes.isComponent_of_lineage hab.lineage,
    Classes.isSingle_of_lineage hab.lineage]
  split
  · exact blind_throw _
  · split
    · exact blind_setId o _
    · exact blind_setId o _
    · exact blind_slotContent hd o _ _
    · exact blind_slotContent hd o _ _
    · exact blind_slotContent hd o _ _
    · exact blind_slotContent hd o _ _
    · exact blind_fillSlot o _ _
    · exact blind_fillSlot o _ _
    · exact blind_fillSlot o _ _
    · exact blind_pure _
    · split
      · exact blind_throw _
      · split
        · exact follows_classComponentName hab.lineage
        · exact blind_exposeState hd o
        · exact blind_onRender hd o _
        · split
          · exact blind_throw _
          · exact blind_throw _

theorem blind_callValue (o : Nat) (v : Value) (vs : List Value) :
    Blind cs cs' (callValue o v vs) := by
  unfold callValue
  split
  · refine follows_get_bind fun w u hwu ↦ ?_
    rw [isMarkup_eq hwu]
    split
    · exact blind_fillSlot _ _ _
    · exact blind_throw _
  · refine follows_get_bind fun w u hwu ↦ ?_
    rw [isMarkup_eq hwu]
    split
    · exact blind_fillSlot _ _ _
    · exact blind_throw _
  · exact blind_pure _
  · exact blind_throw _

theorem blind_callMethod (hd : d.Blind cs cs') (o : Nat) (name : String) (vs : List Value) :
    Blind cs cs' (callMethod d o name vs) := by
  refine follows_bind (follows_object o) fun a b hab ↦ follows_get_bind fun w u hwu ↦ ?_
  dsimp only
  rw [hwu.classes, hwu.classes', Classes.attribute?_of_lineage hab.lineage, hab.fields]
  split
  · exact blind_bind (blind_runMethod hd _ _ _) fun _ ↦ blind_callValue o _ _
  · split
    · exact blind_callValue o _ _
    · exact blind_runMethod hd _ _ _
    · exact blind_runMethod hd _ _ _
    · exact blind_runMethod hd _ _ _
    · split
      · exact blind_eval hd _ _
      · exact blind_throw _
    · exact blind_throw _
    · exact blind_callBuiltin hd o _ _

theorem blind_renderedText (hd : d.Blind cs cs') (o : Nat) : Blind cs cs' (renderedText d o) := by
  refine follows_bind (follows_object o) fun a b hab ↦ follows_get_bind fun w u hwu ↦ ?_
  dsimp only
  rw [hwu.classes, hwu.classes', Classes.isComponent_of_lineage hab.lineage,
    Classes.isSingle_of_lineage hab.lineage]
  split_ifs
  · exact blind_bind (hd.call o _ _) fun _ ↦ blind_bind (hd.call o _ _) fun _ ↦ blind_textOf hd _
  · exact blind_bind (hd.call o _ _) fun _ ↦ blind_textOf hd _
  · exact blind_pure _

/-! ## Nested calls -/

/-- However deeply calls nest, identities of classes are not seen. -/
theorem Dispatch.blind_atDepth (n : Nat) : (Dispatch.atDepth n).Blind cs cs' := by
  induction n with
  | zero =>
    exact ⟨fun _ ↦ blind_throw _, fun _ ↦ blind_throw _, fun _ _ ↦ blind_throw _,
      fun _ _ _ ↦ blind_throw _⟩
  | succ n ih =>
    exact ⟨blind_renderedText ih, blind_elementHtml ih, blind_getAttribute ih, blind_callMethod ih⟩

/-! ## Constructing -/

theorem bindConstructor_of_lineage {c c' : ClassId} (hc : cs'.lineage c' = cs.lineage c)
    (props : Table String Value) :
    (bindConstructor cs' c' props).map (Prod.map (Option.map Class.unbased) id) =
      (bindConstructor cs c props).map (Prod.map (Option.map Class.unbased) id) := by
  have hconstructor := Classes.constructor?_of_lineage hc
  unfold bindConstructor
  rw [Classes.isConcrete_of_lineage hc]
  split
  · rfl
  · cases h : cs.constructor? c with
    | none =>
      rw [h, Option.map_none, Option.map_eq_none_iff] at hconstructor
      rw [hconstructor]
    | some k =>
      rw [h, Option.map_some, Option.map_eq_some_iff] at hconstructor
      obtain ⟨k', hk', hunbased⟩ := hconstructor
      obtain ⟨-, -, hparams, -⟩ := Class.eq_of_unbased hunbased
      rw [hk']
      dsimp only
      rw [hparams]
      cases bindNamed (k.params.getD []) props with
      | error e => rfl
      | ok bound => simp [Except.map, hunbased]

theorem follows_newObject {c c' : ClassId} (hc : cs'.lineage c' = cs.lineage c) :
    Follows (World.Alike cs cs') Eq (newObject c) (newObject c') := by
  intro w u hwu o w' hrun
  cases hrun
  refine ⟨u.objects.length, { u with objects := u.objects ++ [⟨c', []⟩] }, rfl,
    hwu.objects.length_eq, { hwu with objects := ?_ }⟩
  exact List.rel_append hwu.objects (.cons ⟨rfl, hc⟩ .nil)

theorem follows_construct {d : Dispatch} (hd : d.Blind cs cs') (o : Nat) {c c' : Class}
    (hinit : c'.init = c.init) (bound : List (Param × Value)) :
    Follows (World.Alike cs cs') Eq (construct d o c bound) (construct d o c' bound) := by
  rw [construct, construct, hinit]
  exact blind_bind (blind_forM _ fun e ↦ blind_setAttribute o _ _) fun _ ↦
    blind_forM _ (blind_perform hd _)

/-- Objects of classes of one lineage are made alike. -/
theorem follows_instantiate {d : Dispatch} (hd : d.Blind cs cs') {c c' : ClassId}
    (hc : cs'.lineage c' = cs.lineage c) (props : Table String Value) :
    Follows (World.Alike cs cs') Eq (instantiate d c props) (instantiate d c' props) := by
  refine follows_get_bind fun w u hwu ↦ ?_
  have hbound := bindConstructor_of_lineage hc props
  rw [hwu.classes, hwu.classes']
  cases h : bindConstructor cs c props with
  | error e => exact follows_throw _ _
  | ok made =>
    obtain ⟨k, bound⟩ := made
    rw [h] at hbound
    cases h' : bindConstructor cs' c' props with
    | error e =>
      rw [h'] at hbound
      cases hbound
    | ok made' =>
      obtain ⟨k', bound'⟩ := made'
      simp only [h', Except.map, Prod.map, id, Except.ok.injEq, Prod.mk.injEq] at hbound
      obtain ⟨hk, rfl⟩ := hbound
      refine follows_bind (follows_newObject hc) fun o _ ho ↦ ?_
      subst ho
      cases k with
      | none =>
        rw [Option.map_none, Option.map_eq_none_iff] at hk
        rw [hk]
        exact blind_pure _
      | some k =>
        rw [Option.map_some, Option.map_eq_some_iff] at hk
        obtain ⟨k', rfl, hunbased⟩ := hk
        obtain ⟨-, -, -, hinit⟩ := Class.eq_of_unbased hunbased
        refine follows_bind (follows_construct hd o hinit _) fun _ _ _ ↦ ?_
        exact blind_pure _

end Component

end IceCube
