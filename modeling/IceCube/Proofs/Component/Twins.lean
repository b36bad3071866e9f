import IceCube.Proofs.Component.Stateful

/-!
# Objects in the same state

Code that reads and writes nothing but the state of its object does not see where the object is.  So
two objects of a class, each in a world of its own, that are in the same state before such code has
run are in the same state after it.  Only the identities of the elements that the code makes on its
way are others in the other world, and no document holds any of them.
-/

namespace IceCube

/-- An object that has nothing of its own that can be called. -/
def Instance.Inert (inst : Instance) : Prop :=
  ∀ name v, Table.get? inst.fields name = some v → v ≠ .idOf ∧ ∀ o, v ≠ .object o

namespace Component

open Run Step

/-! ## Code that keeps to a state -/

mutual

/-- An expression that reads nothing but arguments and some attributes of its object. -/
def Expr.Within (fields : List String) : Expr → Prop
  | .lit _ | .arg _ => True
  | .field name => name ∈ fields
  | .markup e => e.Within fields
  | .concat es => AllWithin fields es
  | .node _ attributes children => EntriesWithin fields attributes ∧ AllWithin fields children
  | .object _ | .ownId | .self | .ownText | .slot _ _ | .slotOrId _ => False

/-- Expressions that read nothing else. -/
def Expr.AllWithin (fields : List String) : List Expr → Prop
  | [] => True
  | e :: es => e.Within fields ∧ AllWithin fields es

/-- Expressions under names that read nothing else. -/
def Expr.EntriesWithin (fields : List String) : List (String × Expr) → Prop
  | [] => True
  | (_, e) :: es => e.Within fields ∧ EntriesWithin fields es

end

/-- A statement that reads and writes nothing else. -/
def Action.Within (fields : List String) : Action → Prop
  | .set field e | .add field e => field ∈ fields ∧ e.Within fields
  | .fail _ _ => True

/-- A method that reads and writes nothing else. -/
structure Method.Within (fields : List String) (m : Method) : Prop where
  body : ∀ a ∈ m.body, a.Within fields
  returns : m.returns.Within fields

/-- A value that has a document. -/
def Value.IsDocument (v : Value) : Prop := v.toJson?.isSome = true

theorem Value.isDocument_ofJson (v : Json) : (ofJson v).IsDocument := by
  rw [IsDocument, toJson?_ofJson]
  rfl

theorem Value.IsDocument.inert {v : Value} (h : v.IsDocument) :
    v ≠ .idOf ∧ ∀ o, v ≠ .object o := by
  constructor
  · rintro rfl
    cases h
  · rintro o rfl
    cases h

/-- Values under names that all have a document. -/
def Documents (vs : Table String Value) : Prop := ∀ e ∈ vs, e.2.IsDocument

theorem Documents.of_get? {vs : Table String Value} (h : Documents vs) {name : String} {v : Value}
    (hv : Table.get? vs name = some v) : v.IsDocument := h _ (Table.mem_of_get? hv)

theorem documents_ofMembers (ms : List (String × Json)) : Documents (Value.ofMembers ms) := by
  intro e he
  rw [ofMembers_eq_map] at he
  obtain ⟨a, -, rfl⟩ := List.mem_map.mp he
  exact Value.isDocument_ofJson a.2

/-! ## Two objects in two worlds -/

/-- Two objects of a class with the names of its state, one in each of two worlds, and how many
elements there were in each of the worlds before the objects ran. -/
structure Pair where
  cls : ClassId
  fields : List String
  left : ObjectId
  right : ObjectId
  leftElements : Nat
  rightElements : Nat

namespace Pair

/-- Values that are the same document, or elements that were made as the same one. -/
inductive Values (p : Pair) : Value → Value → Prop
  | document {v : Value} (h : v.IsDocument) : p.Values v v
  | node (k : Nat) : p.Values (.node (p.leftElements + k)) (.node (p.rightElements + k))

/-- Values that are alike under the same name. -/
def Entries (p : Pair) (a a' : String × Value) : Prop := a'.1 = a.1 ∧ p.Values a.2 a'.2

/-- Elements that are alike in all that they have. -/
structure Elements (p : Pair) (e e' : Element) : Prop where
  tag : e'.tag = e.tag
  attributes : List.Forall₂ p.Entries e.attributes e'.attributes
  children : List.Forall₂ p.Values e.children e'.children

/-- Objects whose states are alike. -/
structure Objects (p : Pair) (inst inst' : Instance) : Prop where
  state : ∃ value value', Exposes inst p.cls p.fields value ∧
    Exposes inst' p.cls p.fields value' ∧ ∀ name ∈ p.fields, p.Values (value name) (value' name)
  inert : inst.Inert

/-- Two worlds with objects whose states are alike, and in which alike elements were made. -/
structure Worlds (p : Pair) (w u : World) : Prop where
  classes : u.classes = w.classes
  settable : ∀ name ∈ p.fields, w.classes.Settable p.cls name
  objects : ∃ inst inst', w.objects[p.left]? = some inst ∧ u.objects[p.right]? = some inst' ∧
    p.Objects inst inst'
  before : p.leftElements ≤ w.elements.length
  before' : p.rightElements ≤ u.elements.length
  elements : List.Forall₂ p.Elements (w.elements.drop p.leftElements)
    (u.elements.drop p.rightElements)

/-- Objects in one state of documents, before either has run. -/
theorem worlds_of_exposes {w u : World} {cls : ClassId} {fields : List String} {o o' : ObjectId}
    {inst inst' : Instance} {value : String → Value} (hclasses : u.classes = w.classes)
    (hsettable : ∀ name ∈ fields, w.classes.Settable cls name) (hobject : w.objects[o]? = some inst)
    (hobject' : u.objects[o']? = some inst') (hinst : Exposes inst cls fields value)
    (hinst' : Exposes inst' cls fields value) (hinert : inst.Inert)
    (hvalue : ∀ name ∈ fields, (value name).IsDocument) :
    Worlds ⟨cls, fields, o, o', w.elements.length, u.elements.length⟩ w u where
  classes := hclasses
  settable := hsettable
  objects := ⟨inst, inst', hobject, hobject',
    ⟨value, value, hinst, hinst', fun name hname ↦ .document (hvalue name hname)⟩, hinert⟩
  before := le_rfl
  before' := le_rfl
  elements := by
    rw [List.drop_length, List.drop_length]
    exact .nil

variable {p : Pair} {v v' : Value}

theorem Values.isMarkup_eq (h : p.Values v v') (w u : World) : isMarkup u v' = isMarkup w v := by
  cases h with
  | node k => rfl
  | document h =>
    cases v with
    | object o => cases h
    | _ => rfl

theorem Values.joinsMarkup_eq (h : p.Values v v') (w u : World) :
    joinsMarkup u v' = joinsMarkup w v := by
  have hmarkup := h.isMarkup_eq w u
  cases h with
  | node k => rfl
  | document h =>
    cases v with
    | text s => rfl
    | _ => exact hmarkup

/-- What is like a document is this document. -/
theorem Values.eq_of_document (h : p.Values v v') (hv : v.IsDocument) : v' = v := by
  cases h with
  | document => rfl
  | node k => cases hv

theorem Values.inert (h : p.Values v v') : v ≠ .idOf ∧ ∀ o, v ≠ .object o := by
  cases h with
  | node k => simp
  | document h => exact h.inert

end Pair

/-! ## Elements -/

section Elements

variable {p : Pair}

theorem follows_element (k : Nat) : Follows p.Worlds p.Elements (element (p.leftElements + k))
    (element (p.rightElements + k)) := by
  intro w u hwu e w' hrun
  rw [element, outcome_get_bind] at hrun
  cases he : w.elements[p.leftElements + k]? with
  | none => simp [he] at hrun
  | some e₀ =>
    simp only [he, outcome_pure, Prod.mk.injEq, Except.ok.injEq] at hrun
    obtain ⟨rfl, rfl⟩ := hrun
    rw [← List.getElem?_drop] at he
    obtain ⟨e', he', halike⟩ := exists_getElem?_of_forall₂ hwu.elements he
    rw [List.getElem?_drop] at he'
    refine ⟨e', u, ?_, halike, hwu⟩
    rw [element, outcome_get_bind, he']
    rfl

theorem follows_newElement {e e' : Element} (he : p.Elements e e') :
    Follows p.Worlds (fun n n' ↦ p.Values (.node n) (.node n')) (newElement e) (newElement e') := by
  intro w u hwu n w' hrun
  cases hrun
  refine ⟨u.elements.length, { u with elements := u.elements ++ [e'] }, rfl, ?_, ?_⟩
  · have hlength := hwu.elements.length_eq
    rw [List.length_drop, List.length_drop] at hlength
    obtain ⟨k, hk⟩ := Nat.exists_eq_add_of_le hwu.before
    obtain ⟨k', hk'⟩ := Nat.exists_eq_add_of_le hwu.before'
    obtain rfl : k = k' := by omega
    rw [hk, hk']
    exact .node k
  · exact
    { classes := hwu.classes
      settable := hwu.settable
      objects := hwu.objects
      before := hwu.before.trans (by simp)
      before' := hwu.before'.trans (by simp)
      elements := by
        change List.Forall₂ p.Elements ((w.elements ++ [e]).drop _) ((u.elements ++ [e']).drop _)
        rw [List.drop_append_of_le_length hwu.before, List.drop_append_of_le_length hwu.before']
        exact List.rel_append hwu.elements (.cons he .nil) }

end Elements

/-- Tables of entries that are alike one by one are alike one by one. -/
theorem forall₂_ofEntries {p : Pair} {es es' : Table String Value}
    (h : List.Forall₂ p.Entries es es') :
    List.Forall₂ p.Entries (Table.ofEntries es) (Table.ofEntries es') := by
  have hinsert (t t' : Table String Value) (ht : List.Forall₂ p.Entries t t') (name : String)
      {v v' : Value} (hv : p.Values v v') :
      List.Forall₂ p.Entries (Table.insert t name v) (Table.insert t' name v') := by
    induction ht with
    | nil => exact .cons ⟨rfl, hv⟩ .nil
    | @cons a a' t t' ha ht ih =>
      obtain ⟨k, u⟩ := a
      obtain ⟨k', u'⟩ := a'
      obtain rfl : k' = k := ha.1
      rw [Table.insert, Table.insert]
      split
      · exact .cons ⟨rfl, hv⟩ ht
      · exact .cons ha ih
  have hall (t t' : Table String Value) (ht : List.Forall₂ p.Entries t t') :
      List.Forall₂ p.Entries (Table.insertAll t es) (Table.insertAll t' es') := by
    induction h generalizing t t' with
    | nil => exact ht
    | @cons a a' es es' ha _ ih =>
      rw [Table.insertAll_cons, Table.insertAll_cons, ha.1]
      exact ih _ _ (hinsert t t' ht a.1 ha.2)
  exact hall [] [] .nil

/-! ## Texts and HTML -/

section Texts

variable {p : Pair} {T : World → World → Prop} {d d' : Dispatch} {v v' : Value}
  (hhtml : ∀ k, Follows T Eq (d.html (p.leftElements + k)) (d'.html (p.rightElements + k)))

include hhtml

theorem follows_textOf (hv : p.Values v v') : Follows T Eq (textOf d v) (textOf d' v') := by
  cases hv with
  | node k =>
    refine follows_bind (hhtml k) fun h h' heq ↦ ?_
    obtain rfl := heq
    exact follows_pure rfl
  | document h =>
    cases v with
    | node n => cases h
    | object o => cases h
    | _ => exact follows_pure rfl

theorem follows_htmlOf (hv : p.Values v v') : Follows T Eq (htmlOf d v) (htmlOf d' v') := by
  cases hv with
  | node k => exact hhtml k
  | document h =>
    cases v with
    | node n => cases h
    | object o => cases h
    | _ => exact follows_pure rfl

theorem follows_attributeOf (hv : p.Values v v') :
    Follows T Eq (attributeOf d v) (attributeOf d' v') := by
  have hhtmlOf := follows_htmlOf hhtml hv
  have hrest {k : Html → Run AttributeValue} (hk : ∀ h, Follows T Eq (k h) (k h)) :
      Follows T Eq (htmlOf d v >>= k) (htmlOf d' v' >>= k) :=
    follows_bind hhtmlOf fun h h' heq ↦ heq ▸ hk h
  cases hv with
  | node k =>
    refine hrest fun h ↦ ?_
    cases h <;> exact follows_pure rfl
  | document h =>
    cases v with
    | none => exact follows_pure rfl
    | bool b => cases b <;> exact follows_pure rfl
    | _ =>
      refine hrest fun h ↦ ?_
      cases h <;> exact follows_pure rfl

theorem follows_childOf (hv : p.Values v v') : Follows T Eq (childOf d v) (childOf d' v') := by
  have hhtmlOf := follows_htmlOf hhtml hv
  cases hv with
  | node k => exact hhtmlOf
  | document h =>
    cases v with
    | none => exact follows_pure rfl
    | _ => exact hhtmlOf

end Texts

section Depth

variable {p : Pair} {d d' : Dispatch}

theorem follows_elementHtml
    (hhtml : ∀ k, Follows p.Worlds Eq (d.html (p.leftElements + k)) (d'.html (p.rightElements + k)))
    (k : Nat) : Follows p.Worlds Eq (elementHtml d (p.leftElements + k))
      (elementHtml d' (p.rightElements + k)) := by
  refine follows_bind (follows_element k) fun e e' he ↦ ?_
  refine follows_bind (follows_mapM (S := Eq) (fun a a' ha ↦ ?_) he.attributes) fun as as' has ↦ ?_
  · refine follows_bind (follows_attributeOf hhtml ha.2) fun v v' hv ↦ ?_
    exact follows_pure (by rw [ha.1, hv])
  · obtain rfl : as = as' := by rwa [List.forall₂_eq_eq_eq] at has
    dsimp only
    rw [he.tag]
    split
    · exact follows_pure rfl
    · refine follows_bind (follows_mapM (fun v v' hv ↦ follows_childOf hhtml hv) he.children)
        fun cs cs' hcs ↦ ?_
      obtain rfl : cs = cs' := by rwa [List.forall₂_eq_eq_eq] at hcs
      exact follows_pure rfl

/-- An element is written as its like is, if calls may nest there at least as deeply. -/
theorem follows_html {n n' : Nat} (hn : n ≤ n') (k : Nat) :
    Follows p.Worlds Eq ((Dispatch.atDepth n).html (p.leftElements + k))
      ((Dispatch.atDepth n').html (p.rightElements + k)) := by
  induction n generalizing n' k with
  | zero => exact follows_throw _ _
  | succ n ih =>
    obtain ⟨n', rfl⟩ : ∃ m, n' = m + 1 := ⟨n' - 1, by omega⟩
    exact follows_elementHtml (fun k ↦ ih (Nat.le_of_succ_le_succ hn) k) k

end Depth

/-! ## Attributes -/

section Attributes

variable {p : Pair} {name : String}

theorem follows_get {n n' : Nat} (hn : n ≤ n') (hname : name ∈ p.fields) :
    Follows p.Worlds p.Values ((Dispatch.atDepth n).get p.left name)
      ((Dispatch.atDepth n').get p.right name) := by
  cases n with
  | zero => exact follows_throw _ _
  | succ n =>
    obtain ⟨n', rfl⟩ : ∃ m, n' = m + 1 := ⟨n' - 1, by omega⟩
    intro w u hwu v w' hrun
    obtain ⟨inst, inst', hobject, hobject', hobjects⟩ := hwu.objects
    obtain ⟨value, value', hinst, hinst', hstate⟩ := hobjects.state
    have hsettable := hwu.settable name hname
    have hleft : outcome ((Dispatch.atDepth (n + 1)).get p.left name) w = (.ok (value name), w) :=
      outcome_getAttribute_of_own hobject (hinst.classId ▸ hsettable) (hinst.state name hname)
    have hright : outcome ((Dispatch.atDepth (n' + 1)).get p.right name) u =
        (.ok (value' name), u) :=
      outcome_getAttribute_of_own hobject' (hinst'.classId ▸ hwu.classes ▸ hsettable)
        (hinst'.state name hname)
    rw [hleft] at hrun
    cases hrun
    exact ⟨value' name, u, hright, hstate name hname, hwu⟩

/-- The same part of the states gets alike values. -/
theorem Pair.Objects.set {inst inst' : Instance} {v v' : Value} (h : p.Objects inst inst')
    (hname : name ∈ p.fields) (hv : p.Values v v') :
    p.Objects { inst with fields := Table.insert inst.fields name v }
      { inst' with fields := Table.insert inst'.fields name v' } := by
  obtain ⟨⟨value, value', hinst, hinst', hstate⟩, hinert⟩ := h
  refine ⟨⟨Function.update value name v, Function.update value' name v', hinst.set hname v,
    hinst'.set hname v', fun m hm ↦ ?_⟩, fun m u hm ↦ ?_⟩
  · by_cases hmn : m = name
    · subst hmn
      rwa [Function.update_self, Function.update_self]
    · rw [Function.update_of_ne hmn, Function.update_of_ne hmn]
      exact hstate m hm
  · rw [Table.get?_insert] at hm
    split_ifs at hm with hnm
    · cases hm
      exact hv.inert
    · exact hinert m u hm

theorem follows_setAttribute {v v' : Value} (hname : name ∈ p.fields) (hv : p.Values v v') :
    Follows p.Worlds Eq (setAttribute p.left name v) (setAttribute p.right name v') := by
  intro w u hwu a w' hrun
  obtain ⟨inst, inst', hobject, hobject', hobjects⟩ := hwu.objects
  obtain ⟨value, value', hinst, hinst', -⟩ := hobjects.state
  have hsettable := hwu.settable name hname
  rw [outcome_setAttribute hobject (hinst.classId ▸ hsettable)] at hrun
  cases hrun
  refine ⟨_, _, outcome_setAttribute hobject' (hinst'.classId ▸ hwu.classes ▸ hsettable), rfl, ?_⟩
  exact
    { classes := hwu.classes
      settable := hwu.settable
      objects := ⟨_, _, World.objects_kept_self hobject name v,
        World.objects_kept_self hobject' name v', hobjects.set hname hv⟩
      before := hwu.before
      before' := hwu.before'
      elements := hwu.elements }

end Attributes

/-! ## Sums -/

theorem Value.itemsToJson?_append {vs us : List Value} {js ks : List Json}
    (hvs : itemsToJson? vs = some js) (hus : itemsToJson? us = some ks) :
    itemsToJson? (vs ++ us) = some (js ++ ks) := by
  induction vs generalizing js with
  | nil =>
    cases hvs
    exact hus
  | cons v vs ih =>
    rw [itemsToJson?] at hvs
    obtain ⟨j, hj, hvs⟩ := Option.bind_eq_some_iff.mp hvs
    obtain ⟨js', hjs, hvs⟩ := Option.bind_eq_some_iff.mp hvs
    cases hvs
    rw [List.cons_append, itemsToJson?, hj, ih hjs]
    rfl

theorem Value.isDocument_append {vs us : List Value} (hvs : (list vs).IsDocument)
    (hus : (list us).IsDocument) : (list (vs ++ us)).IsDocument := by
  rw [IsDocument, toJson?, Option.isSome_map] at hvs hus
  obtain ⟨js, hjs⟩ := Option.isSome_iff_exists.mp hvs
  obtain ⟨ks, hks⟩ := Option.isSome_iff_exists.mp hus
  rw [IsDocument, toJson?, itemsToJson?_append hjs hks]
  rfl

section Sums

variable {p : Pair} {T : World → World → Prop} {d d' : Dispatch} {a a' v v' : Value}

theorem follows_addNumbers (a v : Value) : Follows T p.Values (addNumbers a v) (addNumbers a v) := by
  unfold addNumbers
  split
  · exact follows_pure (.document rfl)
  · dsimp only
    split
    · exact follows_throw _ _
    · exact follows_pure (.document rfl)
  · exact follows_throw _ _

/-- HTML that what is alike is joined to is the same. -/
theorem follows_joined
    (hhtml : ∀ k, Follows T Eq (d.html (p.leftElements + k)) (d'.html (p.rightElements + k)))
    (hv : p.Values v v') (w u : World) (join : String → String) :
    Follows T p.Values
      (if joinsMarkup w v then do return .markup (join (← htmlOf d v).render)
        else throw .mismatch)
      (if joinsMarkup u v' then do return .markup (join (← htmlOf d' v').render)
        else throw .mismatch) := by
  rw [hv.joinsMarkup_eq w u]
  split
  · refine follows_bind (follows_htmlOf hhtml hv) fun h h' heq ↦ ?_
    obtain rfl := heq
    exact follows_pure (.document rfl)
  · exact follows_throw _ _

/-- Sums of what is alike are alike. -/
theorem follows_add
    (hhtml : ∀ k, Follows T Eq (d.html (p.leftElements + k)) (d'.html (p.rightElements + k)))
    (ha : p.Values a a') (hv : p.Values v v') : Follows T p.Values (add d a v) (add d' a' v') := by
  refine follows_get_bind fun w u _ ↦ ?_
  have hright (s : String) := follows_joined hhtml hv w u (s ++ ·)
  have hleft (s : String) := follows_joined hhtml ha w u (· ++ s)
  cases ha with
  | node k =>
    cases hv with
    | node l => exact follows_throw _ _
    | document hv =>
      cases v with
      | markup t => exact hleft t
      | _ => exact follows_throw _ _
  | document ha =>
    cases hv with
    | node l =>
      cases a with
      | markup s => exact hright s
      | _ => exact follows_throw _ _
    | document hv =>
      cases a with
      | markup s => exact hright s
      | text s =>
        cases v with
        | text t => exact follows_pure (.document rfl)
        | markup t => exact hleft t
        | _ => exact follows_throw _ _
      | list xs =>
        cases v with
        | list ys => exact follows_pure (.document (Value.isDocument_append ha hv))
        | markup t => exact hleft t
        | _ => exact follows_throw _ _
      | tuple xs =>
        cases v with
        | tuple ys => exact follows_pure (.document (Value.isDocument_append ha hv))
        | markup t => exact hleft t
        | _ => exact follows_throw _ _
      | _ =>
        cases v with
        | markup t => exact hleft t
        | _ => exact follows_addNumbers _ _

end Sums

/-! ## Expressions -/

section Expressions

variable {p : Pair} {n n' : Nat} {args : Table String Value}

mutual

/-- An expression that keeps to the state has alike values for alike objects. -/
theorem follows_eval (hn : n ≤ n') (hargs : Documents args) {e : Expr} (he : e.Within p.fields) :
    Follows p.Worlds p.Values (eval (.atDepth n) ⟨some p.left, args⟩ e)
      (eval (.atDepth n') ⟨some p.right, args⟩ e) := by
  cases e with
  | lit v => exact follows_pure (.document (Value.isDocument_ofJson v))
  | arg name =>
    rw [eval, eval]
    cases harg : Table.get? args name with
    | none => exact follows_throw _ _
    | some v => exact follows_pure (.document (hargs.of_get? harg))
  | field name => exact follows_get hn he
  | markup e =>
    refine follows_bind (follows_eval hn hargs he) fun v v' hv ↦ ?_
    refine follows_bind (follows_textOf (follows_html hn) hv) fun s s' hs ↦ ?_
    exact follows_pure (hs ▸ .document rfl)
  | concat es =>
    refine follows_bind (follows_evalTexts hn hargs he) fun ss ss' hss ↦ ?_
    exact follows_pure (hss ▸ .document rfl)
  | node tag attributes children =>
    refine follows_bind (follows_evalAttributes hn hargs he.1) fun as as' has ↦ ?_
    refine follows_bind (follows_evalAll hn hargs he.2) fun vs vs' hvs ↦ ?_
    refine follows_bind (follows_newElement ⟨rfl, forall₂_ofEntries has, hvs⟩) fun i i' hi ↦ ?_
    exact follows_pure hi
  | _ => exact he.elim

theorem follows_evalAll (hn : n ≤ n') (hargs : Documents args) {es : List Expr}
    (hes : Expr.AllWithin p.fields es) :
    Follows p.Worlds (List.Forall₂ p.Values) (evalAll (.atDepth n) ⟨some p.left, args⟩ es)
      (evalAll (.atDepth n') ⟨some p.right, args⟩ es) := by
  cases es with
  | nil => exact follows_pure .nil
  | cons e es =>
    refine follows_bind (follows_eval hn hargs hes.1) fun v v' hv ↦ ?_
    refine follows_bind (follows_evalAll hn hargs hes.2) fun vs vs' hvs ↦ ?_
    exact follows_pure (.cons hv hvs)

theorem follows_evalTexts (hn : n ≤ n') (hargs : Documents args) {es : List Expr}
    (hes : Expr.AllWithin p.fields es) :
    Follows p.Worlds Eq (evalTexts (.atDepth n) ⟨some p.left, args⟩ es)
      (evalTexts (.atDepth n') ⟨some p.right, args⟩ es) := by
  cases es with
  | nil => exact follows_pure rfl
  | cons e es =>
    refine follows_bind (follows_eval hn hargs hes.1) fun v v' hv ↦ ?_
    refine follows_bind (follows_textOf (follows_html hn) hv) fun s s' hs ↦ ?_
    refine follows_bind (follows_evalTexts hn hargs hes.2) fun ss ss' hss ↦ ?_
    exact follows_pure (by rw [hs, hss])

theorem follows_evalAttributes (hn : n ≤ n') (hargs : Documents args)
    {es : List (String × Expr)} (hes : Expr.EntriesWithin p.fields es) :
    Follows p.Worlds (List.Forall₂ p.Entries)
      (evalAttributes (.atDepth n) ⟨some p.left, args⟩ es)
      (evalAttributes (.atDepth n') ⟨some p.right, args⟩ es) := by
  cases es with
  | nil => exact follows_pure .nil
  | cons e es =>
    obtain ⟨name, e⟩ := e
    refine follows_bind (follows_eval hn hargs hes.1) fun v v' hv ↦ ?_
    refine follows_bind (follows_evalAttributes hn hargs hes.2) fun as as' has ↦ ?_
    exact follows_pure (.cons ⟨rfl, hv⟩ has)

end

end Expressions

/-! ## Methods -/

/-- A method that an object runs when it is called by its name. -/
theorem outcome_runMethod_of_call {w w₁ : World} {o : ObjectId} {m : Method} {d : Dispatch}
    {inst : Instance} {name : String} {vs : List Value} {r : Value}
    (hobject : w.objects[o]? = some inst) (hinert : inst.Inert)
    (hclass : w.classes.attribute? inst.classId name = some (.member (.method m)))
    (h : outcome (callMethod d o name vs) w = (.ok r, w₁)) :
    outcome (runMethod d (some o) m vs) w = (.ok r, w₁) := by
  rw [callMethod, outcome_bind_of_ok (outcome_object hobject), outcome_get_bind] at h
  simp only [hclass] at h
  cases hown : Table.get? inst.fields name with
  | none => simpa only [hown] using h
  | some v =>
    simp only [hown] at h
    obtain ⟨hid, hcomponent⟩ := hinert name v hown
    cases v with
    | object o' => exact absurd rfl (hcomponent o')
    | idOf => exact absurd rfl hid
    | _ => cases h

section Arguments

variable {ps : List Param} {vs rest : List Value} {bound : Table String Value}

theorem isDocument_of_fallback {q : Param} {e : String × Value} (h : q.fallback = .ok e) :
    e.2.IsDocument := by
  rw [Param.fallback] at h
  split at h
  · cases h
    exact Value.isDocument_ofJson _
  · cases h

theorem documents_of_bindInOrder (hvs : ∀ v ∈ vs, v.IsDocument)
    (h : bindInOrder ps vs = .ok (bound, rest)) :
    Documents bound ∧ ∀ v ∈ rest, v.IsDocument := by
  induction ps generalizing vs bound with
  | nil =>
    cases h
    exact ⟨List.forall_mem_nil _, hvs⟩
  | cons q ps ih =>
    cases vs with
    | nil =>
      obtain ⟨e, he, h⟩ := except_bind_eq_ok.mp h
      obtain ⟨⟨bound', rest'⟩, hrest, h⟩ := except_bind_eq_ok.mp h
      cases h
      obtain ⟨hbound, hrest⟩ := ih hvs hrest
      exact ⟨List.forall_mem_cons.mpr ⟨isDocument_of_fallback he, hbound⟩, hrest⟩
    | cons v vs =>
      obtain ⟨hv, hvs⟩ := List.forall_mem_cons.mp hvs
      obtain ⟨⟨bound', rest'⟩, hrest, h⟩ := except_bind_eq_ok.mp h
      cases h
      obtain ⟨hbound, hrest⟩ := ih hvs hrest
      exact ⟨List.forall_mem_cons.mpr ⟨hv, hbound⟩, hrest⟩

theorem documents_of_fallbacks {qs : List Param} {named : Table String Value}
    (h : qs.mapM Param.fallback = .ok named) : Documents named := by
  induction qs generalizing named with
  | nil =>
    cases h
    exact List.forall_mem_nil _
  | cons q qs ih =>
    rw [List.mapM_cons] at h
    obtain ⟨e, he, h⟩ := except_bind_eq_ok.mp h
    obtain ⟨named', hnamed, h⟩ := except_bind_eq_ok.mp h
    cases h
    exact List.forall_mem_cons.mpr ⟨isDocument_of_fallback he, ih hnamed⟩

theorem Value.isDocument_tuple (hvs : ∀ v ∈ vs, v.IsDocument) : (tuple vs).IsDocument := by
  rw [IsDocument, toJson?, Option.isSome_map]
  induction vs with
  | nil => rfl
  | cons v vs ih =>
    obtain ⟨hv, hvs⟩ := List.forall_mem_cons.mp hvs
    obtain ⟨j, hj⟩ := Option.isSome_iff_exists.mp hv
    obtain ⟨js, hjs⟩ := Option.isSome_iff_exists.mp (ih hvs)
    rw [itemsToJson?, hj, hjs]
    rfl

/-- What is bound to the parameters of a method is documents if the arguments are. -/
theorem documents_of_bindValues (hvs : ∀ v ∈ vs, v.IsDocument)
    (h : bindValues ps vs = .ok bound) : Documents bound := by
  obtain ⟨⟨inOrder, rest⟩, hinOrder, h⟩ := except_bind_eq_ok.mp h
  obtain ⟨named, hfallbacks, h⟩ := except_bind_eq_ok.mp h
  obtain ⟨hbound, hrest⟩ := documents_of_bindInOrder hvs hinOrder
  have hnamed := documents_of_fallbacks hfallbacks
  split at h
  · cases h
    intro e he
    rcases List.mem_append.mp he with he | he
    · rcases List.mem_append.mp he with he | he
      · exact hbound e he
      · rw [List.mem_singleton] at he
        subst he
        exact Value.isDocument_tuple hrest
    · exact hnamed e he
  · cases h
    exact fun e he ↦ (List.mem_append.mp he).elim (hbound e) (hnamed e)
  · cases h

end Arguments

theorem isDocument_argument {vs : Table String Value} (hvs : Documents vs) (q : Param) :
    (argument vs q).IsDocument := by
  rw [argument]
  split
  · rfl
  · cases hget : Table.get? vs q.name with
    | some v => exact hvs.of_get? hget
    | none =>
      cases q.default with
      | none => rfl
      | some j => exact Value.isDocument_ofJson j

/-- An object that is made from documents has nothing of its own that can be called. -/
theorem inert_restored (cls : ClassId) (c : Class) {vs : Table String Value} (hvs : Documents vs) :
    Instance.Inert ⟨cls, Table.ofEntries (c.kept vs)⟩ := by
  intro name v hget
  obtain ⟨q, -, he⟩ := List.mem_map.mp (Table.mem_of_mem_ofEntries (Table.mem_of_get? hget))
  cases he
  exact (isDocument_argument hvs q).inert

section Methods

variable {p : Pair} {n n' : Nat} {args : Table String Value}

theorem follows_perform (hn : n ≤ n') (hargs : Documents args) {a : Action}
    (ha : a.Within p.fields) :
    Follows p.Worlds Eq (perform (.atDepth n) ⟨some p.left, args⟩ a)
      (perform (.atDepth n') ⟨some p.right, args⟩ a) := by
  cases a with
  | set field e =>
    refine follows_bind (follows_eval hn hargs ha.2) fun v v' hv ↦ ?_
    exact follows_setAttribute ha.1 hv
  | add field e =>
    have hobject : Follows p.Worlds (fun o o' ↦ o = p.left ∧ o' = p.right)
        (Frame.object ⟨some p.left, args⟩) (Frame.object ⟨some p.right, args⟩) :=
      follows_pure ⟨rfl, rfl⟩
    refine follows_bind hobject ?_
    rintro _ _ ⟨rfl, rfl⟩
    refine follows_bind (follows_get hn ha.1) fun old old' hold ↦ ?_
    refine follows_bind (follows_eval hn hargs ha.2) fun v v' hv ↦ ?_
    refine follows_bind (follows_add (follows_html hn) hold hv) fun sum sum' hsum ↦ ?_
    exact follows_setAttribute ha.1 hsum
  | fail kind message => exact follows_throw _ _

/-- A method that keeps to the state does to an object what it does to its like. -/
theorem follows_runMethod (hn : n ≤ n') {m : Method} (hm : m.Within p.fields) {vs : List Value}
    (hvs : ∀ v ∈ vs, v.IsDocument) :
    Follows p.Worlds p.Values (runMethod (.atDepth n) (some p.left) m vs)
      (runMethod (.atDepth n') (some p.right) m vs) := by
  rw [runMethod, runMethod]
  cases hbound : bindValues m.params vs with
  | error e => exact follows_throw _ _
  | ok bound =>
    have hargs : Documents bound := documents_of_bindValues hvs hbound
    refine follows_bind (follows_forM fun a ha ↦ follows_perform hn hargs (hm.body a ha))
      fun _ _ _ ↦ ?_
    exact follows_eval hn hargs hm.returns

end Methods

end Component

end IceCube
