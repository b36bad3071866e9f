import IceCube.Proofs.Component.Extends
import IceCube.Proofs.Json.RoundTrip

/-!
# What a rendered root element carries

A rendered component that takes remote calls leaves on its root element the state that it exposes
and the signature of exactly that text.  The members of the text are the declared state of the
component, unless its code exposes a state of its own making.
-/

namespace IceCube

open Step

/-- An attribute of an element. -/
def World.attribute? (w : World) (n : Nat) (name : String) : Option Component.Value :=
  w.elements[n]?.bind fun e ↦ Table.get? e.attributes name

namespace Run

theorem outcome_object {w : World} {o : Nat} {inst : Instance} (h : w.objects[o]? = some inst) :
    outcome (object o) w = (.ok inst, w) := by
  rw [object, outcome_get_bind, h]
  rfl

theorem outcome_elementAttribute_eq_ok {w w' : World} {n : Nat} {name : String}
    {v : Component.Value} (h : outcome (elementAttribute n name) w = (.ok v, w')) :
    w = w' ∧ ∃ e, w.elements[n]? = some e ∧ (Table.get? e.attributes name).getD .none = v := by
  obtain ⟨e, w₁, he, h⟩ := outcome_bind_eq_ok.mp h
  rw [element, outcome_get_bind] at he
  cases hn : w.elements[n]? with
  | none => simp [hn] at he
  | some e' =>
    simp only [hn, outcome_pure, Prod.mk.injEq, Except.ok.injEq] at he
    obtain ⟨rfl, rfl⟩ := he
    simp only [outcome_pure, Prod.mk.injEq, Except.ok.injEq] at h
    exact ⟨h.2, e', rfl, h.1⟩

/-- The world after an element has got an attribute. -/
theorem attribute?_setElementAttribute {w w' : World} {n : Nat} {name : String}
    {v : Component.Value} {u : PUnit} (h : outcome (setElementAttribute n name v) w = (.ok u, w'))
    (name' : String) : w'.attribute? n name' =
      if name = name' then w.elements[n]?.map fun _ ↦ v else w.attribute? n name' := by
  have hw : w' = { w with elements := w.elements.modify n fun e ↦
      { e with attributes := Table.insert e.attributes name v } } := by
    simp only [setElementAttribute, changeElement, outcome_modify, Prod.mk.injEq] at h
    exact h.2.symm
  rw [hw]
  cases hn : w.elements[n]? with
  | none => simp [World.attribute?, hn]
  | some e => simp [World.attribute?, hn, Table.get?_insert]

end Run

namespace Component

open Run

/-! ## Stamps -/

theorem outcome_stampState_eq_ok {d : Dispatch} {o n : Nat} {w w' : World} {u : Unit}
    (h : outcome (stampState d o n) w = (.ok u, w')) :
    ∃ v w₁ j, outcome (d.call o "expose_state" []) w = (.ok v, w₁) ∧ v.toJson? = some j ∧
      outcome (setElementAttribute n stateAttribute (.text j.compact)) w₁ = (.ok u, w') := by
  obtain ⟨v, w₁, hcall, h⟩ := outcome_bind_eq_ok.mp h
  cases hj : v.toJson? with
  | none => simp [hj] at h
  | some j => exact ⟨v, w₁, j, hcall, hj, by simpa [hj] using h⟩

/-- Whatever code runs on the way, the state that is exposed last is the one on the root. -/
theorem outcome_stamp_eq_ok {d : Dispatch} (hd : d.Extending) {o n : Nat} {w w' : World} {u : Unit}
    (h : outcome (stamp d o n) w = (.ok u, w')) :
    ∃ w₁ w₂ v j, w.Extends w₁ ∧ outcome (d.call o "expose_state" []) w₁ = (.ok v, w₂) ∧
      v.toJson? = some j ∧
      outcome (setElementAttribute n stateAttribute (.text j.compact)) w₂ = (.ok u, w') := by
  rw [stamp_eq] at h
  obtain ⟨u₀, w₀, hid, h⟩ := outcome_bind_eq_ok.mp h
  obtain ⟨name, w₁, hname, h⟩ := outcome_bind_eq_ok.mp h
  obtain ⟨u₂, w₂, hset, h⟩ := outcome_bind_eq_ok.mp h
  obtain ⟨v, w₃, j, hcall, hj, hstate⟩ := outcome_stampState_eq_ok h
  refine ⟨w₂, w₃, v, j, ?_, hcall, hj, hstate⟩
  have hw₀ : w.Extends w₀ := (extends_stampId hd o n).of_outcome hid
  have hw₁ : w₀.Extends w₁ := (hd.call o _ _).of_outcome hname
  have hw₂ : w₁.Extends w₂ := (extends_setElementAttribute n _ _).of_outcome hset
  exact IsTrans.trans _ _ _ hw₀ (IsTrans.trans _ _ _ hw₁ hw₂)

/-- The signature is that of the text that the root carries as its state. -/
theorem outcome_stampSignature_eq_ok {n : Nat} {k : String} {w w' : World} {u : Unit}
    (hk : w.environment.secret = .ok k) (h : outcome (stampSignature n) w = (.ok u, w')) :
    ∃ s, w.attribute? n stateAttribute = some (.text s) ∧
      w'.attribute? n stateAttribute = some (.text s) ∧
      w'.attribute? n signatureAttribute = some (.text (sign k s)) := by
  rw [stampSignature, outcome_get_bind, hk] at h
  obtain ⟨v, w₁, hread, h⟩ := outcome_bind_eq_ok.mp h
  obtain ⟨rfl, e, he, hv⟩ := outcome_elementAttribute_eq_ok hread
  cases v with
  | text s =>
    obtain ⟨u', w₂, hset, h⟩ := outcome_bind_eq_ok.mp h
    have hstate : w.attribute? n stateAttribute = some (.text s) := by
      cases hget : Table.get? e.attributes stateAttribute with
      | none => simp [hget] at hv
      | some v =>
        rw [hget] at hv
        simp only [World.attribute?, he, Option.bind_some, hget]
        rw [← hv]
        rfl
    have hkeep : w₂.attribute? n stateAttribute = some (.text s) := by
      rw [attribute?_setElementAttribute hset, if_neg (by decide), hstate]
    have hsign : w₂.attribute? n signatureAttribute = some (.text (sign k s)) := by
      rw [attribute?_setElementAttribute hset, if_pos rfl, he]
      rfl
    refine ⟨s, hstate, ?_, ?_⟩
    · rw [attribute?_setElementAttribute h, if_neg (by decide), hkeep]
    · rw [attribute?_setElementAttribute h, if_neg (by decide), hsign]
  | _ => simp at h

/-- A component that takes remote calls is rendered with the state that it exposes on its root, and
with the signature of that text. -/
theorem outcome_onRender_eq_ok {d : Dispatch} (hd : d.Extending) {o n : Nat} {inst : Instance}
    {k : String} {w w' : World} {v : Value} (hobject : w.objects[o]? = some inst)
    (hice : w.classes.isIce inst.classId = true) (hk : w.environment.secret = .ok k)
    (h : outcome (onRender d o (.node n)) w = (.ok v, w')) :
    ∃ w₁ w₂ state j, w.Extends w₁ ∧ w₂.Extends w' ∧
      outcome (d.call o "expose_state" []) w₁ = (.ok state, w₂) ∧ state.toJson? = some j ∧
      w'.attribute? n stateAttribute = some (.text j.compact) ∧
      w'.attribute? n signatureAttribute = some (.text (sign k j.compact)) := by
  obtain ⟨u, w₃, hstamp, h⟩ := outcome_bind_eq_ok.mp h
  have hw₃ := (extends_stamp hd o n).of_outcome hstamp
  obtain ⟨inst', hobject', hclass, -⟩ := hw₃.objects hobject
  rw [outcome_get_bind, outcome_bind_of_ok (outcome_object hobject'), hclass, hw₃.classes, hice,
    if_pos rfl] at h
  obtain ⟨u', w₄, hsign, h⟩ := outcome_bind_eq_ok.mp h
  obtain rfl : w₄ = w' := by simpa using (Prod.mk.inj h).2
  obtain ⟨w₁, w₂, state, j, hw₁, hcall, hj, hset⟩ := outcome_stamp_eq_ok hd hstamp
  obtain ⟨s, hs, hs', hsignature⟩ := outcome_stampSignature_eq_ok (hw₃.environment ▸ hk) hsign
  have hw₂ : w₂.Extends w₄ := IsTrans.trans _ _ _
    ((extends_setElementAttribute n _ _).of_outcome hset)
    ((extends_stampSignature n).of_outcome hsign)
  obtain rfl : j.compact = s := by
    rw [attribute?_setElementAttribute hset, if_pos rfl] at hs
    cases hn : w₂.elements[n]? with
    | none => simp [hn] at hs
    | some e => simpa [hn] using hs
  exact ⟨w₁, w₂, state, j, hw₁, hw₂, hcall, hj, hs', hsignature⟩

/-! ## Declared state -/

theorem keys_entriesToJson? {es : Table String Value} {ms : Table String Json}
    (h : Value.entriesToJson? es = some ms) : Table.keys ms = Table.keys es := by
  induction es generalizing ms with
  | nil =>
    cases h
    rfl
  | cons e es ih =>
    obtain ⟨name, v⟩ := e
    rw [Value.entriesToJson?] at h
    cases hv : v.toJson? with
    | none => simp [hv] at h
    | some j =>
      cases hes : Value.entriesToJson? es with
      | none => simp [hv, hes] at h
      | some ms' =>
        obtain rfl : (name, j) :: ms' = ms := by simpa [hv, hes] using h
        have hkeys := ih hes
        simp only [Table.keys, List.map_cons] at hkeys ⊢
        rw [hkeys]

theorem stateNames_text (fields : List String) :
    stateNames (.tuple (fields.map .text)) = .ok fields := by
  rw [stateNames]
  induction fields with
  | nil => rfl
  | cons name fields ih =>
    rw [List.map_cons, List.mapM_cons, ih]
    rfl

/-- The attributes of an object under their names. -/
theorem keys_of_outcome_mapM {d : Dispatch} {o : Nat} {names : List String} {w w' : World}
    {entries : List (String × Value)}
    (h : outcome (names.mapM fun name ↦ do
      let v ← d.get o name
      return (name, v)) w = (.ok entries, w')) : entries.map Prod.fst = names := by
  induction names generalizing w w' entries with
  | nil =>
    obtain rfl : [] = entries := by simpa using (Prod.mk.inj h).1
    rfl
  | cons name names ih =>
    rw [List.mapM_cons] at h
    obtain ⟨e, w₁, hhead, h⟩ := outcome_bind_eq_ok.mp h
    obtain ⟨es, w₂, htail, h⟩ := outcome_bind_eq_ok.mp h
    obtain ⟨v, w₃, -, he⟩ := outcome_bind_eq_ok.mp hhead
    obtain rfl : (name, v) = e := by simpa using (Prod.mk.inj he).1
    obtain rfl : (name, v) :: es = entries := by simpa using (Prod.mk.inj h).1
    rw [List.map_cons, ih htail]

/-- What is called as a method without being one gives an object, which has no document. -/
theorem toJson?_of_callValue {o : Nat} {v r : Value} {vs : List Value} {w w' : World}
    (h : outcome (callValue o v vs) w = (.ok r, w')) : r.toJson? = none := by
  have hfill : ∀ {o : Nat} {content : Value} {w : World},
      outcome (fillSlot o content (.text defaultSlot)) w = (.ok r, w') → r.toJson? = none := by
    intro o content w h
    obtain ⟨es, w₁, -, h⟩ := outcome_bind_eq_ok.mp h
    obtain ⟨u, w₂, -, h⟩ := outcome_bind_eq_ok.mp h
    obtain rfl : .object o = r := by simpa using (Prod.mk.inj h).1
    rfl
  unfold callValue at h
  split at h
  · rw [outcome_get_bind] at h
    split at h
    · exact hfill h
    · simp at h
  · rw [outcome_get_bind] at h
    split at h
    · exact hfill h
    · simp at h
  · obtain rfl : .object o = r := by simpa using (Prod.mk.inj h).1
    rfl
  · simp at h

/-- An attribute that the class has and the object has not is that of the class. -/
theorem outcome_getAttribute_of_class {d : Dispatch} {o : Nat} {w : World} {inst : Instance}
    {name : String} {v : Value} (hobject : w.objects[o]? = some inst)
    (hclass : w.classes.attribute? inst.classId name = some (.value v))
    (hown : Table.get? inst.fields name = none) :
    outcome (getAttribute d o name) w = (.ok v, w) := by
  rw [getAttribute, outcome_bind_of_ok (outcome_object hobject), outcome_get_bind]
  simp [hclass, hown]

/-- A method that the class does not define is the one that all components have, unless the object
has an attribute in its place, and that gives no document. -/
theorem outcome_callBuiltin_of_call {d : Dispatch} {o : Nat} {w w' : World} {inst : Instance}
    {name : String} {vs : List Value} {v : Value} {j : Json}
    (h : outcome (callMethod d o name vs) w = (.ok v, w')) (hobject : w.objects[o]? = some inst)
    (hclass : w.classes.attribute? inst.classId name = none) (hj : v.toJson? = some j) :
    outcome (callBuiltin d o name vs) w = (.ok v, w') := by
  rw [callMethod, outcome_bind_of_ok (outcome_object hobject), outcome_get_bind] at h
  simp only [hclass] at h
  cases hvalue : Table.get? inst.fields name with
  | none => simpa only [hvalue] using h
  | some value =>
    simp only [hvalue] at h
    simp [toJson?_of_callValue h] at hj

theorem outcome_exposeState_of_callBuiltin {d : Dispatch} {o : Nat} {w w' : World}
    {inst : Instance} {v : Value} (hobject : w.objects[o]? = some inst)
    (h : outcome (callBuiltin d o "expose_state" []) w = (.ok v, w')) :
    outcome (exposeState d o) w = (.ok v, w') := by
  rw [callBuiltin, outcome_bind_of_ok (outcome_object hobject), outcome_get_bind] at h
  by_cases hcomponent : (!w.classes.isComponent inst.classId) = true
  · simp [hcomponent] at h
  · by_cases hsingle : (!w.classes.isSingle inst.classId) = true
    · simp [hcomponent, hsingle] at h
    · simpa [hcomponent, hsingle] using h

/-- The exposed state has the declared names. -/
theorem keys_of_outcome_exposeState {d : Dispatch} {o : Nat} {w w₁ w' : World}
    {fields : List String} {v : Value} {j : Json}
    (hfields : outcome (d.get o "state_fields") w = (.ok (.tuple (fields.map .text)), w₁))
    (h : outcome (exposeState d o) w = (.ok v, w')) (hj : v.toJson? = some j) :
    ∃ ms, j = .obj ms ∧ ∀ name ∈ Table.keys ms, name ∈ fields := by
  rw [exposeState, outcome_bind_of_ok hfields, stateNames_text] at h
  obtain ⟨entries, w₂, hentries, h⟩ := outcome_bind_eq_ok.mp h
  obtain rfl : .dict (Table.ofEntries entries) = v := by simpa using (Prod.mk.inj h).1
  rw [Value.toJson?, Option.map_eq_some_iff] at hj
  obtain ⟨ms, hms, rfl⟩ := hj
  refine ⟨ms, rfl, fun name hname ↦ ?_⟩
  rw [keys_entriesToJson? hms, Table.mem_keys_ofEntries, Table.keys,
    keys_of_outcome_mapM hentries] at hname
  exact hname

/-- A component without code for its state exposes nothing but its declared state. -/
theorem declared_of_expose {m o : Nat} {w w' : World} {inst : Instance} {fields : List String}
    {v : Value} {j : Json}
    (h : outcome ((Dispatch.atDepth m).call o "expose_state" []) w = (.ok v, w'))
    (hobject : w.objects[o]? = some inst)
    (hexpose : w.classes.attribute? inst.classId "expose_state" = none)
    (hfields : w.classes.attribute? inst.classId "state_fields" =
      some (.value (.tuple (fields.map .text))))
    (hown : Table.get? inst.fields "state_fields" = none) (hj : v.toJson? = some j) :
    ∃ ms, j = .obj ms ∧ ∀ name ∈ Table.keys ms, name ∈ fields := by
  -- one level of calls runs the method, and another one reads the declaration
  match m with
  | 0 => simp [Dispatch.atDepth, Dispatch.none] at h
  | 1 =>
    have hbuiltin := outcome_callBuiltin_of_call h hobject hexpose hj
    have hstate := outcome_exposeState_of_callBuiltin hobject hbuiltin
    simp [exposeState, Dispatch.atDepth, Dispatch.none] at hstate
  | m + 2 =>
    have hbuiltin := outcome_callBuiltin_of_call h hobject hexpose hj
    have hstate := outcome_exposeState_of_callBuiltin hobject hbuiltin
    have hget : outcome ((Dispatch.atDepth (m + 1)).get o "state_fields") w =
        (.ok (.tuple (fields.map .text)), w) := outcome_getAttribute_of_class hobject hfields hown
    exact keys_of_outcome_exposeState hget hstate hj

end Component

end IceCube
