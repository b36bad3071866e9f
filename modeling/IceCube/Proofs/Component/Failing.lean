import IceCube.Proofs.Component.Stateful

/-!
# Steps of components that fail

An attribute of a component cannot be set exactly if there is a property in its place.  Giving a
component its id is setting one attribute, and exposing its state is reading its declared attributes
one after the other, so it is known of both when they fail, unless the component has something of its
own in the place of these methods.
-/

namespace IceCube

open Step

/-- There is something in the place of a method that all components have: in an object, or in its
class. -/
def World.Overrides (w : World) (o : Nat) (name : String) : Prop :=
  ∃ inst, w.objects[o]? = some inst ∧
    (w.classes.attribute? inst.classId name ≠ none ∨ Table.get? inst.fields name ≠ none)

/-- There is an object of a class that takes calls. -/
def World.Hosts (w : World) (cls : Nat) (o : Nat) : Prop :=
  ∃ inst, w.objects[o]? = some inst ∧ inst.classId = cls ∧ w.classes.isIce cls = true

theorem World.Hosts.extends {w v : World} {cls : Nat} {o : Nat} (h : w.Hosts cls o)
    (hwv : w.Extends v) : v.Hosts cls o := by
  obtain ⟨inst, hobject, hclass, hice⟩ := h
  obtain ⟨inst', hobject', hclass', -⟩ := hwv.objects hobject
  exact ⟨inst', hobject', hclass'.trans hclass, hwv.classes ▸ hice⟩

namespace Component

open Run

/-! ## Attributes that cannot be set -/

section Setting

variable {w : World} {o : ObjectId} {inst : Instance} {v : Value} {e : Error}
  (hobject : w.objects[o]? = some inst) (hcomponent : w.classes.isComponent inst.classId = true)

include hobject hcomponent

end Setting

/-! ## Methods that nothing overrides -/

section Builtin

variable {w : World} {o : ObjectId} {inst : Instance} {e : Error}

theorem outcome_call_of_not_overrides {name : String} (hobject : w.objects[o]? = some inst)
    (h : ¬ w.Overrides o name) (n : Nat) (vs : List Value) :
    outcome ((Dispatch.atDepth (n + 1)).call o name vs) w =
      outcome (callBuiltin (.atDepth n) o name vs) w := by
  have hnone : w.classes.attribute? inst.classId name = none ∧
      Table.get? inst.fields name = none := by
    rw [← not_not (a := _ ∧ _), not_and_or]
    exact fun hsome ↦ h ⟨inst, hobject, hsome⟩
  exact outcome_callMethod_of_builtin hobject hnone.1 hnone.2 vs

theorem outcome_exposeState_of_not_overrides (hobject : w.objects[o]? = some inst)
    (hice : w.classes.isIce inst.classId = true) (h : ¬ w.Overrides o "expose_state") (n : Nat) :
    outcome ((Dispatch.atDepth (n + 1)).call o "expose_state" []) w =
      outcome (exposeState (.atDepth n) o) w := by
  rw [outcome_call_of_not_overrides hobject h, callBuiltin,
    outcome_bind_of_ok (outcome_object hobject), outcome_get_bind]
  simp only [Classes.isComponent_of_isIce hice, Classes.isSingle_of_isIce hice]
  rfl

/-- Attributes of an object are read one after the other. -/
def readFields (d : Dispatch) (o : ObjectId) (names : List String) : Run (List (String × Value)) :=
  names.mapM fun name ↦ do
    let v ← d.get o name
    return (name, v)

/-- Exposing a state fails where the declaration of the state cannot be read, is no list of names,
or names an attribute that cannot be read. -/
theorem fails_exposeState_iff {d : Dispatch} :
    Fails (exposeState d o) w e ↔ Fails (d.get o "state_fields") w e ∨
      ∃ v w₁, outcome (d.get o "state_fields") w = (.ok v, w₁) ∧ (stateNames v = .error e ∨
        ∃ before name after es w₂, stateNames v = .ok (before ++ name :: after) ∧
          outcome (readFields d o before) w₁ = (.ok es, w₂) ∧ Fails (d.get o name) w₂ e) := by
  rw [exposeState, fails_bind_iff]
  refine or_congr_right (exists_congr fun v ↦ exists_congr fun w₁ ↦ and_congr_right' ?_)
  cases hnames : stateNames v with
  | error e' =>
    dsimp only
    rw [fails_throw, Except.error.injEq]
    constructor
    · intro h
      exact .inl h.symm
    · rintro (h | ⟨_, _, _, _, _, ⟨⟩, -⟩)
      exact h.symm
  | ok names =>
    have hfield {name : String} {w₂ : World} : Fails (do
        let v ← d.get o name
        return (name, v)) w₂ e ↔ Fails (d.get o name) w₂ e := fails_bind_pure_iff
    dsimp only
    rw [fails_bind_pure_iff, fails_mapM_iff]
    constructor
    · rintro ⟨before, name, after, es, w₂, rfl, hbefore, h⟩
      exact .inr ⟨before, name, after, es, w₂, rfl, hbefore, hfield.mp h⟩
    · rintro (h | ⟨before, name, after, es, w₂, h, hbefore, hname⟩)
      · cases h
      · cases h
        exact ⟨before, name, after, es, w₂, rfl, hbefore, hfield.mpr hname⟩

theorem dict_of_exposeState {d : Dispatch} {v : Value} {w' : World}
    (h : outcome (exposeState d o) w = (.ok v, w')) : ∃ es, v = .dict es := by
  obtain ⟨declared, w₁, -, h⟩ := outcome_bind_eq_ok.mp h
  split at h
  · cases h
  · obtain ⟨entries, w₂, -, h⟩ := outcome_bind_eq_ok.mp h
    cases h
    exact ⟨_, rfl⟩

end Builtin

end Component

end IceCube
