import IceCube.Proofs.Component.Blind
import IceCube.Proofs.Remote.Handling

/-!
# Calls of classes of one lineage

When the class is known that a call is for, what follows depends on its lineage only.  So a call that
is carried out with one class is carried out with every class of the same lineage, with the same
result.
-/

namespace IceCube.Remote

open Step Component Run

/-- What is done for a call when its class is known. -/
def carryOut (id : ClassId) (call : RemoteCall) : Run CallResult := do
  let state ← props call.snapshot
  let m ← checkedMethod id call
  let o ← instantiate Dispatch.full id state
  applyData Dispatch.full o call state
  finish call ⟨o, state, m⟩

theorem handle_eq_carryOut {payload : Json} {call : RemoteCall}
    (hcall : Schema.remoteCall .value payload = .good call) (registry : RegistryId)
    (signature given : Option String) : handle registry payload signature given = (do
      checkSignature call signature given
      let id ← componentClass registry call.component
      carryOut id call) := by
  simp only [handle_eq hcall, accept, prepare, carryOut, bind_assoc, pure_bind]

/-! ## The class of a call -/

section Accepted

variable {registry : RegistryId} {call : RemoteCall} {signature given : Option String}
  {w w' : World} {r : CallResult} {id : Nat}

/-- A signature that fits leaves no trace. -/
theorem eq_of_checkSignature {x : PUnit}
    (h : outcome (checkSignature call signature given) w = (.ok x, w')) : w' = w := by
  obtain ⟨k, v, hsecret, h⟩ := outcome_bind_eq_ok.mp h
  have hv : v = w := by
    unfold secret at hsecret
    split at hsecret
    · exact (Prod.mk.inj hsecret).2.symm
    · rw [outcome_get_bind] at hsecret
      split at hsecret
      · exact (Prod.mk.inj hsecret).2.symm
      · cases hsecret
  dsimp only at h
  split at h
  · cases h
  · rw [← hv]
    exact (Prod.mk.inj h).2.symm

/-- A call is for the class that the record under its name resolves to. -/
theorem outcome_componentClass_eq_ok_iff {name : String} :
    outcome (componentClass registry name) w = (.ok id, w') ↔
      ∃ record, (w.registry registry).getByName? name = some record ∧
        outcome (Resolve.resolve registry record.identifier false) w = (.ok id, w') ∧
        w'.classes.isIce id = true := by
  rw [componentClass, outcome_get_bind]
  cases hrecord : (w.registry registry).getByName? name with
  | none =>
    constructor
    · rintro ⟨⟩
    · rintro ⟨_, ⟨⟩, -⟩
  | some record =>
    dsimp only
    rw [outcome_bind_eq_ok]
    refine (exists_congr fun c ↦ exists_congr fun v ↦
      and_congr_left' (outcome_tryCatch_eq_ok ?_)).trans ?_
    · -- no error of resolving leads to a class
      rintro e v ⟨c, u, h⟩
      split at h
      · split at h <;> cases h
      · cases h
    · constructor
      · rintro ⟨c, v, hresolve, h⟩
        rw [outcome_get_bind] at h
        split at h
        · rename_i hice
          cases h
          exact ⟨record, rfl, hresolve, hice⟩
        · cases h
      · rintro ⟨_, ⟨⟩, hresolve, hice⟩
        refine ⟨id, w', hresolve, ?_⟩
        rw [outcome_get_bind, if_pos hice]
        rfl

/-- A call that ends well is signed, and is carried out with its class. -/
theorem outcome_handle_eq_ok_iff {payload : Json}
    (hcall : Schema.remoteCall .value payload = .good call) :
    outcome (handle registry payload signature given) w = (.ok r, w') ↔
      outcome (checkSignature call signature given) w = (.ok PUnit.unit, w) ∧
      ∃ id v, outcome (componentClass registry call.component) w = (.ok id, v) ∧
        outcome (carryOut id call) v = (.ok r, w') := by
  rw [handle_eq_carryOut hcall, outcome_bind_eq_ok]
  constructor
  · rintro ⟨⟨⟩, v, hsigned, h⟩
    obtain rfl := eq_of_checkSignature hsigned
    exact ⟨hsigned, outcome_bind_eq_ok.mp h⟩
  · rintro ⟨hsigned, h⟩
    exact ⟨_, _, hsigned, outcome_bind_eq_ok.mpr h⟩

end Accepted

/-! ## Classes of one lineage -/

variable {cs cs' : Classes} {id id' : Nat} {d : Dispatch}

theorem blind_note (e : Event) : Blind cs cs' (note e) :=
  blind_modify fun _ _ hwu ↦ { hwu with }

theorem blind_reject {α : Type} (detail : Detail) : Blind cs cs' (reject detail : Run α) :=
  blind_bind (blind_note _) fun _ ↦ blind_throw _

theorem blind_props (snapshot : String) : Blind cs cs' (props snapshot) := by
  unfold props
  split
  · exact blind_reject _
  · exact blind_pure _
  · exact blind_reject _

section Lineage

variable (hid : cs'.lineage id' = cs.lineage id)
include hid

theorem follows_method (name : String) :
    Follows (World.Alike cs cs') Eq (method id name) (method id' name) := by
  unfold method
  split
  · exact blind_reject _
  · refine follows_get_bind fun w u hwu ↦ ?_
    rw [hwu.classes, hwu.classes', Classes.attribute?_of_lineage hid]
    split
    · exact blind_pure _
    · exact blind_reject _

theorem follows_checkedMethod (call : RemoteCall) :
    Follows (World.Alike cs cs') Eq (checkedMethod id call) (checkedMethod id' call) := by
  unfold checkedMethod
  split
  · exact blind_pure _
  · exact blind_pure _
  · refine follows_bind (follows_method hid _) fun m _ hm ↦ ?_
    subst hm
    split
    · exact blind_pure _
    · exact blind_bind (blind_note _) fun _ ↦ blind_reject _

theorem follows_remote_instantiate (hd : d.Blind cs cs') (state : Table String Value) :
    Follows (World.Alike cs cs') Eq (instantiate d id state) (instantiate d id' state) := by
  refine follows_tryCatch (follows_instantiate hd hid state) fun e w o w' ↦ ?_
  split
  · nofun
  · nofun
  · nofun

end Lineage

theorem blind_applyData (hd : d.Blind cs cs') (o : Nat) (call : RemoteCall)
    (state : Table String Value) : Blind cs cs' (applyData d o call state) := by
  refine blind_bind (hd.call o _ _) fun _ ↦ blind_forM _ fun e ↦ ?_
  split
  · exact blind_setAttribute o _ _
  · exact blind_pure _

theorem blind_newState (hd : d.Blind cs cs') (o : Nat) : Blind cs cs' (newState d o) := by
  refine blind_bind (hd.call o _ _) fun v ↦ ?_
  split
  · exact blind_pure _
  · exact blind_throw _

theorem blind_remote_runMethod (hd : d.Blind cs cs') (o : Nat) (call : RemoteCall)
    (m : Component.Method) : Blind cs cs' (runMethod d o call m) := by
  refine blind_bind (blind_runMethod hd _ _ _) fun result ↦ blind_bind (blind_note _) fun _ ↦
    follows_get_bind fun w u hwu ↦ ?_
  rw [joinsMarkup_eq hwu]
  split
  · exact blind_bind (blind_textOf hd _) fun _ ↦ blind_pure _
  · exact blind_newState hd o

/-- A call is carried out alike with classes of one lineage. -/
theorem follows_carryOut (hid : cs'.lineage id' = cs.lineage id) (call : RemoteCall) :
    Follows (World.Alike cs cs') Eq (carryOut id call) (carryOut id' call) := by
  have hd : Dispatch.full.Blind cs cs' := Dispatch.blind_atDepth 1000
  refine follows_bind (blind_props _) fun state _ hstate ↦ ?_
  subst hstate
  refine follows_bind (follows_checkedMethod hid call) fun m _ hm ↦ ?_
  subst hm
  refine follows_bind (follows_remote_instantiate hid hd state) fun o _ ho ↦ ?_
  subst ho
  refine blind_bind (blind_applyData hd o call state) fun _ ↦ ?_
  cases m with
  | some m => exact blind_remote_runMethod hd o call m
  | none => exact blind_newState hd o

end IceCube.Remote
