import IceCube.Proofs.Component.Rendering
import IceCube.Remote

/-!
# How a call is carried out

A call is accepted when all checks pass and an object is made in the state of its snapshot.  Then
the object gets the id and the data of the call, and after that the method runs or the new state is
given.
-/

namespace IceCube

open Step

/-- An attribute that an object has of its own. -/
def World.ownAttribute? (w : World) (o : Nat) (name : String) : Option Component.Value :=
  w.objects[o]?.bind fun inst ↦ Table.get? inst.fields name

/-- At most some attributes of one object have changed. -/
def World.SameBut (o : Nat) (names : List String) (s t : World) : Prop :=
  ∀ o' name, t.ownAttribute? o' name ≠ s.ownAttribute? o' name → o' = o ∧ name ∈ names

instance (o : Nat) (names : List String) : IsPreorder World (World.SameBut o names) where
  refl _ _ _ h := absurd rfl h
  trans s t u hst htu o' name h := by
    by_cases ht : t.ownAttribute? o' name = s.ownAttribute? o' name
    · exact htu o' name (ht ▸ h)
    · exact hst o' name ht

namespace Component

open Run

theorem sameBut_keep {names : List String} {name : String} (h : name ∈ names) (o : Nat)
    (v : Value) : Moves (World.SameBut o names) (keep o name v) := by
  refine moves_modify fun w o' name' hne ↦ ?_
  by_cases ho : o = o'
  · refine ⟨ho.symm, ?_⟩
    by_contra hname'
    have hname : name ≠ name' := fun heq ↦ hname' (heq ▸ h)
    refine hne ?_
    cases hw : w.objects[o']? with
    | none => simp [World.ownAttribute?, ho, hw]
    | some inst => simp [World.ownAttribute?, ho, hw, Table.get?_insert, hname]
  · exact absurd (by simp [World.ownAttribute?, ho]) hne

/-- Setting an attribute of an object changes that one alone. -/
theorem sameBut_setAttribute {names : List String} {name : String} (h : name ∈ names) (o : Nat)
    (v : Value) : Moves (World.SameBut o names) (setAttribute o name v) := by
  refine moves_bind ?_ fun inst ↦ moves_bind moves_get fun w ↦ ?_
  · refine moves_bind moves_get fun w ↦ ?_
    split
    · exact moves_pure _
    · exact moves_throw _
  · dsimp only
    split
    · exact moves_throw _
    · exact sameBut_keep h o v
    · split
      · exact moves_throw _
      · exact sameBut_keep h o v

end Component

namespace Remote

open Component

/-! ## Stages of a call -/

/-- What is at hand when a call has passed all checks. -/
structure Accepted where
  object : ObjectId
  state : Table String Value
  method : Option Method

/-- The checks of a call that come after that of its signature, and the object in the state of its
snapshot. -/
def prepare (registry : RegistryId) (call : RemoteCall) : Run Accepted := do
  let id ← componentClass registry call.component
  let state ← props call.snapshot
  let method ← checkedMethod id call
  let object ← instantiate Dispatch.full id state
  return ⟨object, state, method⟩

/-- All checks of a call, and the object in the state of its snapshot. -/
def accept (registry : RegistryId) (call : RemoteCall) (signature given : Option String) :
    Run Accepted := do
  checkSignature call signature given
  prepare registry call

/-- What follows when the object has the data of the call. -/
def finish (call : RemoteCall) (a : Accepted) : Run CallResult :=
  match a.method with
  | some m => runMethod Dispatch.full a.object call m
  | none => newState Dispatch.full a.object

theorem handle_eq {payload : Json} {call : RemoteCall}
    (hcall : Schema.remoteCall .value payload = .good call) (registry : RegistryId)
    (signature given : Option String) : handle registry payload signature given = (do
      let a ← accept registry call signature given
      applyData Dispatch.full a.object call a.state
      finish call a) := by
  simp only [handle, hcall, accept, prepare, bind_assoc, pure_bind]
  rfl

/-- The data of a call that is set: what the snapshot has names for. -/
def clientData (call : RemoteCall) (state : Table String Value) : Table String Json :=
  call.data.filter fun e ↦ Table.contains state e.1

theorem applyData_eq (d : Dispatch) (o : ObjectId) (call : RemoteCall)
    (state : Table String Value) : applyData d o call state = (do
      let _ ← d.call o "set_id" [.text call.id]
      (clientData call state).forM fun e ↦ setAttribute o e.1 (.ofJson e.2)) := by
  have hdata : ∀ data : Table String Json, (data.forM fun e ↦
      if Table.contains state e.1 then setAttribute o e.1 (.ofJson e.2) else pure ()) =
        (data.filter fun e ↦ Table.contains state e.1).forM fun e ↦
          setAttribute o e.1 (.ofJson e.2) := by
    intro data
    induction data with
    | nil => rfl
    | cons e data ih =>
      by_cases he : Table.contains state e.1
      · rw [List.forM, List.filter_cons, if_pos he, if_pos he, List.forM, ih]
      · rw [List.forM, List.filter_cons, if_neg he, if_neg he, ih]
        rfl
  rw [applyData, hdata]
  rfl

/-! ## What an accepted call has shown -/

variable {registry : RegistryId} {call : RemoteCall} {signature given : Option String}
  {w w' : World} {a : Accepted}

/-- The signature is that of the snapshot. -/
theorem signature_of_accept {k : String} (hk : outcome (secret given) w = (.ok k, w))
    (h : outcome (accept registry call signature given) w = (.ok a, w')) :
    signature = some (sign k call.snapshot) := by
  obtain ⟨u, w₁, hcheck, -⟩ := outcome_bind_eq_ok.mp h
  rw [checkSignature, outcome_bind_of_ok hk] at hcheck
  by_contra hne
  dsimp only at hcheck
  rw [if_pos hne] at hcheck
  simp [Run.note, Run.fail] at hcheck

/-- The right signature lets every call pass, whichever component it names. -/
theorem outcome_checkSignature_of_signed {k : String} (hk : outcome (secret given) w = (.ok k, w)) :
    outcome (checkSignature call (some (sign k call.snapshot)) given) w = (.ok PUnit.unit, w) := by
  rw [checkSignature, outcome_bind_of_ok hk]
  dsimp only
  rw [if_neg (not_not.mpr rfl)]
  rfl

theorem outcome_handle_of_signed {k : String} {payload : Json}
    (hcall : Schema.remoteCall .value payload = .good call)
    (hk : outcome (secret given) w = (.ok k, w)) :
    outcome (handle registry payload (some (sign k call.snapshot)) given) w =
      outcome (do
        let a ← prepare registry call
        applyData Dispatch.full a.object call a.state
        finish call a) w := by
  rw [handle_eq hcall, accept, bind_assoc, outcome_bind_of_ok (outcome_checkSignature_of_signed hk)]

/-- The state is what the snapshot writes. -/
theorem state_of_accept (h : outcome (accept registry call signature given) w = (.ok a, w')) :
    ∃ ms, Json.read call.snapshot = .ok (.obj ms) ∧ a.state = Value.ofMembers ms := by
  obtain ⟨u, w₁, -, h⟩ := outcome_bind_eq_ok.mp h
  obtain ⟨id, w₂, -, h⟩ := outcome_bind_eq_ok.mp h
  obtain ⟨state, w₃, hprops, h⟩ := outcome_bind_eq_ok.mp h
  obtain ⟨m, w₄, -, h⟩ := outcome_bind_eq_ok.mp h
  obtain ⟨o, w₅, -, h⟩ := outcome_bind_eq_ok.mp h
  obtain rfl : ⟨o, state, m⟩ = a := by simpa using (Prod.mk.inj h).1
  cases hread : Json.read call.snapshot with
  | error e => simp [props, hread, reject, Run.failWith, Run.note, Run.fail] at hprops
  | ok v =>
    cases v with
    | obj ms =>
      rw [props, hread, outcome_pure] at hprops
      obtain rfl : Value.ofMembers ms = state := by simpa using (Prod.mk.inj hprops).1
      exact ⟨ms, rfl, rfl⟩
    | _ => simp [props, hread, reject, Run.failWith, Run.note, Run.fail] at hprops

theorem keys_ofMembers (ms : List (String × Json)) :
    Table.keys (Value.ofMembers ms) = Table.keys ms := by
  induction ms with
  | nil => rfl
  | cons m ms ih =>
    obtain ⟨name, v⟩ := m
    rw [Value.ofMembers]
    simp only [Table.keys, List.map_cons] at ih ⊢
    rw [ih]

/-- Setting client data changes nothing but attributes of the object under names of the snapshot. -/
theorem sameBut_clientData (o : ObjectId) (call : RemoteCall) (state : Table String Value) :
    Moves (World.SameBut o (Table.keys state))
      ((clientData call state).forM fun e ↦ setAttribute o e.1 (.ofJson e.2)) := by
  have hdata : ∀ data : Table String Json, (∀ e ∈ data, e.1 ∈ Table.keys state) →
      Moves (World.SameBut o (Table.keys state))
        (data.forM fun e ↦ setAttribute o e.1 (.ofJson e.2)) := by
    intro data hdata
    induction data with
    | nil => exact moves_pure _
    | cons e data ih =>
      obtain ⟨he, hdata⟩ := List.forall_mem_cons.mp hdata
      exact moves_bind (sameBut_setAttribute he o _) fun _ ↦ ih hdata
  refine hdata _ fun e he ↦ ?_
  exact Table.contains_iff.mp (List.mem_filter.mp he).2

/-- A call that ends well was accepted, got its id and its data, and then finished. -/
theorem outcome_handle_eq_ok {payload : Json} {r : CallResult}
    (hcall : Schema.remoteCall .value payload = .good call)
    (h : outcome (handle registry payload signature given) w = (.ok r, w')) :
    ∃ a id w₁ w₂ w₃, outcome (accept registry call signature given) w = (.ok a, w₁) ∧
      outcome (Dispatch.full.call a.object "set_id" [.text call.id]) w₁ = (.ok id, w₂) ∧
      outcome ((clientData call a.state).forM fun e ↦ setAttribute a.object e.1 (.ofJson e.2)) w₂ =
        (.ok PUnit.unit, w₃) ∧
      outcome (finish call a) w₃ = (.ok r, w') := by
  rw [handle_eq hcall] at h
  obtain ⟨a, w₁, haccept, h⟩ := outcome_bind_eq_ok.mp h
  obtain ⟨u, w₃, happly, hfinish⟩ := outcome_bind_eq_ok.mp h
  rw [applyData_eq] at happly
  obtain ⟨id, w₂, hid, hset⟩ := outcome_bind_eq_ok.mp happly
  exact ⟨a, id, w₁, w₂, w₃, haccept, hid, hset, hfinish⟩

end Remote

end IceCube
