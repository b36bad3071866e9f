import IceCube.Proofs.Frame
import IceCube.Proofs.Remote.Replay

/-!
# What is run before a call is turned down

A call that fails a check has made no object.  When all checks have passed, a new object is made and
the body of its constructor runs.  An error of the body ends the call as it is, but one that says
that a value is of a wrong kind is taken for arguments that do not fit the constructor, and then the
call is turned down although part of the body has run.
-/

namespace IceCube

open Step

/-! ## Steps that leave objects alone -/

/-- What belongs to objects that have been made: all that the code of a component can change. -/
def World.heap (w : World) : List Instance × List Element × Table String Component.Value × Nat :=
  (w.objects, w.elements, w.named, w.issued)

namespace Run

theorem heap_note (e : Event) : Moves (Same World.heap) (note e) := moves_modify fun _ ↦ rfl

theorem heap_fail {α : Type} (f : Failure) : Moves (Same World.heap) (fail f : Run α) :=
  moves_throw _

theorem heap_failWith {α : Type} (f : Failure) (d : Detail) :
    Moves (Same World.heap) (failWith f d : Run α) :=
  moves_bind (heap_note _) fun _ ↦ heap_fail f

theorem heap_build {α : Type} (id : RegistryId) (step : Build α) :
    Moves (Same World.heap) (build id step) := fun w ↦ by
  rw [outcome_build]
  rfl

end Run

namespace Resolve

open Run

theorem heap_load (record : Record) : Moves (Same World.heap) (load record) := by
  refine (outside_load record).mono fun w v h ↦ ?_
  simp only [Same, World.outside, World.heap, Prod.mk.injEq] at h ⊢
  exact h.2.2.2

theorem heap_resolve (registry : RegistryId) (identifier : String) (force : Bool) :
    Moves (Same World.heap) (resolve registry identifier force) := by
  have hrecord : Moves (Same World.heap) (record registry identifier force) := by
    refine moves_bind moves_get fun w ↦ ?_
    dsimp only
    split
    · exact moves_pure _
    · split
      · exact moves_bind (heap_build _ _) fun _ ↦ moves_pure _
      · exact moves_pure _
  refine moves_bind moves_get fun w ↦ ?_
  split
  · exact moves_pure _
  · refine moves_bind hrecord fun r ↦ ?_
    split
    · exact heap_fail _
    · exact moves_bind (heap_load _) fun _ ↦
        moves_bind (moves_modify fun _ ↦ rfl) fun _ ↦ moves_pure _

end Resolve

namespace Remote

open Component Run

variable {registry : RegistryId} {call : RemoteCall} {payload : Json}
  {signature given : Option String} {w : World}

/-! ## The checks of a call -/

/-- What is at hand when a call has passed all checks and before an object is made. -/
structure Checked where
  call : RemoteCall
  classId : ClassId
  state : Table String Value
  method : Option Method
  /-- The class whose constructor runs, if one does. -/
  constructor : Option Component.Class
  /-- The values of the parameters of the constructor. -/
  arguments : List (Param × Value)

/-- The constructor of a class, unless the class has none to be called or the state does not fit. -/
def fittingConstructor (id : ClassId) (state : Table String Value) :
    Run (Option Component.Class × List (Param × Value)) := do
  match bindConstructor (← get).classes id state with
  | .error _ => reject .other
  | .ok b => return b

/-- All checks of a call. -/
def checks (registry : RegistryId) (payload : Json) (signature given : Option String) :
    Run Checked := do
  match Schema.remoteCall .value payload with
  | .bad _ => reject .other
  | .good call =>
    checkSignature call signature given
    let id ← componentClass registry call.component
    let state ← props call.snapshot
    let m ← checkedMethod id call
    let (c, bound) ← fittingConstructor id state
    return ⟨call, id, state, m, c, bound⟩

/-- A new object, and the body of its constructor. -/
def build (c : Checked) : Run ObjectId := do
  let id ← newObject c.classId
  match c.constructor with
  | some cls => construct Dispatch.full id cls c.arguments
  | none => pure ()
  return id

/-- What the call asks of an object that has been made. -/
def respond (c : Checked) (o : ObjectId) : Run CallResult := do
  applyData Dispatch.full o c.call c.state
  finish c.call ⟨o, c.state, c.method⟩

/-- How a call ends whose constructor has ended with an error. -/
def afterError {α : Type} (e : Error) : Run α :=
  match mismatchMessage? e with
  | some true => reject .other
  | some false => fail .badCall
  | none => throw e

/-- Making an object in the state of a snapshot is the last check and then the body. -/
theorem instantiate_eq (c : RemoteCall) (id : ClassId) (state : Table String Value)
    (m : Option Method) : instantiate Dispatch.full id state = (do
      let (cls, bound) ← fittingConstructor id state
      tryCatch (build ⟨c, id, state, m, cls, bound⟩) afterError) := by
  refine funext fun w ↦ ?_
  change outcome (instantiate Dispatch.full id state) w = outcome _ w
  rw [instantiate, outcome_tryCatch, Component.instantiate, outcome_get_bind, fittingConstructor,
    bind_assoc, outcome_get_bind]
  cases bindConstructor w.classes id state with
  | error e => rfl
  | ok b => exact (outcome_tryCatch (build ⟨c, id, state, m, b.1, b.2⟩) afterError w).symm

/-- A call is its checks, the body of a constructor and what the call asks of the object. -/
theorem handle_eq_checks : handle registry payload signature given = (do
    let c ← checks registry payload signature given
    let o ← tryCatch (build c) afterError
    respond c o) := by
  cases hcall : Schema.remoteCall .value payload with
  | bad issues =>
    rw [handle, checks, hcall]
    rfl
  | good call =>
    simp only [handle_eq hcall, accept, prepare, checks, hcall, bind_assoc, pure_bind, respond]
    refine bind_congr fun _ ↦ bind_congr fun id ↦ bind_congr fun state ↦ bind_congr fun m ↦ ?_
    rw [instantiate_eq call id state m, bind_assoc]

/-! ## How far a call has come -/

theorem heap_reject {α : Type} (d : Detail) : Moves (Same World.heap) (reject d : Run α) :=
  heap_failWith _ _

theorem heap_secret (given : Option String) : Moves (Same World.heap) (secret given) := by
  unfold secret
  split
  · exact moves_pure _
  · refine moves_bind moves_get fun w ↦ ?_
    split
    · exact moves_pure _
    · exact heap_fail _

theorem heap_checkSignature (call : RemoteCall) (signature given : Option String) :
    Moves (Same World.heap) (checkSignature call signature given) := by
  refine moves_bind (heap_secret given) fun key ↦ ?_
  dsimp only
  split
  · exact moves_bind (heap_note _) fun _ ↦ heap_fail _
  · exact moves_pure _

theorem heap_componentClass (registry : RegistryId) (name : String) :
    Moves (Same World.heap) (componentClass registry name) := by
  refine moves_bind moves_get fun w ↦ ?_
  split
  · exact heap_reject _
  · refine moves_bind (moves_tryCatch (Resolve.heap_resolve _ _ _) fun e ↦ ?_) fun id ↦
      moves_bind moves_get fun w ↦ ?_
    · split
      · split
        · exact heap_fail _
        · exact heap_reject _
      · exact moves_throw _
    · split
      · exact moves_pure _
      · exact heap_reject _

theorem heap_props (snapshot : String) : Moves (Same World.heap) (props snapshot) := by
  unfold props
  split
  · exact heap_reject _
  · exact moves_pure _
  · exact heap_reject _

theorem heap_method (id : ClassId) (name : String) : Moves (Same World.heap) (method id name) := by
  unfold method
  split
  · exact heap_reject _
  · refine moves_bind moves_get fun w ↦ ?_
    split
    · exact moves_pure _
    · exact heap_reject _

theorem heap_checkedMethod (id : ClassId) (call : RemoteCall) :
    Moves (Same World.heap) (checkedMethod id call) := by
  unfold checkedMethod
  split
  · exact moves_pure _
  · exact moves_pure _
  · refine moves_bind (heap_method _ _) fun m ↦ ?_
    split
    · exact moves_pure _
    · exact moves_bind (heap_note _) fun _ ↦ heap_reject _

theorem heap_fittingConstructor (id : ClassId) (state : Table String Value) :
    Moves (Same World.heap) (fittingConstructor id state) := by
  refine moves_bind moves_get fun w ↦ ?_
  split
  · exact heap_reject _
  · exact moves_pure _

theorem heap_checks : Moves (Same World.heap) (checks registry payload signature given) := by
  unfold checks
  split
  · exact heap_reject _
  · exact moves_bind (heap_checkSignature _ _ _) fun _ ↦
      moves_bind (heap_componentClass _ _) fun _ ↦
      moves_bind (heap_props _) fun _ ↦
      moves_bind (heap_checkedMethod _ _) fun _ ↦
      moves_bind (heap_fittingConstructor _ _) fun _ ↦ moves_pure _

theorem outcome_handle_of_checks_error {e : Error} {w₁ : World}
    (hchecks : outcome (checks registry payload signature given) w = (.error e, w₁)) :
    outcome (handle registry payload signature given) w = (.error e, w₁) := by
  rw [handle_eq_checks]
  exact outcome_bind_of_error hchecks _

section Passed

variable {c : Checked} {w₁ w₂ : World}
  (hchecks : outcome (checks registry payload signature given) w = (.ok c, w₁))

include hchecks

theorem outcome_handle_of_build_ok {o : ObjectId}
    (hbuild : outcome (build c) w₁ = (.ok o, w₂)) :
    outcome (handle registry payload signature given) w = outcome (respond c o) w₂ := by
  rw [handle_eq_checks, outcome_bind_of_ok hchecks]
  exact outcome_bind_of_ok (by rw [outcome_tryCatch, hbuild]) _

/-- An error that does not say that a value is of a wrong kind stays as it is. -/
theorem outcome_handle_of_build_error {e : Error}
    (hbuild : outcome (build c) w₁ = (.error e, w₂)) (he : mismatchMessage? e = none) :
    outcome (handle registry payload signature given) w = (.error e, w₂) := by
  have hafter : outcome (tryCatch (build c) afterError) w₁ = (.error e, w₂) := by
    rw [outcome_tryCatch, hbuild]
    simp only [afterError, he]
    rfl
  rw [handle_eq_checks, outcome_bind_of_ok hchecks]
  exact outcome_bind_of_error hafter _

/-- The others are taken for arguments that do not fit. -/
theorem outcome_handle_of_build_mismatch {e : Error}
    (hbuild : outcome (build c) w₁ = (.error e, w₂)) (he : mismatchMessage? e ≠ none) :
    ∃ w₃, outcome (handle registry payload signature given) w =
      (.error (.failure .badCall), w₃) ∧ w₃.heap = w₂.heap := by
  have hafter : ∃ w₃, outcome (tryCatch (build c) afterError) w₁ =
      (.error (.failure .badCall), w₃) ∧ w₃.heap = w₂.heap := by
    obtain ⟨b, hb⟩ := Option.ne_none_iff_exists'.mp he
    rw [outcome_tryCatch, hbuild]
    cases b <;> simp only [afterError, hb] <;> exact ⟨_, rfl, rfl⟩
  obtain ⟨w₃, hafter, hheap⟩ := hafter
  refine ⟨w₃, ?_, hheap⟩
  rw [handle_eq_checks, outcome_bind_of_ok hchecks]
  exact outcome_bind_of_error hafter _

end Passed

/-- Where a rejection comes from: a check, the body of the constructor, or what runs after it. -/
theorem rejected_iff {message : String} :
    (∃ w', outcome (handle registry payload signature given) w =
        (.error (.failure (.badRequest message)), w')) ↔
      (∃ w₁, outcome (checks registry payload signature given) w =
        (.error (.failure (.badRequest message)), w₁)) ∨
      ∃ c w₁, outcome (checks registry payload signature given) w = (.ok c, w₁) ∧
        ((∃ e w₂, outcome (build c) w₁ = (.error e, w₂) ∧
          (mismatchMessage? e ≠ none ∧ .badRequest message = Failure.badCall ∨
            e = .failure (.badRequest message))) ∨
        ∃ o w₂ w₃, outcome (build c) w₁ = (.ok o, w₂) ∧
          outcome (respond c o) w₂ = (.error (.failure (.badRequest message)), w₃)) := by
  constructor
  · rintro ⟨w', h⟩
    rcases hchecks : outcome (checks registry payload signature given) w with ⟨e | c, w₁⟩
    · rw [outcome_handle_of_checks_error hchecks] at h
      cases h
      exact .inl ⟨w', rfl⟩
    · refine .inr ⟨c, w₁, rfl, ?_⟩
      rcases hbuild : outcome (build c) w₁ with ⟨e | o, w₂⟩
      · refine .inl ⟨e, w₂, rfl, ?_⟩
        by_cases he : mismatchMessage? e = none
        · rw [outcome_handle_of_build_error hchecks hbuild he] at h
          obtain ⟨he', -⟩ := Prod.mk.inj h
          exact .inr (Except.error.inj he')
        · obtain ⟨w₃, h₃, -⟩ := outcome_handle_of_build_mismatch hchecks hbuild he
          obtain ⟨he', -⟩ := Prod.mk.inj (h.symm.trans h₃)
          exact .inl ⟨he, Error.failure.inj (Except.error.inj he')⟩
      · rw [outcome_handle_of_build_ok hchecks hbuild] at h
        exact .inr ⟨o, w₂, w', rfl, h⟩
  · rintro (⟨w₁, hchecks⟩ | ⟨c, w₁, hchecks, ⟨e, w₂, hbuild, he⟩ | ⟨o, w₂, w₃, hbuild, h⟩⟩)
    · exact ⟨w₁, outcome_handle_of_checks_error hchecks⟩
    · rcases he with ⟨he, hmessage⟩ | rfl
      · obtain ⟨w₃, h₃, -⟩ := outcome_handle_of_build_mismatch hchecks hbuild he
        exact ⟨w₃, hmessage ▸ h₃⟩
      · exact ⟨w₂, outcome_handle_of_build_error hchecks hbuild rfl⟩
    · exact ⟨w₃, (outcome_handle_of_build_ok hchecks hbuild).trans h⟩

/-- A call that fails a check has run nothing, and ends with the error of the check.  When all
checks have passed and the body of the constructor ends with an error, the call ends with that error
exactly if it does not say that a value is of a wrong kind; otherwise the call is turned down, and
what the body has done stays.  What the object is asked to do afterwards ends the call as it is. -/
theorem body_error_kept_iff :
    (∀ e w₁, outcome (checks registry payload signature given) w = (.error e, w₁) →
      outcome (handle registry payload signature given) w = (.error e, w₁) ∧
        w₁.heap = w.heap) ∧
    ∀ c w₁, outcome (checks registry payload signature given) w = (.ok c, w₁) →
      w₁.heap = w.heap ∧
      (∀ e w₂, outcome (build c) w₁ = (.error e, w₂) →
        (outcome (handle registry payload signature given) w = (.error e, w₂) ↔
          mismatchMessage? e = none) ∧
        (mismatchMessage? e ≠ none →
          ∃ w₃, outcome (handle registry payload signature given) w =
            (.error (.failure .badCall), w₃) ∧ w₃.heap = w₂.heap)) ∧
      ∀ o w₂, outcome (build c) w₁ = (.ok o, w₂) →
        outcome (handle registry payload signature given) w = outcome (respond c o) w₂ := by
  refine ⟨fun e w₁ hchecks ↦ ⟨outcome_handle_of_checks_error hchecks,
    heap_checks.of_outcome hchecks⟩, fun c w₁ hchecks ↦ ⟨heap_checks.of_outcome hchecks,
    fun e w₂ hbuild ↦ ⟨⟨fun h ↦ ?_, outcome_handle_of_build_error hchecks hbuild⟩,
    outcome_handle_of_build_mismatch hchecks hbuild⟩,
    fun o w₂ ↦ outcome_handle_of_build_ok hchecks⟩⟩
  by_contra he
  obtain ⟨w₃, h₃, -⟩ := outcome_handle_of_build_mismatch hchecks hbuild he
  obtain ⟨he', -⟩ := Prod.mk.inj (h.symm.trans h₃)
  cases Except.error.inj he'
  exact he rfl

/-! ## A body that ends with an error -/

/-- A class whose constructor makes up an id and then ends with an error of a kind. -/
def gauge (kind : String) : Component.Class where
  name := "Gauge"
  qualifiedName := "Gauge"
  module := "icecube_compiled_app_Gauge"
  base := .ice
  params := some [⟨"x", none, false, false, "x"⟩]
  init := [.set "y" .ownId, .fail kind "boom"]
  attributes := [("component_name", .value (.text "app_Gauge")),
    ("state_fields", .value (.tuple [.text "x"])), ("render", .render (.node "div" [] []))]

def gaugeRecord : Record :=
  .cached ⟨"app.Gauge", "app_Gauge", "g.py", "out/app_Gauge", none, none, "0123abcd"⟩

/-- The class is loaded. -/
def workshop (kind : String) : World :=
  { World.start (.empty []) ⟨none, some "key"⟩ with
    registries := [("main",
      ⟨[("app.Gauge", gaugeRecord)], [("app_Gauge", "app.Gauge")], [("app.Gauge", 0)], []⟩)]
    classes := [gauge kind] }

/-- The state that the gauge is asked for: its `x` is 0. -/
def zero : Json := .obj [("x", .int 0)]

def reading : RemoteCall := ⟨"a", "app_Gauge", zero.compact, none, [], []⟩

def readingPayload : Json :=
  .obj [("id", .str "a"), ("component", .str "app_Gauge"), ("snapshot", .str zero.compact)]

/-- What the checks leave for the constructor. -/
def checkedReading (kind : String) : Checked :=
  ⟨reading, 0, [("x", .int 0)], none, some (gauge kind),
    [(⟨"x", none, false, false, "x"⟩, .int 0)]⟩

theorem outcome_checks_reading (kind : String) :
    outcome (checks "main" readingPayload (some (sign "key" zero.compact)) none)
      (workshop kind) = (.ok (checkedReading kind), workshop kind) := by
  have hcall : Schema.remoteCall .value readingPayload = .good reading := rfl
  have hkey : outcome (secret none) (workshop kind) = (.ok "key", workshop kind) := rfl
  have hsigned : outcome (checkSignature reading (some (sign "key" zero.compact)) none)
      (workshop kind) = (.ok PUnit.unit, workshop kind) := outcome_checkSignature_of_signed hkey
  have hclass : outcome (componentClass "main" "app_Gauge") (workshop kind) =
    (.ok 0, workshop kind) := rfl
  have hread : Json.read zero.compact = .ok (.obj [("x", .int 0)]) :=
    Json.read_write ⟨.ascii, .oneLine⟩ zero
  have hprops : outcome (props zero.compact) (workshop kind) =
      (.ok [("x", .int 0)], workshop kind) := by
    rw [props, hread]
    rfl
  rw [checks, hcall]
  dsimp only
  rw [outcome_bind_of_ok hsigned]
  change outcome (componentClass "main" "app_Gauge" >>= _) _ = _
  rw [outcome_bind_of_ok hclass]
  change outcome (props zero.compact >>= _) _ = _
  rw [outcome_bind_of_ok hprops]
  rfl

/-- The process when the body of the constructor has ended. -/
def afterBody (kind : String) : World := (outcome (build (checkedReading kind)) (workshop kind)).2

theorem outcome_build_reading (kind : String) :
    outcome (build (checkedReading kind)) (workshop kind) =
      (.error (raisedError kind "boom"), afterBody kind) :=
  Prod.ext rfl rfl

/-- The body raises an error of its own, after it has kept an attribute.  All checks have passed, and
yet the call is turned down as one whose arguments do not fit. -/
theorem body_error_taken_for_mismatch :
    outcome (checks "main" readingPayload (some (sign "key" zero.compact)) none)
        (workshop "TypeError") = (.ok (checkedReading "TypeError"), workshop "TypeError") ∧
      outcome (build (checkedReading "TypeError")) (workshop "TypeError") =
        (.error (.raised "TypeError" "boom"), afterBody "TypeError") ∧
      ((workshop "TypeError").objects = [] ∧
        ((afterBody "TypeError").ownAttribute? 0 "y").isSome = true) ∧
      ∃ w', outcome (handle "main" readingPayload (some (sign "key" zero.compact)) none)
        (workshop "TypeError") = (.error (.failure .badCall), w') := by
  have hchecks := outcome_checks_reading "TypeError"
  have hbuild := outcome_build_reading "TypeError"
  obtain ⟨w', hhandle, -⟩ := outcome_handle_of_build_mismatch hchecks hbuild (by decide)
  exact ⟨hchecks, hbuild, ⟨rfl, rfl⟩, w', hhandle⟩

/-- The same body with an error of another kind ends the call with this error. -/
theorem other_body_error_is_kept :
    outcome (checks "main" readingPayload (some (sign "key" zero.compact)) none)
        (workshop "ValueError") = (.ok (checkedReading "ValueError"), workshop "ValueError") ∧
      outcome (build (checkedReading "ValueError")) (workshop "ValueError") =
        (.error (.raised "ValueError" "boom"), afterBody "ValueError") ∧
      outcome (handle "main" readingPayload (some (sign "key" zero.compact)) none)
        (workshop "ValueError") = (.error (.raised "ValueError" "boom"), afterBody "ValueError") := by
  have hchecks := outcome_checks_reading "ValueError"
  have hbuild := outcome_build_reading "ValueError"
  obtain ⟨hkept, -⟩ := (body_error_kept_iff.2 _ _ hchecks).2.1 _ _ hbuild
  exact ⟨hchecks, hbuild, hkept.mpr (by decide)⟩

end Remote

end IceCube
