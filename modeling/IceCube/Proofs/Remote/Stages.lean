import IceCube.Proofs.Component.Failing
import IceCube.Proofs.Registry.Loaded
import IceCube.Proofs.Remote.Callable
import IceCube.Proofs.Remote.Rejection

/-!
# The stages of a call

A check lets a call pass or turns it down.  The checks are followed by the body of the constructor,
the id and the data of the call, the method, and HTML or else the new state.  When a call has come to
a stage, it ends as what remains to be done from there does.
-/

namespace IceCube

open Step

namespace Remote

open Component Run

variable {registry : RegistryId} {payload : Json} {signature given : Option String}
  {w : World} {e : Error}

/-! ## Giving the state -/

/-- The new state of an object is not given for an error of its own code: of a method that exposes
it, or of an attribute that it declares. -/
inductive OwnState (o : ObjectId) (u : World) : Error → Prop where
  | exposing {e : Error} (hown : u.Overrides o "expose_state")
      (h : Fails (Dispatch.full.call o "expose_state" []) u e) : OwnState o u e
  | declaration {e : Error} (hbuiltin : ¬ u.Overrides o "expose_state")
      (h : Fails ((Dispatch.atDepth 999).get o "state_fields") u e) : OwnState o u e
  | field {v : Value} {before after : List String} {name : String} {es : List (String × Value)}
      {u₁ u₂ : World} {e : Error} (hbuiltin : ¬ u.Overrides o "expose_state")
      (hdeclared : outcome ((Dispatch.atDepth 999).get o "state_fields") u = (.ok v, u₁))
      (hnames : stateNames v = .ok (before ++ name :: after))
      (hbefore : outcome (readFields (.atDepth 999) o before) u₁ = (.ok es, u₂))
      (h : Fails ((Dispatch.atDepth 999).get o name) u₂ e) : OwnState o u e

/-- The new state of an object is not given for what its code declares or returns: something else
than names of attributes, or than a state. -/
inductive NoState (o : ObjectId) (u : World) : Error → Prop where
  | names {v : Value} {u₁ : World} {e : Error} (hbuiltin : ¬ u.Overrides o "expose_state")
      (hdeclared : outcome ((Dispatch.atDepth 999).get o "state_fields") u = (.ok v, u₁))
      (hnames : stateNames v = .error e) : NoState o u e
  | notTable {v : Value} {u₁ : World} (hown : u.Overrides o "expose_state")
      (hexposed : outcome (Dispatch.full.call o "expose_state" []) u = (.ok v, u₁))
      (hv : ∀ es, v ≠ .dict es) : NoState o u (.invalid [⟨[.key "data"], .notTable .value⟩])

/-- What is exposed has to be a table. -/
theorem fails_newState_of_call {o : ObjectId} {u : World} :
    Fails (newState Dispatch.full o) u e ↔
      Fails (Dispatch.full.call o "expose_state" []) u e ∨ ∃ v u₁,
        outcome (Dispatch.full.call o "expose_state" []) u = (.ok v, u₁) ∧
          (∀ es, v ≠ .dict es) ∧ e = .invalid [⟨[.key "data"], .notTable .value⟩] := by
  rw [newState, fails_bind_iff]
  refine or_congr_right (exists_congr fun v ↦ exists_congr fun u₁ ↦ and_congr_right' ?_)
  split
  · rename_i es
    exact iff_of_false (not_fails_pure _) fun h ↦ h.1 es rfl
  · rename_i hv
    rw [fails_throw]
    exact (and_iff_right fun es hes ↦ hv es hes).symm

theorem fails_newState_iff {o : ObjectId} {u : World} {inst : Instance}
    (hobject : u.objects[o]? = some inst) (hice : u.classes.isIce inst.classId = true) :
    Fails (newState Dispatch.full o) u e ↔ OwnState o u e ∨ NoState o u e := by
  rw [fails_newState_of_call]
  by_cases hown : u.Overrides o "expose_state"
  · constructor
    · rintro (h | ⟨v, u₁, hexposed, hv, rfl⟩)
      · exact .inl (.exposing hown h)
      · exact .inr (.notTable hown hexposed hv)
    · rintro ((⟨-, h⟩ | ⟨hbuiltin, -⟩ | ⟨hbuiltin, -⟩) | (⟨hbuiltin, -⟩ | ⟨-, hexposed, hv⟩))
      · exact .inl h
      · exact absurd hown hbuiltin
      · exact absurd hown hbuiltin
      · exact absurd hown hbuiltin
      · exact .inr ⟨_, _, hexposed, hv, rfl⟩
  · have hexposes : outcome (Dispatch.full.call o "expose_state" []) u =
        outcome (exposeState (.atDepth 999) o) u :=
      outcome_exposeState_of_not_overrides hobject hice hown 999
    rw [Fails, hexposes, ← Fails, fails_exposeState_iff]
    constructor
    · rintro ((h | ⟨v, u₁, hdeclared, hnames | ⟨before, name, after, es, u₂, hnames, hbefore, h⟩⟩) |
        ⟨v, u₁, hexposed, hv, -⟩)
      · exact .inl (.declaration hown h)
      · exact .inr (.names hown hdeclared hnames)
      · exact .inl (.field hown hdeclared hnames hbefore h)
      · -- a declared state is a table
        obtain ⟨es, rfl⟩ := dict_of_exposeState hexposed
        exact absurd rfl (hv es)
    · rintro ((⟨hown', -⟩ | ⟨-, h⟩ | ⟨-, hdeclared, hnames, hbefore, h⟩) |
        (⟨-, hdeclared, hnames⟩ | ⟨hown', -, -⟩))
      · exact absurd hown' hown
      · exact .inl (.inl h)
      · exact .inl (.inr ⟨_, _, hdeclared, .inr ⟨_, _, _, _, _, hnames, hbefore, h⟩⟩)
      · exact .inl (.inr ⟨_, _, hdeclared, .inl hnames⟩)
      · exact absurd hown' hown

/-! ## Checks -/

@[simp] theorem fails_reject {α : Type} {d : Detail} :
    Fails (reject d : Run α) w e ↔ e = .failure .badCall := by
  constructor
  · rintro ⟨t, ⟨⟩⟩
    rfl
  · rintro rfl
    exact ⟨_, outcome_reject d w⟩

/-- A check lets a call pass and leaves the process as it is, or turns the call down. -/
def Screens {α : Type} (m : Run α) (w : World) (P : α → Prop) : Prop :=
  (∃ a, outcome m w = (.ok a, w) ∧ P a) ∨ Fails m w (.failure .badCall)

section Screens

variable {α β : Type} {m : Run α} {f : α → Run β} {P : α → Prop}

theorem Screens.of_ok (h : Screens m w P) {a : α} {w' : World} (hm : outcome m w = (.ok a, w')) :
    w' = w ∧ P a := by
  rcases h with ⟨a', ha', hP⟩ | h
  · rw [hm] at ha'
    cases ha'
    exact ⟨rfl, hP⟩
  · exact absurd h (not_fails_of_ok hm)

/-- A call that is not turned down has passed the check. -/
theorem Screens.fails_bind_iff (h : Screens m w P) (he : e ≠ .failure .badCall) :
    Fails (m >>= f) w e ↔ ∃ a, outcome m w = (.ok a, w) ∧ Fails (f a) w e := by
  rw [Step.fails_bind_iff]
  constructor
  · rintro (hm | ⟨a, t, hm, hf⟩)
    · rcases h with ⟨a, ha, -⟩ | h
      · exact absurd hm (not_fails_of_ok ha)
      · exact absurd (h.unique hm) he
    · obtain ⟨rfl, -⟩ := h.of_ok hm
      exact ⟨a, hm, hf⟩
  · rintro ⟨a, hm, hf⟩
    exact .inr ⟨a, w, hm, hf⟩

theorem screens_props (snapshot : String) (w : World) :
    Screens (props snapshot) w fun _ ↦ True := by
  unfold props
  split
  · exact .inr (fails_reject.mpr rfl)
  · exact .inl ⟨_, rfl, trivial⟩
  · exact .inr (fails_reject.mpr rfl)

/-- The arguments fit the method that a call names. -/
theorem screens_checkedMethod (id : ClassId) (call : RemoteCall) (w : World) :
    Screens (checkedMethod id call) w fun x ↦ ∀ m, x = some m →
      ∃ bound, bindValues m.params (call.args.map Value.ofJson) = .ok bound := by
  unfold checkedMethod
  split
  · exact .inl ⟨none, rfl, nofun⟩
  · exact .inl ⟨none, rfl, nofun⟩
  · rename_i name _ _
    rcases outcome_method id name w with ⟨m, -, -, hmethod⟩ | ⟨w', hmethod⟩
    · rw [Screens, outcome_bind_of_ok hmethod, fails_bind_of_ok hmethod]
      cases hbound : bindValues m.params (call.args.map Value.ofJson) with
      | error u => exact .inr ⟨_, rfl⟩
      | ok bound =>
        refine .inl ⟨some m, rfl, ?_⟩
        rintro m' ⟨⟩
        exact ⟨bound, hbound⟩
    · exact .inr ⟨w', outcome_bind_of_error hmethod _⟩

theorem screens_fittingConstructor (id : ClassId) (state : Table String Value) (w : World) :
    Screens (fittingConstructor id state) w fun _ ↦ True := by
  rw [Screens, fittingConstructor, outcome_get_bind, fails_get_bind]
  cases bindConstructor w.classes id state with
  | error e' => exact .inr (fails_reject.mpr rfl)
  | ok b => exact .inl ⟨b, rfl, trivial⟩

end Screens

/-- A call that has passed all checks is for a class that takes calls, with arguments that fit. -/
theorem outcome_checks_eq_ok {c : Checked} {w₁ : World}
    (h : outcome (checks registry payload signature given) w = (.ok c, w₁)) :
    w₁.classes.isIce c.classId = true ∧ ∀ m, c.method = some m →
      ∃ bound, bindValues m.params (c.call.args.map Value.ofJson) = .ok bound := by
  unfold checks at h
  split at h
  · cases h
  · obtain ⟨u, t, -, h⟩ := outcome_bind_eq_ok.mp h
    obtain ⟨id, v, hclass, h⟩ := outcome_bind_eq_ok.mp h
    obtain ⟨state, v₁, hstate, h⟩ := outcome_bind_eq_ok.mp h
    obtain ⟨m, v₂, hmethod, h⟩ := outcome_bind_eq_ok.mp h
    obtain ⟨b, v₃, hb, hend⟩ := outcome_bind_eq_ok.mp h
    obtain ⟨rfl, -⟩ := (screens_props _ _).of_ok hstate
    obtain ⟨rfl, hbound⟩ := (screens_checkedMethod _ _ _).of_ok hmethod
    obtain ⟨rfl, -⟩ := (screens_fittingConstructor _ _ _).of_ok hb
    obtain ⟨-, -, -, hice⟩ := outcome_componentClass_eq_ok_iff.mp hclass
    cases hend
    exact ⟨hice, hbound⟩

/-! ## Stages of a call -/

section Stages

variable (registry : RegistryId) (payload : Json) (signature given : Option String) (w : World)

/-- A signed call is for a component whose class is not there and has to be loaded. -/
def Seeks (i : String) : Prop :=
  ∃ call found, Schema.remoteCall .value payload = .good call ∧
    outcome (checkSignature call signature given) w = (.ok PUnit.unit, w) ∧
    (w.registry registry).getByName? call.component = some found ∧ found.identifier = i ∧
    w.remembered? registry i = none

/-- A call has passed all checks, and its object is made. -/
def Made (c : Checked) (o : ObjectId) (v : World) : Prop :=
  ∃ w₁, outcome (checks registry payload signature given) w = (.ok c, w₁) ∧
    outcome (build c) w₁ = (.ok o, v)

/-- The object has the id and the data of the call. -/
def Ready (c : Checked) (o : ObjectId) (v : World) : Prop :=
  ∃ u, Made registry payload signature given w c o u ∧
    outcome (applyData Dispatch.full o c.call c.state) u = (.ok PUnit.unit, v)

/-- The method has returned. -/
def Returned (c : Checked) (o : ObjectId) (result : Value) (v : World) : Prop :=
  ∃ m u u', c.method = some m ∧ Ready registry payload signature given w c o u ∧
    outcome (Component.runMethod Dispatch.full (some o) m (c.call.args.map Value.ofJson)) u =
      (.ok result, u') ∧
    outcome (note .methodCalled) u' = (.ok PUnit.unit, v)

/-- The new state of the object is what remains to be given. -/
def Gives (o : ObjectId) (v : World) : Prop :=
  ∃ c, c.method = none ∧ Ready registry payload signature given w c o v ∨
    ∃ result, Returned registry payload signature given w c o result v ∧
      joinsMarkup v result = false

end Stages

/-! ## The object of a call -/

theorem Made.hosts {c : Checked} {o : ObjectId} {v : World}
    (h : Made registry payload signature given w c o v) : v.Hosts c.classId o := by
  obtain ⟨w₁, hchecks, hbuild⟩ := h
  obtain ⟨hice, -⟩ := outcome_checks_eq_ok hchecks
  obtain ⟨o', w₂, hnew, hbuild⟩ := outcome_bind_eq_ok.mp hbuild
  cases hnew
  have hnew : World.Hosts { w₁ with objects := w₁.objects ++ [⟨c.classId, []⟩] } c.classId
      w₁.objects.length := ⟨⟨c.classId, []⟩, by simp, rfl, hice⟩
  dsimp only at hbuild
  split at hbuild
  · obtain ⟨u, t, hconstruct, hend⟩ := outcome_bind_eq_ok.mp hbuild
    cases hend
    exact hnew.extends
      ((extends_construct (Dispatch.extending_atDepth 1000) _ _ _).of_outcome hconstruct)
  · cases hbuild
    exact hnew

/-! ## What remains to be done -/

section Stages

variable {c : Checked} {o : ObjectId} {v u : World}

theorem Made.outcome_handle (h : Made registry payload signature given w c o v) :
    outcome (handle registry payload signature given) w = outcome (respond c o) v := by
  obtain ⟨w₁, hchecks, hbuild⟩ := h
  exact outcome_handle_of_build_ok hchecks hbuild

theorem Ready.outcome_handle (h : Ready registry payload signature given w c o u) :
    outcome (handle registry payload signature given) w =
      outcome (finish c.call ⟨o, c.state, c.method⟩) u := by
  obtain ⟨v, hmade, happly⟩ := h
  rw [hmade.outcome_handle, respond, outcome_bind_of_ok happly]

theorem Ready.hosts (h : Ready registry payload signature given w c o u) :
    u.Hosts c.classId o := by
  obtain ⟨v, hmade, happly⟩ := h
  refine hmade.hosts.extends ?_
  rw [applyData_eq] at happly
  obtain ⟨r, v₁, hid, hset⟩ := outcome_bind_eq_ok.mp happly
  have hextends := ((Dispatch.extending_atDepth 1000).call o "set_id" _).of_outcome hid
  exact IsTrans.trans _ _ _ hextends
    ((moves_forM (fun _ ↦ extends_setAttribute o _ _) _).of_outcome hset)

theorem Returned.outcome_handle {result : Value}
    (h : Returned registry payload signature given w c o result u) :
    outcome (handle registry payload signature given) w = outcome (do
      if joinsMarkup (← get) result then return ⟨← textOf Dispatch.full result, .dict []⟩
      else newState Dispatch.full o) u := by
  obtain ⟨m, v, v', hm, hready, hrun, hnote⟩ := h
  rw [hready.outcome_handle, finish, hm]
  dsimp only
  rw [runMethod, outcome_bind_of_ok hrun, outcome_bind_of_ok hnote]

theorem Returned.hosts {result : Value}
    (h : Returned registry payload signature given w c o result u) : u.Hosts c.classId o := by
  obtain ⟨m, v, v', hm, hready, hrun, hnote⟩ := h
  have hextends := (extends_runMethod (Dispatch.extending_atDepth 1000) _ _ _).of_outcome hrun
  cases hnote
  exact (hready.hosts.extends hextends).extends (.of_objects_eq rfl rfl rfl rfl rfl)

/-- What remains to be done ends the call. -/
theorem Gives.outcome_handle (h : Gives registry payload signature given w o u) :
    outcome (handle registry payload signature given) w = outcome (newState Dispatch.full o) u := by
  obtain ⟨c, ⟨hm, hready⟩ | ⟨result, hreturned, hjoins⟩⟩ := h
  · rw [hready.outcome_handle, finish, hm]
  · rw [hreturned.outcome_handle, outcome_get_bind, hjoins]
    rfl

/-- The new state is not given for one of the reasons that an object has not to give it. -/
theorem Gives.fails_iff (h : Gives registry payload signature given w o u) :
    Fails (newState Dispatch.full o) u e ↔ OwnState o u e ∨ NoState o u e := by
  have hosts : ∃ cls, u.Hosts cls o := by
    obtain ⟨c, ⟨-, hready⟩ | ⟨result, hreturned, -⟩⟩ := h
    · exact ⟨_, hready.hosts⟩
    · exact ⟨_, hreturned.hosts⟩
  obtain ⟨_, inst, hobject, rfl, hice⟩ := hosts
  exact fails_newState_iff hobject hice

end Stages

end Remote

end IceCube
