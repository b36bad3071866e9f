import IceCube.Proofs.Remote.Carrying
import IceCube.Proofs.Remote.Constructing
import IceCube.Proofs.Remote.SentBack

/-!
# Methods that can be called remotely

A call runs a method exactly if the method is a public one of the component itself and the arguments
fit its parameters.  Public are names without an underscore that the classes of the library do not
have.  Along the classes that a class inherits from, the first one that has the name decides: what
it has must be a plain method.
-/

namespace IceCube

open Step

namespace Component

/-! ## Arguments that fit -/

/-- The parameters that take arguments by their place. -/
def positional (params : List Param) : List Param :=
  params.filter fun p ↦ !p.star && !p.keywordOnly

/-- A number of arguments fits some parameters: those that get none have a default, and either each
argument has a parameter of its own, or one parameter takes all that are left over. -/
structure Fits (params : List Param) (n : Nat) : Prop where
  defaults : ∀ p ∈ (positional params).drop n, p.default ≠ none
  named : ∀ p ∈ params, p.star = false → p.keywordOnly = true → p.default ≠ none
  room : n ≤ (positional params).length ∨ ∃ p ∈ params, p.star = true

theorem fallback_eq_ok_iff {p : Param} : (∃ e, p.fallback = .ok e) ↔ p.default ≠ none := by
  unfold Param.fallback
  cases p.default <;> simp

theorem bindInOrder_eq_ok_iff {ps : List Param} {vs rest : List Value} :
    (∃ bound, bindInOrder ps vs = .ok (bound, rest)) ↔
      (∀ p ∈ ps.drop vs.length, p.default ≠ none) ∧ rest = vs.drop ps.length := by
  induction ps generalizing vs with
  | nil => simp [bindInOrder, eq_comm]
  | cons p ps ih =>
    cases vs with
    | cons v vs =>
      rw [List.length_cons, List.drop_succ_cons, List.length_cons, List.drop_succ_cons, ← ih]
      constructor
      · rintro ⟨bound, h⟩
        obtain ⟨⟨bound', rest'⟩, h', h⟩ := except_bind_eq_ok.mp h
        cases h
        exact ⟨bound', h'⟩
      · rintro ⟨bound, h⟩
        exact ⟨(p.name, v) :: bound, except_bind_eq_ok.mpr ⟨_, h, rfl⟩⟩
    | nil =>
      have htail : (∃ bound, bindInOrder ps [] = .ok (bound, rest)) ↔ _ := ih
      simp only [List.length_nil, List.drop_zero, List.drop_nil] at htail ⊢
      rw [List.forall_mem_cons, and_assoc, ← htail, ← fallback_eq_ok_iff]
      constructor
      · rintro ⟨bound, h⟩
        obtain ⟨first, hfirst, h⟩ := except_bind_eq_ok.mp h
        obtain ⟨⟨bound', rest'⟩, hrest, h⟩ := except_bind_eq_ok.mp h
        cases h
        exact ⟨⟨first, hfirst⟩, bound', hrest⟩
      · rintro ⟨⟨first, hfirst⟩, bound, hrest⟩
        exact ⟨first :: bound, except_bind_eq_ok.mpr
          ⟨first, hfirst, except_bind_eq_ok.mpr ⟨_, hrest, rfl⟩⟩⟩

theorem fallbacks_eq_ok_iff {ps : List Param} :
    (∃ named, ps.mapM Param.fallback = .ok named) ↔ ∀ p ∈ ps, p.default ≠ none := by
  induction ps with
  | nil => simp [pure, Except.pure]
  | cons p ps ih =>
    rw [List.forall_mem_cons, ← fallback_eq_ok_iff, ← ih, List.mapM_cons]
    constructor
    · rintro ⟨named, h⟩
      obtain ⟨first, hfirst, h⟩ := except_bind_eq_ok.mp h
      obtain ⟨rest, hrest, h⟩ := except_bind_eq_ok.mp h
      exact ⟨⟨first, hfirst⟩, rest, hrest⟩
    · rintro ⟨⟨first, hfirst⟩, rest, hrest⟩
      exact ⟨first :: rest, except_bind_eq_ok.mpr
        ⟨first, hfirst, except_bind_eq_ok.mpr ⟨rest, hrest, rfl⟩⟩⟩

/-- Arguments are bound exactly if they fit. -/
theorem bindValues_eq_ok_iff {params : List Param} {vs : List Value} :
    (∃ bound, bindValues params vs = .ok bound) ↔ Fits params vs.length := by
  have hnamed : (∃ named, (params.filter fun p ↦ !p.star && p.keywordOnly).mapM Param.fallback =
      .ok named) ↔ ∀ p ∈ params, p.star = false → p.keywordOnly = true → p.default ≠ none := by
    rw [fallbacks_eq_ok_iff]
    simp [List.mem_filter]
  constructor
  · rintro ⟨bound, h⟩
    obtain ⟨⟨inOrder, rest⟩, hinOrder, h⟩ := except_bind_eq_ok.mp h
    obtain ⟨named, hfallbacks, h⟩ := except_bind_eq_ok.mp h
    obtain ⟨hdefaults, rfl⟩ := bindInOrder_eq_ok_iff.mp ⟨_, hinOrder⟩
    refine ⟨hdefaults, hnamed.mp ⟨named, hfallbacks⟩, ?_⟩
    cases hstar : params.find? (·.star) with
    | some p => exact .inr ⟨p, List.mem_of_find?_eq_some hstar, List.find?_some hstar⟩
    | none =>
      -- without a parameter for the rest there is none
      cases hrest : vs.drop (positional params).length with
      | nil => exact .inl (List.drop_eq_nil_iff.mp hrest)
      | cons v rest =>
        rw [positional] at hrest
        simp only [hstar, hrest] at h
        cases h
  · rintro ⟨hdefaults, hkeywords, hroom⟩
    obtain ⟨inOrder, hinOrder⟩ := bindInOrder_eq_ok_iff.mpr ⟨hdefaults, rfl⟩
    obtain ⟨named, hfallbacks⟩ := hnamed.mpr hkeywords
    cases hstar : params.find? (·.star) with
    | some p =>
      refine ⟨inOrder ++ [(p.name, .tuple (vs.drop (positional params).length))] ++ named,
        except_bind_eq_ok.mpr ⟨_, hinOrder, except_bind_eq_ok.mpr ⟨named, hfallbacks, ?_⟩⟩⟩
      simp only [hstar]
      rfl
    | none =>
      refine ⟨inOrder ++ named,
        except_bind_eq_ok.mpr ⟨_, hinOrder, except_bind_eq_ok.mpr ⟨named, hfallbacks, ?_⟩⟩⟩
      rcases hroom with hroom | ⟨p, hp, hp'⟩
      · simp only [hstar, List.drop_eq_nil_iff.mpr hroom]
        rfl
      · exact absurd hp' (List.find?_eq_none.mp hstar p hp)

/-- As many documents as fit are bound. -/
theorem Fits.exists_bound {params : List Param} {args : List Json} (h : Fits params args.length) :
    ∃ bound, bindValues params (args.map Value.ofJson) = .ok bound := by
  rw [← List.length_map Value.ofJson] at h
  exact bindValues_eq_ok_iff.mpr h

/-! ## Names of the library -/

/-- What components have besides methods. -/
def libraryFields : List String := ["id", "slots", "state_fields", "component_name", "identifier"]

/-- What their class has because it is a class. -/
def classFields : List String := ["register", "mro"]

/-- Whether the classes of the library have a name. -/
def OfLibrary (name : String) : Prop :=
  name ∈ builtinNames true ∨ name ∈ libraryFields ∨ name ∈ classFields

theorem isReserved_iff {name : String} :
    isReserved name = true ↔ name.toList.head? = some '_' ∨ OfLibrary name := by
  have hnames : name ∈ reservedNames ↔ OfLibrary name := by
    simp only [reservedNames, OfLibrary, builtinNames, libraryFields, classFields, if_true,
      List.mem_append, List.mem_cons, List.not_mem_nil, or_false]
    tauto
  rw [isReserved, Bool.or_eq_true, beq_iff_eq, List.contains_iff_mem, hnames]

/-! ## Methods -/

/-- A method of a class that a call may name, with a number of arguments that fit. -/
structure Callable (cs : Classes) (cls : ClassId) (name : String) (n : Nat) (m : Method) : Prop where
  visible : name.toList.head? ≠ some '_'
  own : ¬ OfLibrary name
  /-- The first class that has the name has the method. -/
  first : ∃ newer c older, cs.ancestry cls = newer ++ c :: older ∧
    Table.get? c.attributes name = some (.member (.method m)) ∧
    ∀ k ∈ newer, Table.get? k.attributes name = none
  fits : Fits m.params n

theorem attribute?_eq_some_iff {cs : Classes} {cls : ClassId} {name : String} {a : Attribute} :
    cs.attribute? cls name = some a ↔ ∃ newer c older, cs.ancestry cls = newer ++ c :: older ∧
      Table.get? c.attributes name = some a ∧ ∀ k ∈ newer, Table.get? k.attributes name = none :=
  List.findSome?_eq_some_iff

theorem callable_iff {cs : Classes} {cls : ClassId} {name : String} {n : Nat} {m : Method} :
    Callable cs cls name n m ↔ isReserved name = false ∧
      cs.attribute? cls name = some (.member (.method m)) ∧ Fits m.params n := by
  rw [Bool.eq_false_iff, ne_eq, isReserved_iff, not_or, attribute?_eq_some_iff]
  constructor
  · rintro ⟨hvisible, hown, hfirst, hfits⟩
    exact ⟨⟨hvisible, hown⟩, hfirst, hfits⟩
  · rintro ⟨⟨hvisible, hown⟩, hfirst, hfits⟩
    exact ⟨hvisible, hown, hfirst, hfits⟩

/-- A name is that of one method. -/
theorem Callable.unique {cs : Classes} {cls : ClassId} {name : String} {n : Nat} {m m' : Method}
    (h : Callable cs cls name n m) (h' : Callable cs cls name n m') : m' = m := by
  obtain ⟨-, hm, -⟩ := callable_iff.mp h
  obtain ⟨-, hm', -⟩ := callable_iff.mp h'
  rw [hm] at hm'
  cases hm'
  rfl

end Component

namespace Remote

open Component

variable {registry : RegistryId} {call : RemoteCall} {payload : Json}
  {signature given : Option String} {name key : String} {id : ClassId} {w w' : World} {m : Method}

/-! ## The check of the method -/

theorem outcome_reject {α : Type} (d : Detail) (w : World) :
    outcome (reject d : Run α) w = (.error (.failure .badCall), { w with
      log := w.log ++ [.failed Failure.badCall.kind d] }) := rfl

/-- A method is looked for, and then the arguments are bound. -/
theorem checkedMethod_eq (hname : call.method = some name) (hne : name ≠ "") :
    checkedMethod id call = (do
      let m ← method id name
      match bindValues m.params (call.args.map Value.ofJson) with
      | .ok _ => return some m
      | .error _ =>
        Run.note (.callRejected .arguments)
        reject .other) := by
  unfold checkedMethod
  rw [hname]
  split
  · rename_i heq
    cases heq
  · rename_i heq
    exact absurd (Option.some.inj heq) hne
  · rename_i heq
    cases heq
    rfl

theorem outcome_method_of_attribute (hreserved : isReserved name = false)
    (hattribute : w.classes.attribute? id name = some (.member (.method m))) :
    outcome (method id name) w = (.ok m, w) := by
  rw [method, hreserved, if_neg Bool.false_ne_true, outcome_get_bind, hattribute]
  rfl

/-- What is found is a plain method under a name that is not reserved; otherwise the call is turned
down. -/
theorem outcome_method (id : ClassId) (name : String) (w : World) :
    (∃ m, isReserved name = false ∧
      w.classes.attribute? id name = some (.member (.method m)) ∧
      outcome (method id name) w = (.ok m, w)) ∨
    ∃ w', outcome (method id name) w = (.error (.failure .badCall), w') := by
  cases hreserved : isReserved name with
  | true =>
    right
    rw [method, hreserved, if_pos rfl]
    exact ⟨_, rfl⟩
  | false =>
    by_cases hattribute : ∃ m, w.classes.attribute? id name = some (.member (.method m))
    · obtain ⟨m, hattribute⟩ := hattribute
      exact .inl ⟨m, rfl, hattribute, outcome_method_of_attribute hreserved hattribute⟩
    · right
      rw [method, hreserved, if_neg Bool.false_ne_true, outcome_get_bind]
      split
      · rename_i m h
        exact absurd ⟨m, h⟩ hattribute
      · exact ⟨_, rfl⟩

/-- A method that a call may name is found, and the arguments fit. -/
theorem outcome_checkedMethod_of_callable (hname : call.method = some name) (hne : name ≠ "")
    (h : Callable w.classes id name call.args.length m) :
    outcome (checkedMethod id call) w = (.ok (some m), w) := by
  obtain ⟨hreserved, hattribute, hfits⟩ := callable_iff.mp h
  obtain ⟨bound, hbound⟩ := hfits.exists_bound
  rw [checkedMethod_eq hname hne,
    outcome_bind_of_ok (outcome_method_of_attribute hreserved hattribute), hbound]
  rfl

/-- Any other name and any other arguments are turned down. -/
theorem outcome_checkedMethod_of_not_callable (hname : call.method = some name) (hne : name ≠ "")
    (h : ∀ m, ¬ Callable w.classes id name call.args.length m) :
    ∃ w', outcome (checkedMethod id call) w = (.error (.failure .badCall), w') := by
  rw [checkedMethod_eq hname hne]
  rcases outcome_method id name w with ⟨m, hreserved, hattribute, hmethod⟩ | ⟨w', hmethod⟩
  · rw [outcome_bind_of_ok hmethod]
    cases hbound : bindValues m.params (call.args.map Value.ofJson) with
    | error e => exact ⟨_, rfl⟩
    | ok bound =>
      have hfits := bindValues_eq_ok_iff.mp ⟨bound, hbound⟩
      rw [List.length_map] at hfits
      exact absurd (callable_iff.mpr ⟨hreserved, hattribute, hfits⟩) (h m)
  · exact ⟨w', outcome_bind_of_error hmethod _⟩

/-! ## Calls that run a method -/

/-- A call comes to run a method of an object: it is accepted, and the object that is made for it has
its id and its data. -/
def Runs (registry : RegistryId) (call : RemoteCall) (signature given : Option String) (w : World)
    (o : ObjectId) (m : Method) (v : World) : Prop :=
  ∃ state w', outcome (accept registry call signature given) w = (.ok ⟨o, state, some m⟩, w') ∧
    outcome (applyData Dispatch.full o call state) w' = (.ok PUnit.unit, v)

/-- The answer of a call whose method has returned: what it returned as HTML, or else the new
state. -/
def answer (o : ObjectId) (result : Value) : Run CallResult := do
  Run.note .methodCalled
  if joinsMarkup (← get) result then return ⟨← textOf Dispatch.full result, .dict []⟩
  else newState Dispatch.full o

/-- The body of a method with values for its parameters, and what it returns. -/
def bodyOf (o : ObjectId) (m : Method) (bound : Table String Value) : Run Value := do
  m.body.forM (perform Dispatch.full ⟨some o, bound⟩)
  eval Dispatch.full ⟨some o, bound⟩ m.returns

theorem runMethod_eq_bodyOf {o : ObjectId} {vs : List Value} {bound : Table String Value}
    (h : bindValues m.params vs = .ok bound) :
    Component.runMethod Dispatch.full (some o) m vs = bodyOf o m bound := by
  rw [Component.runMethod, h]
  rfl

/-- The body of a method with values for its parameters, and the answer. -/
def runBody (o : ObjectId) (m : Method) (bound : Table String Value) : Run CallResult := do
  answer o (← bodyOf o m bound)

theorem runMethod_eq_runBody {o : ObjectId} {bound : Table String Value}
    (h : bindValues m.params (call.args.map Value.ofJson) = .ok bound) :
    runMethod Dispatch.full o call m = runBody o m bound := by
  rw [runMethod, runMethod_eq_bodyOf h]
  rfl

/-- A call that comes to run a method runs its body. -/
theorem Runs.outcome_handle {o : ObjectId} {v : World}
    (hcall : Schema.remoteCall .value payload = .good call)
    (h : Runs registry call signature given w o m v) :
    outcome (handle registry payload signature given) w =
      outcome (runMethod Dispatch.full o call m) v := by
  obtain ⟨state, w', haccept, happly⟩ := h
  rw [handle_eq hcall, outcome_bind_of_ok haccept, outcome_bind_of_ok happly]
  rfl

section Signed

variable {ms : List (String × Json)} {w₁ : World}
  (hkey : outcome (secret given) w = (.ok key, w))
  (hclass : outcome (componentClass registry call.component) w = (.ok id, w₁))
  (hread : Json.read call.snapshot = .ok (.obj ms))

include hkey hclass hread

/-- A signed call of a class that is found is accepted if its method is and its object is made. -/
theorem outcome_accept {x : Option Method} {o : ObjectId} {w₂ : World}
    (hmethod : outcome (checkedMethod id call) w₁ = (.ok x, w₁))
    (hmade : outcome (instantiate Dispatch.full id (Value.ofMembers ms)) w₁ = (.ok o, w₂)) :
    outcome (accept registry call (some (Component.sign key call.snapshot)) given) w =
      (.ok ⟨o, Value.ofMembers ms, x⟩, w₂) := by
  rw [accept, outcome_bind_of_ok (outcome_checkSignature_of_signed hkey), prepare,
    outcome_bind_of_ok hclass, outcome_bind_of_ok (outcome_props hread),
    outcome_bind_of_ok hmethod, outcome_bind_of_ok hmade]
  rfl

/-- If its method is not accepted, it is turned down before anything is made. -/
theorem outcome_handle_of_checkedMethod_error {e : Error} {w₂ : World}
    (hcall : Schema.remoteCall .value payload = .good call)
    (hmethod : outcome (checkedMethod id call) w₁ = (.error e, w₂)) :
    outcome (handle registry payload (some (Component.sign key call.snapshot)) given) w =
        (.error e, w₂) ∧
      w₂.heap = w.heap := by
  have hchecks : outcome (checks registry payload (some (Component.sign key call.snapshot)) given) w =
      (.error e, w₂) := by
    rw [checks, hcall]
    dsimp only
    rw [outcome_bind_of_ok (outcome_checkSignature_of_signed hkey), outcome_bind_of_ok hclass,
      outcome_bind_of_ok (outcome_props hread)]
    exact outcome_bind_of_error hmethod _
  exact ⟨outcome_handle_of_checks_error hchecks, heap_checks.of_outcome hchecks⟩

end Signed

/-- A signed call of a component that names a method runs exactly the methods that may be called.  If
there is none of the name with parameters for the arguments, the call is turned down and nothing has
been made; if there is one and the object takes the id and the data, the body of this very method
runs, with its parameters bound. -/
theorem runs_iff_callable (hcall : Schema.remoteCall .value payload = .good call)
    (hname : call.method = some name) (hne : name ≠ "")
    (hkey : outcome (secret given) w = (.ok key, w))
    (hclass : outcome (componentClass registry call.component) w = (.ok id, w'))
    {ms : List (String × Json)} (hread : Json.read call.snapshot = .ok (.obj ms)) :
    ((∀ m, ¬ Callable w'.classes id name call.args.length m) → ∃ v,
      outcome (handle registry payload (some (Component.sign key call.snapshot)) given) w =
        (.error (.failure .badCall), v) ∧ v.heap = w.heap) ∧
    ∀ o w₂ v, outcome (instantiate Dispatch.full id (Value.ofMembers ms)) w' = (.ok o, w₂) →
      outcome (applyData Dispatch.full o call (Value.ofMembers ms)) w₂ = (.ok PUnit.unit, v) →
      (∀ m, (∃ o v, Runs registry call (some (Component.sign key call.snapshot)) given w o m v) ↔
        Callable w'.classes id name call.args.length m) ∧
      ∀ m, Callable w'.classes id name call.args.length m → ∃ bound,
        bindValues m.params (call.args.map Value.ofJson) = .ok bound ∧
        outcome (handle registry payload (some (Component.sign key call.snapshot)) given) w =
          outcome (runBody o m bound) v ∧
        ∀ m', Callable w'.classes id name call.args.length m' → m' = m := by
  refine ⟨fun hnone ↦ ?_, fun o w₂ v hmade happlied ↦ ⟨fun m ↦ ⟨?_, fun hm ↦ ?_⟩, fun m hm ↦ ?_⟩⟩
  · obtain ⟨w₂, hmethod⟩ := outcome_checkedMethod_of_not_callable hname hne hnone
    exact ⟨w₂, outcome_handle_of_checkedMethod_error hkey hclass hread hcall hmethod⟩
  · rintro ⟨o', v', state, u, haccept, -⟩
    by_cases hnone : ∀ m, ¬ Callable w'.classes id name call.args.length m
    · -- a call whose method is turned down is not accepted
      obtain ⟨w₂, hmethod⟩ := outcome_checkedMethod_of_not_callable hname hne hnone
      rw [accept, outcome_bind_of_ok (outcome_checkSignature_of_signed hkey), prepare,
        outcome_bind_of_ok hclass, outcome_bind_of_ok (outcome_props hread),
        outcome_bind_of_error hmethod] at haccept
      cases haccept
    · push Not at hnone
      obtain ⟨m', hm'⟩ := hnone
      rw [outcome_accept hkey hclass hread (outcome_checkedMethod_of_callable hname hne hm') hmade]
        at haccept
      cases haccept
      exact hm'
  · exact ⟨o, v, _, w₂,
      outcome_accept hkey hclass hread (outcome_checkedMethod_of_callable hname hne hm) hmade,
      happlied⟩
  · have hruns : Runs registry call (some (Component.sign key call.snapshot)) given w o m v :=
      ⟨_, w₂, outcome_accept hkey hclass hread
        (outcome_checkedMethod_of_callable hname hne hm) hmade, happlied⟩
    obtain ⟨bound, hbound⟩ := hm.fits.exists_bound
    refine ⟨bound, hbound, ?_, fun m' ↦ hm.unique⟩
    rw [hruns.outcome_handle hcall, runMethod_eq_runBody hbound]

/-! ## A tally -/

/-- The method that adds a number, one if none is given, and lets all further arguments be. -/
def adding : Method where
  params := [⟨"by", some (.int 1), false, false, ""⟩, ⟨"rest", none, true, false, ""⟩]
  body := [.add "count" (.arg "by")]
  returns := .lit .null

/-- A class of components with a count. -/
def counting : Component.Class where
  name := "Counting"
  qualifiedName := "Counting"
  module := "icecube_compiled_app_Tally"
  base := .ice
  params := some [⟨"count", none, false, false, "count"⟩]
  init := []
  attributes := [("state_fields", .value (.tuple [.text "count"])),
    ("render", .render (.node "div" [] [])), ("add", .member (.method adding)),
    ("reset", .member (.method ⟨[], [.set "count" (.lit (.int 0))], .lit .null⟩))]

/-- A class that inherits from it, and has a value in place of one of its methods. -/
def tally : Component.Class where
  name := "Tally"
  qualifiedName := "Tally"
  module := "icecube_compiled_app_Tally"
  base := .class 0
  params := none
  init := []
  attributes := [("component_name", .value (.text "app_Tally")), ("reset", .member (.value .null))]

def tallyRecord : Record :=
  .cached ⟨"app.Tally", "app_Tally", "tally.py", "out/app_Tally", none, none, "0123abcd"⟩

/-- The classes are loaded. -/
def tallyRoom : World :=
  { World.start (.empty []) ⟨none, some "key"⟩ with
    registries := [("main",
      ⟨[("app.Tally", tallyRecord)], [("app_Tally", "app.Tally")], [("app.Tally", 1)], []⟩)]
    classes := [counting, tally] }

/-- The state of a tally that stands at one. -/
def atOne : Json := .obj [("count", .int 1)]

def tallyCall (method : String) (args : List Json) : RemoteCall :=
  ⟨"a", "app_Tally", atOne.compact, some method, args, []⟩

def tallyPayload (method : String) (args : List Json) : Json :=
  .obj [("id", .str "a"), ("component", .str "app_Tally"), ("snapshot", .str atOne.compact),
    ("method", .str method), ("args", .arr args)]

/-- The tally is made, and has its id. -/
def tallyMade : World :=
  { tallyRoom with objects := [⟨1, [("count", .int 1), ("_id", .text "a")]⟩] }

/-- The method that is inherited runs, with an argument more than it has names for.  The one that has
a value in its place is not called. -/
theorem tally_runs_what_it_inherits :
    (∃ o v bound, Runs "main" (tallyCall "add" [.int 2, .null])
        (some (Component.sign "key" atOne.compact)) none tallyRoom o adding v ∧
      bindValues adding.params [.int 2, .none] = .ok bound ∧
      outcome (handle "main" (tallyPayload "add" [.int 2, .null])
        (some (Component.sign "key" atOne.compact)) none) tallyRoom =
          outcome (runBody 0 adding bound) tallyMade) ∧
    ∃ v, outcome (handle "main" (tallyPayload "reset" [])
        (some (Component.sign "key" atOne.compact)) none) tallyRoom =
      (.error (.failure .badCall), v) := by
  have hread : Json.read atOne.compact = .ok (.obj [("count", .int 1)]) :=
    Json.read_write ⟨.ascii, .oneLine⟩ atOne
  have hkey : outcome (secret none) tallyRoom = (.ok "key", tallyRoom) := rfl
  have hclass : outcome (componentClass "main" "app_Tally") tallyRoom = (.ok 1, tallyRoom) := rfl
  have hadd : Callable tallyRoom.classes 1 "add" 2 adding :=
    callable_iff.mpr ⟨by decide, rfl, by decide, by decide, .inr ⟨_, .tail _ (.head _), rfl⟩⟩
  have hreset : ∀ m, ¬ Callable tallyRoom.classes 1 "reset" 0 m := by
    intro m hm
    obtain ⟨-, hattribute, -⟩ := callable_iff.mp hm
    cases hattribute
  refine ⟨?_, ?_⟩
  · have hcall : Schema.remoteCall .value (tallyPayload "add" [.int 2, .null]) =
      .good (tallyCall "add" [.int 2, .null]) := rfl
    obtain ⟨-, hruns⟩ := runs_iff_callable hcall rfl (by decide) hkey hclass hread
    obtain ⟨hiff, hbody⟩ := hruns 0 { tallyRoom with objects := [⟨1, [("count", .int 1)]⟩] }
      tallyMade rfl rfl
    obtain ⟨o, v, hadding⟩ := (hiff adding).mpr hadd
    obtain ⟨bound, hbound, hhandle, -⟩ := hbody adding hadd
    exact ⟨o, v, bound, hadding, hbound, hhandle⟩
  · have hcall : Schema.remoteCall .value (tallyPayload "reset" []) =
      .good (tallyCall "reset" []) := rfl
    obtain ⟨hnone, -⟩ := runs_iff_callable hcall rfl (by decide) hkey hclass hread
    obtain ⟨v, hv, -⟩ := hnone hreset
    exact ⟨v, hv⟩

end Remote

end IceCube
