import IceCube.Proofs.Registry.Reachable

/-!
# Classes that stay loaded

A registry remembers the class that it has loaded for an identifier.  Building never touches what is
remembered, and resolving an identifier writes to it last of all: by then the record has been found
or compiled and its code has run, so nothing can fail any more.  A class that is remembered is given
out as it is until it is loaded anew by force.
-/

namespace IceCube

open Step

variable {home other : RegistryId} {i j : String} {force : Bool} {w w' v : World} {id : ClassId}

/-- The class that a registry remembers for an identifier. -/
def World.remembered? (w : World) (home : RegistryId) (i : String) : Option ClassId :=
  Table.get? (w.registry home).loaded i

/-! ## What leaves classes alone -/

/-- All registries remember what they have remembered. -/
def World.Remembers (w v : World) : Prop :=
  ∀ home, (v.registry home).loaded = (w.registry home).loaded

instance : IsPreorder World World.Remembers where
  refl _ _ := rfl
  trans _ _ _ huv hvw home := (hvw home).trans (huv home)

namespace World.Remembers

theorem remembered? (h : w.Remembers v) (home : RegistryId) (i : String) :
    v.remembered? home i = w.remembered? home i := by
  rw [World.remembered?, World.remembered?, h home]

theorem of_registries_eq (h : v.registries = w.registries) : w.Remembers v := by
  intro home
  rw [World.registry, World.registry, h]

end World.Remembers

theorem built_loaded : Built (Same Registry.loaded) where
  register h := by
    obtain ⟨-, rfl⟩ := Registry.register_eq_ok_iff.mp h
    rfl
  attach r c := by
    unfold Registry.attach
    split <;> rfl

theorem remembers_build {α : Type} {step : Build α}
    (h : Moves (Workspace.Relate (Same Registry.loaded)) step) :
    Moves World.Remembers (Run.build home step) := by
  intro w other
  rw [Run.outcome_build, World.registry_withWorkspace]
  split
  · rename_i heq
    rw [← heq]
    exact h (w.workspace home)
  · rfl

theorem remembers_record (home : RegistryId) (i : String) (force : Bool) :
    Moves World.Remembers (Resolve.record home i force) := by
  refine moves_bind moves_get fun w ↦ ?_
  dsimp only
  split
  · exact moves_pure _
  · split
    · exact moves_bind (remembers_build (built_loaded.moves_compileIdentifier _ i)) fun _ ↦
        moves_pure _
    · exact moves_pure _

theorem remembers_load (record : Record) : Moves World.Remembers (Resolve.load record) :=
  (Resolve.moves_load record).mono fun _ _ h ↦ .of_registries_eq (congrArg Prod.fst h)

/-! ## Resolving -/

/-- An identifier is resolved afresh: its record is found or compiled, its class is loaded from there
and remembered last. -/
def Resolve.afresh (home : RegistryId) (i : String) (force : Bool) : Run ClassId := do
  match ← record home i force with
  | none => Run.fail (.componentNotFound i)
  | some record =>
    let id ← load record
    Run.changeRegistry home (·.setLoaded i id)
    return id

theorem outcome_resolve (home : RegistryId) (i : String) (force : Bool) (w : World) :
    outcome (Resolve.resolve home i force) w = match w.remembered? home i, force with
      | some id, false => (.ok id, w)
      | _, _ => outcome (Resolve.afresh home i force) w := by
  rw [Resolve.resolve, outcome_get_bind, World.remembered?]
  cases Table.get? (w.registry home).loaded i <;> cases force <;> rfl

/-- A class that is remembered is given out, and nothing else is done. -/
theorem outcome_resolve_of_remembered (h : w.remembered? home i = some id) :
    outcome (Resolve.resolve home i false) w = (.ok id, w) := by
  rw [outcome_resolve, h]

/-- What is remembered once a class is remembered for an identifier. -/
theorem remembered?_setLoaded (w : World) (home other : RegistryId) (i j : String) (id : ClassId) :
    (outcome (Run.changeRegistry home (·.setLoaded i id)) w).2.remembered? other j =
      if home = other ∧ i = j then some id else w.remembered? other j := by
  rw [World.remembered?, World.registry_changeRegistry]
  by_cases hhome : home = other
  · subst hhome
    rw [if_pos rfl, Registry.setLoaded, Table.get?_insert]
    simp only [true_and, World.remembered?]
  · simp only [hhome, false_and, if_false, World.remembered?]

/-- An error leaves everything remembered as it was.  A class is remembered, in place of what was
remembered for the identifier, and nothing else changes. -/
def World.Learns (w : World) (home : RegistryId) (i : String) : Except Error ClassId → World → Prop
  | .error _, v => w.Remembers v
  | .ok id, v => ∀ other j, v.remembered? other j =
      if home = other ∧ i = j then some id else w.remembered? other j

/-- A class is remembered only when nothing can fail any more. -/
theorem learns_afresh {x : Except Error ClassId}
    (h : outcome (Resolve.afresh home i force) w = (x, v)) : w.Learns home i x v := by
  rw [Resolve.afresh, outcome_bind] at h
  rcases hrecord : outcome (Resolve.record home i force) w with ⟨e | record?, s⟩
  · rw [hrecord] at h
    cases h
    exact (remembers_record home i force).of_outcome hrecord
  · have hkept := (remembers_record home i force).of_outcome hrecord
    rw [hrecord] at h
    cases record? with
    | none =>
      cases h
      exact hkept
    | some record =>
      dsimp only at h
      rw [outcome_bind] at h
      rcases hload : outcome (Resolve.load record) s with ⟨e | id, u⟩
      · rw [hload] at h
        cases h
        exact IsTrans.trans _ _ _ hkept ((remembers_load record).of_outcome hload)
      · have hkept' : w.Remembers u :=
          IsTrans.trans _ _ _ hkept ((remembers_load record).of_outcome hload)
        rw [hload] at h
        cases h
        intro other j
        rw [← hkept'.remembered? other j]
        exact remembered?_setLoaded u home other i j id

theorem learns_resolve {x : Except Error ClassId}
    (h : outcome (Resolve.resolve home i force) w = (x, v)) : w.Learns home i x v := by
  rw [outcome_resolve] at h
  split at h
  · rename_i id hremembered
    cases h
    intro other j
    split
    · rename_i heq
      rw [← heq.1, ← heq.2, hremembered]
    · rfl
  · exact learns_afresh h

/-! ## Runs -/

/-- Requests and outside changes lead from one world to another, and the class of an identifier is
not loaded anew: no request to load it by force ends well. -/
inductive Unforced (home : RegistryId) (i : String) : World → World → Prop where
  | refl (w : World) : Unforced home i w w
  | request {w v : World} (h : Unforced home i w v) (q : Request)
      (hq : q = .resolve home i true → ∃ e, (outcome q.run v).1 = .error e) :
      Unforced home i w (outcome q.run v).2
  | elsewhere {w v u : World} (h : Unforced home i w v) (hu : u.registries = v.registries) :
      Unforced home i w u

/-- What is asked of a registry but classes leaves all classes remembered. -/
theorem remembers_request {q : Request} (hq : ∀ home i force, q ≠ .resolve home i force) :
    Moves World.Remembers q.run := by
  cases q <;> simp only [Request.run]
  case register home i record =>
    exact remembers_build (Built.moves_changeRegistry fun _ _ ↦ built_loaded.register)
  case setUp c => exact remembers_build (built_loaded.moves_setUp c)
  case compile c i source =>
    exact moves_bind (remembers_build (built_loaded.moves_compile c i source)) fun _ ↦ moves_pure _
  case compileIdentifier c i =>
    exact moves_bind (remembers_build (built_loaded.moves_compileIdentifier c i)) fun _ ↦
      moves_pure _
  case scan c =>
    exact moves_bind (remembers_build (built_loaded.moves_scan c)) fun _ ↦ moves_pure _
  case storeCache home p styles =>
    exact moves_bind (remembers_build (Built.of_same (Registry.moves_storeCache p styles))) fun _ ↦
      moves_pure _
  case loadCache home p =>
    exact moves_bind (remembers_build (built_loaded.moves_loadCache p)) fun _ ↦ moves_pure _
  case resolve home i force => exact absurd rfl (hq home i force)

/-- A class stays remembered through every request but one that loads it anew by force. -/
theorem remembered?_request {q : Request} (hw : w.remembered? home i = some id)
    (hq : q = .resolve home i true → ∃ e, (outcome q.run w).1 = .error e) :
    (outcome q.run w).2.remembered? home i = some id := by
  by_cases hresolve : ∃ other j force, q = .resolve other j force
  · obtain ⟨other, j, force, rfl⟩ := hresolve
    rcases h : outcome (Resolve.resolve other j force) w with ⟨e | id', v⟩
    · have hrun : outcome (Request.run (.resolve other j force)) w = (.error e, v) := by
        rw [Request.run, outcome_bind_of_error h]
      rw [hrun, (learns_resolve h).remembered?, hw]
    · have hrun : outcome (Request.run (.resolve other j force)) w = (.ok (), v) := by
        rw [Request.run, outcome_bind_of_ok h, outcome_pure]
      rw [hrun, learns_resolve h home i]
      split
      · rename_i heq
        obtain ⟨rfl, rfl⟩ := heq
        cases force with
        | false =>
          rw [outcome_resolve_of_remembered hw] at h
          cases h
          rfl
        | true =>
          obtain ⟨e, he⟩ := hq rfl
          rw [hrun] at he
          cases he
      · exact hw
  · have hkept := remembers_request (fun other j force heq ↦ hresolve ⟨other, j, force, heq⟩) w
    rwa [hkept.remembered?]

theorem Unforced.remembered? (h : Unforced home i w v) (hw : w.remembered? home i = some id) :
    v.remembered? home i = some id := by
  induction h with
  | refl => exact hw
  | request _ q hq ih => exact remembered?_request ih hq
  | elsewhere _ hu ih => rwa [(World.Remembers.of_registries_eq hu).remembered?]

/-- A class that an identifier was resolved to is what it is resolved to from then on, with nothing
else done and whatever the files hold, as long as it is not loaded anew by force.  An error on the
way leaves all classes remembered as they were. -/
theorem resolved_class_stays :
    (∀ home i force w id w' v, outcome (Resolve.resolve home i force) w = (.ok id, w') →
      Unforced home i w' v → outcome (Resolve.resolve home i false) v = (.ok id, v)) ∧
    ∀ home i force w e w', outcome (Resolve.resolve home i force) w = (.error e, w') →
      ∀ other j, w'.remembered? other j = w.remembered? other j := by
  constructor
  · intro home i force w id w' v h hrun
    have hremembered := learns_resolve h home i
    rw [if_pos ⟨rfl, rfl⟩] at hremembered
    exact outcome_resolve_of_remembered (hrun.remembered? hremembered)
  · intro home i force w e w' h
    exact (learns_resolve h).remembered?

/-! ## A card that stays -/

/-- The code of a card. -/
def shelvedCode : String := "define(r'''\x7b\"class\": \"Card\"\x7d''')"

/-- A card is registered, and its code is there. -/
def shelf : World :=
  (outcome (Request.register "main" "app.Card"
    (.cached ⟨"app.Card", "app_Card", "card.py", "card", none, none, "0123abcd"⟩)).run
    (.start ((FileTree.empty []).set ["card.py"]
      (.file (Utf8.encode shelvedCode) FileTree.fileMode 0)) ⟨none, none⟩)).2

/-- The card is loaded and its files are lost.  It cannot be loaded anew then, and it is still
there. -/
theorem lost_card_stays_loaded : ∃ id w e v,
    outcome (Resolve.resolve "main" "app.Card" false) shelf = (.ok id, w) ∧
    outcome (Resolve.resolve "main" "app.Card" true) { w with files := .empty [] } = (.error e, v) ∧
    outcome (Resolve.resolve "main" "app.Card" false) v = (.ok id, v) ∧
    v.remembered? "main" "app.Card" = w.remembered? "main" "app.Card" := by
  have hruns : (outcome (do
      let id ← Resolve.resolve "main" "app.Card" false
      modify fun w ↦ { w with files := .empty [] }
      match (outcome (Resolve.resolve "main" "app.Card" true) (← get)).1 with
      | .ok _ => throw .mismatch
      | .error _ => return id) shelf).1.toOption.isSome = true := by
    decide +kernel
  obtain ⟨_, _, hrun, -⟩ := exists_outcome_eq_ok (P := fun _ ↦ True) hruns trivial
  obtain ⟨id, w, hload, hrun⟩ := outcome_bind_eq_ok.mp hrun
  rw [outcome_modify_bind, outcome_get_bind] at hrun
  rcases hforced : outcome (Resolve.resolve "main" "app.Card" true) { w with files := .empty [] }
    with ⟨e | id', v⟩
  · have herror : outcome (Request.resolve "main" "app.Card" true).run { w with files := .empty [] } =
        (.error e, v) := by
      rw [Request.run, outcome_bind_of_error hforced]
    have hlost : Unforced "main" "app.Card" w { w with files := .empty [] } :=
      .elsewhere (.refl w) rfl
    have hafter := hlost.request (.resolve "main" "app.Card" true) fun _ ↦ ⟨e, by rw [herror]⟩
    rw [herror] at hafter
    obtain ⟨hstays, hkept⟩ := resolved_class_stays
    exact ⟨id, w, e, v, hload, hforced, hstays _ _ _ _ _ _ _ hload hafter,
      hkept _ _ _ _ _ _ hforced _ _⟩
  · rw [hforced] at hrun
    cases hrun

end IceCube
