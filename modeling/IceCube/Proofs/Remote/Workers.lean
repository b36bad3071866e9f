import Mathlib.Logic.Relation
import IceCube.Proofs.Boot.Provided
import IceCube.Proofs.Registry.Defined
import IceCube.Proofs.Remote.Constructing

/-!
# Workers of one configuration

Registries that are booted from one configuration compile and load components on their own, each when
it is asked to.  As long as the sources of a component stay, all of them load the same code for it, at
whatever time and from whichever record.  And what a registry knows it goes on to know.
-/

namespace IceCube

open Step Component

namespace Resolve

variable {i code : String} {cs cs' : Classes} {c c' : Nat}

/-- A class is the one that the code of a component defines. -/
structure Comes (i code : String) (cs : Classes) (c : Nat) : Prop where
  lt : c < cs.length
  defined : ∃ xs k, Defines (Identifier.flatten i) i (Text.unify code) xs k ∧
    cs.lineage c = xs.lineage k

theorem Comes.append (h : Comes i code cs c) (hcs : cs.Grounded) (ys : Classes) :
    Comes i code (cs ++ ys) c where
  lt := Nat.lt_of_lt_of_le h.lt (by simp)
  defined := by
    obtain ⟨xs, k, hdefines, hlineage⟩ := h.defined
    refine ⟨xs, k, hdefines, (hcs.lineage_eq le_rfl (fun n hn ↦ ?_) h.lt).trans hlineage⟩
    exact List.getElem?_append_left hn

/-- The code of a component defines one class. -/
theorem Comes.lineage_eq (h : Comes i code cs c) (h' : Comes i code cs' c') :
    cs'.lineage c' = cs.lineage c := by
  obtain ⟨xs, k, hdefines, hlineage⟩ := h.defined
  obtain ⟨xs', k', hdefines', hlineage'⟩ := h'.defined
  obtain ⟨rfl, rfl⟩ := hdefines.unique hdefines'
  rw [hlineage, hlineage']

/-- What is defined behind other classes. -/
theorem Defines.comes {xs : Classes} {k : Nat}
    (h : Defines (Identifier.flatten i) i (Text.unify code) xs k) (cs : Classes) :
    Comes i code (cs ++ xs.map (Class.shift cs.length)) (cs.length + k) where
  lt := by simpa using h.grounded.2
  defined := ⟨xs, k, h, Classes.lineage_append_shift h.grounded.1 cs h.grounded.2⟩

end Resolve

namespace Config

variable {config : Config} {i j code : String} {t : FileTree} {w v : World} {record : Record}
  {home : RegistryId}

/-- The code of a component is read from the path of its record. -/
theorem Leads.readText (h : config.Leads i code t record)
    (hsound : ∀ e ∈ config.compilers, e.2.Sound) :
    Config.readText t (Path.ofText record.compiledCodePath) = .ok (Text.unify code) := by
  obtain ⟨e, he, hpath, hread⟩ := h.code
  have hproper : (e.2.codePath i).Proper := Compiler.proper_code (hsound e he).compiledCodeDir _
  rw [hpath, hproper.ofText_text]
  exact Config.readText_eq_ok_iff.mpr ⟨_, _, hread, Utf8.decode_encode code, rfl⟩

/-- The files of a process provide the code of a component, and all its registries know it by that
code at most. -/
structure Serves (config : Config) (i code : String) (w : World) : Prop where
  provides : config.Provides i code w.files
  faithful : ∀ home, config.Faithful i code w.files (w.registry home)
  loaded : ∀ home c, Table.get? (w.registry home).loaded i = some c →
    Resolve.Comes i code w.classes c
  grounded : w.classes.Grounded
  objects : ∀ inst ∈ w.objects, inst.classId < w.classes.length

/-! ## Building -/

theorem serves_build {α : Type} {step : Build α} (h : Moves (config.Steady i code) step)
    (home : RegistryId) : Moves (Keeps (config.Serves i code)) (Run.build home step) := by
  intro w hw
  have hsteady := h (w.workspace home)
  obtain ⟨hprovides, hread, -⟩ := hsteady.files hw.provides
  rw [Run.outcome_build]
  refine ⟨hprovides, fun home' ↦ ?_, fun home' c hc ↦ ?_, hw.grounded, hw.objects⟩
  · rw [World.registry_withWorkspace]
    split
    · exact hsteady.registry hw.provides (hw.faithful home)
    · exact (hw.faithful home').upholds hread
  · rw [World.registry_withWorkspace] at hc
    split at hc
    · rw [hsteady.loaded hw.provides] at hc
      exact hw.loaded home c hc
    · exact hw.loaded home' c hc

/-! ## Resolving -/

/-- More classes, and nothing else. -/
theorem Serves.append (hw : config.Serves i code w) {cs : Classes} (hcs : cs.Grounded)
    (hstored : v.stored = w.stored) (hheap : v.heap = w.heap)
    (hclasses : v.classes = w.classes ++ cs.map (Class.shift w.classes.length)) :
    config.Serves i code v := by
  obtain ⟨hregistries, hfiles⟩ := Prod.mk.injEq .. ▸ hstored
  obtain ⟨hobjects, -⟩ := Prod.mk.injEq .. ▸ hheap
  have hregistry (home : RegistryId) : v.registry home = w.registry home := by
    rw [World.registry, World.registry, hregistries]
  refine ⟨hfiles ▸ hw.provides, fun home ↦ ?_, fun home c hc ↦ ?_, ?_, fun inst hinst ↦ ?_⟩
  · rw [hregistry, hfiles]
    exact hw.faithful home
  · rw [hregistry] at hc
    rw [hclasses]
    exact (hw.loaded home c hc).append hw.grounded _
  · rw [hclasses]
    exact hw.grounded.append_shift hcs
  · rw [hobjects] at hinst
    rw [hclasses, List.length_append]
    exact Nat.lt_add_right _ (hw.objects inst hinst)

theorem serves_load (record : Record) : Moves (Keeps (config.Serves i code)) (Resolve.load record) := by
  intro w hw
  obtain ⟨cs, hcs, hclasses⟩ := Resolve.exists_classes_load record w
  exact hw.append hcs (Resolve.moves_load record w) (Resolve.heap_load record w) hclasses

/-- A component is loaded where its code defines its class. -/
theorem Leads.outcome_load_eq_ok_iff (h : config.Leads i code w.files record)
    (hsound : ∀ e ∈ config.compilers, e.2.Sound) {c : Nat} :
    outcome (Resolve.load record) w = (.ok c, v) ↔
      ∃ cs k, Resolve.Defines (Identifier.flatten i) i (Text.unify code) cs k ∧
        c = w.classes.length + k ∧
        v = w.withClasses (w.classes ++ cs.map (Class.shift w.classes.length)) := by
  rw [Resolve.outcome_load_eq_ok_iff, h.readText hsound, h.componentName, h.identifier]
  constructor
  · rintro ⟨_, cs, k, ⟨⟩, hdefines⟩
    exact ⟨cs, k, hdefines⟩
  · rintro ⟨cs, k, hdefines⟩
    exact ⟨_, cs, k, rfl, hdefines⟩

theorem serves_setLoaded {c : Nat} (hc : j = i → Resolve.Comes i code w.classes c)
    (hw : config.Serves i code w) :
    config.Serves i code (outcome (Run.changeRegistry home (·.setLoaded j c)) w).2 := by
  refine ⟨hw.provides, fun home' ↦ ?_, fun home' c' hc' ↦ ?_, hw.grounded, hw.objects⟩
  · rw [World.registry_changeRegistry]
    split
    · exact (hw.faithful home).setLoaded j c
    · exact hw.faithful home'
  · rw [World.registry_changeRegistry] at hc'
    split at hc'
    · rw [Registry.setLoaded, Table.get?_insert] at hc'
      split_ifs at hc' with hj
      · cases hc'
        exact hc hj
      · exact hw.loaded home c' hc'
    · exact hw.loaded home' c' hc'

section Resolving

variable (hsound : ∀ e ∈ config.compilers, e.2.Sound) (hj : '/' ∉ j.toList)
include hsound hj

theorem serves_record (home : RegistryId) (force : Bool) :
    Moves (Keeps (config.Serves i code)) (Resolve.record home j force) := by
  refine moves_get_bind fun w hw ↦ ?_
  dsimp only
  split
  · exact hw
  · split
    · rename_i c hc
      obtain ⟨e, he, hconfig⟩ := (hw.faithful home).compilers c (List.mem_of_find?_eq_some hc)
      rw [hconfig]
      exact moves_bind (serves_build (steady_compileIdentifier (hsound e he) he hj) _)
        (fun _ ↦ moves_pure _) w hw
    · exact hw

/-- The record that a component is loaded from leads to its code. -/
theorem leads_of_record (hw : config.Serves i code w) (hi : j = i) {force : Bool}
    (h : outcome (Resolve.record home j force) w = (.ok (some record), v)) :
    config.Leads i code v.files record := by
  have hv := (serves_record hsound hj home force).of_outcome h hw
  subst hi
  rw [Resolve.record, outcome_get_bind] at h
  dsimp only at h
  split at h
  · cases h
    exact (hw.faithful home).record _ ‹_›
  · split at h
    · rename_i c hc
      obtain ⟨e, he, hconfig⟩ := (hw.faithful home).compilers c (List.mem_of_find?_eq_some hc)
      obtain ⟨r, u, hbuild, hend⟩ := outcome_bind_eq_ok.mp h
      cases hend
      refine (hv.faithful c.home).record _ ?_
      rw [Run.outcome_build] at hbuild
      obtain ⟨hr, rfl⟩ := Prod.mk.inj hbuild
      rw [World.registry_withWorkspace, if_pos rfl]
      refine Compiler.get?_of_compileIdentifier ?_ ?_ (Prod.ext hr rfl)
      · rw [hconfig]
        exact (hsound e he).compiledCodeDir
      · rw [hconfig]
        exact (hsound e he).compiledAssetsDir
    · obtain ⟨hr, rfl⟩ := Prod.mk.inj h
      exact (hw.faithful home).record record (Except.ok.inj hr)

/-- Resolving an identifier, whichever way it ends. -/
theorem serves_resolve (home : RegistryId) (force : Bool) :
    Moves (Keeps (config.Serves i code)) (Resolve.resolve home j force) := by
  refine moves_bind moves_get fun _ ↦ ?_
  split
  · exact moves_pure _
  · rename_i force _ _ _
    intro w hw
    have hv := serves_record hsound hj home force w hw
    rw [outcome_bind]
    rcases hrecord : outcome (Resolve.record home j force) w with ⟨e | r, v⟩ <;> rw [hrecord] at hv
    · exact hv
    · cases r with
      | none => exact hv
      | some record =>
        have hu := serves_load record v hv
        dsimp only
        rw [outcome_bind]
        rcases hload : outcome (Resolve.load record) v with ⟨e | c, u⟩ <;> rw [hload] at hu
        · exact hu
        · dsimp only
          rw [outcome_bind]
          refine serves_setLoaded (fun hi ↦ ?_) hu
          obtain ⟨cs, k, hdefines, rfl, rfl⟩ :=
            ((leads_of_record hsound hj hw hi hrecord).outcome_load_eq_ok_iff hsound).mp hload
          exact hdefines.comes v.classes

end Resolving

/-! ## Histories -/

/-- One thing after which the code of a component is as it was: a registry is booted, an identifier
is resolved, or something else happens that leaves registries and classes alone. -/
inductive Happens (config : Config) (i code : String) : World → World → Prop where
  | boot {w v : World} {home : RegistryId} {production : Bool}
      {x : Except Error (Table String Compiler)}
      (h : outcome (Run.build home (Boot.boot home production config)) w = (x, v)) :
      Happens config i code w v
  | resolve {w v : World} {home : RegistryId} {j : String} {force : Bool} {x : Except Error ClassId}
      (h : outcome (Resolve.resolve home j force) w = (x, v)) (hj : '/' ∉ j.toList) :
      Happens config i code w v
  | elsewhere {w v : World} (hregistries : v.registries = w.registries)
      (hclasses : v.classes = w.classes)
      (hobjects : ∀ inst ∈ v.objects, inst.classId < v.classes.length)
      (hprovides : config.Provides i code v.files)
      (hread : ∀ e ∈ config.compilers, w.files.read (e.2.codePath i) = .ok (Utf8.encode code) →
        v.files.read (e.2.codePath i) = .ok (Utf8.encode code)) : Happens config i code w v

/-- One such thing after the other. -/
def Later (config : Config) (i code : String) : World → World → Prop :=
  Relation.ReflTransGen (config.Happens i code)

/-- A process that has started with files that provide the code of a component. -/
def Working (config : Config) (i code : String) (w : World) : Prop :=
  ∃ files environment, config.Provides i code files ∧
    config.Later i code (.start files environment) w

section Histories

variable (hsound : ∀ e ∈ config.compilers, e.2.Sound)
include hsound

theorem Happens.serves (h : config.Happens i code w v) (hw : config.Serves i code w) :
    config.Serves i code v := by
  cases h with
  | boot h => exact (serves_build (Boot.steady_boot hsound _ _) _).of_outcome h hw
  | resolve h hj => exact (serves_resolve hsound hj _ _).of_outcome h hw
  | elsewhere hregistries hclasses hobjects hprovides hread =>
    have hregistry (home : RegistryId) : v.registry home = w.registry home := by
      rw [World.registry, World.registry, hregistries]
    refine ⟨hprovides, fun home ↦ ?_, fun home c hc ↦ ?_, hclasses ▸ hw.grounded, hobjects⟩
    · rw [hregistry]
      exact (hw.faithful home).upholds hread
    · rw [hregistry] at hc
      exact hclasses ▸ hw.loaded home c hc

theorem Working.serves (h : config.Working i code w) : config.Serves i code w := by
  obtain ⟨files, environment, hprovides, hlater⟩ := h
  induction hlater with
  | refl =>
    exact ⟨hprovides, fun _ ↦ faithful_empty _, nofun, nofun, nofun⟩
  | tail _ hhappens ih => exact hhappens.serves hsound ih

omit hsound in
/-- What a registry knows it goes on to know. -/
theorem Later.knows (h : config.Later i code v w) {home : RegistryId}
    (hv : (v.registry home).Knows j) : (w.registry home).Knows j := by
  have hkept := Registry.knows_kept j
  induction h with
  | refl => exact hv
  | tail _ hhappens ih =>
    cases hhappens with
    | boot h =>
      exact (Kept.moves_build (P := fun r ↦ r.Knows j) home
        (Boot.keeps_boot hkept _ _ config)).of_outcome h ih
    | resolve h => exact (hkept.moves_resolve home _ _ _).of_outcome h ih
    | elsewhere hregistries =>
      rw [World.registry, hregistries]
      exact ih

end Histories

end Config

end IceCube
