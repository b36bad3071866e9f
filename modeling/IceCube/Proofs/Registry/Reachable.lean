import IceCube.Proofs.Frame
import IceCube.Proofs.Registry.Loading

/-!
# Reachable registries

A process asks for registrations, compilations, caches and classes in any order.  What it asks for
can end in an error, and between two requests files, environment and objects can change in any way.
A property of registries that the empty one has and that every way of changing a registry keeps
holds of all registries at all times.
-/

namespace IceCube

open Step

/-- What can be asked of the registries of a process. -/
inductive Request where
  | register (home : RegistryId) (identifier : String) (record : Record)
  | setUp (c : Compiler)
  | compile (c : Compiler) (identifier : String) (source : Path)
  | compileIdentifier (c : Compiler) (identifier : String)
  | scan (c : Compiler)
  | storeCache (home : RegistryId) (p : Path) (includeStyles : Bool)
  | loadCache (home : RegistryId) (p : Path)
  | resolve (home : RegistryId) (identifier : String) (force : Bool)
deriving Repr

/-- What is done for a request.  Compilers register into registries of their own choice. -/
def Request.run : Request → Run Unit
  | .register home i record => Run.build home (Build.changeRegistry (·.register i record))
  | .setUp c => Run.build c.home c.setUp
  | .compile c i source => do let _ ← Run.build c.home (c.compile i source)
  | .compileIdentifier c i => do let _ ← Run.build c.home (c.compileIdentifier i)
  | .scan c => do let _ ← Run.build c.home c.scan
  | .storeCache home p styles => do let _ ← Run.build home (Registry.storeCache p styles)
  | .loadCache home p => do let _ ← Run.build home (Registry.loadCache p)
  | .resolve home i force => do let _ ← Resolve.resolve home i force

/-- The worlds that requests lead to, whichever way each of them ends.  Elsewhere everything but the
registries can change. -/
inductive Reachable : World → Prop where
  | start (files : FileTree) (environment : Environment) : Reachable (.start files environment)
  | request {w : World} (h : Reachable w) (q : Request) : Reachable (outcome q.run w).2
  | elsewhere {w v : World} (h : Reachable w) (hv : v.registries = w.registries) : Reachable v

/-! ## Building -/

/-- A relation between registries that every change by building makes. -/
structure Built (R : Registry → Registry → Prop) : Prop where
  register : ∀ {r r' : Registry} {i : String} {record : Record},
    r.register i record = .ok r' → R r r'
  attach : ∀ (r : Registry) (c : Compiler), R r (r.attach c)

/-- The registries of two workspaces are related. -/
def Workspace.Relate (R : Registry → Registry → Prop) (s t : Workspace) : Prop :=
  R s.registry t.registry

instance (R : Registry → Registry → Prop) [IsPreorder Registry R] :
    IsPreorder Workspace (Workspace.Relate R) where
  refl s := refl (r := R) s.registry
  trans _ _ _ hst htu := IsTrans.trans (r := R) _ _ _ hst htu

namespace Built

variable {R : Registry → Registry → Prop} [IsPreorder Registry R]

theorem of_same {α : Type} {m : Build α}
    (h : Moves (Same Workspace.registry) m) : Moves (Workspace.Relate R) m :=
  h.mono fun s t hst ↦ by
    rw [Workspace.Relate, show t.registry = s.registry from hst]
    exact refl s.registry

theorem moves_changeRegistry {change : Registry → Except Failure Registry}
    (h : ∀ r r', change r = .ok r' → R r r') :
    Moves (Workspace.Relate R) (Build.changeRegistry change) := by
  refine moves_get_bind fun s ↦ ?_
  cases hc : change s.registry with
  | ok r => exact h _ _ hc
  | error f => exact refl s.registry

variable (hR : Built R)
include hR

theorem registerAll {cs : List CachedComponent} {r r' : Registry} (h : r.registerAll cs = .ok r') :
    R r r' := by
  induction cs generalizing r with
  | nil => cases h; exact refl _
  | cons c cs ih =>
    rw [Registry.registerAll_cons] at h
    cases hc : r.register c.identifier (.cached c) with
    | error f => simp [hc, Except.bind] at h
    | ok r₁ => exact IsTrans.trans _ _ _ (hR.register hc) (ih (by simpa [hc, Except.bind] using h))

theorem moves_setUp (c : Compiler) : Moves (Workspace.Relate R) c.setUp :=
  moves_bind (of_same (Compiler.moves_ensureOutputs c)) fun _ ↦
    moves_modify fun s ↦ hR.attach s.registry c

theorem moves_compile (c : Compiler) (i : String) (source : Path) :
    Moves (Workspace.Relate R) (c.compile i source) := by
  refine moves_bind (of_same (Compiler.moves_readSource source)) fun text ↦
    moves_bind (of_same (Compiler.moves_readScript source)) fun script ↦ ?_
  split
  · exact moves_throw _
  · refine moves_bind moves_get fun s ↦ ?_
    split
    · exact moves_throw _
    · exact moves_bind (of_same (Compiler.moves_store c _)) fun compiled ↦
        moves_bind (moves_changeRegistry fun _ _ ↦ hR.register) fun _ ↦
          moves_bind (of_same (Build.moves_note _)) fun _ ↦ moves_pure compiled

theorem moves_compileIdentifier (c : Compiler) (i : String) :
    Moves (Workspace.Relate R) (c.compileIdentifier i) := by
  unfold Compiler.compileIdentifier
  split
  · exact moves_throw _
  · refine moves_bind moves_get fun s ↦ ?_
    split
    · exact hR.moves_compile c i _
    · exact of_same (Build.moves_failWith _ _)

theorem moves_scan (c : Compiler) : Moves (Workspace.Relate R) c.scan :=
  moves_bind (of_same (Compiler.moves_ensureOutputs c)) fun _ ↦
    moves_bind moves_get fun _ ↦
      moves_bind (moves_mapM fun _ _ ↦ hR.moves_compile c _ _) fun compiled ↦
        moves_bind (of_same (Build.moves_note _)) fun _ ↦ moves_pure compiled

theorem moves_loadCache (p : Path) : Moves (Workspace.Relate R) (Registry.loadCache p) := by
  refine moves_bind moves_get fun s ↦ ?_
  split
  · exact moves_bind (of_same (Build.moves_note _)) fun _ ↦ moves_pure _
  · refine moves_bind moves_get fun s ↦ ?_
    split
    · exact moves_bind (of_same (Build.moves_note _)) fun _ ↦ moves_pure _
    · exact moves_bind (moves_changeRegistry fun _ _ ↦ hR.registerAll) fun _ ↦
        moves_bind (of_same (Build.moves_note _)) fun _ ↦ moves_pure _

end Built

/-! ## Properties that are kept -/

/-- A property of registries that every change keeps. -/
structure Kept (P : Registry → Prop) : Prop where
  register : ∀ {r r' : Registry} {i : String} {record : Record},
    P r → r.register i record = .ok r' → P r'
  attach : ∀ {r : Registry} (c : Compiler), P r → P (r.attach c)
  setLoaded : ∀ {r : Registry} (i : String) (c : ClassId), P r → P (r.setLoaded i c)

/-- A property that the empty registry has as well. -/
structure Lasting (P : Registry → Prop) : Prop extends Kept P where
  empty : P .empty

namespace Kept

variable {P : Registry → Prop} (hP : Kept P)
include hP

theorem built : Built (Keeps P) where
  register h hr := hP.register hr h
  attach _ c hr := hP.attach c hr

theorem registerAll {cs : List CachedComponent} {r r' : Registry} (hr : P r)
    (h : r.registerAll cs = .ok r') : P r' := hP.built.registerAll h hr

theorem moves_setUp (c : Compiler) : Moves (Keeps fun s ↦ P s.registry) c.setUp :=
  hP.built.moves_setUp c

theorem moves_compileIdentifier (c : Compiler) (i : String) :
    Moves (Keeps fun s ↦ P s.registry) (c.compileIdentifier i) :=
  hP.built.moves_compileIdentifier c i

theorem moves_scan (c : Compiler) : Moves (Keeps fun s ↦ P s.registry) c.scan :=
  hP.built.moves_scan c

theorem moves_loadCache (p : Path) :
    Moves (Keeps fun s ↦ P s.registry) (Registry.loadCache p) := hP.built.moves_loadCache p

/-! ## Worlds -/

variable (home : RegistryId)

omit hP in
/-- Building keeps a property of every registry that it keeps of the one that it works on. -/
theorem moves_build {α : Type} {id : RegistryId} {step : Build α}
    (h : Moves (Keeps fun s ↦ P s.registry) step) :
    Moves (Keeps fun w : World ↦ P (w.registry home)) (Run.build id step) := by
  intro w hw
  rw [Run.outcome_build, World.registry_withWorkspace]
  split
  · rename_i hid
    exact h (w.workspace id) (hid ▸ hw)
  · exact hw

omit hP in
theorem moves_changeRegistries {id : RegistryId} {change : Registry → Registry}
    (h : ∀ r, P r → P (change r)) :
    Moves (Keeps fun w : World ↦ P (w.registry home)) (Run.changeRegistry id change) := by
  intro w hw
  rw [World.registry_changeRegistry]
  split
  · rename_i hid
    exact h _ (hid ▸ hw)
  · exact hw

omit hP in
theorem moves_of_same {α : Type} {m : Run α} (h : Moves (Same World.registries) m) :
    Moves (Keeps fun w : World ↦ P (w.registry home)) m :=
  h.keeps fun rs ↦ P ((Table.get? rs home).getD .empty)

theorem moves_record (id : RegistryId) (i : String) (force : Bool) :
    Moves (Keeps fun w : World ↦ P (w.registry home)) (Resolve.record id i force) := by
  refine moves_bind moves_get fun w ↦ ?_
  dsimp only
  split
  · exact moves_pure _
  · split
    · exact moves_bind (moves_build home (hP.moves_compileIdentifier _ i)) fun _ ↦ moves_pure _
    · exact moves_pure _

theorem moves_resolve (id : RegistryId) (i : String) (force : Bool) :
    Moves (Keeps fun w : World ↦ P (w.registry home)) (Resolve.resolve id i force) := by
  refine moves_bind moves_get fun w ↦ ?_
  split
  · exact moves_pure _
  · refine moves_bind (hP.moves_record home id i _) fun record ↦ ?_
    split
    · exact moves_throw _
    · have hload (r : Record) : Moves (Same World.registries) (Resolve.load r) :=
        (Resolve.moves_load r).mono fun _ _ h ↦ congrArg Prod.fst h
      exact moves_bind (moves_of_same home (hload _)) fun c ↦
        moves_bind (moves_changeRegistries home fun _ ↦ hP.setLoaded i c) fun _ ↦ moves_pure c

theorem moves_request (q : Request) :
    Moves (Keeps fun w : World ↦ P (w.registry home)) q.run := by
  cases q <;> simp only [Request.run]
  case register id i record =>
    exact moves_build home (Built.moves_changeRegistry (R := Keeps P) fun _ _ ↦ hP.built.register)
  case setUp c => exact moves_build home (hP.moves_setUp c)
  case compile c i source =>
    exact moves_bind (moves_build home (hP.built.moves_compile c i source)) fun _ ↦ moves_pure _
  case compileIdentifier c i =>
    exact moves_bind (moves_build home (hP.moves_compileIdentifier c i)) fun _ ↦ moves_pure _
  case scan c => exact moves_bind (moves_build home (hP.moves_scan c)) fun _ ↦ moves_pure _
  case storeCache id p styles =>
    exact moves_bind (moves_build home ((Registry.moves_storeCache p styles).keeps P)) fun _ ↦
      moves_pure _
  case loadCache id p =>
    exact moves_bind (moves_build home (hP.moves_loadCache p)) fun _ ↦ moves_pure _
  case resolve id i force =>
    exact moves_bind (hP.moves_resolve home id i force) fun _ ↦ moves_pure _

end Kept

/-- A lasting property holds of every registry of a reachable world. -/
theorem Lasting.of_reachable {P : Registry → Prop} (hP : Lasting P) {w : World} (hw : Reachable w)
    (home : RegistryId) : P (w.registry home) := by
  induction hw with
  | start files environment => exact hP.empty
  | request _ q ih => exact hP.moves_request home q _ ih
  | elsewhere _ hv ih =>
    rw [World.registry, hv]
    exact ih

end IceCube
