import IceCube.Proofs.Step
import IceCube.Proofs.Table
import IceCube.Registry.Store
import IceCube.Resolve

/-!
# Steps that leave registries alone

Of the steps of building only a change of the registry reaches the registry, and of the steps of a
process only building and remembering loaded classes reach the registries, and only building the
files.  All others are collected here.
-/

namespace IceCube

open Step

/-! ## Building -/

namespace Build

theorem moves_note (e : Event) : Moves (Same Workspace.registry) (note e) :=
  moves_modify fun _ ↦ rfl

theorem moves_fail {α : Type} (f : Failure) : Moves (Same Workspace.registry) (fail f : Build α) :=
  moves_throw _

theorem moves_failWith {α : Type} (f : Failure) (d : Detail) :
    Moves (Same Workspace.registry) (failWith f d : Build α) :=
  moves_bind (moves_note _) fun _ ↦ moves_fail f

theorem moves_ofFault {α : Type} (r : Except Fault α) :
    Moves (Same Workspace.registry) (ofFault r) := by
  cases r with
  | ok a => exact moves_pure a
  | error f => exact moves_throw _

theorem moves_read (p : Path) : Moves (Same Workspace.registry) (read p) :=
  moves_bind moves_get fun _ ↦ moves_ofFault _

theorem moves_ensureDirectory (p : Path) : Moves (Same Workspace.registry) (ensureDirectory p) :=
  moves_bind moves_get fun _ ↦ moves_bind (moves_ofFault _) fun _ ↦ moves_modify fun _ ↦ rfl

theorem moves_writeIfChanged (p : Path) (text : String) :
    Moves (Same Workspace.registry) (writeIfChanged p text) :=
  moves_bind moves_get fun _ ↦ moves_bind (moves_modify fun _ ↦ rfl) fun _ ↦ moves_ofFault _

end Build

namespace Compiler

open Build

theorem moves_ensureOutputs (c : Compiler) : Moves (Same Workspace.registry) c.ensureOutputs :=
  moves_bind (moves_ensureDirectory _) fun _ ↦ moves_ensureDirectory _

theorem moves_readSource (p : Path) : Moves (Same Workspace.registry) (readSource p) := by
  refine moves_bind (moves_read p) fun bytes ↦ ?_
  cases Utf8.decode bytes with
  | some text => exact moves_pure text
  | none => exact moves_failWith _ _

theorem moves_readScript (p : Path) : Moves (Same Workspace.registry) (readScript p) :=
  moves_bind moves_get fun _ ↦ moves_pure _

theorem moves_store (c : Compiler) (p : ParsedComponent) :
    Moves (Same Workspace.registry) (c.store p) := by
  refine moves_bind (moves_ensureOutputs c) fun _ ↦ ?_
  cases c.assemble p with
  | none => exact moves_failWith _ _
  | some compiled =>
    exact moves_bind (moves_writeIfChanged _ _) fun _ ↦
      moves_bind (moves_writeIfChanged _ _) fun _ ↦
        moves_bind (moves_writeIfChanged _ _) fun _ ↦ moves_pure compiled

end Compiler

theorem Registry.moves_storeCache (p : Path) (includeStyles : Bool) :
    Moves (Same Workspace.registry) (storeCache p includeStyles) :=
  moves_bind moves_get fun _ ↦ moves_bind (Build.moves_ensureDirectory _) fun _ ↦
    moves_bind (Build.moves_writeIfChanged _ _) fun _ ↦
      moves_bind (Build.moves_note _) fun _ ↦ moves_pure p

/-! ## Building in one registry of a process -/

theorem Run.outcome_build {α : Type} (id : RegistryId) (step : Build α) (w : World) :
    outcome (Run.build id step) w = ((outcome step (w.workspace id)).1,
      w.withWorkspace id (outcome step (w.workspace id)).2) := by
  rcases h : outcome step (w.workspace id) with ⟨e | a, s⟩
  · have hrun : step.run (w.workspace id) = (.error e, s) := h
    rw [Run.build, outcome_get_bind, hrun]
    rfl
  · have hrun : step.run (w.workspace id) = (.ok a, s) := h
    rw [Run.build, outcome_get_bind, hrun]
    rfl

theorem World.registry_withWorkspace (w : World) (id id' : RegistryId) (s : Workspace) :
    (w.withWorkspace id s).registry id' = if id = id' then s.registry else w.registry id' := by
  rw [World.registry, World.withWorkspace, Table.get?_insert]
  split <;> rfl

theorem World.registry_changeRegistry (w : World) (id id' : RegistryId)
    (change : Registry → Registry) : (outcome (Run.changeRegistry id change) w).2.registry id' =
      if id = id' then change (w.registry id) else w.registry id' := by
  rw [Run.changeRegistry, outcome_modify, World.registry, Table.get?_insert]
  split <;> rfl

/-! ## Running component code -/

/-- What running code leaves alone: all but the classes and the log. -/
def World.outside (w : World) : FileTree × Environment × Table RegistryId Registry ×
    List Instance × List Element × Table String Component.Value × Nat :=
  (w.files, w.environment, w.registries, w.objects, w.elements, w.named, w.issued)

/-- The registries and the files of a process. -/
def World.stored (w : World) : Table RegistryId Registry × FileTree := (w.registries, w.files)

namespace Run

theorem outside_note (e : Event) : Moves (Same World.outside) (note e) :=
  moves_modify fun _ ↦ rfl

theorem outside_failWith {α : Type} (f : Failure) (d : Detail) :
    Moves (Same World.outside) (failWith f d : Run α) :=
  moves_bind (outside_note _) fun _ ↦ moves_throw _

theorem outside_newClass (c : Component.Class) : Moves (Same World.outside) (newClass c) :=
  moves_get_bind fun _ ↦ rfl

theorem outside_setClassAttribute (id : ClassId) (name : String) (v : Component.Value) :
    Moves (Same World.outside) (setClassAttribute id name v) :=
  moves_modify fun _ ↦ rfl

end Run

namespace Component

open Run

theorem outside_scope_base (scope : Scope) (b : Base String) :
    Moves (Same World.outside) (scope.base b) := by
  cases b with
  | object | component | single | ice => exact moves_pure _
  | «class» name =>
    simp only [Scope.base]
    split
    · exact moves_pure _
    · exact moves_throw _

theorem outside_execute (module : String) (scope : Scope) (s : Statement) :
    Moves (Same World.outside) (execute module scope s) := by
  cases s with
  | fail kind message => exact moves_throw _
  | define d =>
    cases d with
    | value name v => exact moves_pure _
    | «class» spec =>
      exact moves_bind (outside_scope_base scope _) fun _ ↦
        moves_bind (outside_newClass _) fun _ ↦ moves_pure _

theorem outside_runModule (module : String) (code : List Statement) :
    Moves (Same World.outside) (runModule module code) :=
  moves_foldlM (fun scope e _ ↦ outside_execute module scope e) []

end Component

namespace Resolve

open Run

theorem outside_readCode (record : Record) (p : Path) :
    Moves (Same World.outside) (readCode record p) := by
  refine moves_bind moves_get fun w ↦ ?_
  split
  · exact moves_pure _
  · exact outside_failWith _ _
  · exact moves_throw _

theorem outside_load (record : Record) : Moves (Same World.outside) (load record) := by
  refine moves_bind (outside_readCode record _) fun code ↦
    moves_bind (Component.outside_runModule _ _) fun scope ↦ ?_
  dsimp only
  split
  · exact moves_bind (outside_setClassAttribute _ _ _) fun _ ↦
      moves_bind (outside_setClassAttribute _ _ _) fun _ ↦ moves_pure _
  · split
    · exact moves_throw _
    · exact outside_failWith _ _

theorem moves_load (record : Record) : Moves (Same World.stored) (load record) := by
  refine (outside_load record).mono fun w v h ↦ ?_
  simp only [Same, World.outside, World.stored, Prod.mk.injEq] at h ⊢
  exact ⟨h.2.2.1, h.1⟩

end Resolve

end IceCube
