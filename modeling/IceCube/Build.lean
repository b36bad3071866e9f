import IceCube.Event
import IceCube.FileTree.Directory
import IceCube.FileTree.Replace
import IceCube.Registry.Basic

/-!
# Building

Compiling and caching work on the files, on one registry and on the log.  What they have done stays
done when they end in an error.
-/

namespace IceCube

/-- What building works on. -/
structure Workspace where
  files : FileTree
  registry : Registry
  log : List Event
deriving Repr, Inhabited

/-- A step of building. -/
abbrev Build := ExceptT Error (StateM Workspace)

namespace Build

/-- An event is logged. -/
def note (e : Event) : Build Unit := modify fun w ↦ { w with log := w.log ++ [e] }

/-- A failure without details. -/
def fail {α : Type} (f : Failure) : Build α := throw (.failure f)

/-- A failure with details for the log. -/
def failWith {α : Type} (f : Failure) (d : Detail) : Build α := do
  note (.failed f.kind d)
  fail f

/-- A result that may be a fault of the files. -/
def ofFault {α : Type} : Except Fault α → Build α
  | .ok a => return a
  | .error f => throw (.fault f)

/-- The content of a file. -/
def read (p : Path) : Build Bytes := do ofFault ((← get).files.read p)

/-- A directory for compiled output is there. -/
def ensureDirectory (p : Path) : Build Unit := do
  let files ← ofFault ((← get).files.ensureDirectory p)
  modify fun w ↦ { w with files }

/-- A file holds a text.  The result says whether it had to be written. -/
def writeIfChanged (p : Path) (text : String) : Build Bool := do
  let (result, files) := (← get).files.writeIfChanged FileTree.undisturbed p (Utf8.encode text)
  modify fun w ↦ { w with files }
  ofFault result

/-- The registry after a change that may fail. -/
def changeRegistry (change : Registry → Except Failure Registry) : Build Unit := do
  match change (← get).registry with
  | .ok registry => modify fun w ↦ { w with registry }
  | .error f => fail f

end Build

end IceCube
