import IceCube.FileTree.Basic

/-!
# Replacing a file as a whole

A file that does not hold its content yet is replaced in four steps: a temporary file is made beside
it, filled, given its permission bits and renamed over the target.  A step can be interrupted by a
fault, and part of the content may be in the temporary file by then; the temporary file is then
removed.  So whoever reads the target sees the old content or the new one, and nothing between.
-/

namespace IceCube.FileTree

/-- A step of replacing a file. -/
inductive ReplaceStep where
  /-- The target is read, to see whether it has to be replaced at all. -/
  | compare
  | create
  | fill
  | setMode
  | rename
deriving DecidableEq, Repr

/-- What is put where, and under which location until it is complete. -/
structure Draft where
  target : Location
  temporary : Location
  content : Bytes
deriving DecidableEq, Repr

/-- What keeps a step from its end: a fault, and how many bytes the temporary file had got by then. -/
structure Interruption where
  fault : Fault
  filled : Nat
deriving DecidableEq, Repr

/-- The tree with the first bytes of the content in the temporary file. -/
def Draft.filling (d : Draft) (t : FileTree) (n : Nat) : FileTree :=
  { t with clock := t.clock + 1 }.set d.temporary (.file (d.content.take n) privateMode t.clock)

/-- The tree after a step. -/
def ReplaceStep.run (d : Draft) (t : FileTree) : ReplaceStep → FileTree
  | .compare => t
  | .create => t.set d.temporary (.file [] privateMode t.clock)
  | .fill => { t with clock := t.clock + 1 }.set d.temporary (.file d.content privateMode t.clock)
  | .setMode => match t.at? d.temporary with
    | some (.file content _ modified) => t.set d.temporary (.file content fileMode modified)
    | _ => t
  | .rename => match t.at? d.temporary with
    | some n => (t.drop d.temporary).set d.target n
    | none => t

/-- The tree after a step that was interrupted.  All steps but filling are done at once or not at
all. -/
def ReplaceStep.cut (d : Draft) (t : FileTree) (filled : Nat) : ReplaceStep → FileTree
  | .fill => d.filling t filled
  | _ => t

/-- The steps that replace the target, in their order. -/
def replaceSteps : List ReplaceStep := [.create, .fill, .setMode, .rename]

/-- Steps one after the other, up to the first that is interrupted. -/
def perform (interrupt : ReplaceStep → Option Interruption) (d : Draft) :
    List ReplaceStep → FileTree → Option Fault × FileTree
  | [], t => (none, t)
  | step :: steps, t =>
    match interrupt step with
    | some i => (some i.fault, step.cut d t i.filled)
    | none => perform interrupt d steps (step.run d t)

/-- The target replaced, or the fault and the tree without the temporary file. -/
def replace (interrupt : ReplaceStep → Option Interruption) (d : Draft) (t : FileTree) :
    Option Fault × FileTree :=
  match perform interrupt d replaceSteps t with
  | (none, t) => (none, t)
  | (some fault, t) => (some fault, t.drop d.temporary)

/-- A name for a temporary file beside a target. -/
def temporaryName (name : String) (n : Nat) : String :=
  "." ++ name ++ "." ++ toString n ++ ".tmp"

/-- A location beside the target where there is nothing. -/
def temporaryFor (t : FileTree) (target : Location) : Location :=
  let beside (n : Nat) : Location := target.dropLast ++ [temporaryName (target.getLastD "") n]
  beside (((List.range (t.nodes.length + 1)).find? fun n ↦ (t.at? (beside n)).isNone).getD 0)

/-- What has to be put where for a file to hold the given content, none where it holds that
already. -/
def draft? (interrupt : ReplaceStep → Option Interruption) (t : FileTree) (p : Path)
    (content : Bytes) : Except Fault (Option Draft) :=
  match interrupt .compare, t.locate p with
  | some i, _ => .error i.fault
  | none, .error fault => .error fault
  | none, .ok target =>
    let draft : Draft := ⟨target, t.temporaryFor target, content⟩
    match t.at? target, t.at? target.dropLast with
    | some (.file old ..), _ => .ok (if old = content then none else some draft)
    | some (.directory _), _ => .error ⟨.isADirectory, p.text⟩
    | none, some _ => .ok (some draft)
    | none, none => .error ⟨.notFound, p.text⟩

/-- The file at a path with the given content, and whether it had to be written: a file that already
holds the content is left alone. -/
def writeIfChanged (interrupt : ReplaceStep → Option Interruption) (t : FileTree) (p : Path)
    (content : Bytes) : Except Fault Bool × FileTree :=
  match t.draft? interrupt p content with
  | .error fault => (.error fault, t)
  | .ok none => (.ok false, t)
  | .ok (some d) =>
    match replace interrupt d t with
    | (none, t) => (.ok true, t)
    | (some fault, t) => (.error fault, t)

/-- Steps that nothing interrupts. -/
def undisturbed : ReplaceStep → Option Interruption := fun _ ↦ none

end IceCube.FileTree
