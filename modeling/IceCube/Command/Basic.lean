import IceCube.Boot
import IceCube.Command.Message

/-!
# Commands

A command works on the files and prints lines.  What it has written and printed stays when it ends
in an error.
-/

namespace IceCube

/-- What a command works on: the files and variables that it is given, the lines that it has printed
and the log. -/
structure Console where
  files : FileTree
  environment : Environment
  output : List String
  log : List Event
deriving Repr, Inhabited

/-- A step of a command. -/
abbrev Command := ExceptT Error (StateM Console)

namespace Command

/-- The console of a process that has printed nothing. -/
def start (files : FileTree) (environment : Environment) : Console := ⟨files, environment, [], []⟩

/-- A line is printed. -/
def say (line : String) : Command Unit := modify fun c ↦ { c with output := c.output ++ [line] }

/-- Something has worked. -/
def success (message : String) : Command Unit := say ("✓ " ++ message)

/-- Something has not worked. -/
def trouble (message : String) : Command Unit := say ("✗ " ++ message)

/-- Something is left out. -/
def warning (message : String) : Command Unit := say ("⚠ " ++ message)

/-- Building in a registry of its own.  The result comes with the registry after it. -/
def build {α : Type} (registry : Registry) (step : Build α) : Command (α × Registry) := do
  let c ← get
  let (result, w) := step.run ⟨c.files, registry, c.log⟩
  set { c with files := w.files, log := w.log }
  match result with
  | .ok a => return (a, w.registry)
  | .error e => throw e

/-- A step on the files that may be a fault. -/
def onFiles (change : FileTree → Except Fault FileTree) : Command Unit := do
  match change (← get).files with
  | .ok files => modify fun c ↦ { c with files }
  | .error f => throw (.fault f)

/-- A step whose failures end the command with their messages. -/
def reporting {α : Type} (step : Command α) : Command α :=
  tryCatch step fun e ↦
    match e with
    | .failure f => throw (ofFailure f)
    | e => throw e

/-- The message for what keeps a configuration file from being loaded.  Faults of the files have
none. -/
def loadMessage (file : String) : Error → Error
  | .yaml e => ofYaml file (Path.ofText file).text e
  | .invalid issues => ofIssues file issues
  | .failure f => ofFailure f
  | e => e

/-- The configurations of a file. -/
def loadConfig (file : String) : Command Config := do
  let path := Path.ofText file
  let c ← get
  if !c.files.pathExists path then throw (fileNotFound file)
  else
    match Config.load c.files c.environment path with
    | .ok config => return config
    | .error e => throw (loadMessage file e)

/-- The configurations of a file, or the one of a name. -/
def selected (file : String) (name : Option String) : Command (Table String CompilerConfig) := do
  match (← loadConfig file).select name with
  | .ok configurations => return configurations
  | .error f => throw (ofFailure f)

end Command

end IceCube
