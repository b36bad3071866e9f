import IceCube.Command.Invocation

/-!
# The command line

The files that a command can touch are read from disk, the command is carried out on them, and what
it has changed is written back.
-/

namespace IceCube.Main

open Command (Invocation)

/-- How a location is written. -/
def textOf (l : Location) : String := "/" ++ "/".intercalate l

/-- A location on disk. -/
def onDisk (l : Location) := do return (← IO.currentDir) / textOf l

/-- The node at a location is read from disk, if there is one. -/
def addNode (t : FileTree) (l : Location) : IO FileTree := do
  let place ← onDisk l
  if ← place.isDir then return t.set l (.directory FileTree.parentMode)
  else if ← place.pathExists then
    let content ← IO.FS.readBinFile place
    return t.set l (.file content.toList FileTree.fileMode 0)
  else return t

/-- The node at a location and those above it are read. -/
def addPath (t : FileTree) (l : Location) : IO FileTree :=
  (List.range (l.length + 1)).foldlM (fun t n ↦ addNode t (l.take n)) t

/-- The names in a directory on disk. -/
def namesIn (l : Location) : IO (List String) := do
  let place ← onDisk l
  if ← place.isDir then return ((← place.readDir).map fun e ↦ e.fileName).toList else return []

/-- A directory and the nodes directly in it are read. -/
def addDirectory (t : FileTree) (l : Location) : IO FileTree := do
  let t ← addPath t l
  (← namesIn l).foldlM (fun t name ↦ addNode t (l ++ [name])) t

/-- A directory and all that is below it are read. -/
partial def addTree (t : FileTree) (l : Location) : IO FileTree := do
  let t ← addPath t l
  (← namesIn l).foldlM (fun t name ↦ addTree t (l ++ [name])) t

/-- What a command touches: single paths, directories that it looks into, and directories of which
it can reach everything. -/
structure Footprint where
  paths : List Path
  directories : List Path
  trees : List Path

/-- What compiling touches. -/
def ofConfig (c : Config) : Footprint where
  paths := c.compilers.values.filterMap CompilerConfig.cacheFile
  directories := c.compilers.values.flatMap fun c ↦
    [c.sourceDir, c.compiledCodeDir, c.compiledAssetsDir]
  trees := []

/-- What a footprint covers is read. -/
def addFootprint (t : FileTree) (f : Footprint) : IO FileTree := do
  let locate (p : Path) : Location := (t.resolve p).parts
  let t ← f.paths.foldlM (fun t p ↦ addPath t (locate p)) t
  let t ← f.directories.foldlM (fun t p ↦ addDirectory t (locate p)) t
  f.trees.foldlM (fun t p ↦ addTree t (locate p)) t

/-- The console of a command, with the files that it touches. -/
def consoleFor (t : FileTree) (environment : Environment) (i : Invocation) : IO Console := do
  match i with
  | .version => return Command.start t environment
  | .exportSchema _ output =>
    return Command.start (← addFootprint t ⟨[Path.ofText output], [], []⟩) environment
  | .pack config _ manifest _ =>
    let path := Path.ofText manifest
    let t ← addFootprint t ⟨[Path.ofText config], [], [path.parent]⟩
    return Command.start t environment
  | .compile config _ =>
    let t ← addFootprint t ⟨[Path.ofText config], [], []⟩
    match Config.load t environment (Path.ofText config) with
    | .ok c => return Command.start (← addFootprint t (ofConfig c)) environment
    | .error _ => return Command.start t environment

/-- Access rights from three permission bits. -/
def rightsOf (bits : Nat) : IO.AccessRight where
  read := bits / 4 % 2 == 1
  write := bits / 2 % 2 == 1
  execution := bits % 2 == 1

/-- Access rights from all permission bits. -/
def allRights (mode : Nat) : IO.FileRight where
  user := rightsOf (mode / 64)
  group := rightsOf (mode / 8)
  other := rightsOf mode

/-- A node of the changed tree is written, if it is new or its content is. -/
def writeBack (old : FileTree) (e : Location × Node) : IO Unit := do
  let place ← onDisk e.1
  match e.2 with
  | .directory mode =>
    if (old.at? e.1).isNone then
      IO.FS.createDir place
      IO.setAccessRights place (allRights mode)
  | .file content mode modified =>
    if modified ≠ 0 then
      IO.FS.writeBinFile place ⟨content.toArray⟩
      IO.setAccessRights place (allRights mode)

/-- The changed nodes are written, directories before what is in them. -/
def writeChanges (old new : FileTree) : IO Unit :=
  (new.nodes.mergeSort fun a b ↦ decide (a.1.length ≤ b.1.length)).forM (writeBack old)

/-- The variables of the process. -/
def environment : IO Environment := do
  return ⟨← IO.getEnv Environment.cacheVariable, ← IO.getEnv Environment.secretVariable⟩

/-- The tree of which only the current directory is known. -/
def startTree : IO FileTree := do
  return .empty (Path.ofText (← IO.currentDir).toString).parts

/-- A command is carried out on the files on disk. -/
def perform (i : Invocation) : IO UInt32 := do
  let console ← consoleFor (← startTree) (← environment) i
  let (outcome, after) := Command.finish i console
  writeChanges console.files after.files
  IO.print outcome.output
  match outcome.error with
  | some e => IO.eprintln ("✗ " ++ Command.describe e)
  | none => pure ()
  return outcome.exitCode.toUInt32

end IceCube.Main

/-- The program. -/
def main (arguments : List String) : IO UInt32 :=
  match IceCube.Command.Invocation.ofArguments arguments with
  | .ok i => IceCube.Main.perform i
  | .error _ => do
    IO.eprintln "Usage: icecube [--version] [--no-color] [-v] compile|pack|schema [options]"
    return IceCube.Command.usageExitCode.toUInt32
