import IceCube.Command.Basic

/-!
# Compiling on the command line

Every configuration has a registry of its own, so that its cache holds its own components only.
-/

namespace IceCube.Command

/-- The components of a configuration are compiled and kept in its cache. -/
def compileOne (name : String) (c : CompilerConfig) : Command Unit := do
  let (compiled, registry) ← build .empty do
    let compiler ← Boot.compilerOf "" c
    compiler.scan
  success (name ++ ": Compiled " ++ toString compiled.length ++ " component(s)")
  match c.cacheFile with
  | none => say (name ++ ": No cache_file configured, cache not stored")
  | some p =>
    let (stored, _) ← build registry (Registry.storeCache p c.includesStylesInCache)
    success (name ++ ": Cache stored at " ++ stored.text)

/-- The components of all configurations of a file, or of the one of a name, are compiled. -/
def compile (file : String) (name : Option String) : Command Unit := do
  (← selected file name).forM fun e ↦ reporting (compileOne e.1 e.2)

end IceCube.Command
