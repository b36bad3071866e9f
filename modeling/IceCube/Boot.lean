import IceCube.Compiler.Compile
import IceCube.Registry.Store

/-!
# Starting up

A process in production fills its registry from the caches and compiles only what they do not give.
Elsewhere all sources are compiled, so that every component is as fresh as its source.
-/

namespace IceCube.Boot

open Build

/-- The compiler of a configuration, ready for a registry. -/
def compilerOf (home : RegistryId) (c : CompilerConfig) : Build Compiler := do
  let compiler := Compiler.ofConfig home c
  compiler.setUp
  return compiler

/-- The cache file of a configuration, if it is to be used. -/
def cacheFile? (production : Bool) (c : CompilerConfig) : Option Path :=
  if production && c.cacheEnabled then c.cacheFile else none

/-- The components of one configuration are registered. -/
def start (home : RegistryId) (production : Bool) (name : String) (c : CompilerConfig) :
    Build Compiler := do
  let compiler ← compilerOf home c
  match cacheFile? production c with
  | some p =>
    if ← Registry.loadCache p then
      note (.bootFromCache name)
    else
      note (.bootCacheFallback name)
      let _ ← compiler.scan
  | none =>
    let _ ← compiler.scan
  return compiler

/-- The components of all configurations are registered.  The result has the compilers under the
names of their configurations. -/
def boot (home : RegistryId) (production : Bool) (config : Config) :
    Build (Table String Compiler) :=
  config.compilers.mapM fun e ↦ do
    let compiler ← start home production e.1 e.2
    return (e.1, compiler)

/-- The configurations of a file, with a line in the log where the environment is wrong. -/
def loadConfig (env : Environment) (p : Path) : Build Config := do
  match Config.load (← get).files env p with
  | .ok config => return config
  | .error (.failure f) => failWith f .other
  | .error e => throw e

end IceCube.Boot
