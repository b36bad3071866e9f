import IceCube.Config.Basic
import IceCube.Environment
import IceCube.Text.Newline
import IceCube.Yaml.Parser

/-!
# Loading a configuration

A configuration is read from a YAML file.  Its paths are seen from the directory of the file, and
the environment can override the cache setting of all compilers.
-/

namespace IceCube

/-- A path without double dots, seen from the current directory. -/
def FileTree.resolve (t : FileTree) (p : Path) : Path :=
  let start := if p.isAbsolute then [] else t.current
  { root := .slash
    parts := p.parts.foldl (fun l part ↦ if part = ".." then l.dropLast else l ++ [part]) start }

namespace Config

/-- The content of a text file, with line feeds at all line ends. -/
def readText (files : FileTree) (p : Path) : Except Error String := do
  let bytes ← (files.read p).mapError .fault
  match Utf8.decode bytes with
  | some s => return Text.unify s
  | none => .error .notText

/-- The configuration with the cache setting of the environment. -/
def override (setting : Option Bool) (c : CompilerConfig) : CompilerConfig :=
  match setting with
  | some b => { c with cacheEnabled := b }
  | none => c

/-- A document as configurations. -/
def ofDocument (v : Yaml.Value) : Except Error Config :=
  let checked := if v.isBlank then .good ⟨[]⟩ else Schema.config v
  checked.toExcept.mapError .invalid

/-- The configurations of a file. -/
def load (files : FileTree) (env : Environment) (p : Path) : Except Error Config := do
  if !files.pathExists p then .error (.fault ⟨.notFound, p.text⟩)
  else
    let text ← readText files p
    let document ← (Yaml.load text).mapError .ofYaml
    let config ← ofDocument document
    let base := (files.resolve p).parent
    let setting ← env.cacheOverride.mapError .failure
    let compilers := config.compilers.map fun e ↦ (e.1, override setting (e.2.resolvePaths base))
    (Config.recheck ⟨compilers⟩).toExcept.mapError .invalid

end Config

end IceCube
