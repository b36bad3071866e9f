import IceCube.Build
import IceCube.Source

/-!
# Compiling

A source is compiled by parsing it, running the strategies on its sections, writing the three files
of its component and registering the record.  Nothing is written for a source that is rejected.
-/

namespace IceCube.Compiler

open Build

/-- The directories for compiled files are there. -/
def ensureOutputs (c : Compiler) : Build Unit := do
  ensureDirectory c.codeDir
  ensureDirectory c.assetsDir

/-- The compiler is ready: its directories are there and its registry asks it. -/
def setUp (c : Compiler) : Build Unit := do
  c.ensureOutputs
  modify fun w ↦ { w with registry := w.registry.attach c }

/-- The text of a source. -/
def readSource (source : Path) : Build String := do
  match Utf8.decode (← read source) with
  | some text => return text
  | none => failWith (.sourceNotText source.name) .other

/-- The script beside a source, none where it cannot be read as a text. -/
def readScript (source : Path) : Build (Option String) := do
  return ((← get).files.read (scriptPathFor source)).toOption.bind Utf8.decode

/-- The compiled record of a parsed component, its files written. -/
def store (c : Compiler) (p : ParsedComponent) : Build CompiledComponent := do
  c.ensureOutputs
  match c.assemble p with
  | none => failWith (.styleRejected p.componentName) .other
  | some compiled =>
    let out := c.outputs p.componentName
    let _ ← writeIfChanged out.code p.codeSection
    let _ ← writeIfChanged out.script compiled.compiledScript
    let _ ← writeIfChanged out.style (compiled.compiledStyle.getD "")
    return compiled

/-- A source is compiled and registered under an identifier. -/
def compile (c : Compiler) (identifier : String) (source : Path) : Build CompiledComponent := do
  let text ← readSource source
  let script ← readScript source
  match Source.parse identifier text script with
  | .error issues => throw (.invalid issues)
  | .ok parsed =>
    match (← get).registry.checkName identifier parsed.componentName with
    | .error f => fail f
    | .ok () =>
      let compiled ← c.store parsed
      changeRegistry (·.register identifier (.compiled compiled))
      note (.componentCompiled compiled.componentName compiled.digest)
      return compiled

/-- The source of an identifier is compiled. -/
def compileIdentifier (c : Compiler) (identifier : String) : Build CompiledComponent := do
  if !c.handles identifier then fail (.componentNotFound identifier)
  else
    let source := c.sourcePathFor identifier
    if (← get).files.isFile source then c.compile identifier source
    else failWith (.componentNotFound identifier) (.missingSource source.text)

/-- The names of all sources in a directory, without their suffixes. -/
def sourceNames (files : FileTree) (directory : Path) : List String :=
  if files.isDirectory directory then
    match files.locate directory with
    | .ok l => (files.names l).filterMap baseName?
    | .error _ => []
  else []

/-- All sources in the source directory are compiled, in the order of their names. -/
def scan (c : Compiler) : Build (List CompiledComponent) := do
  c.ensureOutputs
  let bases := sourceNames (← get).files c.sourceDir
  let compiled ← bases.mapM fun base ↦
    c.compile (c.identifierOf base) (c.sourceDir.joinText (base ++ sourceSuffix))
  note (.scanCompleted compiled.length)
  return compiled

end IceCube.Compiler
