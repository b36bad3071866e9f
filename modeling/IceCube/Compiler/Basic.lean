import IceCube.Config.Basic
import IceCube.Identifier

/-!
# Compilers

A compiler covers the identifiers below one prefix.  Their segments after the prefix lead from its
source directory to the source.
-/

namespace IceCube

/-- The name of a registry among those of a process. -/
abbrev RegistryId := String

/-- The identity of a loaded class. -/
abbrev ClassId := Nat

/-- A compiler, and the registry that it registers into. -/
structure Compiler where
  home : RegistryId
  namespacePrefix : String
  sourceDir : Path
  codeDir : Path
  assetsDir : Path
  publicUrl : String
  style : StyleStrategy
  script : ScriptStrategy
deriving DecidableEq, Repr

namespace Compiler

/-- The end of the names of sources. -/
def sourceSuffix : String := ".ice.py"

/-- The end of the names of scripts. -/
def scriptSuffix : String := ".js"

/-- The text without dots at either end. -/
def trimDots (s : String) : String :=
  String.ofList (Text.dropEndWhile (· == Identifier.separator)
    (s.toList.dropWhile (· == Identifier.separator)))

/-- The text without slashes at its end. -/
def trimSlashes (s : String) : String :=
  String.ofList (Text.dropEndWhile (· == '/') s.toList)

/-- A compiler with its prefix and address in their normal forms. -/
def make (home : RegistryId) (namespacePrefix : String) (sourceDir codeDir assetsDir : Path)
    (publicUrl : String) (style : StyleStrategy) (script : ScriptStrategy) : Compiler where
  home := home
  namespacePrefix := trimDots namespacePrefix
  sourceDir := sourceDir
  codeDir := codeDir
  assetsDir := assetsDir
  publicUrl := trimSlashes publicUrl
  style := style
  script := script

/-- The compiler of a configuration. -/
def ofConfig (home : RegistryId) (c : CompilerConfig) : Compiler :=
  make home c.namespacePrefix c.sourceDir c.compiledCodeDir c.compiledAssetsDir c.publicUrl
    c.styleStrategy c.scriptStrategy

/-- Whether an identifier is below the prefix of a compiler. -/
def handles (c : Compiler) (identifier : String) : Bool :=
  (Identifier.after? c.namespacePrefix identifier).isSome

/-- The source of an identifier.  As many characters as the prefix and a dot have are left out at
its start. -/
def sourcePathFor (c : Compiler) (identifier : String) : Path :=
  let relative := String.ofList (identifier.toList.drop (c.namespacePrefix.length + 1))
  let segments := Identifier.segments relative
  (segments.dropLast ++ [segments.getLastD "" ++ sourceSuffix]).foldl Path.joinText c.sourceDir

/-- The name of a source without its suffix, if it has that suffix. -/
def baseName? (name : String) : Option String :=
  let cs := name.toList
  let suffix := sourceSuffix.toList
  if suffix.isSuffixOf cs then some (String.ofList (cs.take (cs.length - suffix.length))) else none

/-- The script beside a source. -/
def scriptPathFor (source : Path) : Path :=
  source.withName ((baseName? source.name).getD source.name ++ scriptSuffix)

/-- The identifier of a source in the source directory. -/
def identifierOf (c : Compiler) (base : String) : String :=
  Identifier.below c.namespacePrefix base

/-- Where the compiled files of a component go. -/
structure Outputs where
  code : Path
  assetsBase : Path
  script : Path
  style : Path
deriving DecidableEq, Repr

/-- The compiled files of a component. -/
def outputs (c : Compiler) (componentName : String) : Outputs where
  code := c.codeDir.joinText (componentName ++ ".py")
  assetsBase := c.assetsDir.joinText componentName
  script := c.assetsDir.joinText (componentName ++ scriptSuffix)
  style := c.assetsDir.joinText (componentName ++ ".css")

/-- The public address of the script of a component, which changes with its source. -/
def scriptUrl (c : Compiler) (componentName digest : String) : String :=
  c.publicUrl ++ "/" ++ componentName ++ ".js?digest=" ++ digest

/-- The compiled record of a parsed component, if its style blocks are well formed. -/
def assemble (c : Compiler) (p : ParsedComponent) : Option CompiledComponent := do
  let style ← c.style.compileAll p.componentName p.styleBlocks
  let script := c.script.compile p.componentName (p.scriptSection.getD "") style
  let out := c.outputs p.componentName
  return {
    toParsedComponent := p
    compiledCodePath := out.code.text
    compiledAssetsBasePath := out.assetsBase.text
    compiledScript := script
    compiledStyle := some style
    scriptUrl := some (c.scriptUrl p.componentName p.digest) }

end Compiler

end IceCube
