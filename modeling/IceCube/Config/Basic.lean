import IceCube.Failure
import IceCube.Path
import IceCube.Schema.Check
import IceCube.Script
import IceCube.Stylesheet.Strategy

/-!
# Configurations

A configuration names any number of compilers.  Each covers the identifiers below one prefix and
says where their sources are, where compiled files go and which strategies make them.
-/

namespace IceCube

/-- The configuration of one compiler. -/
structure CompilerConfig where
  namespacePrefix : String
  sourceDir : Path
  compiledCodeDir : Path
  compiledAssetsDir : Path
  publicUrl : String
  scriptStrategy : ScriptStrategy
  styleStrategy : StyleStrategy
  cacheEnabled : Bool
  cacheFile : Option Path
deriving DecidableEq, Repr, Inhabited

/-- Configurations by their names. -/
structure Config where
  compilers : Table String CompilerConfig
deriving DecidableEq, Repr, Inhabited

namespace CompilerConfig

/-- Whether stylesheets are kept in the cache: a bundler delivers them itself. -/
def includesStylesInCache (c : CompilerConfig) : Bool :=
  c.scriptStrategy != .externalBundler

/-- The configuration with all paths seen from a directory. -/
def resolvePaths (c : CompilerConfig) (base : Path) : CompilerConfig :=
  { c with
    sourceDir := base.join c.sourceDir
    compiledCodeDir := base.join c.compiledCodeDir
    compiledAssetsDir := base.join c.compiledAssetsDir
    cacheFile := c.cacheFile.map base.join }

/-- The rule over all fields: a cache that is enabled needs a file. -/
def broken? (c : CompilerConfig) : Option String :=
  if c.cacheEnabled && c.cacheFile.isNone then
    some "cache_file is required when cache_enabled is true"
  else none

end CompilerConfig

namespace Config

/-- Whether a character starts a segment of a prefix. -/
def startsSegment (c : Char) : Bool := c.isAlpha || c == '_'

/-- Whether a text is a segment of a prefix: letters, digits and underscores, and no digit first. -/
def isSegment : List Char → Bool
  | [] => false
  | c :: cs => startsSegment c && cs.all fun c ↦ startsSegment c || c.isDigit

/-- Whether a text is a prefix of identifiers: segments between dots. -/
def isPrefixText (s : String) : Bool :=
  (Path.splitOn '.' s.toList).all isSegment

/-- What a prefix of identifiers looks like. -/
def prefixPattern : String := "^[A-Za-z_][A-Za-z0-9_]*(\\.[A-Za-z_][A-Za-z0-9_]*)*$"

/-- Whether a text names a configuration: a letter, then letters, digits, underscores and hyphens.
One line end may follow. -/
def isName (s : String) : Bool :=
  let cs := s.toList
  let cs := if cs.getLast? == some '\n' then cs.dropLast else cs
  match cs with
  | [] => false
  | c :: cs => c.isAlpha && cs.all fun c ↦ c.isAlphanum || c == '_' || c == '-'

/-- The rule over all configurations: their names are names. -/
def broken? (c : Config) : Option String :=
  (c.compilers.keys.find? fun name ↦ !isName name).map fun name ↦
    "Invalid compiler configuration name: " ++ Text.quoted name

/-- The names in order. -/
def sortedNames (c : Config) : List String := c.compilers.keys.mergeSort

/-- The configuration of a name. -/
def get (c : Config) (name : String) : Except Failure CompilerConfig :=
  match Table.get? c.compilers name with
  | some compiler => .ok compiler
  | none => .error (.configurationNotFound name c.sortedNames)

/-- All configurations, or the one of a name. -/
def select (c : Config) (name : Option String) : Except Failure (Table String CompilerConfig) :=
  match name with
  | none => .ok c.compilers
  | some name => (c.get name).map fun compiler ↦ [(name, compiler)]

end Config

/-! ## Checks of documents -/

namespace Schema

variable {δ : Type} [Document δ]

/-- The strategies for scripts under their names. -/
def scriptStrategies : List (String × ScriptStrategy) :=
  [.embedded, .externalBundler].map fun s ↦ (s.name, s)

/-- The strategies for styles under their names. -/
def styleStrategies : List (String × StyleStrategy) :=
  [.scopingOnly, .preprocessor .compressed].map fun s ↦ (s.name, s)

/-- The configuration of one compiler. -/
def compilerConfig (d : δ) : Verdict CompilerConfig :=
  rule CompilerConfig.broken? <|
    record .value "CompilerConfig"
      ["namespace_prefix", "source_dir", "compiled_code_dir", "compiled_assets_dir", "public_url",
        "script_compiler", "style_compiler", "cache_enabled", "cache_file"]
      (fun ms ↦ CompilerConfig.mk
        <$> required ms "namespace_prefix" (matching Config.prefixPattern Config.isPrefixText)
        <*> required ms "source_dir" (path Path.ofText)
        <*> required ms "compiled_code_dir" (path Path.ofText)
        <*> required ms "compiled_assets_dir" (path Path.ofText)
        <*> required ms "public_url" nonempty
        <*> optional ms "script_compiler" .embedded (choice scriptStrategies)
        <*> optional ms "style_compiler" .scopingOnly (choice styleStrategies)
        <*> optional ms "cache_enabled" false bool
        <*> optional ms "cache_file" none (nullable (path Path.ofText))) d

/-- Configurations by their names. -/
def config (d : δ) : Verdict Config :=
  rule Config.broken? <|
    record .value "IceCubeConfig" ["compilers"]
      (fun ms ↦ Config.mk <$> optional ms "compilers" [] (table .value compilerConfig)) d

end Schema

/-- The configurations checked once more, after a change of their fields. -/
def Config.recheck (c : Config) : Schema.Verdict Config :=
  Schema.rule Config.broken? <| .below (.key "compilers") <|
    (Schema.Verdict.all (c.compilers.map fun e ↦
      ((Schema.rule CompilerConfig.broken? (.good e.2)).map (e.1, ·)).below (.key e.1))).map
        Config.mk

end IceCube
