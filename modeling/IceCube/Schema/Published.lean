import IceCube.Config.Basic
import IceCube.Cache
import IceCube.Json.Writer

/-!
# Published schemas

The schemas of cache files and of configuration files are published as JSON Schema documents, so
that editors and other programs can check these files too.  The keywords of a schema stand in the
order of their names; fields keep the order in which they are declared.
-/

namespace IceCube.Schema.Published

/-- What a field holds. -/
inductive Content where
  | text
  | nonempty
  | matching (pattern : String)
  | path
  | flag
  | choice (options : List String)
  /-- Records of a name, under texts. -/
  | tableOf (record : String)
  | nullable (c : Content)
deriving Repr

/-- Whether a field has to be there, and what stands for it where it is left out. -/
inductive Presence where
  | required
  | optional
  | default (v : Json)
deriving Repr

/-- A field of a record. -/
structure Field where
  name : String
  description : String
  content : Content
  presence : Presence
deriving Repr

/-- A record. -/
structure Description where
  name : String
  description : String
  fields : List Field
deriving Repr

/-- A schema whose keywords stand in the order of their names. -/
def ordered (keywords : Table String Json) : Json :=
  .obj (keywords.mergeSort fun a b ↦ decide (a.1 ≤ b.1))

/-- The keyword for a type. -/
def typed (name : String) : String × Json := ("type", .str name)

/-- The schema that stands elsewhere in the document under a name. -/
def reference (record : String) : Json := .obj [("$ref", .str ("#/$defs/" ++ record))]

/-- The keywords for what a field holds. -/
def Content.keywords : Content → Table String Json
  | .text => [typed "string"]
  | .nonempty => [("minLength", .int 1), typed "string"]
  | .matching pattern => [("pattern", .str pattern), typed "string"]
  | .path => [("format", .str "path"), typed "string"]
  | .flag => [typed "boolean"]
  | .choice options => [("enum", .ofTexts options), typed "string"]
  | .tableOf record => [("additionalProperties", reference record), typed "object"]
  | .nullable c => [("anyOf", .arr [ordered c.keywords, .obj [typed "null"]])]

/-- A word with its first letter in upper case. -/
def capitalized : List Char → List Char
  | [] => []
  | c :: cs => c.toUpper :: cs

/-- The title of a field: the words of its name. -/
def titleOf (name : String) : String :=
  " ".intercalate ((Path.splitOn '_' name.toList).map fun word ↦ String.ofList (capitalized word))

/-- The keywords for what stands for a field that is left out. -/
def Presence.keywords : Presence → Table String Json
  | .default v => [("default", v)]
  | .required | .optional => []

/-- The schema of a field. -/
def Field.schema (f : Field) : Json :=
  ordered (f.content.keywords ++ f.presence.keywords
    ++ [("description", .str f.description), ("title", .str (titleOf f.name))])

/-- Whether a field has to be there. -/
def Field.isRequired (f : Field) : Bool := match f.presence with
  | .required => true
  | _ => false

/-- The keywords of a record. -/
def Description.keywords (d : Description) : Table String Json :=
  let names := (d.fields.filter Field.isRequired).map Field.name
  let needed : Table String Json := if names.isEmpty then [] else [("required", .ofTexts names)]
  [("additionalProperties", .bool false), ("description", .str d.description),
    ("properties", .obj (d.fields.map fun f ↦ (f.name, f.schema))), ("title", .str d.name),
    typed "object"] ++ needed

/-- The version of the schema language. -/
def dialect : String := "https://json-schema.org/draft/2020-12/schema"

/-- A whole document: the schema of a record with the one record that it refers to. -/
def document (inner root : Description) (fileName : String) : Json :=
  let definitions := Json.obj [(inner.name, ordered inner.keywords)]
  match ordered (("$defs", definitions) :: root.keywords) with
  | .obj keywords =>
    .obj (keywords ++
      [("$schema", .str dialect), ("$id", .str ("https://icecube.dev/schemas/" ++ fileName))])
  | v => v

/-! ## Cache files -/

/-- A component in a cache file. -/
def cachedComponent : Description where
  name := "CachedComponent"
  description := "Cache projection of a CompiledComponent.\n\n"
    ++ "Drops the compiled script body and the raw sections. The compiled style\n"
    ++ "is dropped too when an external bundler owns style delivery.\n\n"
    ++ "Example:\n"
    ++ "    >>> cached = CachedComponent.from_component(compiled, include_styles=False)\n"
    ++ "    >>> cached.compiled_style is None\n"
    ++ "    True"
  fields := [
    ⟨"identifier", "Fully-qualified identifier", .nonempty, .required⟩,
    ⟨"component_name", "Flattened identifier", .nonempty, .required⟩,
    ⟨"compiled_code_path", "Path to compiled code module", .text, .required⟩,
    ⟨"compiled_assets_base_path", "Compiled asset path without extension", .text, .required⟩,
    ⟨"compiled_style", "Compiled CSS", .nullable .text, .default .null⟩,
    ⟨"script_url", "Public script URL", .nullable .text, .default .null⟩,
    ⟨"digest", "Source fingerprint (8 hex characters)", .matching digestPattern, .required⟩]

/-- A cache file. -/
def cacheFile : Description where
  name := "CacheFile"
  description := "Root document of a persisted registry cache.\n\n"
    ++ "Attributes:\n"
    ++ "    version: Cache format version.\n"
    ++ "    components: Cached components keyed by component name."
  fields := [
    ⟨"version", "Cache format version", .text, .default (.str Cache.formatVersion)⟩,
    ⟨"components", "Cached components keyed by component name", .tableOf "CachedComponent",
      .optional⟩]

/-! ## Configuration files -/

/-- The configuration of one compiler. -/
def compilerConfig : Description where
  name := "CompilerConfig"
  description := "Configuration of one named compiler.\n\n"
    ++ "Attributes:\n"
    ++ "    namespace_prefix: Identifier prefix of the components (e.g., \"app.components\").\n"
    ++ "    source_dir: Directory holding the ``*.ice.py`` sources.\n"
    ++ "    compiled_code_dir: Output directory for compiled code modules.\n"
    ++ "    compiled_assets_dir: Output directory for compiled scripts and styles.\n"
    ++ "    public_url: URL under which compiled_assets_dir is served.\n"
    ++ "    script_compiler: Script strategy (\"embedded\" or \"external-bundler\").\n"
    ++ "    style_compiler: Style strategy (\"scoping-only\" or \"preprocessor\").\n"
    ++ "    cache_enabled: Load the registry from cache_file in production.\n"
    ++ "    cache_file: Path of the registry cache file."
  fields := [
    ⟨"namespace_prefix", "Identifier prefix of the components", .matching Config.prefixPattern,
      .required⟩,
    ⟨"source_dir", "Directory holding component sources", .path, .required⟩,
    ⟨"compiled_code_dir", "Output directory for compiled code", .path, .required⟩,
    ⟨"compiled_assets_dir", "Output directory for compiled scripts and styles", .path, .required⟩,
    ⟨"public_url", "Public URL of compiled assets", .nonempty, .required⟩,
    ⟨"script_compiler", "Script strategy", .choice (scriptStrategies.map Prod.fst),
      .default (.str ScriptStrategy.embedded.name)⟩,
    ⟨"style_compiler", "Style strategy", .choice (styleStrategies.map Prod.fst),
      .default (.str StyleStrategy.scopingOnly.name)⟩,
    ⟨"cache_enabled", "Load registry from cache", .flag, .default (.bool false)⟩,
    ⟨"cache_file", "Registry cache file", .nullable .path, .default .null⟩]

/-- A configuration file. -/
def configFile : Description where
  name := "IceCubeConfig"
  description := "Root model of icecube.yaml.\n\n"
    ++ "Example:\n"
    ++ "    >>> config = IceCubeConfig.from_yaml(\"icecube.yaml\")\n"
    ++ "    >>> config.get_compiler_config(\"default\").namespace_prefix\n"
    ++ "    'app.components'"
  fields := [
    ⟨"compilers", "Compiler configurations by name", .tableOf "CompilerConfig", .optional⟩]

/-! ## Documents -/

/-- The files whose schemas are published. -/
inductive Subject where
  | cache
  | config
deriving DecidableEq, Repr

/-- The name of the file of a schema. -/
def Subject.fileName : Subject → String
  | .cache => "icecube-cache.schema.json"
  | .config => "icecube.schema.json"

/-- The schema of a kind of files. -/
def Subject.schema : Subject → Json
  | .cache => document cachedComponent cacheFile Subject.cache.fileName
  | .config => document compilerConfig configFile Subject.config.fileName

end IceCube.Schema.Published
