import IceCube.Schema.Check
import IceCube.Text.Hex

/-!
# Records of components

A component passes through three records: its parsed sections, these together with the compiled
output, and the projection of the compiled record that a cache keeps.  A registry holds records of
the last two kinds.
-/

namespace IceCube

/-- The content of a style block, and whether it applies outside its component. -/
structure StyleBlock where
  content : String
  isGlobal : Bool
deriving DecidableEq, Repr, Inhabited

/-- The sections of a component source. -/
structure ParsedComponent where
  identifier : String
  componentName : String
  codeSection : String
  scriptSection : Option String
  styleBlocks : List StyleBlock
  digest : String
deriving DecidableEq, Repr, Inhabited

/-- A parsed component with its compiled output and where that is. -/
structure CompiledComponent extends ParsedComponent where
  compiledCodePath : String
  compiledAssetsBasePath : String
  compiledScript : String
  compiledStyle : Option String
  scriptUrl : Option String
deriving DecidableEq, Repr, Inhabited

/-- What a cache keeps of a component. -/
structure CachedComponent where
  identifier : String
  componentName : String
  compiledCodePath : String
  compiledAssetsBasePath : String
  compiledStyle : Option String
  scriptUrl : Option String
  digest : String
deriving DecidableEq, Repr, Inhabited

/-- What a registry holds for an identifier. -/
inductive Record where
  | compiled (component : CompiledComponent)
  | cached (component : CachedComponent)
deriving DecidableEq, Repr

namespace Record

/-- The identifier that the record itself names. -/
def identifier : Record → String
  | .compiled c => c.identifier
  | .cached c => c.identifier

/-- The name of the component. -/
def componentName : Record → String
  | .compiled c => c.componentName
  | .cached c => c.componentName

/-- Where the code of the component is. -/
def compiledCodePath : Record → String
  | .compiled c => c.compiledCodePath
  | .cached c => c.compiledCodePath

/-- Where the scripts and styles of the component are, without their suffixes. -/
def compiledAssetsBasePath : Record → String
  | .compiled c => c.compiledAssetsBasePath
  | .cached c => c.compiledAssetsBasePath

/-- The compiled styles, if the record has them. -/
def compiledStyle : Record → Option String
  | .compiled c => c.compiledStyle
  | .cached c => c.compiledStyle

/-- The public address of the script, if the record has one. -/
def scriptUrl : Record → Option String
  | .compiled c => c.scriptUrl
  | .cached c => c.scriptUrl

/-- The fingerprint of the source. -/
def digest : Record → String
  | .compiled c => c.digest
  | .cached c => c.digest

/-- The projection of a record for a cache, with or without its styles. -/
def toCached (r : Record) (includeStyles : Bool) : CachedComponent where
  identifier := r.identifier
  componentName := r.componentName
  compiledCodePath := r.compiledCodePath
  compiledAssetsBasePath := r.compiledAssetsBasePath
  compiledStyle := if includeStyles then r.compiledStyle else none
  scriptUrl := r.scriptUrl
  digest := r.digest

end Record

/-! ## Checks of documents -/

namespace Schema

variable {δ : Type} [Document δ]

/-- What a fingerprint looks like. -/
def digestPattern : String := "^[0-9a-f]\x7b8\x7d$"

/-- Eight hexadecimal digits in lower case. -/
def isDigest (s : String) : Bool :=
  s.length == 8 && s.toList.all fun c ↦ ('0' ≤ c && c ≤ '9') || ('a' ≤ c && c ≤ 'f')

/-- A fingerprint. -/
def digest (d : δ) : Verdict String := matching digestPattern isDigest d

/-- A style block. -/
def styleBlock (w : Wording) : δ → Verdict StyleBlock :=
  record w "StyleBlock" ["content", "is_global"] fun ms ↦
    StyleBlock.mk <$> required ms "content" text <*> optional ms "is_global" false bool

/-- The names of the fields of a parsed component. -/
def parsedFields : List String :=
  ["identifier", "component_name", "code_section", "script_section", "style_blocks", "digest"]

/-- The fields of a parsed component. -/
def parsedMembers (w : Wording) (ms : Members δ) : Verdict ParsedComponent :=
  ParsedComponent.mk
    <$> required ms "identifier" nonempty
    <*> required ms "component_name" nonempty
    <*> required ms "code_section" text
    <*> optional ms "script_section" none (nullable text)
    <*> optional ms "style_blocks" [] (list w (styleBlock w))
    <*> required ms "digest" digest

/-- A parsed component. -/
def parsedComponent (w : Wording) : δ → Verdict ParsedComponent :=
  record w "ParsedComponent" parsedFields (parsedMembers w)

/-- A compiled component. -/
def compiledComponent (w : Wording) : δ → Verdict CompiledComponent :=
  record w "CompiledComponent"
    (parsedFields ++ ["compiled_code_path", "compiled_assets_base_path", "compiled_script",
      "compiled_style", "script_url"]) fun ms ↦
    CompiledComponent.mk
      <$> parsedMembers w ms
      <*> required ms "compiled_code_path" text
      <*> required ms "compiled_assets_base_path" text
      <*> required ms "compiled_script" text
      <*> optional ms "compiled_style" none (nullable text)
      <*> optional ms "script_url" none (nullable text)

/-- A cached component. -/
def cachedComponent (w : Wording) : δ → Verdict CachedComponent :=
  record w "CachedComponent"
    ["identifier", "component_name", "compiled_code_path", "compiled_assets_base_path",
      "compiled_style", "script_url", "digest"] fun ms ↦
    CachedComponent.mk
      <$> required ms "identifier" nonempty
      <*> required ms "component_name" nonempty
      <*> required ms "compiled_code_path" text
      <*> required ms "compiled_assets_base_path" text
      <*> optional ms "compiled_style" none (nullable text)
      <*> optional ms "script_url" none (nullable text)
      <*> required ms "digest" digest

end Schema

/-! ## Records as documents -/

/-- A style block as a document. -/
def StyleBlock.toJson (b : StyleBlock) : Json :=
  .obj [("content", .str b.content), ("is_global", .bool b.isGlobal)]

/-- The members of a parsed component as a document. -/
def ParsedComponent.members (p : ParsedComponent) : Table String Json :=
  [("identifier", .str p.identifier), ("component_name", .str p.componentName),
   ("code_section", .str p.codeSection), ("script_section", .ofText? p.scriptSection),
   ("style_blocks", .arr (p.styleBlocks.map StyleBlock.toJson)), ("digest", .str p.digest)]

/-- The members of a compiled component as a document. -/
def CompiledComponent.members (c : CompiledComponent) : Table String Json :=
  c.toParsedComponent.members ++
    [("compiled_code_path", .str c.compiledCodePath),
     ("compiled_assets_base_path", .str c.compiledAssetsBasePath),
     ("compiled_script", .str c.compiledScript),
     ("compiled_style", .ofText? c.compiledStyle),
     ("script_url", .ofText? c.scriptUrl)]

/-- The members of a cached component as a document. -/
def CachedComponent.members (c : CachedComponent) : Table String Json :=
  [("identifier", .str c.identifier), ("component_name", .str c.componentName),
   ("compiled_code_path", .str c.compiledCodePath),
   ("compiled_assets_base_path", .str c.compiledAssetsBasePath),
   ("compiled_style", .ofText? c.compiledStyle), ("script_url", .ofText? c.scriptUrl),
   ("digest", .str c.digest)]

end IceCube
