import IceCube.Command.Basic
import IceCube.Manifest

/-!
# Packing on the command line

The stylesheets of the components of a configuration are joined into one file beside the manifest of
a bundler, and the manifest is written once all configurations are packed.
-/

namespace IceCube.Command

/-- The manifest at a path. -/
def readManifest (file : String) : Command Json := do
  let path := Path.ofText file
  let files := (← get).files
  if !files.pathExists path then
    throw (stop ("Vite manifest not found: " ++ file ++ "\n\nRun the Vite build first."))
  else
    match Config.readText files path with
    | .error e => throw e
    | .ok text => match Json.read text with
      | .ok manifest => return manifest
      | .error e => throw (ofManifest file e)

/-- What keeps a manifest from being packed, as an error. -/
def ofFlaw : Manifest.Flaw → Error
  | .mismatch => .mismatch
  | .noAttribute => .noAttribute

/-- A change of a manifest, or a reading of it. -/
def ofManifestResult {α : Type} : Except Manifest.Flaw α → Command α
  | .ok a => return a
  | .error flaw => throw (ofFlaw flaw)

/-- The text of a stylesheet that a manifest lists. -/
def readStyle (directory : Path) : Json → Command String
  | .str file => do
    match Config.readText (← get).files (directory.joinText file) with
    | .ok text => return text
    | .error e => throw e
  | _ => throw .mismatch

/-- The stylesheets of a configuration in one file. -/
def writePacked (directory : Path) (name : String) (items : List Json) : Command Path := do
  let texts ← items.mapM (readStyle directory)
  let packed := (directory.joinText "assets").joinText (Manifest.packedName name)
  onFiles (·.makeDirectories FileTree.parentMode packed.parent)
  onFiles (·.write packed (Utf8.encode ("\n".intercalate texts)))
  return packed

/-- The manifest with the stylesheets of a configuration packed. -/
def packOne (directory : Path) (entry : String) (manifest : Json) (name : String)
    (c : CompilerConfig) : Command Json := do
  if c.scriptStrategy ≠ .externalBundler then
    warning ("Skipping '" ++ name ++ "' - not an " ++ ScriptStrategy.externalBundler.name
      ++ " configuration")
    return manifest
  else
    let start := Identifier.flatten c.namespacePrefix
    let (items, rest) ← ofManifestResult (Manifest.extract start manifest)
    if items.isEmpty then
      say (name ++ ": No component stylesheets to pack")
      return rest
    else
      let packed ← writePacked directory name items
      let manifest ← ofManifestResult (Manifest.addPacked name entry rest)
      success (name ++ ": Packed " ++ toString items.length ++ " stylesheet(s) into "
        ++ packed.text)
      return manifest

/-- The manifest is written. -/
def writeManifest (path : Path) (manifest : Json) : Command Unit :=
  onFiles (·.write path (Utf8.encode (manifest.pretty ++ "\n")))

/-- A missing file ends the packing with its path. -/
def missingStyle {α : Type} : Error → Command α
  | .fault ⟨.notFound, path⟩ =>
    throw (stop ("Stylesheet listed in the manifest not found: " ++ path))
  | e => throw e

/-- The stylesheets of all configurations of a file, or of the one of a name, are packed. -/
def pack (file : String) (name : Option String) (manifestFile entry : String) : Command Unit := do
  let configurations ← selected file name
  let manifest ← readManifest manifestFile
  let path := Path.ofText manifestFile
  tryCatch
    (do
      let packed ← configurations.foldlM (fun m e ↦ packOne path.parent entry m e.1 e.2) manifest
      writeManifest path packed)
    missingStyle
  success "All components packed"

end IceCube.Command
