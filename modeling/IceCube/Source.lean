import IceCube.Hash.Xxh128
import IceCube.Identifier
import IceCube.Record
import IceCube.Text.Blank
import IceCube.Text.Folded
import IceCube.Text.Word

/-!
# Component sources

A source holds code up to a marker, and client scripts and styles in tagged blocks.  Parsing a
source takes the code, the first script block and all style blocks out of it, and fingerprints the
source.
-/

namespace IceCube.Source

open Text (splitAtFolded?)

/-- The marker that closes the code of a source. -/
def codeEnd : List Char := "#</py>".toList

/-! ## Tagged blocks -/

/-- A block: what its opening tag holds after the name, its content, and the text after it. -/
structure Block where
  attributes : List Char
  content : List Char
  rest : List Char

/-- The first block of a tag.  An opening tag ends at the first closing bracket. -/
def nextBlock? (tag : List Char) (cs : List Char) : Option Block := do
  let (_, rest) ← splitAtFolded? ('<' :: tag) cs
  let (attributes, rest) ← splitAtFolded? ['>'] rest
  let (content, rest) ← splitAtFolded? ('<' :: '/' :: tag ++ ['>']) rest
  return ⟨attributes, content, rest⟩

/-- All blocks of a tag, at most as many as there are characters. -/
def blocks (tag : List Char) : (fuel : Nat) → List Char → List Block
  | 0, _ => []
  | fuel + 1, cs =>
    match nextBlock? tag cs with
    | some b => b :: blocks tag fuel b.rest
    | none => []

/-! ## Sections -/

/-- The text up to the last place of a word, with the word. -/
def throughLast? (word : List Char) : List Char → Option (List Char)
  | [] => none
  | c :: cs =>
    match throughLast? word cs with
    | some before => some (c :: before)
    | none => if word.isPrefixOf (c :: cs) then some word else none

/-- The code of a source: all of it where there is no marker. -/
def codeSection (source : String) : String :=
  match throughLast? codeEnd source.toList with
  | some code => String.ofList (Text.trim code)
  | none => source

/-- The content of the first script block. -/
def inlineScript? (source : String) : Option String :=
  (nextBlock? "script".toList source.toList).map fun b ↦ String.ofList (Text.trim b.content)

/-- A style block applies outside its component if its tag holds this word. -/
def globalWord : List Char := "global".toList

/-- The style blocks of a source. -/
def styleBlocks (source : String) : List StyleBlock :=
  (blocks "style".toList source.length source.toList).map fun b ↦
    { content := String.ofList (Text.trim b.content)
      isGlobal := Text.hasWord globalWord false b.attributes }

/-- The first eight hexadecimal digits of the hash of a source and of the script beside it. -/
def digest (source : String) (script : Option String) : String :=
  String.ofList ((Hash.Xxh128.hexDigest (Utf8.encode (source ++ script.getD ""))).toList.take 8)

/-- The script of a component: the one beside its source unless that is empty, else the first one in
the source. -/
def scriptSection (source : String) (script : Option String) : Option String :=
  match script with
  | some s => if s.isEmpty then inlineScript? source else some s
  | none => inlineScript? source

/-- The issues of an identifier: neither it nor its component name may be empty. -/
def nameIssues (identifier : String) : List Schema.Issue :=
  if identifier.isEmpty then
    [⟨[.key "identifier"], .tooShort⟩, ⟨[.key "component_name"], .tooShort⟩]
  else []

/-- The sections of a source under an identifier. -/
def sections (identifier source : String) (script : Option String) : ParsedComponent where
  identifier := identifier
  componentName := Identifier.flatten identifier
  codeSection := codeSection source
  scriptSection := scriptSection source script
  styleBlocks := styleBlocks source
  digest := digest source script

/-- The sections of a source, unless its identifier is empty. -/
def parse (identifier source : String) (script : Option String) :
    Except (List Schema.Issue) ParsedComponent :=
  match nameIssues identifier with
  | [] => .ok (sections identifier source script)
  | issues => .error issues

end IceCube.Source
