import IceCube.Json.Writer
import IceCube.Markup.Escape
import IceCube.Registry.Basic
import IceCube.Text.Folded

/-!
# What a registry puts into a page

A page carries the stylesheets of all components and one script that starts the scripts of the
components on it.
-/

namespace IceCube.Registry

/-- The tag that would end a stylesheet in a page. -/
def closingTag : List Char := "</style".toList

/-- The text with a backslash in every tag that would end a stylesheet. -/
def protectTags : List Char → List Char
  | [] => []
  | c :: cs =>
    match Text.afterFolded? closingTag (c :: cs) with
    | some _ => '<' :: '\\' :: protectTags cs
    | none => c :: protectTags cs

/-- The style element of a component. -/
def styleElement (componentName style : String) : String :=
  "<style id=\"" ++ Markup.escape (Script.styleElementId componentName) ++ "\">"
    ++ String.ofList (protectTags style.toList) ++ "</style>"

/-- The style elements of all components that have a stylesheet. -/
def allStyles (r : Registry) : String :=
  "\n".intercalate <| r.records.values.filterMap fun record ↦
    match record.compiledStyle with
    | none | some "" => none
    | some style => some (styleElement record.componentName style)

/-- The addresses of all scripts by component names. -/
def scriptUrls (r : Registry) : Table String String :=
  Table.ofEntries <| r.records.values.filterMap fun record ↦
    match record.scriptUrl with
    | none | some "" => none
    | some url => some (record.componentName, url)

/-- A character of a document inside a script element. -/
def protectChar (c : Char) : List Char :=
  if c == '<' || c == '>' || c == '&' || c == '\'' then Json.Writer.unicode c.toNat else [c]

/-- The addresses as an object literal with sorted names. -/
def scriptMap (r : Registry) : String :=
  let entries := r.scriptUrls.mergeSort fun a b ↦ decide (a.1 ≤ b.1)
  let document := Json.obj (entries.map fun e ↦ (e.1, .str e.2))
  String.ofList (document.compact.toList.flatMap protectChar)

/-- The start of the script, up to the object literal. -/
def scriptStart : String := "<script type=\"module\">\nconst componentScripts = "

/-- The rest of the script: it starts the script of every element that names a component, now and
whenever elements are added. -/
def scriptEnd : String :=
  ";\n\nconst initComponent = async (node) => \x7b\n"
    ++ "  const name = node.dataset.icecube;\n"
    ++ "  if (!name || !componentScripts[name] || node.dataset.cube) return;\n"
    ++ "  node.dataset.cube = 'loading';\n"
    ++ "  const mod = await import(componentScripts[name]);\n"
    ++ "  if (!mod || typeof mod.default !== 'function') \x7b\n"
    ++ "    node.dataset.cube = 'iced';\n"
    ++ "    return;\n"
    ++ "  \x7d\n"
    ++ "  const refs = new Proxy(\x7b\x7d, \x7b get: (_, r) => "
    ++ "node.querySelector(`[data-ref=\"$\x7br\x7d\"]`) \x7d);\n"
    ++ "  node.dataset.cube = 'icing';\n"
    ++ "  await mod.default(\x7b root: node, refs, "
    ++ "props: JSON.parse(node.dataset.props || '\x7b\x7d') \x7d);\n"
    ++ "  node.dataset.cube = 'iced';\n"
    ++ "\x7d;\n"
    ++ "\n"
    ++ "(() => \x7b\n"
    ++ "  document.querySelectorAll('[data-icecube]').forEach(initComponent);\n"
    ++ "\n"
    ++ "  const observer = new MutationObserver((mutations) => \x7b\n"
    ++ "    mutations.flatMap((m) => [...m.addedNodes]).forEach((node) => \x7b\n"
    ++ "      if (node.nodeType !== Node.ELEMENT_NODE) return;\n"
    ++ "      if (node.dataset.icecube !== undefined) initComponent(node);\n"
    ++ "      node.querySelectorAll?.('[data-icecube]').forEach(initComponent);\n"
    ++ "    \x7d);\n"
    ++ "  \x7d);\n"
    ++ "\n"
    ++ "  observer.observe(document.documentElement, \x7b childList: true, subtree: true \x7d);\n"
    ++ "\x7d)();\n"
    ++ "</script>\n"

/-- The script of a page. -/
def bootstrapScript (r : Registry) : String := scriptStart ++ r.scriptMap ++ scriptEnd

end IceCube.Registry
