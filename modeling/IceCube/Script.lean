/-!
# Strategies for scripts

A strategy decides how the stylesheet of a component reaches the browser: the script puts it into
the page itself, or imports the file beside it and leaves the rest to a bundler.
-/

namespace IceCube

/-- A strategy for scripts. -/
inductive ScriptStrategy where
  | embedded
  | externalBundler
deriving DecidableEq, Repr, Inhabited

namespace ScriptStrategy

/-- The name under which a configuration chooses a strategy. -/
def name : ScriptStrategy → String
  | .embedded => "embedded"
  | .externalBundler => "external-bundler"

/-- Whether the pages still have to deliver the stylesheets. -/
def deliversStyles : ScriptStrategy → Bool
  | .embedded => true
  | .externalBundler => false

end ScriptStrategy

namespace Script

/-- The id of the element that holds the stylesheet of a component. -/
def styleElementId (component : String) : String := "icecube-style-" ++ component

/-- A text as the inside of a template literal. -/
def escapeTemplate : List Char → List Char
  | [] => []
  | '\\' :: cs => '\\' :: '\\' :: escapeTemplate cs
  | '\x60' :: cs => '\\' :: '\x60' :: escapeTemplate cs
  | '$' :: '\x7b' :: cs => '\\' :: '$' :: '\x7b' :: escapeTemplate cs
  | c :: cs => c :: escapeTemplate cs

/-- A text as a template literal. -/
def templateLiteral (s : String) : String :=
  String.ofList ('\x60' :: escapeTemplate s.toList ++ ['\x60'])

/-- A script that puts the stylesheet of its component into the page. -/
def embed (component script style : String) : String :=
  script ++ "\n\n// Embedded CSS\n(() => \x7b\n"
    ++ "    const styleId = `" ++ styleElementId component ++ "`;\n"
    ++ "    if (document.getElementById(styleId)) return;\n"
    ++ "    const style = document.createElement('style');\n"
    ++ "    style.id = styleId;\n"
    ++ "    style.textContent = " ++ templateLiteral style ++ ";\n"
    ++ "    (document.head || document.body).appendChild(style);\n"
    ++ "\x7d)();\n"

/-- A script that imports the stylesheet beside it. -/
def importing (component script : String) : String :=
  "// Embedded CSS\nimport './" ++ component ++ ".css';\n\n" ++ script ++ "\n"

end Script

/-- The final script of a component. -/
def ScriptStrategy.compile (strategy : ScriptStrategy) (component script style : String) : String :=
  match strategy with
  | .embedded => Script.embed component script style
  | .externalBundler => Script.importing component script

end IceCube
