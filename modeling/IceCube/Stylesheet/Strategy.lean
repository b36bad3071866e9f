import IceCube.Record
import IceCube.Stylesheet.Flatten
import IceCube.Stylesheet.Printer

/-!
# Strategies for style blocks

A strategy turns a style block into a stylesheet that applies to its component alone.  One wraps the
block in a selector and leaves nesting to the browser; the other resolves all nesting itself.
-/

namespace IceCube

/-- A strategy for style blocks. -/
inductive StyleStrategy where
  | scopingOnly
  | preprocessor (output : Stylesheet.Output)
deriving DecidableEq, Repr, Inhabited

namespace Stylesheet

/-- The attribute of root elements that carries the name of their component. -/
def scopeAttribute : String := "data-icecube"

/-- A text inside a block of the selector of a component. -/
def scopedTo (name quote text : String) : String :=
  "[" ++ scopeAttribute ++ "=" ++ quote ++ name ++ quote ++ "] \x7b " ++ text ++ " \x7d"

/-- Nested rules as a stylesheet of flat ones, if they are well formed. -/
def preprocess (output : Output) (source : String) : Option String := do
  let statements ← Reader.sheet? source.toList
  let rules ← flatten statements
  return print output rules

end Stylesheet

namespace StyleStrategy

/-- The name under which a configuration chooses a strategy. -/
def name : StyleStrategy → String
  | .scopingOnly => "scoping-only"
  | .preprocessor _ => "preprocessor"

/-- The stylesheet of a block of a component, if the block is well formed. -/
def compile (strategy : StyleStrategy) (component : String) (block : StyleBlock) : Option String :=
  match strategy with
  | .scopingOnly =>
    some (if block.isGlobal then block.content
      else Stylesheet.scopedTo component "" block.content)
  | .preprocessor output =>
    if block.content.isEmpty then some ""
    else Stylesheet.preprocess output
      (if block.isGlobal then block.content else Stylesheet.scopedTo component "\"" block.content)

/-- The stylesheets of all blocks of a component, one after the other. -/
def compileAll (strategy : StyleStrategy) (component : String) (blocks : List StyleBlock) :
    Option String :=
  (blocks.mapM (strategy.compile component)).map "\n".intercalate

end StyleStrategy

end IceCube
