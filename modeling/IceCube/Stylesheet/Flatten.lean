import IceCube.Stylesheet.Reader
import IceCube.Table

/-!
# Flattening nested style rules

Every rule becomes a rule of its own under the selectors of those around it.  Variables are replaced
by their values, and a variable without a value makes the sheet wrong.
-/

namespace IceCube.Stylesheet

open Reader (quoteAfter variableName)

/-! ## Selectors -/

/-- The combinator of a compound selector that takes the place of another.  A descendant stands where
that one stood. -/
def Combinator.over : Combinator → Combinator → Combinator
  | .descendant, old => old
  | new, _ => new

/-- A chain whose last compound selector goes on with a suffix. -/
def Selector.extend (suffix : List Char) : Selector → Selector
  | [] => []
  | [last] => [{ last with text := last.text ++ suffix }]
  | c :: rest => c :: Selector.extend suffix rest

/-- A compound selector seen from a selector around it: an ampersand stands for that selector, and
what follows the ampersand belongs to the last compound selector of it. -/
def Compound.within (parent : Selector) (c : Compound) : Option (Selector × Bool) :=
  match c.text with
  | '&' :: suffix =>
    match parent with
    | [] => none
    | first :: rest =>
      let first := { first with combinator := c.combinator.over first.combinator }
      some (Selector.extend suffix (first :: rest), true)
  | _ => if c.text.contains '&' then none else some ([c], false)

/-- A selector under the one around it.  It follows that one as a descendant unless it names it by
an ampersand or starts with a sign. -/
def Selector.within (parent : Selector) (s : Selector) : Option Selector := do
  let parts ← s.mapM (Compound.within parent)
  let chain := parts.flatMap Prod.fst
  return if parts.any Prod.snd then chain else parent ++ chain

/-- All selectors of a rule under all selectors around it. -/
def selectorsWithin (parents selectors : List Selector) : Option (List Selector) :=
  match parents with
  | [] => selectors.mapM (Selector.within [])
  | _ => (parents.mapM fun p ↦ selectors.mapM (Selector.within p)).map List.flatten

/-! ## Variables -/

/-- The variables of the blocks around a place, the innermost block first.  The last block is the
sheet itself. -/
abbrev Scope := List (Table (List Char) (List Char))

/-- The value of a variable. -/
def Scope.get? (scope : Scope) (name : List Char) : Option (List Char) :=
  scope.findSome? (Table.get? · name)

/-- Whether a block other than the sheet itself has a variable. -/
def Scope.hasLocal (scope : Scope) (name : List Char) : Bool :=
  scope.dropLast.any (Table.contains · name)

/-- The scope with a value for a variable: in the innermost block that has it, or else in the
present one.  The variables of the sheet itself are not changed from within a block. -/
def Scope.assign (name value : List Char) : Scope → Scope
  | [] => [[(name, value)]]
  | block :: outer =>
    if Table.contains block name || !Scope.hasLocal outer name then
      Table.insert block name value :: outer
    else block :: Scope.assign name value outer

/-! ## Values -/

/-- The text with one space for every line end and the spaces around it. -/
def joinLines : List Char → List Char
  | [] => []
  | c :: cs =>
    let rest := joinLines cs
    if c == '\n' || c == '\r' then ' ' :: rest.dropWhile Text.isBlank else c :: rest

/-- The value with the values of its variables in place. -/
def substitute (scope : Scope) : (fuel : Nat) → (quote : Option Char) → List Char →
    Option (List Char)
  | 0, _, cs => some cs
  | _ + 1, _, [] => some []
  | fuel + 1, none, '$' :: cs => do
    let name := variableName cs
    let value ← scope.get? name
    return value ++ (← substitute scope fuel none (cs.drop name.length))
  | fuel + 1, quote, '\\' :: c :: cs => do
    return '\\' :: c :: (← substitute scope fuel quote cs)
  | fuel + 1, quote, c :: cs => do
    return c :: (← substitute scope fuel (quoteAfter quote c) cs)

/-- A value as it stands in a flat rule. -/
def evaluate (scope : Scope) (value : List Char) : Option (List Char) :=
  (substitute scope (value.length + 1) none value).map joinLines

/-! ## Rules -/

mutual

/-- The flat rules of a rule, and the scope after it. -/
def flattenRule (parents : List Selector) (scope : Scope) :
    Statement → Option (List Declaration × List FlatRule × Scope)
  | .declare d => do
    let value ← evaluate scope d.value
    return ([⟨d.property, value⟩], [], scope)
  | .assign name value => do
    let value ← evaluate scope value
    return ([], [], scope.assign name value)
  | .rule selectors body => do
    let selectors ← selectorsWithin parents selectors
    let (own, inner, scope) ← flattenBody selectors ([] :: scope) body
    return ([], ⟨selectors, own⟩ :: inner, scope.drop 1)

/-- The declarations of a block, the flat rules inside it, and the scope after it. -/
def flattenBody (parents : List Selector) (scope : Scope) :
    List Statement → Option (List Declaration × List FlatRule × Scope)
  | [] => some ([], [], scope)
  | s :: ss => do
    let (own, inner, scope) ← flattenRule parents scope s
    let (more, others, scope) ← flattenBody parents scope ss
    return (own ++ more, inner ++ others, scope)

end

/-- The flat rules of a sheet that have declarations.  The sheet itself must not have any. -/
def flatten (sheet : List Statement) : Option (List FlatRule) := do
  let (own, rules, _) ← flattenBody [] [[]] sheet
  if own.isEmpty then return rules.filter fun r ↦ !r.declarations.isEmpty else none

end IceCube.Stylesheet
