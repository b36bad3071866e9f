import IceCube.Text.Blank

/-!
# Nested style rules

The language of the preprocessor has declarations, variables and rules inside rules.  This module
holds what a sheet is; reading and flattening are modules of their own.
-/

namespace IceCube.Stylesheet

/-- How a compound selector relates to the one before it. -/
inductive Combinator where
  | descendant
  | child
  | adjacent
  | sibling
deriving DecidableEq, Repr

/-- A compound selector and how it relates to what stands before it. -/
structure Compound where
  combinator : Combinator
  text : List Char
deriving DecidableEq, Repr

/-- A chain of compound selectors. -/
abbrev Selector := List Compound

/-- A property with its value. -/
structure Declaration where
  property : List Char
  value : List Char
deriving DecidableEq, Repr

/-- A statement of a sheet, as it is written. -/
inductive Statement where
  | declare (d : Declaration)
  | assign (name value : List Char)
  | rule (selectors : List Selector) (body : List Statement)
deriving Repr

/-- A rule without rules inside it. -/
structure FlatRule where
  selectors : List Selector
  declarations : List Declaration
deriving DecidableEq, Repr

end IceCube.Stylesheet
