import IceCube.Schema.Issue

/-!
# Verdicts

Checking a document gives a value or the issues that stand against it.  Independent parts are
checked all of them, so that the issues of every part are reported together, in order.
-/

namespace IceCube.Schema

/-- A checked value, or the issues of the document. -/
inductive Verdict (α : Type) where
  | good (value : α)
  | bad (issues : List Issue)
deriving Repr

namespace Verdict

variable {α β : Type}

/-- The verdict on a value that breaks a rule. -/
def broken (problem : Problem) : Verdict α := .bad [⟨[], problem⟩]

/-- The issues, none for a good verdict. -/
def issues : Verdict α → List Issue
  | .good _ => []
  | .bad is => is

/-- The value changed by a function. -/
def map (f : α → β) : Verdict α → Verdict β
  | .good a => .good (f a)
  | .bad is => .bad is

/-- Two verdicts taken together: the issues of both, or the function applied to the value. -/
def both : Verdict (α → β) → Verdict α → Verdict β
  | .good f, .good a => .good (f a)
  | .good _, .bad is => .bad is
  | .bad is, .good _ => .bad is
  | .bad is, .bad js => .bad (is ++ js)

/-- A further check that is made only of a good value. -/
def andThen : Verdict α → (α → Verdict β) → Verdict β
  | .good a, f => f a
  | .bad is, _ => .bad is

/-- The verdict on a part, seen from the whole. -/
def below (step : Step) : Verdict α → Verdict α
  | .good a => .good a
  | .bad is => .bad (is.map (Issue.below step))

/-- The verdict on a list of parts. -/
def all : List (Verdict α) → Verdict (List α)
  | [] => .good []
  | v :: vs => both (map List.cons v) (all vs)

instance : Applicative Verdict where
  pure := .good
  map := map
  seq f a := both f (a ())

/-- The value, or the issues as an error. -/
def toExcept : Verdict α → Except (List Issue) α
  | .good a => .ok a
  | .bad is => .error is

end Verdict

end IceCube.Schema
