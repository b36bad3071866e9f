import IceCube.Stylesheet.Nested

/-!
# Reading nested style rules

Comments are taken out first.  A statement then reaches up to the next semicolon or brace outside
quotes; a brace that opens a block makes it a rule.  A text that is not well formed has no reading.
-/

namespace IceCube.Stylesheet.Reader

/-- The quote that is open behind a character, if one or none is open before it. -/
def quoteAfter (quote : Option Char) (c : Char) : Option Char :=
  match quote with
  | some q => if c == q then none else some q
  | none => if c == '"' || c == '\'' then some c else none

/-- What a place in a sheet is inside of. -/
inductive Place where
  | text (quote : Option Char)
  | blockComment
  | lineComment
deriving DecidableEq, Repr

/-- What is found in the rest of a text, with a piece before it. -/
def ahead {α : Type} (piece : List Char) (found : List Char × α) : List Char × α :=
  (piece ++ found.1, found.2)

@[simp] theorem ahead_fst {α : Type} (piece : List Char) (found : List Char × α) :
    (ahead piece found).1 = piece ++ found.1 := rfl

@[simp] theorem ahead_snd {α : Type} (piece : List Char) (found : List Char × α) :
    (ahead piece found).2 = found.2 := rfl

@[simp] theorem ahead_nil {α : Type} (found : List Char × α) : ahead [] found = found := rfl

@[simp] theorem ahead_ahead {α : Type} (piece piece' : List Char) (found : List Char × α) :
    ahead piece (ahead piece' found) = ahead (piece ++ piece') found := by
  simp [ahead]

/-- The text from a place on with a space for every comment, and the place at its end.  A line
comment ends before the line end. -/
def scan : Place → List Char → List Char × Place
  | place, [] => ([], place)
  | .text none, '/' :: '*' :: cs => ahead [' '] (scan .blockComment cs)
  | .text none, '/' :: '/' :: cs => ahead [' '] (scan .lineComment cs)
  | .text quote, '\\' :: c :: cs => ahead ['\\', c] (scan (.text quote) cs)
  | .text quote, c :: cs => ahead [c] (scan (.text (quoteAfter quote c)) cs)
  | .blockComment, '*' :: '/' :: cs => scan (.text none) cs
  | .blockComment, _ :: cs => scan .blockComment cs
  | .lineComment, '\n' :: cs => ahead ['\n'] (scan (.text none) cs)
  | .lineComment, _ :: cs => scan .lineComment cs

/-- The text with a space for every comment, if no quote and no block comment is open at its end. -/
def stripComments (cs : List Char) : Option (List Char) :=
  match scan (.text none) cs with
  | (stripped, .text none) | (stripped, .lineComment) => some stripped
  | _ => none

/-- The text up to the first character outside quotes that satisfies `p`, and what is left from that
character on. -/
def breakOutside (p : Char → Bool) (quote : Option Char) : List Char → List Char × List Char
  | [] => ([], [])
  | '\\' :: c :: cs => ahead ['\\', c] (breakOutside p quote cs)
  | c :: cs =>
    if quote.isNone && p c then ([], c :: cs)
    else ahead [c] (breakOutside p (quoteAfter quote c) cs)

/-- The pieces of a text between commas outside quotes. -/
def commaPieces : (fuel : Nat) → List Char → List (List Char)
  | 0, cs => [cs]
  | fuel + 1, cs =>
    match breakOutside (· == ',') none cs with
    | (piece, _ :: rest) => piece :: commaPieces fuel rest
    | (piece, []) => [piece]

/-- The combinator that a sign stands for. -/
def combinator? : Char → Option Combinator
  | '>' => some .child
  | '+' => some .adjacent
  | '~' => some .sibling
  | _ => none

/-- Whether a character ends a compound selector. -/
def endsCompound (c : Char) : Bool := Text.isBlank c || (combinator? c).isSome

/-- The compound selectors of a chain, the first of them after the given combinator. -/
def compounds : (fuel : Nat) → Combinator → List Char → Option Selector
  | 0, _, _ => none
  | fuel + 1, before, cs =>
    match cs.dropWhile Text.isBlank with
    | [] => if before = .descendant then some [] else none
    | c :: rest =>
      match combinator? c with
      | some sign => if before = .descendant then compounds fuel sign rest else none
      | none =>
        let (text, rest) := breakOutside endsCompound none (c :: rest)
        (compounds fuel .descendant rest).map (⟨before, text⟩ :: ·)

/-- A chain of compound selectors. -/
def selector? (cs : List Char) : Option Selector :=
  match compounds (cs.length + 1) .descendant cs with
  | some [] => none
  | found => found

/-- A list of selectors. -/
def selectors? (cs : List Char) : Option (List Selector) :=
  (commaPieces cs.length cs).mapM selector?

/-- The name of a variable: letters, digits, hyphens and underscores, which mean the same. -/
def variableName (cs : List Char) : List Char :=
  (cs.takeWhile fun c ↦ c.isAlphanum || c == '-' || c == '_').map fun c ↦
    if c == '_' then '-' else c

/-- A declaration or an assignment. -/
def declaration? (cs : List Char) : Option Statement :=
  match breakOutside (· == ':') none cs with
  | (_, []) => none
  | (name, _ :: value) =>
    let name := Text.trim name
    let value := Text.trim value
    if name.isEmpty || value.isEmpty then none
    else match name with
      | '$' :: name =>
        if name.isEmpty || (variableName name).length ≠ name.length then none
        else some (.assign (variableName name) value)
      | _ => some (.declare ⟨name, value⟩)

/-- Whether a character ends a statement. -/
def endsStatement (c : Char) : Bool := c == ';' || c == '\x7b' || c == '\x7d'

/-- The statement before a semicolon or the end of a block, if there is one. -/
def simple? (head : List Char) : Option (List Statement) :=
  if head.isEmpty then some [] else (declaration? head).map ([·])

/-- The statements up to the end of a block, or of the text at the outermost level, and what is left
after that. -/
def statements : (fuel : Nat) → (inner : Bool) → List Char → Option (List Statement × List Char)
  | 0, _, _ => none
  | fuel + 1, inner, cs =>
    match breakOutside endsStatement none cs with
    | (head, '\x7b' :: rest) => do
      let selectors ← selectors? (Text.trim head)
      let (body, rest) ← statements fuel true rest
      let (more, rest) ← statements fuel inner rest
      return (.rule selectors body :: more, rest)
    | (head, ';' :: rest) => do
      let found ← simple? (Text.trim head)
      let (more, rest) ← statements fuel inner rest
      return (found ++ more, rest)
    | (head, rest) => do
      let found ← simple? (Text.trim head)
      if inner == rest.isEmpty then none else return (found, rest.drop 1)

/-- The statements of a sheet. -/
def sheet? (cs : List Char) : Option (List Statement) := do
  let cs ← stripComments cs
  let (found, _) ← statements (cs.length + 1) false cs
  return found

end IceCube.Stylesheet.Reader
