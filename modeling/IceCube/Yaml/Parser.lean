import IceCube.Yaml.Lexer
import IceCube.Yaml.Node

/-!
# Parsing YAML

A text holds at most one document.  The problem of a text is the first that shows when its tokens
are taken from the left.
-/

namespace IceCube.Yaml.Parser

/-- The tokens that are left, and the error that stands after the last of them. -/
structure Input where
  tokens : List Token
  after : Error

/-- A part of the grammar. -/
abbrev Parse := StateT Input (Except Error)

/-- The next token, which stays. -/
def peek : Parse Token := do
  match (← get).tokens with
  | t :: _ => return t
  | [] => throw (← get).after

/-- The next token is taken. -/
def advance : Parse Unit := modify fun i ↦ { i with tokens := i.tokens.drop 1 }

/-- Whether the next token is one of some kinds. -/
def isNext (kinds : List TokenKind) : Parse Bool := do return kinds.contains (← peek).kind

/-- The next token is taken if it is of a kind. -/
def accept (kind : TokenKind) : Parse Bool := do
  if (← peek).kind = kind then
    advance
    return true
  else return false

/-- A problem at the next token. -/
def fail {α : Type} (text : String) : Parse α := do throw (.problem text (← peek).mark)

/-- The next token is not what has to stand there. -/
def unexpected {α : Type} (text : String) : Parse α := do
  fail (text ++ Text.quoted (← peek).kind.name)

mutual

/-- A node.  `block` tells whether blocks may start here, and `sequence` whether a sequence may that is
indented no further than its key. -/
def node : (fuel : Nat) → (block sequence : Bool) → Parse Node
  | 0, _, _ => fail "nesting"
  | fuel + 1, block, sequence => do
    let token ← peek
    match token.kind with
    | .alias name =>
      throw (.problem ("found undefined alias " ++ Text.quoted name) token.mark)
    | .scalar text quoted =>
      advance
      return .scalar text quoted
    | .openBracket =>
      advance
      return .list (← flowItems fuel true)
    | .openBrace =>
      advance
      return .table (← flowEntries fuel true)
    | kind =>
      if sequence && kind = .entry then return .list (← openItems fuel)
      else if block && kind = .sequenceStart then
        advance
        return .list (← blockItems fuel)
      else if block && kind = .mappingStart then
        advance
        return .table (← blockEntries fuel)
      else
        unexpected "expected the node content, but found "

/-- The items of a block sequence, up to its end. -/
def blockItems : (fuel : Nat) → Parse (List Node)
  | 0 => fail "nesting"
  | fuel + 1 => do
    if ← accept .entry then
      let item ← if ← isNext [.entry, .blockEnd] then pure .nothing else node fuel true false
      return item :: (← blockItems fuel)
    else if ← accept .blockEnd then return []
    else unexpected "expected <block end>, but found "

/-- The items of a sequence that is indented no further than its key. -/
def openItems : (fuel : Nat) → Parse (List Node)
  | 0 => fail "nesting"
  | fuel + 1 => do
    if ← accept .entry then
      let item ← if ← isNext [.entry, .key, .value, .blockEnd] then pure .nothing
        else node fuel true false
      return item :: (← openItems fuel)
    else return []

/-- The entries of a block mapping, up to its end. -/
def blockEntries : (fuel : Nat) → Parse (List (Mark × Node × Node))
  | 0 => fail "nesting"
  | fuel + 1 => do
    if ← accept .key then
      let mark := (← peek).mark
      let key ← if ← isNext [.key, .value, .blockEnd] then pure .nothing else node fuel true true
      let value ← if ← accept .value then
          if ← isNext [.key, .value, .blockEnd] then pure .nothing else node fuel true true
        else pure .nothing
      return (mark, key, value) :: (← blockEntries fuel)
    else if ← accept .blockEnd then return []
    else unexpected "expected <block end>, but found "

/-- The items of a sequence in brackets. -/
def flowItems : (fuel : Nat) → (first : Bool) → Parse (List Node)
  | 0, _ => fail "nesting"
  | fuel + 1, first => do
    if ← accept .closeBracket then return []
    else
      if !first then
        if !(← accept .comma) then unexpected "expected ',' or ']', but got "
      if ← accept .closeBracket then return []
      else if ← accept .key then
        let mark := (← peek).mark
        let key ← if ← isNext [.value, .comma, .closeBracket] then pure .nothing
          else node fuel false false
        let value ← if ← accept .value then
            if ← isNext [.comma, .closeBracket] then pure .nothing else node fuel false false
          else pure .nothing
        return .table [(mark, key, value)] :: (← flowItems fuel false)
      else
        let item ← node fuel false false
        return item :: (← flowItems fuel false)

/-- The entries of a mapping in braces. -/
def flowEntries : (fuel : Nat) → (first : Bool) → Parse (List (Mark × Node × Node))
  | 0, _ => fail "nesting"
  | fuel + 1, first => do
    if ← accept .closeBrace then return []
    else
      if !first then
        if !(← accept .comma) then unexpected "expected ',' or '\x7d', but got "
      if ← accept .closeBrace then return []
      else if ← accept .key then
        let mark := (← peek).mark
        let key ← if ← isNext [.value, .comma, .closeBrace] then pure .nothing
          else node fuel false false
        let value ← if ← accept .value then
            if ← isNext [.comma, .closeBrace] then pure .nothing else node fuel false false
          else pure .nothing
        return (mark, key, value) :: (← flowEntries fuel false)
      else
        let mark := (← peek).mark
        let key ← node fuel false false
        return (mark, key, .nothing) :: (← flowEntries fuel false)

end

/-- The tokens of lines about the document are taken. -/
def skipDirectives : (fuel : Nat) → Parse Unit
  | 0 => return
  | fuel + 1 => do if ← accept .directive then skipDirectives fuel

/-- The ends of documents are taken. -/
def skipEnds : (fuel : Nat) → Parse Unit
  | 0 => return
  | fuel + 1 => do if ← accept .documentEnd then skipEnds fuel

/-- The document of a text, null where there is none. -/
def document (fuel : Nat) : Parse Node := do
  let implicit := !(← isNext [.directive, .documentStart, .streamEnd])
  let value ← if implicit then node fuel true false
    else do
      skipEnds fuel
      if ← isNext [.streamEnd] then pure .nothing
      else
        skipDirectives fuel
        if !(← accept .documentStart) then unexpected "expected '<document start>', but found "
        if ← isNext [.directive, .documentStart, .documentEnd, .streamEnd] then pure .nothing
        else node fuel true false
  skipEnds fuel
  if ← isNext [.streamEnd] then return value
  else if ← isNext [.directive, .documentStart] then fail "but found another document"
  else unexpected "expected '<document start>', but found "

end Parser

/-- The value of the document in a text. -/
def load (s : String) : Except Error Value := do
  let (tokens, stop) := tokens s.toList
  let input : Parser.Input := ⟨tokens, stop.getD (.problem "" ⟨0, 0⟩)⟩
  let (node, _) ← (Parser.document (4 * tokens.length + 4)).run input
  node.make (tokens.length + 1)

end IceCube.Yaml
