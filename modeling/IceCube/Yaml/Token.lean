import IceCube.Text.Hex
import IceCube.Text.Quoted

/-!
# Tokens of YAML

A token is a scalar or a sign, or it marks where a block starts or ends by its indentation.
-/

namespace IceCube.Yaml

/-- A place in a text: its line and column, both from zero. -/
structure Mark where
  line : Nat
  column : Nat
deriving DecidableEq, Repr, Inhabited

/-- Why a text is no document. -/
inductive Error where
  /-- A character that no document may hold, and its offset. -/
  | unprintable (c : Char) (position : Nat)
  /-- A problem at a place. -/
  | problem (text : String) (mark : Mark)
  /-- A scalar that is written like a value and has none, with the kind of error that this is. -/
  | value (kind text : String)
deriving DecidableEq, Repr

/-- The wording of an error in the text of a file. -/
def Error.message (file : String) : Error → String
  | .unprintable c position =>
    let n := c.toNat
    let digits := if n < 0x10000 then Text.hexDigits 4 n else Nat.toDigits 16 n
    "unacceptable character #x" ++ String.ofList digits
      ++ ": special characters are not allowed\n  in \"" ++ file ++ "\", position "
      ++ toString position
  | .problem text mark =>
    "YAML syntax error at line " ++ toString (mark.line + 1) ++ ", column "
      ++ toString (mark.column + 1) ++ ": " ++ text
  | .value _ text => text

/-- What a token is. -/
inductive TokenKind where
  | streamEnd
  | directive
  | documentStart
  | documentEnd
  | sequenceStart
  | mappingStart
  | blockEnd
  | openBracket
  | closeBracket
  | openBrace
  | closeBrace
  | entry
  | comma
  | key
  | value
  | alias (name : String)
  | scalar (text : String) (quoted : Bool)
deriving DecidableEq, Repr, Inhabited

/-- The name of a token in messages. -/
def TokenKind.name : TokenKind → String
  | .streamEnd => "<stream end>"
  | .directive => "<directive>"
  | .documentStart => "<document start>"
  | .documentEnd => "<document end>"
  | .sequenceStart => "<block sequence start>"
  | .mappingStart => "<block mapping start>"
  | .blockEnd => "<block end>"
  | .openBracket => "["
  | .closeBracket => "]"
  | .openBrace => "\x7b"
  | .closeBrace => "\x7d"
  | .entry => "-"
  | .comma => ","
  | .key => "?"
  | .value => ":"
  | .alias _ => "<alias>"
  | .scalar .. => "<scalar>"

/-- A token and where it starts. -/
structure Token where
  kind : TokenKind
  mark : Mark
deriving DecidableEq, Repr, Inhabited

end IceCube.Yaml
