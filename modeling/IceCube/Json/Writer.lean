import IceCube.Json.Basic
import IceCube.Number.Shortest
import IceCube.Text.Hex

/-!
# Writing JSON

A document is written on one line, or with a line for every member and item.  Text is escaped
either to ASCII alone or only where the grammar demands it.
-/

namespace IceCube.Json

open Text (hexDigits)

/-- Which characters of a text are escaped beyond those that the grammar demands. -/
inductive Escaping where
  /-- Everything outside the printable part of ASCII. -/
  | ascii
  /-- Nothing. -/
  | least
deriving DecidableEq, Repr

/-- Whether members and items have lines of their own. -/
inductive Spread where
  | oneLine
  /-- The indentation of a level. -/
  | indented (width : Nat)
deriving DecidableEq, Repr

/-- How a document is written. -/
structure Style where
  escaping : Escaping
  spread : Spread
deriving DecidableEq, Repr

namespace Writer

/-- An escape of four hexadecimal digits. -/
def unicode (n : Nat) : List Char := '\\' :: 'u' :: hexDigits 4 n

/-- The escapes of a character outside ASCII, one for each of its code units. -/
def codeUnits (c : Char) : List Char :=
  let n := c.toNat
  if n < 0x10000 then unicode n
  else unicode (0xD800 + (n - 0x10000) / 0x400) ++ unicode (0xDC00 + (n - 0x10000) % 0x400)

/-- A character inside a string literal. -/
def char (escaping : Escaping) (c : Char) : List Char :=
  if c == '"' then ['\\', '"']
  else if c == '\\' then ['\\', '\\']
  else if c == '\n' then ['\\', 'n']
  else if c == '\r' then ['\\', 'r']
  else if c == '\t' then ['\\', 't']
  else if c == '\x08' then ['\\', 'b']
  else if c == '\x0c' then ['\\', 'f']
  else if c.toNat < 0x20 then unicode c.toNat
  else match escaping with
    | .ascii => if c.toNat < 0x7f then [c] else codeUnits c
    | .least => [c]

/-- A string literal. -/
def string (escaping : Escaping) (s : String) : List Char :=
  '"' :: (s.toList.flatMap (char escaping) ++ ['"'])

/-- A line end and the indentation of a level. -/
def newLine (width level : Nat) : List Char := '\n' :: List.replicate (width * level) ' '

/-- Written parts between brackets, at a level of nesting. -/
def enclose (spread : Spread) (level : Nat) (opening closing : Char) (parts : List (List Char)) :
    List Char :=
  if parts.isEmpty then [opening, closing]
  else match spread with
    | .oneLine => opening :: (List.intercalate [',', ' '] parts ++ [closing])
    | .indented width =>
      opening :: (newLine width (level + 1)
        ++ List.intercalate (',' :: newLine width (level + 1)) parts
        ++ newLine width level ++ [closing])

mutual

/-- A document, at a level of nesting. -/
def value (style : Style) (level : Nat) : Json → List Char
  | .null => "null".toList
  | .bool b => if b then "true".toList else "false".toList
  | .int i => (toString i).toList
  | .float x => Number.json.text x
  | .str s => string style.escaping s
  | .arr vs => enclose style.spread level '[' ']' (items style (level + 1) vs)
  | .obj ms => enclose style.spread level '\x7b' '\x7d' (members style (level + 1) ms)

/-- The items of an array. -/
def items (style : Style) (level : Nat) : List Json → List (List Char)
  | [] => []
  | v :: vs => value style level v :: items style level vs

/-- The members of an object. -/
def members (style : Style) (level : Nat) : List (String × Json) → List (List Char)
  | [] => []
  | (name, v) :: ms =>
    (string style.escaping name ++ [':', ' '] ++ value style level v) :: members style level ms

end

end Writer

/-- The text of a document. -/
def write (style : Style) (v : Json) : String := String.ofList (Writer.value style 0 v)

/-- The text on one line, in ASCII. -/
def compact (v : Json) : String := v.write ⟨.ascii, .oneLine⟩

/-- The text with two columns of indentation, in ASCII. -/
def pretty (v : Json) : String := v.write ⟨.ascii, .indented 2⟩

/-- The text with two columns of indentation, escaped no more than needed. -/
def prettyUnicode (v : Json) : String := v.write ⟨.least, .indented 2⟩

end IceCube.Json
