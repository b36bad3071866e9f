import IceCube.Json.Basic
import IceCube.Text.Hex

/-!
# Reading JSON

The grammar is that of JSON with three words more: `NaN`, `Infinity` and `-Infinity`.  A member that
is given twice keeps its first place and its last value.  A text that is no document has one flaw,
the first that a reader meets from the left.
-/

namespace IceCube.Json

open Number (Binary64)
open Text (hexValue?)

/-- What a reader expected, or found wrong. -/
inductive Flaw where
  | value
  | memberName
  | colon
  | comma
  | trailing
  | unterminated
  | control
  | escape
  | codeUnit
  | byteOrderMark
deriving DecidableEq, Repr

/-- The wording of a flaw. -/
def Flaw.message : Flaw → String
  | .value => "Expecting value"
  | .memberName => "Expecting property name enclosed in double quotes"
  | .colon => "Expecting ':' delimiter"
  | .comma => "Expecting ',' delimiter"
  | .trailing => "Extra data"
  | .unterminated => "Unterminated string starting at"
  | .control => "Invalid control character at"
  | .escape => "Invalid \\escape"
  | .codeUnit => "Invalid \\uXXXX escape"
  | .byteOrderMark => "Unexpected UTF-8 BOM (decode using utf-8-sig)"

/-- A flaw and where it is: a line and a column, both from one, and an offset from zero. -/
structure ReadError where
  flaw : Flaw
  line : Nat
  column : Nat
  offset : Nat
deriving DecidableEq, Repr

/-- The flaw with its place. -/
def ReadError.message (e : ReadError) : String :=
  e.flaw.message ++ ": line " ++ toString e.line ++ " column " ++ toString e.column ++ " (char "
    ++ toString e.offset ++ ")"

namespace Reader

/-- A flaw and what is left of the text where it is. -/
structure Stop where
  flaw : Flaw
  rest : List Char

/-- A result, or where the reader stopped.  A result that covers only the start of a text comes with
what is left of it. -/
abbrev Scan := Except Stop

/-- A space, tab or line end. -/
def isSpace (c : Char) : Bool := c == ' ' || c == '\t' || c == '\n' || c == '\r'

/-- What is left after the spaces. -/
def skip (cs : List Char) : List Char := cs.dropWhile isSpace

/-- What is left after a word, if the text starts with it. -/
def afterWord? (word : List Char) (cs : List Char) : Option (List Char) :=
  if word.isPrefixOf cs then some (cs.drop word.length) else none

/-- The character that a backslash and this letter stand for. -/
def escaped? : Char → Option Char
  | '"' => some '"'
  | '\\' => some '\\'
  | '/' => some '/'
  | 'b' => some '\x08'
  | 'f' => some '\x0c'
  | 'n' => some '\n'
  | 'r' => some '\r'
  | 't' => some '\t'
  | _ => none

/-- The number that four hexadecimal digits write. -/
def codeUnit? (cs : List Char) : Option Nat :=
  match cs with
  | [a, b, c, d] => do
    let a ← hexValue? a
    let b ← hexValue? b
    let c ← hexValue? c
    let d ← hexValue? d
    return ((a * 16 + b) * 16 + c) * 16 + d
  | _ => none

/-- Whether a code unit is the first of a pair. -/
def isHigh (n : Nat) : Bool := 0xD800 ≤ n && n ≤ 0xDBFF

/-- Whether a code unit is the second of a pair. -/
def isLow (n : Nat) : Bool := 0xDC00 ≤ n && n ≤ 0xDFFF

/-- The character of a pair of code units. -/
def joined (high low : Nat) : Char :=
  Char.ofNat (0x10000 + (high - 0xD800) * 0x400 + (low - 0xDC00))

/-- The character of an escape of four hexadecimal digits.  The text is what follows the letter `u`,
and the letter itself is where a bad escape is reported. -/
def unicode (cs : List Char) : Scan (Char × List Char) :=
  let bad (cs : List Char) : Scan (Char × List Char) := .error ⟨.codeUnit, 'u' :: cs⟩
  match codeUnit? (cs.take 4), cs.drop 4 with
  | some n, after@(_ :: _) =>
    match after with
    | '\\' :: 'u' :: more =>
      if isHigh n && 4 < more.length then
        match codeUnit? (more.take 4) with
        | some low =>
          if isLow low then .ok (joined n low, more.drop 4) else .ok (Char.ofNat n, after)
        | none => bad more
      else .ok (Char.ofNat n, after)
    | _ => .ok (Char.ofNat n, after)
  | _, _ => bad cs

/-- The rest of a string literal.  `start` is the text from the opening quote on; the characters
read so far are in `read`, last first. -/
def stringBody (start : List Char) :
    (fuel : Nat) → (read : List Char) → List Char → Scan (String × List Char)
  | 0, _, _ => .error ⟨.unterminated, start⟩
  | _ + 1, _, [] => .error ⟨.unterminated, start⟩
  | _ + 1, read, '"' :: cs => .ok (String.ofList read.reverse, cs)
  | _ + 1, _, ['\\'] => .error ⟨.unterminated, start⟩
  | fuel + 1, read, '\\' :: 'u' :: cs => do
    let (c, cs) ← unicode cs
    stringBody start fuel (c :: read) cs
  | fuel + 1, read, '\\' :: c :: cs =>
    match escaped? c with
    | some d => stringBody start fuel (d :: read) cs
    | none => .error ⟨.escape, '\\' :: c :: cs⟩
  | fuel + 1, read, c :: cs =>
    if c.toNat < 0x20 then .error ⟨.control, c :: cs⟩ else stringBody start fuel (c :: read) cs

/-- A string literal, from its opening quote on. -/
def string (cs : List Char) : Scan (String × List Char) :=
  stringBody cs cs.length [] (cs.drop 1)

/-- The digits at the start of a text. -/
def digits (cs : List Char) : List Char := cs.takeWhile Char.isDigit

/-- The number that decimal digits write. -/
def natOf (ds : List Char) : Nat := ds.foldl (fun n d ↦ 10 * n + (d.toNat - 48)) 0

/-- The digits of the integral part of a number: a lone zero, or digits that start with another. -/
def wholePart? : List Char → Option (List Char)
  | '0' :: _ => some ['0']
  | cs => match digits cs with
    | [] => none
    | ds => some ds

/-- The digits of a fraction, after its point. -/
def fractionPart? : List Char → Option (List Char)
  | '.' :: cs => match digits cs with
    | [] => none
    | ds => some ds
  | _ => none

/-- An exponent, with its sign, and how many characters write it. -/
def exponentPart? : List Char → Option (Int × Nat)
  | e :: cs =>
    if e == 'e' || e == 'E' then
      let signed := match cs with
        | '-' :: _ => true
        | '+' :: _ => true
        | _ => false
      let ds := digits (if signed then cs.drop 1 else cs)
      if ds.isEmpty then none
      else
        let n : Int := natOf ds
        some (if cs.head? == some '-' then -n else n, 1 + (if signed then 1 else 0) + ds.length)
    else none
  | [] => none

/-- The number at the start of a text. -/
def number? (cs : List Char) : Option (Json × List Char) := do
  let negative := cs.head? == some '-'
  let unsigned := if negative then cs.drop 1 else cs
  let whole ← wholePart? unsigned
  let afterWhole := unsigned.drop whole.length
  let fraction := fractionPart? afterWhole
  let afterFraction := match fraction with
    | some ds => afterWhole.drop (ds.length + 1)
    | none => afterWhole
  match fraction, exponentPart? afterFraction with
  | none, none =>
    let n : Int := natOf whole
    return (.int (if negative then -n else n), afterFraction)
  | _, exponent =>
    let ds := fraction.getD []
    let (e, length) := exponent.getD (0, 0)
    return (.float (Binary64.ofDecimal negative (natOf (whole ++ ds)) (e - ds.length)),
      afterFraction.drop length)

/-- The word or number at the start of a text. -/
def scalar? (cs : List Char) : Option (Json × List Char) :=
  let word (w : String) (v : Json) := (afterWord? w.toList cs).map fun rest ↦ (v, rest)
  word "null" .null <|> word "true" (.bool true) <|> word "false" (.bool false)
    <|> word "NaN" (.float .nan) <|> word "Infinity" (.float (.infinite false))
    <|> word "-Infinity" (.float (.infinite true)) <|> number? cs

mutual

/-- A value, at the start of a text. -/
def value : (fuel : Nat) → List Char → Scan (Json × List Char)
  | 0, cs => .error ⟨.value, cs⟩
  | fuel + 1, cs =>
    match cs with
    | '"' :: _ => do
      let (s, rest) ← string cs
      return (.str s, rest)
    | '[' :: rest =>
      match skip rest with
      | ']' :: rest => .ok (.arr [], rest)
      | rest => do
        let (items, rest) ← items fuel rest
        return (.arr items, rest)
    | '\x7b' :: rest =>
      match skip rest with
      | '\x7d' :: rest => .ok (.obj [], rest)
      | rest => do
        let (members, rest) ← members fuel rest
        return (.obj members, rest)
    | _ => match scalar? cs with
      | some step => .ok step
      | none => .error ⟨.value, cs⟩

/-- The items of an array that has some, up to and with its closing bracket. -/
def items : (fuel : Nat) → List Char → Scan (List Json × List Char)
  | 0, cs => .error ⟨.value, cs⟩
  | fuel + 1, cs => do
    let (v, rest) ← value fuel cs
    match skip rest with
    | ']' :: rest => return ([v], rest)
    | ',' :: rest =>
      let (vs, rest) ← items fuel (skip rest)
      return (v :: vs, rest)
    | rest => .error ⟨.comma, rest⟩

/-- The members of an object that has some, up to and with its closing brace. -/
def members : (fuel : Nat) → List Char → Scan (List (String × Json) × List Char)
  | 0, cs => .error ⟨.value, cs⟩
  | fuel + 1, cs =>
    match cs with
    | '"' :: _ => do
      let (name, rest) ← string cs
      match skip rest with
      | ':' :: rest =>
        let (v, rest) ← value fuel (skip rest)
        match skip rest with
        | '\x7d' :: rest => return ([(name, v)], rest)
        | ',' :: rest =>
          let (ms, rest) ← members fuel (skip rest)
          return ((name, v) :: ms, rest)
        | rest => .error ⟨.comma, rest⟩
      | rest => .error ⟨.colon, rest⟩
    | _ => .error ⟨.memberName, cs⟩

end

/-- A whole document, with nothing but spaces around it. -/
def document (cs : List Char) : Scan Json :=
  match cs with
  | '\ufeff' :: _ => .error ⟨.byteOrderMark, cs⟩
  | _ => do
    let (v, rest) ← value (2 * cs.length + 2) (skip cs)
    match skip rest with
    | [] => return v
    | rest => .error ⟨.trailing, rest⟩

/-- The place of a flaw in the whole text. -/
def Stop.locate (cs : List Char) (stop : Stop) : ReadError :=
  let offset := cs.length - stop.rest.length
  let before := cs.take offset
  { flaw := stop.flaw
    line := before.count '\n' + 1
    column := (before.reverse.takeWhile (· != '\n')).length + 1
    offset }

end Reader

/-- The document that a text writes, or the first flaw of the text.  Members whose names are written
twice are there twice. -/
def readVerbatim (s : String) : Except ReadError Json :=
  let cs := s.toList
  (Reader.document cs).mapError (Reader.Stop.locate cs)

/-- The document that a text writes, or the first flaw of the text.  Of members with one name the
last value counts. -/
def read (s : String) : Except ReadError Json := (readVerbatim s).map settle

/-- The document that a text writes, if it writes one. -/
def read? (s : String) : Option Json := (read s).toOption

end IceCube.Json
