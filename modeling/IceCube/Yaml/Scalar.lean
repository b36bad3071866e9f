import IceCube.Number.Binary64
import IceCube.Yaml.Token

/-!
# Plain scalars

A plain scalar is a truth value, an integer, a number with a fraction or null if it is written like
one, and otherwise a text.  Some that are written like a number are none, because they have no digits or
too many.
-/

namespace IceCube.Yaml

open Number (Binary64)

/-- What a scalar denotes. -/
inductive Scalar where
  | null
  | bool (b : Bool)
  | int (i : Int)
  | float (x : Binary64)
  | text (s : String)
deriving DecidableEq, Repr, Inhabited

namespace Scalar

/-- The words for true. -/
def trueWords : List String := ["yes", "Yes", "YES", "true", "True", "TRUE", "on", "On", "ON"]

/-- The words for false. -/
def falseWords : List String := ["no", "No", "NO", "false", "False", "FALSE", "off", "Off", "OFF"]

/-- The words for null. -/
def nullWords : List String := ["", "~", "null", "Null", "NULL"]

/-- The sign at the start of a number, and the rest. -/
def splitSign : List Char → Bool × List Char
  | '-' :: cs => (true, cs)
  | '+' :: cs => (false, cs)
  | cs => (false, cs)

/-- The digits without the underscores between them. -/
def withoutUnderscores (cs : List Char) : List Char := cs.filter (· != '_')

/-- The number that digits of a base write, if all of them are digits of that base. -/
def natOf? (base : Nat) (cs : List Char) : Option Nat :=
  if cs.isEmpty then none
  else cs.foldlM (fun n c ↦ do
    let d ← Text.hexValue? c
    if d < base then some (base * n + d) else none) 0

/-- The pieces of a text between colons. -/
def colonPieces : List Char → List (List Char)
  | [] => [[]]
  | c :: cs =>
    match colonPieces cs with
    | [] => [[c]]
    | p :: ps => if c == ':' then [] :: p :: ps else (c :: p) :: ps

/-- Whether a piece between colons is below sixty. -/
def isSixtieth (cs : List Char) : Bool :=
  match cs with
  | [a] => a.isDigit
  | [a, b] => '0' ≤ a && a ≤ '5' && b.isDigit
  | _ => false

/-- The value of an unsigned integer: binary, octal, hexadecimal, decimal, or in sixtieths. -/
def unsignedInt? (cs : List Char) : Option Nat :=
  match cs with
  | '0' :: 'b' :: ds => natOf? 2 (withoutUnderscores ds)
  | '0' :: 'x' :: ds => natOf? 16 (withoutUnderscores ds)
  | ['0'] => some 0
  | '0' :: ds => natOf? 8 ('0' :: withoutUnderscores ds)
  | d :: _ =>
    if !d.isDigit then none
    else match colonPieces cs with
      | [ds] => natOf? 10 (withoutUnderscores ds)
      | first :: rest =>
        if rest.all isSixtieth then do
          let first ← natOf? 10 (withoutUnderscores first)
          rest.foldlM (fun n p ↦ (natOf? 10 p).map (60 * n + ·)) first
        else none
      | [] => none
  | [] => none

/-- The value of an exponent with its sign. -/
def exponent? : List Char → Option Int
  | [] => some 0
  | e :: sign :: ds =>
    if (e == 'e' || e == 'E') && (sign == '-' || sign == '+') && ds.all Char.isDigit then
      (natOf? 10 ds).map fun n ↦ if sign == '-' then -(n : Int) else n
    else none
  | _ => none

/-- The value of an unsigned number in sixtieths with a point in its last piece, as a numerator and
a power of ten. -/
def sixtieths? (cs : List Char) : Option (Nat × Nat) := do
  let pieces := colonPieces (cs.takeWhile (· != '.'))
  let fraction := (cs.drop (cs.takeWhile (· != '.')).length).drop 1
  match pieces with
  | first :: piece :: rest =>
    if cs.contains '.' && (piece :: rest).all isSixtieth
        && (first.head?.any Char.isDigit) && fraction.all (fun c ↦ c.isDigit || c == '_') then
      let first ← natOf? 10 (withoutUnderscores first)
      let whole ← (piece :: rest).foldlM (fun n p ↦ (natOf? 10 p).map (60 * n + ·)) first
      let digits := withoutUnderscores fraction
      let part ← natOf? 10 ('0' :: digits)
      return (whole * Nat.pow 10 digits.length + part, digits.length)
    else none
  | _ => none

/-- The value of a number with a point.  Its digits may hold underscores, and its exponent has a
sign. -/
def float? (cs : List Char) : Option Binary64 :=
  let (negative, unsigned) := splitSign cs
  if [".inf", ".Inf", ".INF"].contains (String.ofList unsigned) then some (.infinite negative)
  else if [".nan", ".NaN", ".NAN"].contains (String.ofList cs) then some .nan
  else
    let isPart (c : Char) : Bool := c.isDigit || c == '_'
    let whole := unsigned.takeWhile isPart
    match unsigned.drop whole.length with
    | '.' :: rest =>
      let fraction := rest.takeWhile isPart
      let starts := match whole, fraction with
        | d :: _, _ => d.isDigit
        | [], d :: _ => d.isDigit && unsigned.length == cs.length
        | [], [] => false
      if !starts then none
      else do
        let e ← exponent? (rest.drop fraction.length)
        let fraction := withoutUnderscores fraction
        let digits ← natOf? 10 ('0' :: (withoutUnderscores whole ++ fraction))
        return Binary64.ofDecimal negative digits (e - fraction.length)
    | _ => (sixtieths? unsigned).map fun (digits, places) ↦
      Binary64.ofDecimal negative digits (-(places : Int))

/-- What a plain scalar denotes. -/
def ofPlain (s : String) : Scalar :=
  let cs := s.toList
  let (negative, unsigned) := splitSign cs
  if nullWords.contains s then .null
  else if trueWords.contains s then .bool true
  else if falseWords.contains s then .bool false
  else match unsignedInt? unsigned with
    | some n => .int (if negative then -(n : Int) else n)
    | none => match float? cs with
      | some x => .float x
      | none => .text s

/-! ## Numbers that are none -/

/-- How many decimal digits can be read as an integer. -/
def digitLimit : Nat := 4300

/-- Digits of a base are expected and there are none. -/
def noDigits (base : Nat) : Error :=
  .value "ValueError" ("invalid literal for int() with base " ++ toString base ++ ": ''")

/-- There are more decimal digits than can be read. -/
def tooManyDigits (n : Nat) : Error :=
  .value "ValueError" ("Exceeds the limit (" ++ toString digitLimit
    ++ " digits) for integer string conversion: value has " ++ toString n
    ++ " digits; use sys.set_int_max_str_digits() to increase the limit")

/-- The power of sixty for a piece is beyond all floating-point numbers. -/
def tooManyPieces : Error := .value "OverflowError" "int too large to convert to float"

/-- Whether there is nothing but underscores in the place of digits. -/
def lacksDigits (cs : List Char) : Bool := !cs.isEmpty && cs.all (· == '_')

/-- What keeps an unsigned number from being read. -/
def numberFlaw? (cs : List Char) : Option Error :=
  match cs with
  | '0' :: 'b' :: ds => if lacksDigits ds then some (noDigits 2) else none
  | '0' :: 'x' :: ds => if lacksDigits ds then some (noDigits 16) else none
  | _ =>
    if (unsignedInt? cs).isSome then
      let digits := (withoutUnderscores ((colonPieces cs).headD [])).length
      if cs.head? != some '0' && digitLimit < digits then some (tooManyDigits digits) else none
    else if (sixtieths? cs).isSome then
      let whole := cs.takeWhile (· != '.')
      if Binary64.ofDecimal false (Nat.pow 60 ((colonPieces whole).length - 1)) 0 == .infinite false then
        some tooManyPieces
      else none
    else none

/-- What keeps a plain scalar from being read. -/
def flaw? (s : String) : Option Error := numberFlaw? (splitSign s.toList).2

end Scalar

end IceCube.Yaml
