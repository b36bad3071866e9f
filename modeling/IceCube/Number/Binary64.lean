/-!
# Binary floating-point numbers

A number of the 64-bit binary format is kept as what it denotes: a sign, a significand below
`2 ^ 53` and an exponent of at least `-1074`.  Every operation computes the exact result first and
rounds once, to the nearest number, a tie going to the even significand.
-/

namespace IceCube.Number

/-- A number of the 64-bit binary format.  A finite one is `significand * 2 ^ exponent`, and its
significand is at least `2 ^ 52` unless the exponent is the smallest. -/
inductive Binary64 where
  | nan
  | infinite (negative : Bool)
  | finite (negative : Bool) (significand : Nat) (exponent : Int)
deriving DecidableEq, Repr, Inhabited

/-- The quotient rounded to the nearest integer, a tie to the even one. -/
def roundDiv (num den : Nat) : Nat :=
  let q := num / den
  let r := num % den
  if den < 2 * r || (2 * r == den && q % 2 == 1) then q + 1 else q

/-- `num / den * 2 ^ (-shift)` as a quotient of natural numbers. -/
def scaled (num den : Nat) (shift : Int) : Nat × Nat :=
  if 0 ≤ shift then (num, den * Nat.pow 2 shift.toNat)
  else (num * Nat.pow 2 (-shift).toNat, den)

/-- The exponent of the greatest power of two that is at most `num / den`. -/
def floorLog2 (num den : Nat) : Int :=
  let guess : Int := (Nat.log2 num : Int) - (Nat.log2 den : Int)
  let (n, d) := scaled num den guess
  if n < d then guess - 1 else guess

namespace Binary64

/-- The zero of a sign. -/
def zero (negative : Bool) : Binary64 := .finite negative 0 (-1074)

/-- The number nearest to a quotient, infinite beyond the largest finite number. -/
def ofRatio (negative : Bool) (num den : Nat) : Binary64 :=
  if num = 0 then zero negative
  else
    let exponent := max (floorLog2 num den - 52) (-1074)
    let (n, d) := scaled num den exponent
    let m := roundDiv n d
    let (m, exponent) := if m = Nat.pow 2 53 then (Nat.pow 2 52, exponent + 1) else (m, exponent)
    if 971 < exponent then .infinite negative else .finite negative m exponent

/-- The number of decimal digits of a number, one for zero. -/
def decimalLength (n : Nat) : Nat := (Nat.toDigits 10 n).length

/-- The number nearest to `digits * 10 ^ exponent`. -/
def ofDecimal (negative : Bool) (digits : Nat) (exponent : Int) : Binary64 :=
  let magnitude := exponent + decimalLength digits
  if digits = 0 then zero negative
  else if 400 < magnitude then .infinite negative
  else if magnitude < -400 then zero negative
  else if 0 ≤ exponent then ofRatio negative (digits * Nat.pow 10 exponent.toNat) 1
  else ofRatio negative digits (Nat.pow 10 (-exponent).toNat)

/-- The number nearest to an integer. -/
def ofInt (i : Int) : Binary64 := ofRatio (i < 0) i.natAbs 1

/-- Every number but the infinite ones and the one that is no number. -/
def isFinite : Binary64 → Bool
  | .finite .. => true
  | _ => false

/-- The zero of either sign. -/
def isZero : Binary64 → Bool
  | .finite _ m _ => m == 0
  | _ => false

/-- The value in units of `2 ^ scale`, for a scale that is at most the exponent. -/
def inUnits (scale : Int) (negative : Bool) (m : Nat) (exponent : Int) : Int :=
  let magnitude : Int := m * Nat.pow 2 (exponent - scale).toNat
  if negative then -magnitude else magnitude

/-- The sum, rounded once. -/
def add : Binary64 → Binary64 → Binary64
  | .nan, _ | _, .nan => .nan
  | .infinite a, .infinite b => if a = b then .infinite a else .nan
  | .infinite a, .finite .. | .finite .., .infinite a => .infinite a
  | .finite s m e, .finite t n f =>
    let scale := min e f
    let sum := inUnits scale s m e + inUnits scale t n f
    if sum = 0 then zero (s && t)
    else
      let (num, den) := scaled sum.natAbs 1 (-scale)
      ofRatio (sum < 0) num den

/-- The integer that a number equals, if it equals one. -/
def toInt? : Binary64 → Option Int
  | .finite s m e =>
    let (num, den) := scaled m 1 (-e)
    if num % den = 0 then
      let magnitude : Int := (num / den : Nat)
      some (if s then -magnitude else magnitude)
    else none
  | _ => none

/-- Equality of values: both zeros are equal, and what is no number equals nothing. -/
def valueEq : Binary64 → Binary64 → Bool
  | .nan, _ | _, .nan => false
  | x, y => x == y || (x.isZero && y.isZero)

/-- Equality with an integer, exactly. -/
def eqInt (x : Binary64) (i : Int) : Bool := x.toInt? == some i

end Binary64

end IceCube.Number
