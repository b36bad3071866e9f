import IceCube.Number.Binary64

/-!
# Shortest decimal text

A finite number is written with the fewest decimal digits that read back as the same number; among
those, with the digits nearest to its value.  A `Layout` says where positional notation ends and how
an exponent is written.
-/

namespace IceCube.Number

/-- The value `digits * 10 ^ exponent`. -/
structure Decimal where
  digits : Nat
  exponent : Int
deriving DecidableEq, Repr

/-- The exponent of the greatest power of ten that is at most `num / den`. -/
def floorLog10 (num den : Nat) : Int :=
  if den ≤ num then (Binary64.decimalLength (num / den) : Int) - 1
  else
    let length := Binary64.decimalLength (den / num)
    if den ≤ num * Nat.pow 10 (length - 1) then -((length - 1 : Nat) : Int) else -(length : Int)

/-- The two neighbours of `num / den` on the grid of the multiples of `10 ^ exponent`, the nearer
one first and of two equally near the even one. -/
def neighbours (num den : Nat) (exponent : Int) : List Decimal :=
  let (n, d) := if 0 ≤ exponent then (num, den * Nat.pow 10 exponent.toNat)
    else (num * Nat.pow 10 (-exponent).toNat, den)
  let below := n / d
  let near := roundDiv n d
  let far := if near = below then below + 1 else below
  [⟨near, exponent⟩, ⟨far, exponent⟩]

/-- A neighbour with at most `count` digits that reads back as the number. -/
def readsBack? (num den : Nat) (count : Nat) : Option Decimal :=
  let grid := floorLog10 num den - (count : Int) + 1
  (neighbours num den grid).find? fun d ↦
    Binary64.ofDecimal false d.digits d.exponent == Binary64.ofRatio false num den

/-- The decimal of fewest digits that reads back as a positive number.  Seventeen digits are always
enough. -/
def shortestOf (num den : Nat) : Decimal :=
  ((List.range 17).findSome? fun i ↦ readsBack? num den (i + 1)).getD ⟨num, 0⟩

/-- The digits without the zeros at their end, and how many zeros those were. -/
def dropZeros (digits : List Char) : List Char × Nat :=
  let kept := (digits.reverse.dropWhile (· == '0')).reverse
  (kept, digits.length - kept.length)

/-- How a number is written. -/
structure Layout where
  /-- The least exponent of ten that is written positionally. -/
  least : Int
  /-- The first exponent of ten beyond those. -/
  beyond : Int
  /-- The least number of digits of a written exponent. -/
  exponentWidth : Nat
  /-- What is written for the infinite numbers, after a possible minus sign. -/
  infinite : String
  /-- What is written for what is no number. -/
  nan : String
deriving Repr

/-- An exponent with its sign, filled with zeros on the left. -/
def exponentText (width : Nat) (e : Int) : List Char :=
  let ds := Nat.toDigits 10 e.natAbs
  (if e < 0 then '-' else '+') :: (List.replicate (width - ds.length) '0' ++ ds)

/-- The digits of a positive number laid out: `top` is the exponent of ten of the first one. -/
def Layout.digits (l : Layout) (ds : List Char) (top : Int) : List Char :=
  if l.least ≤ top ∧ top < l.beyond then
    if top < 0 then
      ['0', '.'] ++ List.replicate ((-top).toNat - 1) '0' ++ ds
    else
      let whole := top.toNat + 1
      let fraction := ds.drop whole
      ds.take whole ++ List.replicate (whole - ds.length) '0' ++ ['.']
        ++ (if fraction.isEmpty then ['0'] else fraction)
  else
    let point := if ds.length ≤ 1 then [] else '.' :: ds.drop 1
    ds.take 1 ++ point ++ ['e'] ++ exponentText l.exponentWidth top

/-- The written form of a number. -/
def Layout.text (l : Layout) : Binary64 → List Char
  | .nan => l.nan.toList
  | .infinite negative => (if negative then ['-'] else []) ++ l.infinite.toList
  | .finite negative m e =>
    let sign := if negative then ['-'] else []
    if m = 0 then sign ++ ['0', '.', '0']
    else
      let (num, den) := scaled m 1 (-e)
      let d := shortestOf num den
      let ds := Nat.toDigits 10 d.digits
      let top := d.exponent + ds.length - 1
      sign ++ l.digits (dropZeros ds).1 top

/-- Positional from `0.0001` to below `10 ^ 16`, and two digits of exponent outside. -/
def plain : Layout := ⟨-4, 16, 2, "inf", "nan"⟩

/-- The plain layout with the words that a JSON document has for what is not finite. -/
def json : Layout := ⟨-4, 16, 2, "Infinity", "NaN"⟩

end IceCube.Number
