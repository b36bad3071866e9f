/-!
# Blank characters

The blank characters are the space separators of Unicode and the control characters that separate
lines, paragraphs or records.  Trimming removes the longest blank start and end of a text.
-/

namespace IceCube.Text

/-- A space, a line or paragraph separator, or one of the control characters that act as one. -/
def isBlank (c : Char) : Bool :=
  let n := c.toNat
  (9 ≤ n && n ≤ 13) || (28 ≤ n && n ≤ 32) || n == 0x85 || n == 0xA0 || n == 0x1680
    || (0x2000 ≤ n && n ≤ 0x200A) || n == 0x2028 || n == 0x2029 || n == 0x202F || n == 0x205F
    || n == 0x3000

/-- The characters without their last run satisfying `p`. -/
def dropEndWhile (p : Char → Bool) (cs : List Char) : List Char :=
  (cs.reverse.dropWhile p).reverse

/-- The characters without the blank ones at either end. -/
def trim (cs : List Char) : List Char :=
  dropEndWhile isBlank (cs.dropWhile isBlank)

/-- The text without the blank characters at either end. -/
def strip (s : String) : String :=
  String.ofList (trim s.toList)

end IceCube.Text
