/-!
# Words in any case

Tags are found in any mix of cases.  The letters `s` and `i` have forms outside ASCII that count as
the same letter.
-/

namespace IceCube.Text

/-- Whether a character is a lower-case letter or sign in any case. -/
def sameFolded (letter c : Char) : Bool :=
  c.toLower == letter || (letter == 's' && c == 'ſ')
    || (letter == 'i' && (c == 'ı' || c == 'İ'))

/-- What follows a lower-case word at the start of a text, in any case. -/
def afterFolded? : (word : List Char) → List Char → Option (List Char)
  | [], cs => some cs
  | w :: ws, c :: cs => if sameFolded w c then afterFolded? ws cs else none
  | _ :: _, [] => none

/-- The text before and after the first place where a lower-case word stands in any case. -/
def splitAtFolded? (word : List Char) : List Char → Option (List Char × List Char)
  | [] => (afterFolded? word []).map ([], ·)
  | c :: cs =>
    match afterFolded? word (c :: cs) with
    | some rest => some ([], rest)
    | none => (splitAtFolded? word cs).map fun (before, rest) ↦ (c :: before, rest)

end IceCube.Text
