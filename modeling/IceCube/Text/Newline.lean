/-!
# Line ends

Text files may end their lines with a line feed, a carriage return or both.  Reading a text file
turns each of the three into a line feed.
-/

namespace IceCube.Text

/-- The characters with every line end written as one line feed. -/
def unifyNewlines : List Char → List Char
  | [] => []
  | '\r' :: '\n' :: cs => '\n' :: unifyNewlines cs
  | '\r' :: cs => '\n' :: unifyNewlines cs
  | c :: cs => c :: unifyNewlines cs

/-- The text with every line end written as one line feed. -/
def unify (s : String) : String :=
  String.ofList (unifyNewlines s.toList)

end IceCube.Text
