/-!
# Escaping text for HTML

Five characters are written as entities, so that a text can stand between tags and inside quoted
attribute values.
-/

namespace IceCube.Markup

/-- The written form of a character. -/
def escapeChar (c : Char) : List Char :=
  if c == '&' then "&amp;".toList
  else if c == '<' then "&lt;".toList
  else if c == '>' then "&gt;".toList
  else if c == '\'' then "&#39;".toList
  else if c == '"' then "&#34;".toList
  else [c]

/-- The written form of a text. -/
def escape (s : String) : String := String.ofList (s.toList.flatMap escapeChar)

end IceCube.Markup
