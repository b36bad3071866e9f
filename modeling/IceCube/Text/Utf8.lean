/-!
# Texts as bytes

Files hold bytes and components hold text.  `encode` writes a text as UTF-8, and `decode` reads
exactly the byte sequences that `encode` writes.
-/

namespace IceCube

/-- The content of a file. -/
abbrev Bytes := List UInt8

namespace Utf8

/-- The UTF-8 form of a text. -/
def encode (s : String) : Bytes :=
  s.toUTF8.data.toList

/-- The text whose UTF-8 form is given, if there is one. -/
def decode (bytes : Bytes) : Option String :=
  String.fromUTF8? ⟨bytes.toArray⟩

end Utf8

end IceCube
