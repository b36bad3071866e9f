import IceCube.Text.Hex
import IceCube.Text.Utf8

/-!
# XXH3 with 128 bits

A fast hash, not a cryptographic one, with the standard secret and no seed.  Messages are hashed by
one of six rules according to their length; long ones are taken in stripes of 64 bytes and blocks
of sixteen stripes.
-/

namespace IceCube.Hash.Xxh128

/-- The standard secret. -/
def secret : List UInt8 :=
  [0xb8, 0xfe, 0x6c, 0x39, 0x23, 0xa4, 0x4b, 0xbe, 0x7c, 0x01, 0x81, 0x2c, 0xf7, 0x21, 0xad, 0x1c,
   0xde, 0xd4, 0x6d, 0xe9, 0x83, 0x90, 0x97, 0xdb, 0x72, 0x40, 0xa4, 0xa4, 0xb7, 0xb3, 0x67, 0x1f,
   0xcb, 0x79, 0xe6, 0x4e, 0xcc, 0xc0, 0xe5, 0x78, 0x82, 0x5a, 0xd0, 0x7d, 0xcc, 0xff, 0x72, 0x21,
   0xb8, 0x08, 0x46, 0x74, 0xf7, 0x43, 0x24, 0x8e, 0xe0, 0x35, 0x90, 0xe6, 0x81, 0x3a, 0x26, 0x4c,
   0x3c, 0x28, 0x52, 0xbb, 0x91, 0xc3, 0x00, 0xcb, 0x88, 0xd0, 0x65, 0x8b, 0x1b, 0x53, 0x2e, 0xa3,
   0x71, 0x64, 0x48, 0x97, 0xa2, 0x0d, 0xf9, 0x4e, 0x38, 0x19, 0xef, 0x46, 0xa9, 0xde, 0xac, 0xd8,
   0xa8, 0xfa, 0x76, 0x3f, 0xe3, 0x9c, 0x34, 0x3f, 0xf9, 0xdc, 0xbb, 0xc7, 0xc7, 0x0b, 0x4f, 0x1d,
   0x8a, 0x51, 0xe0, 0x4b, 0xcd, 0xb4, 0x59, 0x31, 0xc8, 0x9f, 0x7e, 0xc9, 0xd9, 0x78, 0x73, 0x64,
   0xea, 0xc5, 0xac, 0x83, 0x34, 0xd3, 0xeb, 0xc3, 0xc5, 0x81, 0xa0, 0xff, 0xfa, 0x13, 0x63, 0xeb,
   0x17, 0x0d, 0xdd, 0x51, 0xb7, 0xf0, 0xda, 0x49, 0xd3, 0x16, 0x55, 0x26, 0x29, 0xd4, 0x68, 0x9e,
   0x2b, 0x16, 0xbe, 0x58, 0x7d, 0x47, 0xa1, 0xfc, 0x8f, 0xf8, 0xb8, 0xd1, 0x7a, 0xd0, 0x31, 0xce,
   0x45, 0xcb, 0x3a, 0x8f, 0x95, 0x16, 0x04, 0x28, 0xaf, 0xd7, 0xfb, 0xca, 0xbb, 0x4b, 0x40, 0x7e]

/-! ## Words -/

def prime32₁ : UInt64 := 0x9E3779B1
def prime32₂ : UInt64 := 0x85EBCA77
def prime32₃ : UInt64 := 0xC2B2AE3D
def prime64₁ : UInt64 := 0x9E3779B185EBCA87
def prime64₂ : UInt64 := 0xC2B2AE3D27D4EB4F
def prime64₃ : UInt64 := 0x165667B19E3779F9
def prime64₄ : UInt64 := 0x85EBCA77C2B2AE63
def prime64₅ : UInt64 := 0x27D4EB2F165667C5
def primeMix₁ : UInt64 := 0x165667919E3779F9
def primeMix₂ : UInt64 := 0x9FB21C651E98DF25

/-- The number that bytes write, least significant first. -/
def littleEndian : List UInt8 → Nat
  | [] => 0
  | b :: bs => b.toNat + 256 * littleEndian bs

/-- The word of eight bytes at an offset. -/
def word (bytes : List UInt8) (offset : Nat) : UInt64 :=
  UInt64.ofNat (littleEndian ((bytes.drop offset).take 8))

/-- The half word of four bytes at an offset. -/
def halfWord (bytes : List UInt8) (offset : Nat) : UInt64 :=
  UInt64.ofNat (littleEndian ((bytes.drop offset).take 4))

/-- The lower half of a word. -/
def lower (x : UInt64) : UInt64 := x &&& 0xFFFFFFFF

/-- The lower half of a word with its four bytes reversed. -/
def swapHalf (x : UInt64) : UInt64 :=
  let byte (n : UInt64) : UInt64 := (x >>> n) &&& 0xFF
  (byte 0 <<< 24) ||| (byte 8 <<< 16) ||| (byte 16 <<< 8) ||| byte 24

/-- A word with its eight bytes reversed. -/
def swap (x : UInt64) : UInt64 := (swapHalf x <<< 32) ||| swapHalf (x >>> 32)

/-- A half word turned left by a number of bits below 32. -/
def rotateHalf (x n : UInt64) : UInt64 := lower (x <<< n) ||| (lower x >>> (32 - n))

/-- A word with its upper bits mixed into the lower ones. -/
def shiftMix (x n : UInt64) : UInt64 := x ^^^ (x >>> n)

/-- Two words, the lower and the upper half of 128 bits. -/
structure Pair where
  low : UInt64
  high : UInt64
deriving DecidableEq, Repr

/-- The full product of two words. -/
def multiply (x y : UInt64) : Pair :=
  let product := x.toNat * y.toNat
  ⟨UInt64.ofNat (product % Nat.pow 2 64), UInt64.ofNat (product / Nat.pow 2 64)⟩

/-- The two halves of the full product, mixed. -/
def multiplyFold (x y : UInt64) : UInt64 :=
  let p := multiply x y
  p.low ^^^ p.high

/-- The finish that spreads every bit of a word over all others. -/
def avalanche (x : UInt64) : UInt64 := shiftMix (shiftMix x 37 * primeMix₁) 32

/-- The stronger finish of the shortest messages. -/
def strongAvalanche (x : UInt64) : UInt64 :=
  shiftMix (shiftMix (shiftMix x 33 * prime64₂) 29 * prime64₃) 32

/-! ## Short messages -/

/-- The hash of the empty message. -/
def ofEmpty : Pair :=
  ⟨strongAvalanche (word secret 64 ^^^ word secret 72),
   strongAvalanche (word secret 80 ^^^ word secret 88)⟩

/-- The hash of one to three bytes. -/
def ofUpTo3 (m : List UInt8) : Pair :=
  let byte (i : Nat) : UInt64 := (m.getD i 0).toUInt64
  let length := m.length
  let low := (byte 0 <<< 16) ||| (byte (length / 2) <<< 24) ||| byte (length - 1)
    ||| (UInt64.ofNat length <<< 8)
  let high := rotateHalf (swapHalf low) 13
  ⟨strongAvalanche (low ^^^ (halfWord secret 0 ^^^ halfWord secret 4)),
   strongAvalanche (high ^^^ (halfWord secret 8 ^^^ halfWord secret 12))⟩

/-- The hash of four to eight bytes. -/
def ofUpTo8 (m : List UInt8) : Pair :=
  let length := m.length
  let input := halfWord m 0 + (halfWord m (length - 4) <<< 32)
  let keyed := input ^^^ (word secret 16 ^^^ word secret 24)
  let p := multiply keyed (prime64₁ + (UInt64.ofNat length <<< 2))
  let high := p.high + (p.low <<< 1)
  let low := p.low ^^^ (high >>> 3)
  ⟨shiftMix (shiftMix low 35 * primeMix₂) 28, avalanche high⟩

/-- The hash of nine to sixteen bytes. -/
def ofUpTo16 (m : List UInt8) : Pair :=
  let length := m.length
  let first := word m 0
  let last := word m (length - 8)
  let p := multiply (first ^^^ last ^^^ (word secret 32 ^^^ word secret 40)) prime64₁
  let low := p.low + (UInt64.ofNat (length - 1) <<< 54)
  let keyed := last ^^^ (word secret 48 ^^^ word secret 56)
  let high := p.high + (keyed + lower keyed * (prime32₂ - 1))
  let low := low ^^^ swap high
  let q := multiply low prime64₂
  ⟨avalanche q.low, avalanche (q.high + high * prime64₂)⟩

/-! ## Messages of a middle length -/

/-- Sixteen bytes of the message under sixteen bytes of the secret. -/
def mix16 (m : List UInt8) (at₁ at₂ : Nat) : UInt64 :=
  multiplyFold (word m at₁ ^^^ word secret at₂) (word m (at₁ + 8) ^^^ word secret (at₂ + 8))

/-- Two pieces of sixteen bytes mixed into an accumulator. -/
def mix32 (m : List UInt8) (acc : Pair) (left right key : Nat) : Pair :=
  ⟨(acc.low + mix16 m left key) ^^^ (word m right + word m (right + 8)),
   (acc.high + mix16 m right (key + 16)) ^^^ (word m left + word m (left + 8))⟩

/-- The finish of messages of a middle length. -/
def finishMiddle (length : Nat) (acc : Pair) : Pair :=
  ⟨avalanche (acc.low + acc.high),
   0 - avalanche (acc.low * prime64₁ + acc.high * prime64₄ + UInt64.ofNat length * prime64₂)⟩

/-- The hash of 17 to 128 bytes: pieces from both ends, the inner ones first. -/
def ofUpTo128 (m : List UInt8) : Pair :=
  let length := m.length
  let pieces := (length - 1) / 32 + 1
  finishMiddle length <| (List.range pieces).reverse.foldl
    (fun acc i ↦ mix32 m acc (16 * i) (length - 16 * (i + 1)) (32 * i))
    ⟨UInt64.ofNat length * prime64₁, 0⟩

/-- The hash of 129 to 240 bytes: pieces of 32 bytes in order, then the last 32 bytes. -/
def ofUpTo240 (m : List UInt8) : Pair :=
  let length := m.length
  let piece (offset : Nat) (acc : Pair) (i : Nat) : Pair :=
    mix32 m acc (32 * i) (32 * i + 16) (32 * i - offset)
  let early := (List.range 4).foldl (piece 0) ⟨UInt64.ofNat length * prime64₁, 0⟩
  let early : Pair := ⟨avalanche early.low, avalanche early.high⟩
  let late := (List.range (length / 32 - 4)).foldl (fun acc i ↦ piece 125 acc (i + 4)) early
  finishMiddle length (mix32 m late (length - 16) (length - 32) 103)

/-! ## Long messages -/

/-- The words of a stripe or of a piece of the secret. -/
def words : (count : Nat) → List UInt8 → List UInt64
  | 0, _ => []
  | count + 1, bytes => word bytes 0 :: words count (bytes.drop 8)

/-- The first accumulators. -/
def accumulators : List UInt64 :=
  [prime32₃, prime64₁, prime64₂, prime64₃, prime64₄, prime32₂, prime64₅, prime32₁]

/-- A stripe mixed into the accumulators under a piece of the secret: each accumulator takes the
product of the halves of its own keyed word, and the word of its neighbour. -/
def accumulate : List UInt64 → List UInt64 → List UInt64 → List UInt64
  | a :: b :: acc, x :: y :: stripe, k :: l :: key =>
    let halves (z : UInt64) : UInt64 := lower z * (z >>> 32)
    (a + y + halves (x ^^^ k)) :: (b + x + halves (y ^^^ l)) :: accumulate acc stripe key
  | acc, _, _ => acc

/-- The accumulators stirred at the end of a block. -/
def scramble (acc : List UInt64) : List UInt64 :=
  acc.zipWith (fun a k ↦ (shiftMix a 47 ^^^ k) * prime32₁) (words 8 (secret.drop 128))

/-- The first `count` stripes, each under the secret eight bytes further on. -/
def stripes : (count : Nat) → List UInt8 → List UInt8 → List UInt64 → List UInt64
  | 0, _, _, acc => acc
  | count + 1, bytes, key, acc =>
    stripes count (bytes.drop 64) (key.drop 8) (accumulate acc (words 8 bytes) (words 8 key))

/-- The first `count` blocks. -/
def blocks : (count : Nat) → List UInt8 → List UInt64 → List UInt64
  | 0, _, acc => acc
  | count + 1, bytes, acc =>
    blocks count (bytes.drop 1024) (scramble (stripes 16 bytes secret acc))

/-- Pairs of accumulators under pairs of words, folded and added up. -/
def foldPairs : List UInt64 → List UInt64 → UInt64
  | a :: b :: acc, k :: l :: key => multiplyFold (a ^^^ k) (b ^^^ l) + foldPairs acc key
  | _, _ => 0

/-- The accumulators merged to one word. -/
def merge (acc : List UInt64) (key : Nat) (start : UInt64) : UInt64 :=
  avalanche (start + foldPairs acc (words 8 (secret.drop key)))

/-- The hash of more than 240 bytes. -/
def ofLong (m : List UInt8) : Pair :=
  let length := m.length
  let full := (length - 1) / 1024
  let rest := (length - 1 - 1024 * full) / 64
  let acc := blocks full m accumulators
  let acc := stripes rest (m.drop (1024 * full)) secret acc
  let acc := accumulate acc (words 8 (m.drop (length - 64))) (words 8 (secret.drop 121))
  ⟨merge acc 11 (UInt64.ofNat length * prime64₁),
   merge acc 117 (~~~(UInt64.ofNat length * prime64₂))⟩

/-- The hash of a message. -/
def hash (m : Bytes) : Pair :=
  let length := m.length
  if length = 0 then ofEmpty
  else if length ≤ 3 then ofUpTo3 m
  else if length ≤ 8 then ofUpTo8 m
  else if length ≤ 16 then ofUpTo16 m
  else if length ≤ 128 then ofUpTo128 m
  else if length ≤ 240 then ofUpTo240 m
  else ofLong m

/-- The hash in hexadecimal digits, the upper word first. -/
def hexDigest (m : Bytes) : String :=
  let p := hash m
  String.ofList (Text.hexDigits 16 p.high.toNat ++ Text.hexDigits 16 p.low.toNat)

end IceCube.Hash.Xxh128
