import ThemedPages.Text.Utf8

/-!
# Checksums

A short checksum of bytes for use as an entity tag: the first six bytes of the MD5 digest, as eight characters of the
url-safe base64 alphabet.
-/

namespace ThemedPages.Checksum

/-! ## MD5 -/

/-- How far each step of a round turns its sum to the left, four steps to a cycle. -/
def rotations : List (List UInt32) :=
  [[7, 12, 17, 22], [5, 9, 14, 20], [4, 11, 16, 23], [6, 10, 15, 21]]

/-- The constant of each of the sixty-four steps: the whole part of `2 ^ 32 * |sin (i + 1)|`. -/
def sines : List UInt32 :=
  [0xd76aa478, 0xe8c7b756, 0x242070db, 0xc1bdceee, 0xf57c0faf, 0x4787c62a, 0xa8304613, 0xfd469501,
    0x698098d8, 0x8b44f7af, 0xffff5bb1, 0x895cd7be, 0x6b901122, 0xfd987193, 0xa679438e, 0x49b40821,
    0xf61e2562, 0xc040b340, 0x265e5a51, 0xe9b6c7aa, 0xd62f105d, 0x02441453, 0xd8a1e681, 0xe7d3fbc8,
    0x21e1cde6, 0xc33707d6, 0xf4d50d87, 0x455a14ed, 0xa9e3e905, 0xfcefa3f8, 0x676f02d9, 0x8d2a4c8a,
    0xfffa3942, 0x8771f681, 0x6d9d6122, 0xfde5380c, 0xa4beea44, 0x4bdecfa9, 0xf6bb4b60, 0xbebfbc70,
    0x289b7ec6, 0xeaa127fa, 0xd4ef3085, 0x04881d05, 0xd9d4d039, 0xe6db99e5, 0x1fa27cf8, 0xc4ac5665,
    0xf4292244, 0x432aff97, 0xab9423a7, 0xfc93a039, 0x655b59c3, 0x8f0ccc92, 0xffeff47d, 0x85845dd1,
    0x6fa87e4f, 0xfe2ce6e0, 0xa3014314, 0x4e0811a1, 0xf7537e82, 0xbd3af235, 0x2ad7d2bb, 0xeb86d391]

/-- The four words of the digest in the making. -/
structure Words where
  a : UInt32
  b : UInt32
  c : UInt32
  d : UInt32

/-- The words before the first block. -/
def Words.initial : Words := ⟨0x67452301, 0xefcdab89, 0x98badcfe, 0x10325476⟩

/-- The word turned left by some of its bits. -/
def rotateLeft (x n : UInt32) : UInt32 := (x <<< n) ||| (x >>> (32 - n))

/-- The mixing function of a step, and the word of the block that it adds. -/
def mix (i : Nat) (w : Words) : UInt32 × Nat :=
  match i / 16 with
  | 0 => ((w.b &&& w.c) ||| (~~~w.b &&& w.d), i)
  | 1 => ((w.d &&& w.b) ||| (~~~w.d &&& w.c), (5 * i + 1) % 16)
  | 2 => (w.b ^^^ w.c ^^^ w.d, (3 * i + 5) % 16)
  | _ => (w.c ^^^ (w.b ||| ~~~w.d), (7 * i) % 16)

/-- One of the sixty-four steps over a block of sixteen words. -/
def step (block : List UInt32) (w : Words) (i : Nat) : Words :=
  let (f, g) := mix i w
  let sum := w.a + f + sines.getD i 0 + block.getD g 0
  let turn := (rotations.getD (i / 16) []).getD (i % 4) 0
  ⟨w.d, w.b + rotateLeft sum turn, w.b, w.c⟩

/-- The words after one more block. -/
def absorb (w : Words) (block : List UInt32) : Words :=
  let v := (List.range 64).foldl (step block) w
  ⟨w.a + v.a, w.b + v.b, w.c + v.c, w.d + v.d⟩

/-- The bytes of a number, least significant first. -/
def littleEndian : Nat → Nat → Bytes
  | 0, _ => []
  | k + 1, n => UInt8.ofNat n :: littleEndian k (n / 256)

/-- The message with a one bit, zeros up to eight bytes short of a full block, and its length in bits. -/
def pad (message : Bytes) : Bytes :=
  message ++ 0x80 :: List.replicate ((119 - message.length % 64) % 64) 0
    ++ littleEndian 8 (8 * message.length % UInt64.size)

/-- Bytes as words of four, least significant byte first. -/
def wordsOf : Bytes → List UInt32
  | b₀ :: b₁ :: b₂ :: b₃ :: rest =>
    (b₀.toUInt32 ||| b₁.toUInt32 <<< 8 ||| b₂.toUInt32 <<< 16 ||| b₃.toUInt32 <<< 24) :: wordsOf rest
  | _ => []

/-- The words in blocks of sixteen, at most `n` of them. -/
def blocksOf : Nat → List UInt32 → List (List UInt32)
  | 0, _ => []
  | n + 1, words => words.take 16 :: blocksOf n (words.drop 16)

/-- The MD5 digest of a message: sixteen bytes. -/
def md5 (message : Bytes) : Bytes :=
  let words := wordsOf (pad message)
  let w := (blocksOf (words.length / 16) words).foldl absorb Words.initial
  [w.a, w.b, w.c, w.d].flatMap fun x => littleEndian 4 x.toNat

/-! ## Base64 -/

/-- The character for six bits. -/
def base64Char (n : Nat) : Char :=
  if n < 26 then Char.ofNat ('A'.toNat + n)
  else if n < 52 then Char.ofNat ('a'.toNat + (n - 26))
  else if n < 62 then Char.ofNat ('0'.toNat + (n - 52))
  else if n = 62 then '-' else '_'

/-- Bytes in the url-safe base64 alphabet, four characters for three bytes and nothing for a missing byte. -/
def base64 : Bytes → List Char
  | b₀ :: b₁ :: b₂ :: rest =>
    let n := b₀.toNat * 0x10000 + b₁.toNat * 0x100 + b₂.toNat
    base64Char (n / 0x40000) :: base64Char (n / 0x1000 % 0x40) :: base64Char (n / 0x40 % 0x40)
      :: base64Char (n % 0x40) :: base64 rest
  | [b₀, b₁] =>
    let n := b₀.toNat * 0x100 + b₁.toNat
    [base64Char (n / 0x400), base64Char (n / 0x10 % 0x40), base64Char (n % 0x10 * 4)]
  | [b₀] => [base64Char (b₀.toNat / 4), base64Char (b₀.toNat % 4 * 0x10)]
  | [] => []

/-- The short checksum of some bytes. -/
def slug (bs : Bytes) : String := String.ofList (base64 ((md5 bs).take 6))

end ThemedPages.Checksum
