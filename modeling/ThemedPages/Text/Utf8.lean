/-!
# Text as bytes

UTF-8 over lists of bytes. `Utf8.encode` writes characters. `Utf8.decode` reads any bytes at all, one byte at a
time: a maximal run of bytes that begins a character and is then broken off, or a byte that can begin none, is
read as one U+FFFD. `Utf8.read?` is the strict reader: it accepts the bytes that reading and writing again leaves
as they are, for only then no U+FFFD took the place of anything.
-/

namespace ThemedPages

/-- A sequence of bytes. -/
abbrev Bytes := List UInt8

/-- The bytes of a word of ASCII characters, one byte each. -/
def Bytes.ofAscii (word : List Char) : Bytes := word.map fun c => UInt8.ofNat c.toNat

namespace Utf8

/-! ## Writing -/

/-- The bytes of one character: one to four of them, by the size of its code point. -/
def encodeChar (c : Char) : Bytes :=
  let n := c.toNat
  if n < 0x80 then
    [UInt8.ofNat n]
  else if n < 0x800 then
    [UInt8.ofNat (0xC0 + n / 0x40), UInt8.ofNat (0x80 + n % 0x40)]
  else if n < 0x10000 then
    [UInt8.ofNat (0xE0 + n / 0x1000), UInt8.ofNat (0x80 + n / 0x40 % 0x40), UInt8.ofNat (0x80 + n % 0x40)]
  else
    [UInt8.ofNat (0xF0 + n / 0x40000), UInt8.ofNat (0x80 + n / 0x1000 % 0x40),
      UInt8.ofNat (0x80 + n / 0x40 % 0x40), UInt8.ofNat (0x80 + n % 0x40)]

/-- The bytes of a list of characters. -/
def encode (chars : List Char) : Bytes := chars.flatMap encodeChar

/-- The bytes of a text. -/
def bytes (s : String) : Bytes := encode s.toList

/-! ## Reading

The reader is a machine with two kinds of state: between characters, or inside one. Inside a character it knows the
bits read so far, how many bytes are still to come, and the range the next of them must lie in; only the second
byte of a character has a range narrower than `80` to `BF`, which keeps out spellings that are too long, surrogates
and everything above `10FFFF`. -/

/-- How far the reader is. -/
inductive State where
  /-- between two characters -/
  | idle
  /-- inside a character: the bits so far, the bytes to come after the next one, and the next one's range -/
  | within (bits : Nat) (more : Nat) (lo hi : UInt8)
  deriving DecidableEq, Repr

/-- What stands for bytes that are no character. -/
def replacement : Char := '\uFFFD'

/-- Reading a byte between characters: the characters it completes, and the next state. -/
def start (b : UInt8) : List Char × State :=
  if b < 0x80 then ([Char.ofNat b.toNat], .idle)
  else if b < 0xC2 then ([replacement], .idle)
  else if b < 0xE0 then ([], .within (b.toNat - 0xC0) 0 0x80 0xBF)
  else if b = 0xE0 then ([], .within 0 1 0xA0 0xBF)
  else if b = 0xED then ([], .within 0xD 1 0x80 0x9F)
  else if b < 0xF0 then ([], .within (b.toNat - 0xE0) 1 0x80 0xBF)
  else if b = 0xF0 then ([], .within 0 2 0x90 0xBF)
  else if b < 0xF4 then ([], .within (b.toNat - 0xF0) 2 0x80 0xBF)
  else if b = 0xF4 then ([], .within 4 2 0x80 0x8F)
  else ([replacement], .idle)

/-- Reading a byte in any state. A byte that can not go on with a character ends it as one U+FFFD, and is then read
as the beginning of something else. -/
def step : State → UInt8 → List Char × State
  | .idle, b => start b
  | .within bits more lo hi, b =>
    if lo ≤ b ∧ b ≤ hi then
      let bits := bits * 0x40 + (b.toNat - 0x80)
      match more with
      | 0 => ([Char.ofNat bits], .idle)
      | more + 1 => ([], .within bits more 0x80 0xBF)
    else
      (replacement :: (start b).1, (start b).2)

/-- Reading from a state to the end; a character broken off by the end is one U+FFFD. -/
def decodeFrom : State → Bytes → List Char
  | .idle, [] => []
  | .within .., [] => [replacement]
  | s, b :: rest => (step s b).1 ++ decodeFrom (step s b).2 rest

/-- The characters of any bytes, with U+FFFD for each part that is no character. -/
def decode (bs : Bytes) : List Char := decodeFrom .idle bs

/-- The text of any bytes, with U+FFFD for each part that is no character. -/
def lossy (bs : Bytes) : String := String.ofList (decode bs)

/-- The text of bytes that are well-formed UTF-8. -/
def read? (bs : Bytes) : Option String :=
  if encode (decode bs) = bs then some (lossy bs) else none

end Utf8

end ThemedPages
