import ThemedPages.Decimal.Whole
import ThemedPages.Parser
import ThemedPages.Text.Ascii

/-!
# Json

Json texts as values, and the strict reader of them: no trailing commas, no control characters in strings, no half
surrogates, nothing after the value, and no nesting beyond a bound. A number is kept as it was written, for what it
stands for depends on who reads it; `Json.Literal.integer?` and `Json.Literal.float?` are the two readings.
-/

namespace ThemedPages

/-- A number as it is written. -/
structure Json.Literal where
  /-- it has a minus sign -/
  negative : Bool
  /-- the digits before the point -/
  whole : List Nat
  /-- the digits after the point, if there is one -/
  fraction : Option (List Nat)
  /-- the sign (negative or not) and the digits of the exponent, if there is one -/
  exponent : Option (Bool × List Nat)
  deriving DecidableEq, Repr

/-- A json value. The fields of an object are in the order written, and a name may be there twice. -/
inductive Json where
  /-- the null -/
  | null
  /-- a truth value -/
  | bool (b : Bool)
  /-- a number -/
  | number (n : Json.Literal)
  /-- a string -/
  | string (s : String)
  /-- an array -/
  | array (items : List Json)
  /-- an object -/
  | object (fields : List (String × Json))
  deriving Repr

namespace Json

open ThemedPages.Parser

/-! ## What a number stands for -/

/-- The natural number with the given decimal digits. -/
def ofDigits (ds : List Nat) : Nat := ds.foldl (fun n d => 10 * n + d) 0

/-- Appends digits to a number while it fits 64 bits: the number, and the digits from the first that did not fit. -/
def fit (n : Nat) : List Nat → Nat × List Nat
  | [] => (n, [])
  | d :: ds => if 10 * n + d < UInt64.size then fit (10 * n + d) ds else (n, d :: ds)

namespace Literal

/-- The integer, if it is written without a point and an exponent and fits a signed 64-bit word; a zero with a minus
sign is not an integer. -/
def integer? (l : Literal) : Option Int :=
  match l.fraction, l.exponent with
  | none, none =>
    let n := ofDigits l.whole
    if l.negative then
      if n = 0 then none else Decimal.word? (-n)
    else Decimal.word? n
  | _, _ => none

/-- The digits that count, as one number that fits 64 bits, and the power of ten to scale it by without regard to the
exponent that was written. Digits before the point that do not fit still count as powers of ten; those after it are
dropped. -/
def significand (l : Literal) : Nat × Int :=
  let (n, beyond) := fit 0 l.whole
  let fraction := l.fraction.getD []
  let (m, dropped) := fit n fraction
  (m, (beyond.length : Int) - (fraction.length - dropped.length : Nat))

/-- A power of ten as a float, from `1e0` to `1e308`. -/
def powerOfTen (n : Nat) : Float := Float.ofScientific 1 false n

/-- A float scaled by a power of ten, in steps of at most `1e308`; none if it is beyond the floats. -/
def scale : Nat → Float → Int → Option Float
  | 0, _, _ => none
  | fuel + 1, x, e =>
    if e.natAbs ≤ 308 then
      if 0 ≤ e then
        let y := x * powerOfTen e.natAbs
        if y.isInf then none else some y
      else some (x / powerOfTen e.natAbs)
    else if x == 0 then some x
    else if 0 ≤ e then none
    else scale fuel (x / powerOfTen 308) (e + 308)

/-- The float that the number is read as: the significand, scaled. None if it is too large, which an exponent of
more than 31 bits always is unless it is negative or the significand zero. -/
def float? (l : Literal) : Option Float :=
  let (n, places) := l.significand
  let sign (x : Float) : Float := if l.negative then -x else x
  let base := (UInt64.ofNat n).toFloat
  match l.exponent with
  | none => (scale (places.natAbs / 308 + 2) base places).map sign
  | some (down, ds) =>
    let e := ofDigits ds
    if 0x80000000 ≤ e then
      if n = 0 ∨ down then some (sign 0) else none
    else
      let e := if down then places - e else places + e
      (scale (400 + places.natAbs / 308) base e).map sign

end Literal

/-! ## Reading -/

/-- Reads any blanks. -/
def blanks : Parser Unit := do let _ ← span Ascii.isBlank; return ()

/-- Reads decimal digits, at least one. -/
def digits1 : Parser (List Nat) := do return (← span1 Ascii.isDigit).map Ascii.digitValue

/-- Reads a number. -/
def literal : Parser Literal := do
  let negative ← optional (char '-')
  let zero ← optional (char '0')
  let whole ← if zero.isSome then pure [0] else digits1
  let fraction ← optional (char '.' *> commit digits1)
  let exponent ← optional do
    choice [char 'e', char 'E']
    commit do
      let sign ← optional (choice [char '+' *> pure false, char '-' *> pure true])
      return (sign.getD false, ← digits1)
  return { negative := negative.isSome, whole, fraction, exponent }

/-- Reads exactly so many hexadecimal digits as one number. -/
def hexDigits (count : Nat) : Parser Nat := fun s =>
  match (s.take count).mapM Ascii.hexValue? with
  | some ds =>
    if ds.length = count then .ok (ds.foldl (fun n d => 16 * n + d) 0) (s.drop count)
    else .refused [⟨s, .bare⟩]
  | none => .refused [⟨s, .bare⟩]

/-- Reads what follows the `u` of an escape: four digits, or two times four for a pair of surrogates. -/
def codePoint : Parser Bytes := do
  let place ← position
  let n ← hexDigits 4
  if n < 0xD800 ∨ 0xE000 ≤ n then return Utf8.encodeChar (Char.ofNat n)
  else if n < 0xDC00 then
    word ['\\', 'u']
    let m ← hexDigits 4
    if 0xDC00 ≤ m ∧ m < 0xE000 then
      return Utf8.encodeChar (Char.ofNat (0x10000 + (n - 0xD800) * 0x400 + (m - 0xDC00)))
    else refuseAt place
  else refuseAt place

/-- Reads a part of a string: bytes that stand for themselves, or an escape. -/
def stringPart : Parser Bytes :=
  choice [
    span1 fun b => 0x20 ≤ b && b ≠ 0x22 && b ≠ 0x5C,
    char '\\' *> commit (choice [
      char '"' *> pure [0x22],
      char '\\' *> pure [0x5C],
      char '/' *> pure [0x2F],
      char 'b' *> pure [0x08],
      char 'f' *> pure [0x0C],
      char 'n' *> pure [0x0A],
      char 'r' *> pure [0x0D],
      char 't' *> pure [0x09],
      char 'u' *> codePoint])]

/-- Reads a string. -/
def text : Parser String := do
  char '"'
  let parts ← many stringPart
  char '"'
  return Utf8.lossy parts.flatten

/-- Reads items separated by commas up to a closing character, with blanks anywhere. -/
def items {α : Type} (item : Parser α) (close : Char) : Parser (List α) := do
  blanks
  match ← optional (char close) with
  | some () => return []
  | none =>
    let first ← item
    let rest ← many (blanks *> char ',' *> blanks *> commit item)
    blanks
    char close
    return first :: rest

/-- Reads a value that has no parts. -/
def scalar : Parser Json :=
  choice [
    word ['n', 'u', 'l', 'l'] *> pure .null,
    word ['t', 'r', 'u', 'e'] *> pure (.bool true),
    word ['f', 'a', 'l', 's', 'e'] *> pure (.bool false),
    .string <$> text,
    .number <$> literal]

/-- Reads the name and the value of a field. -/
def field (value : Parser Json) : Parser (String × Json) := do
  let name ← text
  blanks
  char ':'
  blanks
  return (name, ← value)

/-- Reads a value in which arrays and objects are nested at most so deep. -/
def value : Nat → Parser Json
  | 0 => scalar
  | depth + 1 =>
    choice [
      scalar,
      char '[' *> .array <$> items (value depth) ']',
      char '{' *> .object <$> items (field (value depth)) '}']

/-- The value that a json text is, if it is one with arrays and objects nested at most so deep. -/
def read? (depth : Nat) (bs : Bytes) : Option Json :=
  match (do blanks; let v ← value depth; blanks; finish; return v : Parser Json) bs with
  | .ok v _ => some v
  | _ => none

end Json

end ThemedPages
