/-!
# Whole numbers in decimal

The text of an integer: a minus sign if it is negative, then its decimal digits without leading zeros. Wherever one is
read, it has to fit a signed 64-bit word.
-/

namespace ThemedPages.Decimal

/-- The decimal digits of a natural number. -/
def digits (n : Nat) : List Char := Nat.toDigits 10 n

/-- The characters of an integer. -/
def integerChars (n : Int) : List Char :=
  if n < 0 then '-' :: digits n.natAbs else digits n.natAbs

/-- The text of an integer. -/
def integer (n : Int) : String := String.ofList (integerChars n)

/-- The integer, if it fits a signed 64-bit word. -/
def word? (n : Int) : Option Int :=
  if -0x8000000000000000 ≤ n ∧ n < 0x8000000000000000 then some n else none

end ThemedPages.Decimal
