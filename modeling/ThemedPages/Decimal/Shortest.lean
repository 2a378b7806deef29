import ThemedPages.Decimal.Whole

/-!
# The shortest decimal of a float

A finite float is a natural number times a power of two, and it owns the interval of reals that round to it. Its
text is the decimal in that interval with the fewest digits; of two such decimals on one grid the nearer one, and at
an exact tie the larger. The text is positional, never with an exponent, and a whole number has no point.
-/

namespace ThemedPages.Decimal

/-! ## The interval of a float -/

/-- A positive number `mid / den` and the numbers `low / den` and `high / den` between which everything is read back
as it. -/
structure Interval where
  /-- where the reals that round to it begin -/
  low : Nat
  /-- the number itself -/
  mid : Nat
  /-- where the reals that round to it end -/
  high : Nat
  /-- what all three are divided by -/
  den : Nat
  /-- the two ends themselves round to it -/
  closed : Bool

/-- The interval of `significand * 2 ^ exponent`. Half the distance to each neighbour belongs to it, and the ends do
when the significand is even; just above a power of two (`narrow`) the lower neighbour is only half as far. -/
def Interval.ofBinary (significand : Nat) (exponent : Int) (narrow : Bool) : Interval :=
  let unit := Nat.pow 2 (exponent - 2).toNat
  { low := (4 * significand - if narrow then 1 else 2) * unit
    mid := 4 * significand * unit
    high := (4 * significand + 2) * unit
    den := Nat.pow 2 (2 - exponent).toNat
    closed := significand % 2 = 0 }

/-! ## The decimal -/

/-- The decimal `coefficient * 10 ^ exponent`. -/
structure Scaled where
  /-- its digits as one number -/
  coefficient : Nat
  /-- the power of ten that the last digit counts -/
  exponent : Int
  deriving DecidableEq, Repr

/-- The least `e` with `mid / den < 10 ^ e`, for numbers between `10 ^ -400` and `10 ^ 400`. -/
def Interval.magnitude (i : Interval) : Int :=
  if i.den ≤ i.mid then
    (((List.range 400).find? fun e => i.mid < i.den * Nat.pow 10 e).getD 400 : Nat)
  else
    1 - (((List.range 400).find? fun e => i.den ≤ i.mid * Nat.pow 10 e).getD 400 : Nat)

/-- The neighbour of the number on the grid of multiples of `10 ^ exponent` that lies in its interval, the nearer of
two. -/
def Interval.onGrid? (i : Interval) (exponent : Int) : Option Scaled :=
  let up := Nat.pow 10 (-exponent).toNat
  let unit := i.den * Nat.pow 10 exponent.toNat
  let below := i.mid * up / unit
  let inside (n : Nat) : Bool :=
    if i.closed then i.low * up ≤ n * unit && n * unit ≤ i.high * up
    else i.low * up < n * unit && n * unit < i.high * up
  let nearer := if 2 * (i.mid * up % unit) < unit then below else below + 1
  if inside below && inside (below + 1) then some ⟨nearer, exponent⟩
  else if inside below then some ⟨below, exponent⟩
  else if inside (below + 1) then some ⟨below + 1, exponent⟩
  else none

/-- The decimal in the interval with the fewest digits. Seventeen always suffice. -/
def Interval.shortest (i : Interval) : Scaled :=
  let e := i.magnitude
  ((List.range 17).findSome? fun n => i.onGrid? (e - (n + 1 : Nat))).getD ⟨i.mid / i.den, 0⟩

/-- The decimal without the zeros that its digits end in, the number of digits bounding how many there can be. -/
def Scaled.trim (d : Scaled) : Nat → Scaled
  | 0 => d
  | n + 1 => if d.coefficient % 10 = 0 then trim ⟨d.coefficient / 10, d.exponent + 1⟩ n else d

/-- The decimal in positional notation. -/
def Scaled.positional (d : Scaled) : List Char :=
  let ds := digits d.coefficient
  let places := (-d.exponent).toNat
  if places = 0 then ds ++ List.replicate d.exponent.toNat '0'
  else if places < ds.length then ds.take (ds.length - places) ++ '.' :: ds.drop (ds.length - places)
  else ['0', '.'] ++ List.replicate (places - ds.length) '0' ++ ds

/-! ## The text of a float -/

/-- The magnitude of a finite float from the two fields of its bits: its biased exponent and its fraction. -/
def magnitudeChars (biased fraction : Nat) : List Char :=
  if biased = 0 ∧ fraction = 0 then ['0']
  else
    let i :=
      if biased = 0 then Interval.ofBinary fraction (-1074) false
      else Interval.ofBinary (fraction + 0x10000000000000) (biased - 1075) (fraction = 0 ∧ 1 < biased)
    (i.shortest.trim 20).positional

/-- The text of a float. -/
def float (x : Float) : String :=
  let bits := x.toBits.toNat
  let biased := bits / 0x10000000000000 % 0x800
  let fraction := bits % 0x10000000000000
  let sign := if bits / 0x8000000000000000 = 0 then [] else ['-']
  if biased = 2047 ∧ fraction ≠ 0 then "NaN"
  else if biased = 2047 then String.ofList (sign ++ ['i', 'n', 'f'])
  else String.ofList (sign ++ magnitudeChars biased fraction)

end ThemedPages.Decimal
