import ThemedPages.Decimal.Whole
import ThemedPages.Parser
import ThemedPages.Text.Ascii

/-!
# Dates and times

A moment is a date, a time of day, or both, and then perhaps with its distance from universal time. `Moment.moment`
reads the forms that toml allows, in which either case of a letter and a space for the `T` will do and a fraction of a
second has as many digits as one likes. `Moment.text` writes the one form that says no more than it has to: a fraction
has at most nine digits and does not end in a zero.
-/

namespace ThemedPages

/-- A day of the calendar. -/
structure Moment.Date where
  /-- the year, of four digits -/
  year : Nat
  /-- the month, from 1 -/
  month : Nat
  /-- the day of the month, from 1 -/
  day : Nat
  deriving DecidableEq, Repr

/-- A time of day. -/
structure Moment.Time where
  /-- the hour, up to 23 -/
  hour : Nat
  /-- the minute -/
  minute : Nat
  /-- the second, which is 60 where one is inserted -/
  second : Nat
  /-- the nanoseconds after it -/
  nanosecond : Nat
  deriving DecidableEq, Repr

/-- The distance from universal time. -/
inductive Moment.Offset where
  /-- universal time itself -/
  | universal
  /-- so many minutes ahead of universal time -/
  | ahead (minutes : Int)
  deriving DecidableEq, Repr

/-- A date, a time of day, or both. -/
inductive Moment where
  /-- a date -/
  | date (d : Moment.Date)
  /-- a time on no particular day -/
  | time (t : Moment.Time)
  /-- a time on a day, where it is known of which place -/
  | both (d : Moment.Date) (t : Moment.Time) (offset : Option Moment.Offset)
  deriving DecidableEq, Repr

namespace Moment

/-! ## The text of a moment -/

/-- The digits of a number, with zeros in front up to a width. -/
def padded (width n : Nat) : List Char :=
  List.replicate (width - (Decimal.digits n).length) '0' ++ Decimal.digits n

/-- The characters of a date. -/
def Date.chars (d : Date) : List Char := padded 4 d.year ++ '-' :: padded 2 d.month ++ '-' :: padded 2 d.day

/-- The characters of a fraction of a second: none of a whole one, and no zeros at the end. -/
def fractionChars (nanosecond : Nat) : List Char :=
  if nanosecond = 0 then [] else '.' :: ((padded 9 nanosecond).reverse.dropWhile (· = '0')).reverse

/-- The characters of a time. -/
def Time.chars (t : Time) : List Char :=
  padded 2 t.hour ++ ':' :: padded 2 t.minute ++ ':' :: padded 2 t.second ++ fractionChars t.nanosecond

/-- The characters of a distance from universal time. -/
def Offset.chars : Offset → List Char
  | universal => ['Z']
  | ahead minutes =>
    (if minutes < 0 then '-' else '+') :: padded 2 (minutes.natAbs / 60) ++ ':' :: padded 2 (minutes.natAbs % 60)

/-- The text of a moment. -/
def text : Moment → String
  | date d => String.ofList d.chars
  | time t => String.ofList t.chars
  | both d t offset => String.ofList (d.chars ++ 'T' :: t.chars ++ offset.elim [] Offset.chars)

/-! ## Reading -/

open ThemedPages.Parser

/-- Reads a number of exactly so many digits, from one bound to another. -/
def numeral (count lowest highest : Nat) : Parser Nat := fun s =>
  let ds := s.take count
  let n := ds.foldl (fun n b => 10 * n + Ascii.digitValue b) 0
  if ds.length = count ∧ ds.all Ascii.isDigit ∧ lowest ≤ n ∧ n ≤ highest then .ok n (s.drop count)
  else .refused [⟨s, .bare⟩]

/-- The year has a 29th of February. -/
def isLeap (year : Nat) : Bool := year % 4 = 0 && (year % 100 ≠ 0 || year % 400 = 0)

/-- How many days a month has. -/
def daysIn (year month : Nat) : Nat :=
  if month = 2 then (if isLeap year then 29 else 28)
  else if month = 4 ∨ month = 6 ∨ month = 9 ∨ month = 11 then 30
  else 31

/-- Reads a date. -/
def dateReader : Parser Date := do
  let year ← numeral 4 0 9999
  char '-'
  let month ← numeral 2 1 12
  char '-'
  let day ← numeral 2 1 (daysIn year month)
  return { year, month, day }

/-- The nanoseconds that the digits after the point stand for; those after the ninth count nothing. -/
def nanoseconds (ds : List Nat) : Nat := (ds ++ List.replicate 9 0).take 9 |>.foldl (fun n d => 10 * n + d) 0

/-- Reads a time. -/
def timeReader : Parser Time := do
  let hour ← numeral 2 0 23
  char ':'
  let minute ← numeral 2 0 59
  char ':'
  let second ← numeral 2 0 60
  let fraction ← optional (char '.' *> span1 Ascii.isDigit)
  return { hour, minute, second, nanosecond := nanoseconds ((fraction.getD []).map Ascii.digitValue) }

/-- Reads a distance from universal time. -/
def offsetReader : Parser Offset :=
  choice [
    choice [char 'Z', char 'z'] *> pure .universal,
    do
      let sign ← choice [char '+' *> pure 1, char '-' *> pure (-1)]
      let hours ← numeral 2 0 23
      char ':'
      let minutes ← numeral 2 0 59
      return .ahead (sign * (60 * hours + minutes : Nat))]

/-- Reads a moment. -/
def moment : Parser Moment :=
  choice [
    do
      let d ← dateReader
      let rest ← optional do
        choice [char 'T', char 't', char ' ']
        let t ← timeReader
        return (t, ← optional offsetReader)
      match rest with
      | some (t, offset) => return .both d t offset
      | none => return .date d,
    .time <$> timeReader]

end Moment

end ThemedPages
