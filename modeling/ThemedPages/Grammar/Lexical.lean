import ThemedPages.Parser
import ThemedPages.Text.Ascii

/-!
# Names, strings and blanks

The smallest parts of a template's source, as byte classes and the parsers for runs of them.
-/

namespace ThemedPages.Grammar

open ThemedPages.Parser

/-- The byte can begin a name: a letter or an underscore. -/
def beginsName (b : UInt8) : Bool := Ascii.isLetter b || b = 0x5F

/-- The byte can be part of a name. -/
def inName (b : UInt8) : Bool := beginsName b || Ascii.isDigit b

/-- Reads any blanks. -/
def blanks : Parser Unit := do let _ ← span Ascii.isBlank

/-- Reads blanks, at least one. -/
def blanks1 : Parser Unit := do let _ ← span1 Ascii.isBlank

/-- Reads a name. -/
def name : Parser String := do
  let first ← span1 beginsName
  let rest ← span inName
  return Utf8.lossy (first ++ rest)

/-- Reads a string: whatever stands between two double quotes, with no way to write a quote in it. -/
def string : Parser String := do
  char '"'
  let content ← span (· ≠ 0x22)
  char '"'
  return Utf8.lossy content

/-- The rest of the input after the first end of a comment in it. -/
def afterComment : Bytes → Option Bytes
  | 0x2A :: 0x40 :: rest => some rest
  | _ :: rest => afterComment rest
  | [] => none

/-- Reads a comment: from `@*` to the next `*@`. -/
def comment : Parser Unit := do
  word ['@', '*']
  fun s =>
    match afterComment s with
    | some rest => .ok () rest
    | none => .refused [⟨s, .bare⟩]

/-- Reads blanks and comments, in any order. -/
def spaces : Parser Unit := do let _ ← many (choice [comment, blanks1])

end ThemedPages.Grammar
