import ThemedPages.Text.Unprintable

/-!
# Quoted text

How messages and printed expressions show a text: between double quotes, with a backslash before a quote or a
backslash, short escapes for the common control characters, and `\u` with the code point in braces for whatever else
would not show.
-/

namespace ThemedPages.Quoted

/-- The hexadecimal digits of a number, in lower case. -/
def hexDigits (n : Nat) : List Char := Nat.toDigits 16 n

/-- One character as it stands between the quotes. -/
def escapeChar (c : Char) : List Char :=
  if c = '"' then ['\\', '"']
  else if c = '\\' then ['\\', '\\']
  else if c = '\n' then ['\\', 'n']
  else if c = '\r' then ['\\', 'r']
  else if c = '\t' then ['\\', 't']
  else if c.toNat = 0 then ['\\', '0']
  else if Unprintable.isUnprintable c then ['\\', 'u', '{'] ++ hexDigits c.toNat ++ ['}']
  else [c]

/-- A list of characters as it stands between the quotes. -/
def escape (chars : List Char) : List Char := chars.flatMap escapeChar

end ThemedPages.Quoted

namespace ThemedPages

/-- A text in double quotes, in printable characters only. -/
def quoted (s : String) : String := String.ofList ('"' :: Quoted.escape s.toList ++ ['"'])

end ThemedPages
