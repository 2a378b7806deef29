import ThemedPages.Text.Utf8

/-!
# Escaping for html

Five characters have a meaning in html text or in a quoted attribute: they are written as entities. All five are
ASCII, so escaping is a map on bytes that never touches a part of a longer character.
-/

namespace ThemedPages.Html

/-- What is written for a byte that html gives a meaning. -/
def entity (b : UInt8) : Option Bytes :=
  if b = 0x22 then some (Bytes.ofAscii ['&', 'q', 'u', 'o', 't', ';'])
  else if b = 0x26 then some (Bytes.ofAscii ['&', 'a', 'm', 'p', ';'])
  else if b = 0x27 then some (Bytes.ofAscii ['&', '#', '3', '9', ';'])
  else if b = 0x3C then some (Bytes.ofAscii ['&', 'l', 't', ';'])
  else if b = 0x3E then some (Bytes.ofAscii ['&', 'g', 't', ';'])
  else none

/-- What is written for any byte: its entity, or itself. -/
def escapeByte (b : UInt8) : Bytes := (entity b).getD [b]

/-- The bytes with every byte that html gives a meaning replaced by its entity. -/
def escapeBytes (bs : Bytes) : Bytes := bs.flatMap escapeByte

/-- A text as it is written into html content or a quoted attribute. -/
def escape (s : String) : String := Utf8.lossy (escapeBytes (Utf8.bytes s))

end ThemedPages.Html
