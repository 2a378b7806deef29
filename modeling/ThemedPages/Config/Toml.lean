import ThemedPages.Config.Moment
import ThemedPages.Decimal.Whole
import ThemedPages.Parser
import ThemedPages.Text.Ascii

/-!
# Toml

The part of toml that a configuration is written in: lines that begin a table or give a value to a key, with strings
of all four kinds, integers in all four bases, dates and times, and tables in braces. Whatever else toml has is not
read, so that a document with an array or a truth value in it is refused here rather than for having no place for one.
-/

namespace ThemedPages

/-- A value in a toml document. -/
inductive Toml where
  /-- a string -/
  | string (s : String)
  /-- an integer -/
  | integer (n : Int)
  /-- a date or a time -/
  | moment (m : Moment)
  /-- a table in braces: keys, each a list of its dotted parts, and their values -/
  | table (entries : List (List String × Toml))
  deriving Repr

/-- A line that says something. -/
inductive Toml.Line where
  /-- what follows belongs to a table -/
  | table (key : List String)
  /-- a key has a value -/
  | entry (key : List String) (value : Toml)
  deriving Repr

namespace Toml

open ThemedPages.Parser

/-! ## Blanks, comments and ends of lines -/

/-- A space or a tab. -/
def isSpace (b : UInt8) : Bool := b = 0x20 || b = 0x09

/-- Reads any spaces and tabs. -/
def spaces : Parser Unit := do let _ ← span isSpace

/-- Reads the end of a line. -/
def newline : Parser Unit := choice [char '\n', char '\r' *> char '\n']

/-- A byte of a comment or a string: no control character but the tab. -/
def isShown (b : UInt8) : Bool := b = 0x09 || (0x20 ≤ b && b ≠ 0x7F)

/-- Reads a comment, if there is one. -/
def comment : Parser Unit := do let _ ← optional (char '#' *> span isShown)

/-- Reads what may follow on the line of an entry: spaces, a comment, and the end of the line or of the document. -/
def lineEnd : Parser Unit := do
  spaces
  comment
  choice [newline, finish]

/-! ## Strings -/

/-- Reads a byte that no other reading of a part of a string took. -/
def plainRun (p : UInt8 → Bool) : Parser Bytes := span1 fun b => isShown b && p b

/-- Reads so many hexadecimal digits as the code point of a character. -/
def scalar (count : Nat) : Parser Bytes := fun s =>
  match (s.take count).mapM Ascii.hexValue? with
  | some ds =>
    let n := ds.foldl (fun n d => 16 * n + d) 0
    if ds.length = count ∧ n.isValidChar then .ok (Utf8.encodeChar (Char.ofNat n)) (s.drop count)
    else .refused [⟨s, .bare⟩]
  | none => .refused [⟨s, .bare⟩]

/-- Reads an escape after its backslash. -/
def escape : Parser Bytes :=
  choice [
    char 'b' *> pure [0x08],
    char 't' *> pure [0x09],
    char 'n' *> pure [0x0A],
    char 'f' *> pure [0x0C],
    char 'r' *> pure [0x0D],
    char '"' *> pure [0x22],
    char '\\' *> pure [0x5C],
    char 'u' *> scalar 4,
    char 'U' *> scalar 8]

/-- Reads the end of a line in a string of several lines, always as the same byte. -/
def innerNewline : Parser Bytes := newline *> pure [0x0A]

/-- Reads the part of a string of several lines that a backslash at the end of a line takes out: all blanks up to the
next line that has something else. -/
def continuation : Parser Bytes := do
  spaces
  newline
  let _ ← many (choice [newline, do let _ ← span1 isSpace])
  return []

/-- Reads a string of several lines after its opening: its parts, and quotes of which three end it and up to two
before those belong to it. -/
def multiline (quote : Char) (parts : Parser Bytes) : Parser String := do
  let _ ← optional newline
  let q := UInt8.ofNat quote.toNat
  let lone : Parser Bytes := fun s =>
    let run := s.takeWhile (· = q)
    if 0 < run.length ∧ run.length < 3 then .ok run (s.drop run.length) else .refused [⟨s, .bare⟩]
  let content ← many (choice [parts, lone])
  word [quote, quote, quote]
  let more ← optional (char quote)
  let evenMore ← if more.isSome then optional (char quote) else pure none
  return Utf8.lossy (content.flatten ++ (more.toList ++ evenMore.toList).map fun _ => q)

/-- Reads a string with escapes, on one line. -/
def basicString : Parser String := do
  char '"'
  let parts ← many (choice [plainRun fun b => b ≠ 0x22 && b ≠ 0x5C, char '\\' *> escape])
  char '"'
  return Utf8.lossy parts.flatten

/-- Reads a string without escapes, on one line. -/
def literalString : Parser String := do
  char '\''
  let content ← span fun b => isShown b && b ≠ 0x27
  char '\''
  return Utf8.lossy content

/-- Reads a string of any kind. -/
def anyString : Parser String :=
  choice [
    word ['"', '"', '"'] *> multiline '"' (choice [
      plainRun fun b => b ≠ 0x22 && b ≠ 0x5C, innerNewline, char '\\' *> choice [escape, continuation]]),
    word ['\'', '\'', '\''] *> multiline '\'' (choice [plainRun fun b => b ≠ 0x27, innerNewline]),
    basicString,
    literalString]

/-! ## Keys -/

/-- A byte of a key without quotes. -/
def inBareKey (b : UInt8) : Bool := Ascii.isLetter b || Ascii.isDigit b || b = 0x5F || b = 0x2D

/-- Reads a part of a key. -/
def keyPart : Parser String := choice [basicString, literalString, Utf8.lossy <$> span1 inBareKey]

/-- Reads a key: parts with points between them. -/
def key : Parser (List String) := do
  let first ← keyPart
  return first :: (← many (spaces *> char '.' *> spaces *> keyPart))

/-! ## Integers -/

/-- The number with the given digits in a base, if there are digits and each underscore stands between two. -/
def number? (base : Nat) (digits : Bytes) : Option Nat :=
  let rec go (n : Nat) (afterDigit : Bool) : Bytes → Option Nat
    | [] => if afterDigit then some n else none
    | b :: rest =>
      if b = 0x5F then (if afterDigit then go n false rest else none)
      else
        match Ascii.hexValue? b with
        | some d => if d < base then go (base * n + d) true rest else none
        | none => none
  go 0 false digits

/-- The integer that a word stands for, if it fits a signed 64-bit word. A sign and underscores go with decimal digits,
of which the first is zero only if it is the only one; in other bases there is no sign. -/
def integerOf? (w : Bytes) : Option Int :=
  let decimal (ds : Bytes) : Option Nat :=
    if ds.head? = some 0x30 ∧ ds.length ≠ 1 then none else number? 10 ds
  match w with
  | 0x30 :: 0x78 :: ds => number? 16 ds >>= fun n => Decimal.word? n
  | 0x30 :: 0x6F :: ds => number? 8 ds >>= fun n => Decimal.word? n
  | 0x30 :: 0x62 :: ds => number? 2 ds >>= fun n => Decimal.word? n
  | 0x2D :: ds => decimal ds >>= fun n => Decimal.word? (-n)
  | 0x2B :: ds => decimal ds >>= fun n => Decimal.word? n
  | ds => decimal ds >>= fun n => Decimal.word? n

/-- A byte of an integer in any base. -/
def inInteger (b : UInt8) : Bool := Ascii.isLetter b || Ascii.isDigit b || b = 0x5F || b = 0x2B || b = 0x2D

/-- Reads an integer. -/
def integerWord : Parser Int := do
  let place ← position
  match integerOf? (← span1 inInteger) with
  | some n => return n
  | none => refuseAt place

/-! ## Values and lines -/

/-- Reads a key and its value. -/
def entryOf (value : Parser Toml) : Parser (List String × Toml) := do
  let k ← key
  spaces
  char '='
  spaces
  return (k, ← value)

/-- Reads a table in braces, on one line and with no comma at its end. -/
def inlineTable (value : Parser Toml) : Parser Toml := do
  char '{'
  spaces
  let entries ← optional do
    let first ← entryOf value
    return first :: (← many (spaces *> char ',' *> spaces *> entryOf value))
  spaces
  char '}'
  return .table (entries.getD [])

/-- Reads a value. -/
def value : Parser Toml :=
  fix fun self => choice [
    .string <$> anyString,
    .moment <$> Moment.moment,
    .integer <$> integerWord,
    inlineTable self]

/-- Reads a line that begins a table. -/
def tableLine : Parser Line := do
  char '['
  spaces
  let k ← key
  spaces
  char ']'
  lineEnd
  return .table k

/-- Reads a line that gives a value to a key. -/
def entryLine : Parser Line := do
  let (k, v) ← entryOf value
  lineEnd
  return .entry k v

/-- Reads a line that says nothing, and its end. -/
def emptyLine : Parser Unit := do
  spaces
  comment
  newline

/-- Reads the byte order mark that may stand before a document. -/
def orderMark : Parser Unit := fun s =>
  if [0xEF, 0xBB, 0xBF] <+: s then .ok () (s.drop 3) else .refused [⟨s, .bare⟩]

/-- Reads a document. -/
def document : Parser (List Line) := do
  let _ ← optional orderMark
  let lines ← many (many emptyLine *> spaces *> choice [tableLine, entryLine])
  let _ ← many emptyLine
  spaces
  comment
  finish
  return lines

/-- The lines of a document that say something, if it is well written. -/
def read? (text : String) : Option (List Line) :=
  match document (Utf8.bytes text) with
  | .ok lines _ => some lines
  | _ => none

end Toml

end ThemedPages
