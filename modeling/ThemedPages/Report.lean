import ThemedPages.Parser
import ThemedPages.Decimal.Whole

/-!
# Reports of what is wrong with a source

A trace is shown to the author as an entry for each of its notes that says something, the outermost first: the line
that the note is about with its number, and under it a caret and the remark. If no note says anything, the innermost
one is shown as unexpected input.
-/

namespace ThemedPages

/-- What is shown for one note. -/
structure Report.Entry where
  /-- the number of the line, counted from one -/
  line : Nat
  /-- the line, unless it is not well-formed UTF-8 -/
  text : Option String
  /-- the column of the place, counted in characters from one -/
  column : Nat
  /-- what there is to say -/
  message : String
  deriving DecidableEq, Repr

/-- What is shown for a trace. -/
abbrev Report := List Report.Entry

namespace Report

/-- The byte that ends a line. -/
def newline : UInt8 := 0x0A

/-- The byte is part of a line. -/
def inLine (b : UInt8) : Bool := b ≠ newline

/-- The part of the line before a place, given all that is before the place. -/
def lineBefore (before : Bytes) : Bytes := (before.reverse.takeWhile inLine).reverse

/-- What is shown about the place in a source where a rest of it begins. -/
def entryAt (source rest : Bytes) (message : String) : Entry :=
  let before := source.take (source.length - rest.length)
  { line := before.count newline + 1
    text := Utf8.read? (lineBefore before ++ rest.takeWhile inLine)
    column := (Utf8.decode (lineBefore before)).length + 1
    message }

/-- What a remark says, if anything. -/
def message? : Remark → Option String
  | .words text => some text
  | .expected c => some (String.ofList ['E', 'x', 'p', 'e', 'c', 't', 'e', 'd', ' ', '\'', c, '\''])
  | .bare => none

/-- What is shown for a note, if it says anything. -/
def shown? (source : Bytes) (note : Note) : Option Entry :=
  (message? note.remark).map (entryAt source note.rest)

/-- What is shown for a trace in the reading of a source. -/
def ofTrace (source : Bytes) (trace : Trace) : Report :=
  match trace.filterMap (shown? source) with
  | [] => (trace.getLast?.map fun note => entryAt source note.rest "Unexpected input").toList
  | entries => entries

/-! ## As text -/

/-- Characters with spaces before them, to a width. -/
def padLeft (width : Nat) (chars : List Char) : List Char :=
  List.replicate (width - chars.length) ' ' ++ chars

/-- What is shown in place of a line that can not be. -/
def unshownLine : String := "(Failed to display line)"

namespace Entry

/-- The line with its number, after a margin: the number in four columns, a colon, and the line. -/
def sourceLine (margin : List Char) (e : Entry) : List Char :=
  margin ++ padLeft 4 (Decimal.digits e.line) ++ ':' :: (e.text.getD unshownLine).toList

/-- The caret with the remark, after a margin: five columns for the number and the colon, and the caret in the
column. -/
def caretLine (margin : List Char) (e : Entry) : List Char :=
  margin ++ List.replicate 5 ' ' ++ padLeft e.column ['^'] ++ ' ' :: e.message.toList

/-- The two lines of an entry. -/
def chars (margin : List Char) (e : Entry) : List Char :=
  e.sourceLine margin ++ '\n' :: e.caretLine margin ++ ['\n']

end Entry

/-- The lines of a report, each of them after a margin. -/
def text (margin : String) (r : Report) : String := String.ofList (r.flatMap (Entry.chars margin.toList))

end Report

end ThemedPages
