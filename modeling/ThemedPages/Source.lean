import ThemedPages.Error
import ThemedPages.Grammar.Document

/-!
# Reading templates

From the source of a template to the template: the grammar first, then what the grammar does not say.
-/

namespace ThemedPages

/-- A flaw as an error in a named template. -/
def Flaw.error (template : String) : Flaw → Error
  | .blockTwice block => .duplicateBlock template block
  | .inheritedOutsideBlock => .superOutsideBlock template
  | .parameterTwice snippet parameter => .duplicateParameter template snippet parameter

/-- The template that is written in a source, under the name that errors give it. -/
def Template.read (name : String) (source : Bytes) : Except Error Template :=
  match Grammar.document source with
  | .ok template _ =>
    match template.flaw? with
    | none => .ok template
    | some flaw => .error (flaw.error name)
  | .refused trace | .failed trace => .error (.malformed name (Report.ofTrace source trace))

end ThemedPages
