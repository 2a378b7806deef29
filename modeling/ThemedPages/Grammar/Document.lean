import ThemedPages.Grammar.Expression
import ThemedPages.Template

/-!
# The grammar of templates

A template is an optional parent followed by nodes up to the end of the source. In a source the characters `@`, `{`
and `}` have a meaning, and are written `@@`, `@{` and `@}` to stand for themselves; all other text does.
-/

namespace ThemedPages.Grammar

open ThemedPages.Parser

/-- What an `@` may announce, other than an expression or a comment. -/
inductive Directive where
  /-- a brace or an `@` that stands for itself -/
  | literal (c : Char)
  /-- the inherited definition of the block -/
  | super
  /-- a condition -/
  | cond
  /-- a loop -/
  | loop
  /-- a block definition -/
  | block
  /-- a snippet -/
  | snippet
  /-- the parent of the template -/
  | extends
  deriving DecidableEq, Repr

/-- Reads a directive, if there is one. The words for a condition, a loop and a block count only with a blank after
them, for they also begin variables. -/
def directive : Parser (Option Directive) :=
  optional (char '@' *> choice [
    char '{' *> pure (.literal '{'),
    char '}' *> pure (.literal '}'),
    char '@' *> pure (.literal '@'),
    word ['s', 'u', 'p', 'e', 'r', '(', ')'] *> pure .super,
    word ['i', 'n', 'c', 'l', 'u', 'd', 'e', '('] *> pure .snippet,
    word ['e', 'x', 't', 'e', 'n', 'd', 's', '('] *> pure .extends,
    choice [
      word ['i', 'f'] *> pure .cond,
      word ['f', 'o', 'r'] *> pure .loop,
      word ['b', 'l', 'o', 'c', 'k'] *> pure .block] <* blanks1])

/-! ## What directives announce, given how to read a node inside it -/

section

variable (node : Parser Node)

/-- Reads nodes in braces. -/
def braced : Parser (List Node) := do
  label "Expected \"\x7b\"" (char '{')
  label "Error in expression starting here:" (commit (manyUntil node (char '}')))

/-- Reads a condition after its `if`, given how to read one that follows an `else`. -/
def conditionOf (condition : Parser Node) : Parser Node := do
  let test ← label "Expected condition" expression
  spaces
  let body ← braced node
  let otherwise ← optional do
    spaces
    word ['e', 'l', 's', 'e']
    spaces
    choice [
      (fun nested => [nested]) <$> (word ['@', 'i', 'f'] *> blanks1 *> condition),
      braced node]
  return .cond test body otherwise

/-- Reads a condition after its `if`; an `else if` is a condition that is all there is after the `else`. -/
def condition : Parser Node := fix (conditionOf node)

/-- Reads a loop after its `for`. -/
def loop : Parser Node := do
  let item ← label "Expected loop variable name" name
  blanks1
  label "Expected \"in\"" (word ['i', 'n'])
  blanks1
  let list ← label "Expected iterable expression" expression
  spaces
  return .loop item list (← braced node)

/-- Reads a block definition after its `block`. -/
def block : Parser Node := do
  let name ← label "Expected block name" name
  spaces
  return .block name (← braced node)

end

/-- Reads a named argument of a snippet. -/
def argument : Parser (String × Expr) := do
  let parameter ← name
  blanks
  char '='
  blanks
  return (parameter, ← label "Expected argument value" (commit expression))

/-- Reads a snippet after its `include(`. -/
def snippet : Parser Node := do
  blanks
  let path ← label "Expected quoted snippet path" string
  let args ← many (blanks *> char ',' *> blanks *> argument)
  blanks
  label "Expected \",\" or \")\"" (char ')')
  return .snippet path args

/-! ## Nodes -/

/-- The byte is text wherever it stands. -/
def isPlain (b : UInt8) : Bool := b ≠ 0x40 && b ≠ 0x7B && b ≠ 0x7D

/-- Reads a node that no directive announces. -/
def undirected : Parser Node :=
  choice [
    comment *> pure .comment,
    (fun run => .text (Utf8.lossy run)) <$> span1 isPlain,
    .output <$> (char '@' *> expression)]

/-- Reads a node, given how to read one inside it. -/
def nodeOf (node : Parser Node) : Parser Node := do
  let start ← position
  match ← directive with
  | some (.literal c) => return .text (String.ofList [c])
  | some .super => return .inherited
  | some .cond => label "Error in conditional expression:" (commit (condition node))
  | some .loop => label "Error in loop expression:" (commit (loop node))
  | some .block => label "Error in block definition:" (commit (block node))
  | some .snippet => label "Error in snippet inclusion:" (commit snippet)
  | some .extends => failAt start "@extends must come before anything else in the template"
  | none => undirected

/-- Reads a node. -/
def node : Parser Node := fix nodeOf

/-! ## Templates -/

/-- Reads the parent of a template. -/
def parent : Parser String := do
  word ['@', 'e', 'x', 't', 'e', 'n', 'd', 's', '(']
  commit do
    blanks
    let path ← label "Expected quoted parent template path" string
    blanks
    label "Expected \")\"" (char ')')
    return path

/-- Reads a whole template. -/
def document : Parser Template := do
  spaces
  let parent ← optional (parent <* spaces)
  return { parent, body := ← manyUntil node finish }

end ThemedPages.Grammar
