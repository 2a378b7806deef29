import ThemedPages.Expr
import ThemedPages.Grammar.Lexical

/-!
# The grammar of expressions

An expression is a negation, a string, an integer, a call of a helper or a path, tried in this order. Nothing else
may begin with the `h.` of a call.
-/

namespace ThemedPages.Grammar

open ThemedPages.Parser

/-- Reads an integer that fits a signed 64-bit word. -/
def integer : Parser Expr := do
  let start ← position
  let negative ← optional (char '-')
  let ds ← span1 Ascii.isDigit
  let n : Int := ds.foldl (fun n b => 10 * n + Ascii.digitValue b) 0
  let n := if negative.isSome then -n else n
  match Decimal.word? n with
  | some n => return .int n
  | none => refuseAt start

/-- Reads a path: names with points between them, the globals if the first is `g`. -/
def path : Parser Expr := do
  let first ← name
  let rest ← many (char '.' *> name)
  return if first = "g" then .global rest else .var (first :: rest)

/-- Reads the arguments of a call. -/
def arguments (expression : Parser Expr) : Parser (List Expr) := do
  char '('
  blanks
  listUntil expression (blanks *> char ',' *> blanks) (blanks *> char ')')

/-- Reads a call of a helper. -/
def call (expression : Parser Expr) : Parser Expr := do
  word ['h', '.']
  let start ← position
  commit do
    let called ← name
    let args ← label "Expected helper arguments" (arguments expression)
    match Helper.ofName? called with
    | some helper =>
      if helper.arity = args.length then return .call helper args
      else failAt start "Wrong number of helper arguments"
    | none => failAt start "Unknown helper"

/-- Reads an expression, given how to read one inside it. -/
def expressionOf (expression : Parser Expr) : Parser Expr :=
  choice [.not <$> (char '!' *> expression), .str <$> string, integer, call expression, path]

/-- Reads an expression. -/
def expression : Parser Expr := fix expressionOf

end ThemedPages.Grammar
