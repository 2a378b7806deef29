import ThemedPages.Decimal.Whole
import ThemedPages.Text.Quoted

/-!
# Expressions

What a template can compute: variables of the page and of the request by dotted paths, literals, negation, and calls
of the helpers that the application provides. `Expr.display` shows an expression the way it is written.
-/

namespace ThemedPages

/-- A function that templates may call. -/
inductive Helper where
  /-- whether the user may do something to something -/
  | checkAccess
  /-- what to call something -/
  | displayName
  /-- a text in the user's language -/
  | translate
  /-- html from markdown -/
  | markdown
  /-- how many follow something -/
  | followCount
  deriving DecidableEq, Repr

namespace Helper

/-- The name that templates call the helper by. -/
def name : Helper → String
  | checkAccess => "check_access"
  | displayName => "display_name"
  | translate => "translate"
  | markdown => "markdown"
  | followCount => "follow_count"

/-- The helper that templates call by a name. -/
def ofName? : String → Option Helper
  | "check_access" => some checkAccess
  | "display_name" => some displayName
  | "translate" => some translate
  | "markdown" => some markdown
  | "follow_count" => some followCount
  | _ => none

/-- How many arguments the helper takes. -/
def arity : Helper → Nat
  | checkAccess | followCount => 2
  | displayName | translate | markdown => 1

end Helper

/-- An expression in a template. -/
inductive Expr where
  /-- a path that begins with a variable -/
  | var (path : List String)
  /-- a path into the globals of the request -/
  | global (path : List String)
  /-- a text -/
  | str (s : String)
  /-- a whole number -/
  | int (n : Int)
  /-- the opposite of a condition -/
  | not (e : Expr)
  /-- a call of a helper -/
  | call (helper : Helper) (args : List Expr)
  deriving Repr

namespace Expr

mutual

/-- The expression as it is written in a template. -/
def display : Expr → String
  | var path => ".".intercalate path
  | global path => ".".intercalate ("g" :: path)
  | str s => quoted s
  | int n => Decimal.integer n
  | not e => "!" ++ e.display
  | call helper args => "h." ++ helper.name ++ "(" ++ ", ".intercalate (displays args) ++ ")"

/-- Each of some expressions as it is written in a template. -/
def displays : List Expr → List String
  | [] => []
  | e :: es => e.display :: displays es

end

end Expr

end ThemedPages
