import ThemedPages.Run

/-!
# Rendering

A page is the body of the base of its lineage, in which every block is replaced by the definition of it that counts.
Variables reach into blocks, loops and conditions, and so do those of a loop into the blocks in its body; a snippet
sees nothing but its arguments.

Going into a snippet counts down from the limit on snippets within snippets. Going into a block definition counts down
from a bound of its own, since definitions in different templates may enclose each other, with loops over the parts of
a value for as long as there are any, or without end. A page without end goes round and round, and the bound is on how
often; no page that ends reaches it.
-/

namespace ThemedPages

/-! ## Scopes -/

/-- The variables at a place in a page: those of the page, and those of the loops around the place. -/
structure Scope where
  /-- the variables of the loops, the innermost first -/
  bound : List (String × Value)
  /-- the variables of the page -/
  context : Context

namespace Scope

/-- The variables of the page alone. -/
def ofContext (context : Context) : Scope := ⟨[], context⟩

/-- The scope inside a loop. -/
def bind (name : String) (value : Value) (scope : Scope) : Scope :=
  { scope with bound := (name, value) :: scope.bound }

/-- The value of a variable. -/
def get? (name : String) (scope : Scope) : Option Value :=
  match scope.bound.lookup name with
  | some value => some value
  | none => scope.context.get? name

end Scope

/-! ## Expressions -/

/-- The value at the end of a path that begins with a variable in scope. -/
def Scope.follow (scope : Scope) : List String → Option Value
  | [] => none
  | name :: path => scope.get? name >>= Value.follow path

/-- The value at the end of a path into the globals. -/
def Request.follow (request : Request) (path : List String) : Option Value :=
  Value.follow path (.map request.globals.vars)

namespace Expr

/-- The value of a call: the helper is called, and its answer is the value. -/
def callHelper (request : Request) (origin : Origin) (helper : Helper) (args : List Value) : Run Value :=
  match helper.call? args with
  | some made => do
    Run.emit (.called made)
    return request.helpers.answer made
  | none => Run.fail (.helperArguments origin.text helper.name)

/-- The value found at the end of a path, or the error that it leads nowhere. -/
def orUndefined (origin : Origin) (e : Expr) : Option Value → Run Value
  | some v => pure v
  | none => Run.fail (.undefined origin.text e.display)

mutual

/-- The value of an expression in a template. What is negated is a condition: it is false where a path in it leads
nowhere. -/
def eval (request : Request) (scope : Scope) (origin : Origin) : Expr → Run Value
  | e@(.var path) => orUndefined origin e (scope.follow path)
  | e@(.global path) => orUndefined origin e (request.follow path)
  | .str s => pure (.string s)
  | .int n => pure (.int n)
  | .not e => do
    let holds ← Run.orIfUndefined false (Value.isTruthy <$> eval request scope origin e)
    return .bool !holds
  | .call helper args => do
    callHelper request origin helper (← evalAll request scope origin args)

/-- The values of some expressions, from left to right. -/
def evalAll (request : Request) (scope : Scope) (origin : Origin) : List Expr → Run (List Value)
  | [] => pure []
  | e :: es => do
    let v ← eval request scope origin e
    return v :: (← evalAll request scope origin es)

end

/-- Whether a condition holds. It does not where a path in it leads nowhere. -/
def holds (request : Request) (scope : Scope) (origin : Origin) (e : Expr) : Run Bool :=
  Run.orIfUndefined false (Value.isTruthy <$> e.eval request scope origin)

/-- The value of an argument. It is nothing where a path in it leads nowhere. -/
def argument (request : Request) (scope : Scope) (origin : Origin) (e : Expr) : Run Value :=
  Run.orIfUndefined .null (e.eval request scope origin)

/-- The arguments of a snippet, from left to right. -/
def arguments (request : Request) (scope : Scope) (origin : Origin) :
    List (String × Expr) → Run (List (String × Value))
  | [] => pure []
  | (name, e) :: rest => do
    let v ← e.argument request scope origin
    return (name, v) :: (← arguments request scope origin rest)

end Expr

/-! ## Nodes -/

/-- The block definition that a node stands in. -/
structure Enclosing where
  /-- the name of the block -/
  block : String
  /-- the level of the definition -/
  level : Nat
  deriving DecidableEq, Repr

/-- Where a node stands. -/
structure Place where
  /-- the variables there -/
  scope : Scope
  /-- the template it is written in -/
  origin : Origin
  /-- the block definition it stands in, if any -/
  enclosing : Option Enclosing

/-- The ways out of a list of nodes. -/
structure Exits where
  /-- into a definition of a block, by name and level, from a place -/
  block : String → Nat → Place → Run Unit
  /-- into a snippet, by path and variables -/
  snippet : String → Context → Run Unit

/-- Writes parts of a page. -/
def writePieces : List Piece → Run Unit
  | [] => pure ()
  | piece :: rest => do
    Run.emit (.wrote piece)
    writePieces rest

/-- The items that a loop goes through: those of a list, and none of nothing. -/
def loopItems (origin : Origin) (e : Expr) : Value → Run (List Value)
  | .list items => pure items
  | .null => pure []
  | _ => Run.fail (.notIterable origin.text e.display)

/-- Does something for each item of a list. -/
def forEach (items : List Value) (body : Value → Run Unit) : Run Unit :=
  match items with
  | [] => pure ()
  | item :: rest => do
    body item
    forEach rest body

mutual

/-- Renders a node. -/
def Node.render (request : Request) (exits : Exits) (node : Node) (place : Place) : Run Unit :=
  match node with
  | .comment => pure ()
  | .text s => Run.emit (.wrote (.markup s))
  | .output e => do
    let v ← e.eval request place.scope place.origin
    if v.isMap then Run.fail (.notDisplayable place.origin.text e.display)
    else writePieces v.pieces
  | .loop name list body => do
    let v ← list.eval request place.scope place.origin
    let items ← loopItems place.origin list v
    forEach items fun item => renderAll request exits body { place with scope := place.scope.bind name item }
  | .cond test body none => do
    if ← test.holds request place.scope place.origin then renderAll request exits body place
  | .cond test body (some otherwise) => do
    if ← test.holds request place.scope place.origin then renderAll request exits body place
    else renderAll request exits otherwise place
  | .block name _ => exits.block name 0 place
  | .inherited =>
    match place.enclosing with
    | some enclosing => exits.block enclosing.block (enclosing.level + 1) place
    | none => pure ()
  | .snippet path args => do
    let params ← Expr.arguments request place.scope place.origin args
    exits.snippet path (Context.ofPairs params)

/-- Renders nodes, one after the other. -/
def renderAll (request : Request) (exits : Exits) (nodes : List Node) (place : Place) : Run Unit :=
  match nodes with
  | [] => pure ()
  | node :: rest => do
    node.render request exits place
    renderAll request exits rest place

end

/-! ## Pages -/

/-- Renders a definition of a block, in block definitions nested at most so deep. -/
def BlockTable.render (table : BlockTable) (request : Request) (snippet : String → Context → Run Unit) :
    Nat → String → Nat → Place → Run Unit
  | 0, _, _, _ => Run.endless
  | fuel + 1, name, level, place =>
    match table.definition? name level with
    | none => Run.fail (.noParentBlock place.origin.text name)
    | some definition =>
      renderAll request ⟨table.render request snippet fuel, snippet⟩ definition.body
        { place with origin := definition.origin, enclosing := some ⟨name, level⟩ }

/-- How many ways there are to stand in a block definition of a layout: in which one, and for each variable of a loop
which item of a list it has, if any. What is rendered in a definition depends on nothing else, so that a page in which
definitions are nested deeper than this comes by one of them in the same way again: it goes round, and never ends. -/
def Layout.standings (l : Layout) (request : Request) (context : Context) : Nat :=
  if l.definitions = 0 then 0
  else
    let items := Value.fieldItemCount context.vars + Value.fieldItemCount request.globals.vars
    l.definitions * Nat.pow (items + 1) l.loopNames

/-- Renders a layout: the body of its base, with block definitions nested so deep that a page without end goes round
at least so many times. -/
def Layout.render (l : Layout) (request : Request) (snippet : String → Context → Run Unit) (rounds : Nat)
    (context : Context) : Run Unit :=
  let depth := l.standings request context * rounds + 1
  renderAll request ⟨l.table.render request snippet depth, snippet⟩ l.base.template.body
    { scope := .ofContext context, origin := l.base.origin, enclosing := none }

/-- Renders the page at a path, given how to render a snippet in it. -/
def Request.render (request : Request) (snippet : String → Context → Run Unit) (rounds : Nat) (path : String)
    (context : Context) : Run Unit := do
  let layout ← Run.layout ⟨path, request.theme⟩
  layout.render request snippet rounds context

end ThemedPages
