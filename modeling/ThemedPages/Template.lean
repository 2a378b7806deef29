import ThemedPages.Expr

/-!
# Templates

A template is a list of nodes: text, expressions to show, loops, conditions, named blocks that a descendant may
define anew, the block's inherited definition, and snippets. It may name a parent, and then only its block definitions
matter. `Template.blocks` lists those in the order of the document, nested ones included.
-/

namespace ThemedPages

/-- A part of a template. -/
inductive Node where
  /-- a comment -/
  | comment
  /-- text, shown as it is -/
  | text (s : String)
  /-- an expression to show -/
  | output (e : Expr)
  /-- a part for each item of a list, under a variable -/
  | loop (name : String) (list : Expr) (body : List Node)
  /-- a part for when a condition holds, and perhaps another for when it does not -/
  | cond (test : Expr) (body : List Node) (otherwise : Option (List Node))
  /-- a block, with the definition that this template gives of it -/
  | block (name : String) (body : List Node)
  /-- what the ancestors define the enclosing block to be -/
  | inherited
  /-- another template, shown with nothing but some arguments as its variables -/
  | snippet (path : String) (args : List (String × Expr))
  deriving Repr

/-- The node as it is written in a template, without what it encloses. -/
def Node.display : Node → String
  | .comment => ""
  | .text s => s
  | .output e => "@" ++ e.display
  | .loop name list _ => "@for " ++ name ++ " in " ++ list.display ++ " \x7b...\x7d"
  | .cond test _ _ => "@if " ++ test.display ++ " \x7b...\x7d"
  | .block name _ => "@block " ++ name ++ " \x7b...\x7d"
  | .inherited => "@super()"
  | .snippet path args =>
    "@include(" ++ quoted path ++ String.join (args.map fun arg => ", " ++ arg.1 ++ " = " ++ arg.2.display) ++ ")"

/-- The nodes as they are written in a template, one after the other. -/
def Node.displayAll (nodes : List Node) : String := String.join (nodes.map Node.display)

/-- A template. -/
structure Template where
  /-- the path of the template that it extends -/
  parent : Option String
  /-- its nodes -/
  body : List Node
  deriving Repr

/-! ## Block definitions -/

mutual

/-- The block definitions in a node, itself first, in the order of the document. -/
def Node.blocks : Node → List (String × List Node)
  | .block name body => (name, body) :: blocksIn body
  | .loop _ _ body => blocksIn body
  | .cond _ body none => blocksIn body
  | .cond _ body (some otherwise) => blocksIn body ++ blocksIn otherwise
  | _ => []

/-- The block definitions in some nodes, in the order of the document. -/
def blocksIn : List Node → List (String × List Node)
  | [] => []
  | node :: nodes => node.blocks ++ blocksIn nodes

end

/-- The block definitions in a template, in the order of the document. -/
def Template.blocks (t : Template) : List (String × List Node) := blocksIn t.body

mutual

/-- The variables of the loops in a node. -/
def Node.loopNames : Node → List String
  | .loop name _ body => name :: loopNamesIn body
  | .cond _ body none => loopNamesIn body
  | .cond _ body (some otherwise) => loopNamesIn body ++ loopNamesIn otherwise
  | .block _ body => loopNamesIn body
  | _ => []

/-- The variables of the loops in some nodes. -/
def loopNamesIn : List Node → List String
  | [] => []
  | node :: nodes => node.loopNames ++ loopNamesIn nodes

end

/-! ## What the grammar does not say -/

/-- What can be wrong with a template that is well written. -/
inductive Flaw where
  /-- a block is defined twice -/
  | blockTwice (block : String)
  /-- an inherited definition is asked for outside of any block -/
  | inheritedOutsideBlock
  /-- a snippet is given a parameter twice -/
  | parameterTwice (snippet parameter : String)
  deriving DecidableEq, Repr

/-- The first of some names that is among those before it or among those seen already. -/
def firstRepeated (seen : List String) : List String → Option String
  | [] => none
  | name :: names => if name ∈ seen then some name else firstRepeated (name :: seen) names

mutual

/-- The first misplaced or overfull part of a node, inside or outside of a block. -/
def Node.flaw? (inBlock : Bool) : Node → Option Flaw
  | .inherited => if inBlock then none else some .inheritedOutsideBlock
  | .block _ body => flawIn true body
  | .loop _ _ body => flawIn inBlock body
  | .cond _ body none => flawIn inBlock body
  | .cond _ body (some otherwise) => flawIn inBlock body <|> flawIn inBlock otherwise
  | .snippet path args => (firstRepeated [] (args.map (·.1))).map (.parameterTwice path)
  | _ => none

/-- The first misplaced or overfull part of some nodes, inside or outside of a block. -/
def flawIn (inBlock : Bool) : List Node → Option Flaw
  | [] => none
  | node :: nodes => node.flaw? inBlock <|> flawIn inBlock nodes

end

/-- What is wrong with the template: a block that is defined twice, or else the first misplaced or overfull part. -/
def Template.flaw? (t : Template) : Option Flaw :=
  ((firstRepeated [] (t.blocks.map (·.1))).map .blockTwice) <|> flawIn false t.body

end ThemedPages
