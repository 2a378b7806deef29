import ThemedPages.Template

/-!
# Writing templates

`Template.source` writes a template the way people do, who have two ways to write a condition after an `else`.
`Template.WellFormed` are the templates that can be written: what is a name is spelled like one, no text is cut in two,
and no node is followed by one that would be read as a part of it.

* `Expr.source`, `Node.source` and `Template.source` print, by the same recursion as the types they print. Each has its
  equations as lemmas, so that a proof that goes through a tree rewrites with the one for the node it is at.
* `Expr.WellFormed`, `Node.WellFormed` and `Template.WellFormed` are what has to hold for the printed text to be read as
  what was printed. They can be decided, so that a template can be checked.
* `Node.Precedes` is the condition between a node and those after it. It is the only one that is about two nodes.
* `Template.WellFormed.flaw?_eq_none` says that the check that is made of a template that was read finds nothing in one
  that can be written.
-/

namespace ThemedPages

/-! ## Expressions

The parts of a path and the arguments of a call are lists, and what is written for these comes with the separator
before each part or argument. Then what is still to be written is again such a list, as the induction wants it. -/

/-- The text is a name: a letter or an underscore, and then letters, digits and underscores. -/
def IsName (s : String) : Prop :=
  ∃ c cs, s.toList = c :: cs ∧ (c.isAlpha ∨ c = '_') ∧ ∀ x ∈ cs, x.isAlphanum ∨ x = '_'

/-- The text can stand between quotes. -/
def IsQuotable (s : String) : Prop := '"' ∉ s.toList

instance (s : String) : Decidable (IsName s) :=
  match h : s.toList with
  | [] => .isFalse fun ⟨_, _, hs, _⟩ => List.cons_ne_nil _ _ (hs.symm.trans h)
  | c :: cs =>
    have : Decidable (∀ x ∈ cs, x.isAlphanum ∨ x = '_') := List.decidableBAll _ cs
    decidable_of_iff ((c.isAlpha ∨ c = '_') ∧ ∀ x ∈ cs, x.isAlphanum ∨ x = '_')
      ⟨fun ⟨hc, hcs⟩ => ⟨c, cs, h, hc, hcs⟩, fun ⟨_, _, hs, hc, hcs⟩ => by
        obtain ⟨rfl, rfl⟩ := List.cons.inj (h.symm.trans hs)
        exact ⟨hc, hcs⟩⟩

instance (s : String) : Decidable (IsQuotable s) := inferInstanceAs (Decidable (_ ∉ _))

namespace Expr

/-- The parts of a path after the first, each with its point. -/
def partsSource : List String → String
  | [] => ""
  | part :: parts => "." ++ part ++ partsSource parts

mutual

/-- The expression as it is written. -/
def source : Expr → String
  | .var [] => ""
  | .var (first :: parts) => first ++ partsSource parts
  | .global path => "g" ++ partsSource path
  | .str s => "\"" ++ s ++ "\""
  | .int n => Decimal.integer n
  | .not e => "!" ++ e.source
  | .call helper args => "h." ++ helper.name ++ "(" ++ argumentsSource args ++ ")"

/-- The arguments of a call as they are written. -/
def argumentsSource : List Expr → String
  | [] => ""
  | e :: es => e.source ++ nextSource es

/-- The arguments of a call after the first, each with its comma. -/
def nextSource : List Expr → String
  | [] => ""
  | e :: es => ", " ++ e.source ++ nextSource es

end

theorem partsSource_cons (part : String) (parts : List String) :
    partsSource (part :: parts) = "." ++ part ++ partsSource parts := rfl

/-- A path is written with a point before each part but the first. -/
theorem source_var (first : String) (parts : List String) :
    (var (first :: parts)).source = first ++ partsSource parts := rfl

/-- The globals are written `g`, and what is in them is a path that goes on from there. -/
theorem source_global (path : List String) : (global path).source = "g" ++ partsSource path := rfl

theorem source_str (s : String) : (str s).source = "\"" ++ s ++ "\"" := rfl

theorem source_int (n : Int) : (int n).source = Decimal.integer n := rfl

theorem source_not (e : Expr) : (not e).source = "!" ++ e.source := rfl

/-- A call is written with its arguments in parentheses, which are there also if there are no arguments. -/
theorem source_call (helper : Helper) (args : List Expr) :
    (call helper args).source = "h." ++ helper.name ++ "(" ++ argumentsSource args ++ ")" := rfl

/-- The first argument comes without a comma before it. -/
theorem argumentsSource_cons (e : Expr) (es : List Expr) : argumentsSource (e :: es) = e.source ++ nextSource es := rfl

/-- What comes after an argument is a comma and then all others as they would be written without it: it is this form
that the loop over arguments reads. -/
theorem nextSource_cons (e : Expr) (es : List Expr) : nextSource (e :: es) = ", " ++ argumentsSource (e :: es) :=
  String.append_assoc

mutual

/-- The expression can be written. A variable is not called `g`, which stands for the globals, and one that is called
`h` has no parts, for these would be the names of helpers. -/
def WellFormed : Expr → Prop
  | .var [] => False
  | .var (first :: parts) => IsName first ∧ first ≠ "g" ∧ (first = "h" → parts = []) ∧ ∀ part ∈ parts, IsName part
  | .global path => ∀ part ∈ path, IsName part
  | .str s => IsQuotable s
  | .int n => -0x8000000000000000 ≤ n ∧ n < 0x8000000000000000
  | .not e => e.WellFormed
  | .call helper args => args.length = helper.arity ∧ WellFormedAll args

/-- Some expressions can be written. -/
def WellFormedAll : List Expr → Prop
  | [] => True
  | e :: es => e.WellFormed ∧ WellFormedAll es

end

end Expr

mutual

/-- Whether an expression can be written. -/
def Expr.decidableWellFormed : ∀ e : Expr, Decidable e.WellFormed
  | .var [] => inferInstanceAs (Decidable False)
  | .var (first :: parts) =>
    inferInstanceAs (Decidable (IsName first ∧ first ≠ "g" ∧ (first = "h" → parts = []) ∧ ∀ part ∈ parts, IsName part))
  | .global path => inferInstanceAs (Decidable (∀ part ∈ path, IsName part))
  | .str s => inferInstanceAs (Decidable (IsQuotable s))
  | .int n => inferInstanceAs (Decidable (-0x8000000000000000 ≤ n ∧ n < 0x8000000000000000))
  | .not e => e.decidableWellFormed
  | .call helper args =>
    have := Expr.decidableWellFormedAll args
    inferInstanceAs (Decidable (args.length = helper.arity ∧ Expr.WellFormedAll args))

/-- Whether some expressions can be written. -/
def Expr.decidableWellFormedAll : ∀ es : List Expr, Decidable (Expr.WellFormedAll es)
  | [] => inferInstanceAs (Decidable True)
  | e :: es =>
    have := e.decidableWellFormed
    have := Expr.decidableWellFormedAll es
    inferInstanceAs (Decidable (e.WellFormed ∧ Expr.WellFormedAll es))

end

instance (e : Expr) : Decidable e.WellFormed := e.decidableWellFormed

/-! ## Nodes

The shape of what is written says where a node ends: a text runs to the next `@` or brace, an expression to what is no
part of one, a condition to the place where no `else` comes. So two texts in a row would be read as one, a text after
an expression as more of it, and a text or a comment after a condition without an `else` could hide one. -/

/-- The text is a single character that has a meaning in templates. -/
def IsSpecial (s : String) : Prop := s = "@" ∨ s = "\x7b" ∨ s = "\x7d"

instance (s : String) : Decidable (IsSpecial s) := inferInstanceAs (Decidable (_ ∨ _))

namespace Node

/-- The node is written without an `@`. -/
def IsPlain : Node → Prop
  | .text s => ¬IsSpecial s
  | _ => False

instance : ∀ n : Node, Decidable n.IsPlain
  | .text s => inferInstanceAs (Decidable (¬IsSpecial s))
  | .comment | .output _ | .loop .. | .cond .. | .block .. | .inherited | .snippet .. =>
    inferInstanceAs (Decidable False)

/-- Where the list of nodes goes on after a node, it goes on with one that is not read as a part of it. -/
def Precedes : Node → List Node → Prop
  | _, [] => True
  | .text s, next :: _ => IsSpecial s ∨ ¬next.IsPlain
  | .output _, next :: _ => ¬next.IsPlain
  -- there might be an `else` in a text or after a comment
  | .cond _ _ none, next :: _ => ¬next.IsPlain ∧ next ≠ .comment
  | _, _ :: _ => True

instance : ∀ n : Node, Decidable (n = .comment)
  | .comment => .isTrue rfl
  | .text _ | .output _ | .loop .. | .cond .. | .block .. | .inherited | .snippet .. => .isFalse nofun

instance : ∀ (n : Node) (nodes : List Node), Decidable (n.Precedes nodes)
  | .text s, next :: _ => inferInstanceAs (Decidable (IsSpecial s ∨ ¬next.IsPlain))
  | .output _, next :: _ => inferInstanceAs (Decidable (¬next.IsPlain))
  | .cond _ _ none, next :: _ => inferInstanceAs (Decidable (¬next.IsPlain ∧ next ≠ .comment))
  | .comment, _ :: _ | .loop .., _ :: _ | .cond _ _ (some _), _ :: _ | .block .., _ :: _ | .inherited, _ :: _
  | .snippet .., _ :: _ | _, [] => inferInstanceAs (Decidable True)

/-- The arguments of a snippet as they are written, each with its comma. -/
def paramsSource : List (String × Expr) → String
  | [] => ""
  | (name, e) :: rest => ", " ++ name ++ " = " ++ e.source ++ paramsSource rest

end Node

/-- The nodes are a condition with an `else` and nothing more. Where they come after an `else` themselves, they can go
without braces, as nothing that comes later can be read as a part of them. -/
def chains : List Node → Bool
  | [.cond _ _ (some _)] => true
  | _ => false

/-- What is written after an `else`, from how the nodes there are written. -/
def elseSource (chained : Bool) (nodes : List Node) (written : String) : String :=
  if chained && chains nodes then written else "\x7b" ++ written ++ "\x7d"

mutual

/-- The node as it is written. Conditions are `chained` if they are written `else @if` where they can be. -/
def Node.source (chained : Bool) : Node → String
  | .comment => "@* *@"
  | .text s => if IsSpecial s then "@" ++ s else s
  | .output e => "@" ++ e.source
  | .loop name list body => "@for " ++ name ++ " in " ++ list.source ++ " \x7b" ++ sourceOf chained body ++ "\x7d"
  | .cond test body none => "@if " ++ test.source ++ " \x7b" ++ sourceOf chained body ++ "\x7d"
  | .cond test body (some otherwise) =>
    "@if " ++ test.source ++ " \x7b" ++ sourceOf chained body ++ "\x7d else " ++
      elseSource chained otherwise (sourceOf chained otherwise)
  | .block name body => "@block " ++ name ++ " \x7b" ++ sourceOf chained body ++ "\x7d"
  | .inherited => "@super()"
  | .snippet path args => "@include(\"" ++ path ++ "\"" ++ Node.paramsSource args ++ ")"

/-- The nodes as they are written, one after the other. -/
def sourceOf (chained : Bool) : List Node → String
  | [] => ""
  | node :: nodes => node.source chained ++ sourceOf chained nodes

end

section

variable (chained : Bool)

theorem paramsSource_cons (name : String) (e : Expr) (args : List (String × Expr)) :
    Node.paramsSource ((name, e) :: args) = ", " ++ name ++ " = " ++ e.source ++ Node.paramsSource args := rfl

theorem source_comment : Node.comment.source chained = "@* *@" := rfl

/-- A special character has an `@` before it. Every other text stands for itself. -/
theorem source_text (s : String) : (Node.text s).source chained = if IsSpecial s then "@" ++ s else s := rfl

theorem source_output (e : Expr) : (Node.output e).source chained = "@" ++ e.source := rfl

theorem source_loop (name : String) (list : Expr) (body : List Node) : (Node.loop name list body).source chained =
    "@for " ++ name ++ " in " ++ list.source ++ " \x7b" ++ sourceOf chained body ++ "\x7d" := rfl

/-- Without an `else` a condition ends with its body. -/
theorem source_cond (test : Expr) (body : List Node) : (Node.cond test body none).source chained =
    "@if " ++ test.source ++ " \x7b" ++ sourceOf chained body ++ "\x7d" := rfl

/-- The nodes after an `else` are in braces, or chained to it where they are a single condition. -/
theorem source_else (test : Expr) (body otherwise : List Node) : (Node.cond test body (some otherwise)).source chained =
    "@if " ++ test.source ++ " \x7b" ++ sourceOf chained body ++ "\x7d else " ++
      elseSource chained otherwise (sourceOf chained otherwise) := rfl

theorem source_block (name : String) (body : List Node) : (Node.block name body).source chained =
    "@block " ++ name ++ " \x7b" ++ sourceOf chained body ++ "\x7d" := rfl

/-- What is inherited is asked for like a call without arguments. -/
theorem source_inherited : Node.inherited.source chained = "@super()" := rfl

/-- A snippet has its path in quotes, and each parameter comes after a comma. -/
theorem source_snippet (path : String) (args : List (String × Expr)) : (Node.snippet path args).source chained =
    "@include(\"" ++ path ++ "\"" ++ Node.paramsSource args ++ ")" := rfl

/-- Nodes are written with nothing between them. -/
theorem sourceOf_cons (node : Node) (nodes : List Node) :
    sourceOf chained (node :: nodes) = node.source chained ++ sourceOf chained nodes := rfl

end

mutual

/-- The node can be written, inside or outside of a block. -/
def Node.WellFormed (inBlock : Bool) : Node → Prop
  | .comment => True
  | .text s => IsSpecial s ∨ s ≠ "" ∧ ∀ c ∈ s.toList, c ≠ '@' ∧ c ≠ '\x7b' ∧ c ≠ '\x7d'
  | .output e => e.WellFormed
  | .loop name list body => IsName name ∧ list.WellFormed ∧ WellFormedNodes inBlock body
  | .cond test body none => test.WellFormed ∧ WellFormedNodes inBlock body
  | .cond test body (some otherwise) =>
    test.WellFormed ∧ WellFormedNodes inBlock body ∧ WellFormedNodes inBlock otherwise
  | .block name body => IsName name ∧ WellFormedNodes true body
  | .inherited => inBlock = true
  | .snippet path args =>
    IsQuotable path ∧ (∀ arg ∈ args, IsName arg.1 ∧ arg.2.WellFormed) ∧ (args.map (·.1)).Nodup

/-- The nodes can be written, one after the other. -/
def WellFormedNodes (inBlock : Bool) : List Node → Prop
  | [] => True
  | node :: nodes => node.WellFormed inBlock ∧ node.Precedes nodes ∧ WellFormedNodes inBlock nodes

end

mutual

/-- Whether a node can be written. -/
def Node.decidableWellFormed (inBlock : Bool) : ∀ n : Node, Decidable (n.WellFormed inBlock)
  | .comment => inferInstanceAs (Decidable True)
  | .text s =>
    have : Decidable (∀ c ∈ s.toList, c ≠ '@' ∧ c ≠ '\x7b' ∧ c ≠ '\x7d') := List.decidableBAll _ s.toList
    inferInstanceAs (Decidable (IsSpecial s ∨ s ≠ "" ∧ ∀ c ∈ s.toList, c ≠ '@' ∧ c ≠ '\x7b' ∧ c ≠ '\x7d'))
  | .output e => inferInstanceAs (Decidable e.WellFormed)
  | .loop name list body =>
    have := decidableWellFormedNodes inBlock body
    inferInstanceAs (Decidable (IsName name ∧ list.WellFormed ∧ WellFormedNodes inBlock body))
  | .cond test body none =>
    have := decidableWellFormedNodes inBlock body
    inferInstanceAs (Decidable (test.WellFormed ∧ WellFormedNodes inBlock body))
  | .cond test body (some otherwise) =>
    have := decidableWellFormedNodes inBlock body
    have := decidableWellFormedNodes inBlock otherwise
    inferInstanceAs (Decidable (test.WellFormed ∧ WellFormedNodes inBlock body ∧ WellFormedNodes inBlock otherwise))
  | .block name body =>
    have := decidableWellFormedNodes true body
    inferInstanceAs (Decidable (IsName name ∧ WellFormedNodes true body))
  | .inherited => inferInstanceAs (Decidable (inBlock = true))
  | .snippet path args => inferInstanceAs (Decidable (IsQuotable path ∧
    (∀ arg ∈ args, IsName arg.1 ∧ arg.2.WellFormed) ∧ (args.map (·.1)).Nodup))

/-- Whether some nodes can be written. -/
def decidableWellFormedNodes (inBlock : Bool) : ∀ nodes : List Node, Decidable (WellFormedNodes inBlock nodes)
  | [] => inferInstanceAs (Decidable True)
  | node :: nodes =>
    have := node.decidableWellFormed inBlock
    have := decidableWellFormedNodes inBlock nodes
    inferInstanceAs (Decidable (node.WellFormed inBlock ∧ node.Precedes nodes ∧ WellFormedNodes inBlock nodes))

end

instance (inBlock : Bool) (nodes : List Node) : Decidable (WellFormedNodes inBlock nodes) :=
  decidableWellFormedNodes inBlock nodes

/-! ## Templates

A template has its parent first and then its nodes. The blanks and comments before the first node are skipped when it
is read, so none of its nodes may be there that would be skipped with them. -/

namespace Template

/-- The template as it is written. -/
def source (chained : Bool) (t : Template) : String :=
  (t.parent.elim "" fun path => "@extends(\"" ++ path ++ "\")\n") ++ sourceOf chained t.body

/-- Where a template begins, blanks and comments do not count. -/
def Begins : List Node → Prop
  | .comment :: _ => False
  | .text s :: _ => ∀ c ∈ s.toList.head?, c ≠ ' ' ∧ c ≠ '\t' ∧ c ≠ '\r' ∧ c ≠ '\n'
  | _ => True

instance : ∀ nodes : List Node, Decidable (Begins nodes)
  | .text s :: _ =>
    (Option.decidableForallMem _ : Decidable (∀ c ∈ s.toList.head?, c ≠ ' ' ∧ c ≠ '\t' ∧ c ≠ '\r' ∧ c ≠ '\n'))
  | .comment :: _ => inferInstanceAs (Decidable False)
  | .output _ :: _ | .loop .. :: _ | .cond .. :: _ | .block .. :: _ | .inherited :: _ | .snippet .. :: _ | [] =>
    inferInstanceAs (Decidable True)

/-- The template can be written. -/
structure WellFormed (t : Template) : Prop where
  /-- the path of the parent -/
  parent : ∀ path ∈ t.parent, IsQuotable path
  /-- the nodes -/
  nodes : WellFormedNodes false t.body
  /-- the first node -/
  begins : Begins t.body
  /-- no block is defined twice -/
  blocks : (t.blocks.map (·.1)).Nodup

instance (t : Template) : Decidable t.WellFormed :=
  decidable_of_iff ((∀ path ∈ t.parent, IsQuotable path) ∧ WellFormedNodes false t.body ∧ Begins t.body ∧
    (t.blocks.map (·.1)).Nodup)
    ⟨fun ⟨hparent, hnodes, hbegins, hblocks⟩ => ⟨hparent, hnodes, hbegins, hblocks⟩,
      fun h => ⟨h.parent, h.nodes, h.begins, h.blocks⟩⟩

end Template

/-! ## Flaws

When a template was read, it is checked: no parameter of a snippet and no block comes twice, and `super` is asked for
inside of blocks only. The check goes through the tree as `Node.WellFormed` does, so it follows case by case that it
has nothing to say of a template that can be written. -/

/-- No name is found if each is there once and none was seen before. -/
theorem firstRepeated_eq_none {seen names : List String} :
    firstRepeated seen names = none ↔ names.Nodup ∧ ∀ name ∈ names, name ∉ seen := by
  induction names generalizing seen with
  | nil => simp [firstRepeated]
  | cons name names ih =>
    rw [firstRepeated, List.nodup_cons, List.forall_mem_cons]
    split
    · next hname => simp [hname]
    · next hname =>
      simp only [ih, List.mem_cons, not_or, hname, not_false_eq_true, true_and]
      grind

/-- The name that is found was seen before, or is among the names before it, and is the first one of this kind. -/
theorem firstRepeated_eq_some {seen names : List String} {name : String} :
    firstRepeated seen names = some name ↔
      ∃ before after, names = before ++ name :: after ∧ (name ∈ seen ∨ name ∈ before) ∧
        firstRepeated seen before = none := by
  induction names generalizing seen with
  | nil => simp [firstRepeated]
  | cons x names ih =>
    rw [firstRepeated]
    split
    · next hx =>
      constructor
      · rintro ⟨⟩
        exact ⟨[], names, rfl, .inl hx, rfl⟩
      · rintro ⟨before, after, hnames, hname, hbefore⟩
        -- nothing can come before what was seen already
        cases before with
        | nil => rw [(List.cons.inj hnames).1]
        | cons y before =>
          obtain ⟨rfl, -⟩ := List.cons.inj hnames
          rw [firstRepeated, if_pos hx] at hbefore
          cases hbefore
    · next hx =>
      rw [ih]
      constructor
      · rintro ⟨before, after, rfl, hname, hbefore⟩
        refine ⟨x :: before, after, rfl, ?_, by rwa [firstRepeated, if_neg hx]⟩
        simpa [or_left_comm, or_assoc] using hname
      · rintro ⟨before, after, hnames, hname, hbefore⟩
        cases before with
        | nil =>
          obtain ⟨rfl, -⟩ := List.cons.inj hnames
          simp [hx] at hname
        | cons y before =>
          obtain ⟨rfl, htail⟩ := List.cons.inj hnames
          rw [firstRepeated, if_neg hx] at hbefore
          exact ⟨before, after, htail, by simpa [or_left_comm, or_assoc] using hname, hbefore⟩

mutual

/-- Nothing is wrong with a node that can be written. By induction on the tree together with `flawIn_eq_none`: each
part that is checked is a part of `Node.WellFormed`. -/
theorem Node.flaw?_eq_none : ∀ (n : Node) {inBlock : Bool}, n.WellFormed inBlock → n.flaw? inBlock = none
  | .comment, _, _ => rfl
  | .text _, _, _ => rfl
  | .output _, _, _ => rfl
  | .loop _ _ body, _, h => flawIn_eq_none body h.2.2
  | .cond _ body none, _, h => flawIn_eq_none body h.2
  | .cond _ body (some otherwise), inBlock, h => by
    rw [Node.flaw?, flawIn_eq_none body h.2.1, flawIn_eq_none otherwise h.2.2]
    rfl
  | .block _ body, _, h => flawIn_eq_none body h.2
  | .inherited, inBlock, h => if_pos h
  | .snippet path args, _, h => by
    rw [Node.flaw?, firstRepeated_eq_none.mpr ⟨h.2.2, fun _ _ => List.not_mem_nil⟩]
    rfl

/-- Nothing is wrong with nodes that can be written. That one may precede the others plays no role here. -/
theorem flawIn_eq_none : ∀ (nodes : List Node) {inBlock : Bool}, WellFormedNodes inBlock nodes →
    flawIn inBlock nodes = none
  | [], _, _ => rfl
  | n :: nodes, inBlock, h => by
    rw [flawIn, Node.flaw?_eq_none n h.1, flawIn_eq_none nodes h.2.2]
    rfl

end

/-- Nothing is wrong with a template that can be written. -/
theorem Template.WellFormed.flaw?_eq_none {t : Template} (h : t.WellFormed) : t.flaw? = none := by
  rw [flaw?, firstRepeated_eq_none.mpr ⟨h.blocks, fun _ _ => List.not_mem_nil⟩, flawIn_eq_none t.body h.nodes]
  rfl

end ThemedPages
