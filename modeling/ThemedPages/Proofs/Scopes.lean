import ThemedPages.Proofs.PassingOn

/-!
# Variables of loops

What is bound in loops is as good as inserted into the context: no node, no block definition that is come to from there,
and no expression can tell the two apart.

* `Scope.inLoops` are the variables inside loops, `Context.insertAll` are those of a context with more of them, and
  `Scope.same_inLoops` says that they have the same values.
* `Layout.renderAll_same`: nodes are rendered alike where variables have the same values.
* `Layout.deliver_inLoops` says from this what loops, and blocks in loops, come to.

The reason is that rendering asks for the values of variables and never for how they were bound. The likeness is the
one of equality, so nothing is lost on the way from variables to nodes, and from nodes to what is delivered.
-/

namespace ThemedPages

/-! ## Contexts with more variables

What is inserted under a name takes the place of what was there, so the last of several is the one that counts. It is
the same with loops, where the innermost one counts. -/

theorem ByName.get?_cons {α : Type} (n x : String) (t : α) (rest : ByName α) :
    ByName.get? x ((n, t) :: rest) = if x = n then some t else rest.get? x := by
  by_cases hx : x = n
  · simp [get?, hx]
  · rw [if_neg hx, get?, List.lookup_cons, beq_eq_false_iff_ne.mpr hx]
    rfl

/-- The thing that was put under a name is there, and under the other names is what was there before. -/
theorem ByName.get?_insert {α : Type} (things : ByName α) (name x : String) (thing : α) :
    (things.insert name thing).get? x = if x = name then some thing else things.get? x := by
  induction things with
  | nil => exact get?_cons name x thing []
  | cons first rest ih =>
    obtain ⟨n, t⟩ := first
    rw [insert]
    by_cases hlt : name < n
    · rw [if_pos hlt, get?_cons]
    · rw [if_neg hlt]
      by_cases hname : name = n
      · rw [if_pos hname, get?_cons, get?_cons, hname]
        by_cases hx : x = n <;> simp [hx]
      · rw [if_neg hname, get?_cons, get?_cons, ih]
        -- what is under another name is not what was put there
        by_cases hx : x = name
        · rw [if_pos hx, if_pos hx, if_neg (hx ▸ hname)]
        · rw [if_neg hx, if_neg hx]

/-- Only the variable that was inserted has another value. -/
theorem Context.get?_insert (c : Context) (name x : String) (value : Value) :
    (c.insert name value).get? x = if x = name then some value else c.get? x :=
  c.vars.get?_insert name x value

/-- The context with values for some variables, one after the other. -/
def Context.insertAll (bindings : List (String × Value)) (c : Context) : Context :=
  bindings.foldl (fun c binding => c.insert binding.1 binding.2) c

/-- What is inserted last is inserted into all that was there before. -/
theorem Context.insertAll_concat (bindings : List (String × Value)) (name : String) (value : Value) (c : Context) :
    c.insertAll (bindings ++ [(name, value)]) = (c.insertAll bindings).insert name value := by
  rw [insertAll, List.foldl_append]
  rfl

/-! ## Scopes inside loops

A loop in a scope and an insertion into a context, one by one and then for any number of them. -/

namespace Scope

/-- The scope inside some loops, the outermost first. -/
def inLoops (bindings : List (String × Value)) (scope : Scope) : Scope :=
  bindings.foldl (fun scope binding => scope.bind binding.1 binding.2) scope

/-- To bind a variable is to insert it. -/
theorem same_bind {scope : Scope} {context : Context} (h : scope.Same (.ofContext context)) (name : String)
    (value : Value) : (scope.bind name value).Same (.ofContext (context.insert name value)) := by
  intro x
  rw [get?_bind, h x]
  exact (context.get?_insert name x value).symm

/-- So it is with any number of variables. -/
theorem same_bindings {scope : Scope} {context : Context} (h : scope.Same (.ofContext context))
    (bindings : List (String × Value)) :
    (scope.inLoops bindings).Same (.ofContext (context.insertAll bindings)) := by
  induction bindings generalizing scope context with
  | nil => exact h
  | cons binding rest ih => exact ih (same_bind h binding.1 binding.2)

/-- The variables inside loops are those of the context with the variables of the loops inserted, from the outermost
loop to the innermost. -/
theorem same_inLoops (context : Context) (bindings : List (String × Value)) :
    ((ofContext context).inLoops bindings).Same (.ofContext (context.insertAll bindings)) :=
  same_bindings (.refl _) bindings

end Scope

/-! ## Nodes inside loops

A block in a loop is entered with the variables of the loop, so these reach into definitions as well. -/

/-- Runs on which the same happens are delivered in the same way. -/
theorem Run.deliver_congr {c : Catalog} {r r' : Run Unit} (h : r.transcript c = r'.transcript c) {σ : Type}
    (sink : Sink σ) (st : σ) : r.deliver c sink st = r'.deliver c sink st := by
  rw [deliver_eq, deliver_eq, h]

section

variable {request : Request} {snippet : String → Context → Run Unit} {c : Catalog}

/-- Where variables have the same values, the same happens. -/
theorem Layout.renderAll_same (l : Layout) (depth : Nat) {scope scope' : Scope} (h : scope.Same scope')
    (nodes : List Node) (origin : Origin) (enclosing : Option Enclosing) :
    (renderAll request (l.table.exits request snippet depth) nodes ⟨scope, origin, enclosing⟩).transcript c =
      (renderAll request (l.table.exits request snippet depth) nodes ⟨scope', origin, enclosing⟩).transcript c := by
  have hsnippet : ∀ path params, Likeness.exact.Like Eq ((snippet path params).transcript c)
      ((snippet path params).transcript c) := fun _ _ => .refl (fun _ => rfl) (fun _ => rfl) (fun _ => rfl) _
  have hlayouts : Likeness.exact.Layouts l l := .refl (fun _ => rfl) l
  refine Likeness.eq_of_exact (renderAll_like (.refl request) ⟨fun name level _ _ hplace => ?_, hsnippet⟩ nodes ?_)
  · exact BlockTable.render_like (.refl request) hsnippet rfl hlayouts depth name level hplace
  · exact ⟨h, rfl, rfl⟩

/-- A loop renders its body for each item, with the item in the context. -/
theorem Layout.renderEach_ofContext (l : Layout) (depth : Nat) (name : String) (body : List Node) (context : Context)
    (origin : Origin) (enclosing : Option Enclosing) (items : List Value) :
    (renderEach request (l.table.exits request snippet depth) name body ⟨.ofContext context, origin, enclosing⟩
        items).transcript c =
      (forEach items fun item => renderAll request (l.table.exits request snippet depth) body
        ⟨.ofContext (context.insert name item), origin, enclosing⟩).transcript c := by
  induction items with
  | nil => rfl
  | cons item rest ih =>
    have hscope : ((Scope.ofContext context).bind name item).Same (.ofContext (context.insert name item)) :=
      Scope.same_bind (.refl _) name item
    rw [renderEach_cons, ih]
    exact congrArg (· >>= _) (l.renderAll_same depth hscope body origin enclosing)

/-- What comes of a definition of a block with the variables of a context, which is all that the definition sees of
where it is come to; block definitions in it are nested at most so deep. -/
def Layout.renderDefinition (l : Layout) (request : Request) (snippet : String → Context → Run Unit) (depth : Nat)
    (name : String) (level : Nat) (context : Context) (caller : Origin) : Run Unit :=
  match l.table.definition? name level with
  | none => Run.fail (.noParentBlock caller.text name)
  | some definition =>
    renderAll request (l.table.exits request snippet depth) definition.body
      ⟨.ofContext context, definition.origin, some ⟨name, level⟩⟩

end

/-- What is rendered inside loops is what is rendered in the context that the variables of the loops are inserted into,
from the outermost loop to the innermost: the same is written, the same helpers are called, and it ends in the same way.

So a loop renders its body once for each item, in order, in the context with the item as its variable; what comes after
the loop is rendered in the context without. And a definition of a block, whether the block itself or an inherited
definition is asked for, is rendered in the context with the variables of all loops around that place. -/
theorem Layout.deliver_inLoops (l : Layout) (request : Request) (snippet : String → Context → Run Unit) (depth : Nat)
    (context : Context) (bindings : List (String × Value)) (origin : Origin) (enclosing : Option Enclosing)
    (c : Catalog) {σ : Type} (sink : Sink σ) (st : σ) :
    let inLoops : Place := ⟨(Scope.ofContext context).inLoops bindings, origin, enclosing⟩
    let inserted (bindings : List (String × Value)) : Place :=
      ⟨.ofContext (context.insertAll bindings), origin, enclosing⟩
    let renderIn (depth : Nat) (place : Place) (nodes : List Node) : Run Unit :=
      renderAll request (l.table.exits request snippet depth) nodes place
    let definition (name : String) (level : Nat) : Run Unit :=
      l.renderDefinition request snippet depth name level (context.insertAll bindings) origin
    (∀ nodes, (renderIn depth inLoops nodes).deliver c sink st =
      (renderIn depth (inserted bindings) nodes).deliver c sink st) ∧
    (∀ name list body rest, (renderIn depth inLoops (.loop name list body :: rest)).deliver c sink st =
      Run.deliver (do
        let v ← list.eval request (.ofContext (context.insertAll bindings)) origin
        let items ← loopItems origin list v
        forEach items fun item => renderIn depth (inserted (bindings ++ [(name, item)])) body
        renderIn depth (inserted bindings) rest) c sink st) ∧
    (∀ name body rest, (renderIn (depth + 1) inLoops (.block name body :: rest)).deliver c sink st =
      Run.deliver (do
        definition name 0
        renderIn (depth + 1) (inserted bindings) rest) c sink st) ∧
    (∀ rest, (renderIn (depth + 1) inLoops (.inherited :: rest)).deliver c sink st =
      Run.deliver (do
        match enclosing with
        | some e => definition e.block (e.level + 1)
        | none => pure ()
        renderIn (depth + 1) (inserted bindings) rest) c sink st) := by
  intro inLoops inserted renderIn definition
  -- all four parts begin by moving the bindings from the scope into the context
  have hsame : ∀ depth nodes,
      (renderIn depth inLoops nodes).transcript c = (renderIn depth (inserted bindings) nodes).transcript c :=
    fun depth nodes => l.renderAll_same depth (Scope.same_inLoops context bindings) nodes origin enclosing
  refine ⟨fun nodes => ?_, fun name list body rest => ?_, fun name body rest => ?_, fun rest => ?_⟩ <;>
    refine Run.deliver_congr ((hsame _ _).trans ?_) sink st
  · rfl
  -- in a round the item is one more binding, so it moves too
  · have hitems : ∀ items,
        (renderEach request (l.table.exits request snippet depth) name body (inserted bindings) items).transcript c =
          (forEach items fun item => renderIn depth (inserted (bindings ++ [(name, item)])) body).transcript c := by
      intro items
      simp only [inserted, Context.insertAll_concat]
      exact l.renderEach_ofContext depth name body (context.insertAll bindings) origin enclosing items
    change (renderAll request _ (.loop name list body :: rest) (inserted bindings)).transcript c = _
    rw [renderAll_cons, render_loop, bind_assoc]
    refine bind_congr fun v => ?_
    rw [bind_assoc]
    exact bind_congr fun items => congrArg (· >>= _) (hitems items)
  · rfl
  · cases enclosing <;> rfl

end ThemedPages
