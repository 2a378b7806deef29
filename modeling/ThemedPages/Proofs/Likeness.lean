import ThemedPages.Proofs.Transcripts
import ThemedPages.Render

/-!
# Likeness of renders

Two renders of the same nodes often go the same way without being the same: under other roots, with other names in the
errors, from a catalog that remembers more. A `Likeness` says which events and which ends count as alike.

* `Likeness.Like` is likeness of transcripts; it goes through sequencing (`Like.bind`).
* `Expr.eval_like` and `renderAll_like` say that expressions and nodes respect every likeness: at places with the same
  variables they render alike, as long as the ways out of them do.

So whoever compares two renders does it in three steps: say what is alike, show that the layouts that are looked up on
either side are, and show that the ways out of the nodes are, which is an induction on how deep the render goes. What
happens within the nodes is settled here for all of them, one lemma for each kind of node that has something to compare.
-/

namespace ThemedPages

/-! ## Nodes one after the other

Nodes are in trees and in lists, and proofs about what is rendered go through lists: what is in a node comes as a list
and what comes after it is one. -/

/-- Induction on lists of nodes: each case has what the first node encloses, and the nodes after it. -/
@[elab_as_elim]
theorem Node.listInduction {P : List Node → Prop}
    (nil : P [])
    (comment : ∀ rest, P rest → P (.comment :: rest))
    (text : ∀ s rest, P rest → P (.text s :: rest))
    (output : ∀ e rest, P rest → P (.output e :: rest))
    (loop : ∀ name list body rest, P body → P rest → P (.loop name list body :: rest))
    (cond : ∀ test body rest, P body → P rest → P (.cond test body none :: rest))
    (condElse : ∀ test body otherwise rest, P body → P otherwise → P rest →
      P (.cond test body (some otherwise) :: rest))
    (block : ∀ name body rest, P body → P rest → P (.block name body :: rest))
    (inherited : ∀ rest, P rest → P (.inherited :: rest))
    (snippet : ∀ path args rest, P rest → P (.snippet path args :: rest)) :
    ∀ nodes, P nodes :=
  @Node.rec_1 (fun node => ∀ rest, P rest → P (node :: rest)) P
    (fun otherwise => ∀ nodes, otherwise = some nodes → P nodes)
    comment text output
    (fun name list body hbody rest => loop name list body rest hbody)
    -- whether there are nodes for the other case is only known here
    (fun test body otherwise hbody hother rest =>
      match otherwise, hother with
      | none, _ => cond test body rest hbody
      | some nodes, hother => condElse test body nodes rest hbody (hother nodes rfl))
    (fun name body hbody rest => block name body rest hbody)
    inherited snippet nil
    (fun _ rest hnode hrest => hnode rest hrest)
    (fun _ h => by cases h)
    (fun _ hnodes _ h => by cases h; exact hnodes)

/-! ## What rendering is made of

These equations take the render of some nodes apart into transcripts. A loop is a sequence of renders of its body, one
for each item, and is a definition of its own here, so that an induction on the items can speak of those still to
come. -/

/-- Renders the body of a loop for some items. -/
def renderEach (request : Request) (exits : Exits) (name : String) (body : List Node) (place : Place)
    (items : List Value) : Run Unit :=
  forEach items fun item => renderAll request exits body { place with scope := place.scope.bind name item }

section

variable {c : Catalog} {request : Request}

/-- Nodes are rendered one after the other. -/
theorem renderAll_cons (exits : Exits) (node : Node) (rest : List Node) (place : Place) :
    (renderAll request exits (node :: rest) place).transcript c =
      (node.render request exits place).transcript c >>= fun _ => (renderAll request exits rest place).transcript c :=
  rfl

theorem renderAll_append (exits : Exits) (nodes nodes' : List Node) (place : Place) :
    (renderAll request exits (nodes ++ nodes') place).transcript c =
      (renderAll request exits nodes place).transcript c >>= fun _ =>
        (renderAll request exits nodes' place).transcript c := by
  induction nodes with
  | nil => rfl
  | cons node rest ih => rw [List.cons_append, renderAll_cons, renderAll_cons, ih, bind_assoc]

theorem renderAll_singleton (exits : Exits) (node : Node) (place : Place) :
    (renderAll request exits [node] place).transcript c = (node.render request exits place).transcript c :=
  bind_pure (m := Transcript) _

theorem renderEach_cons (exits : Exits) (name : String) (body : List Node) (place : Place) (item : Value)
    (rest : List Value) :
    (renderEach request exits name body place (item :: rest)).transcript c =
      (renderAll request exits body { place with scope := place.scope.bind name item }).transcript c >>= fun _ =>
        (renderEach request exits name body place rest).transcript c :=
  rfl

/-- A loop over some items and then over others is one loop. -/
theorem renderEach_append (exits : Exits) (name : String) (body : List Node) (place : Place)
    (before after : List Value) :
    (renderEach request exits name body place (before ++ after)).transcript c =
      (renderEach request exits name body place before).transcript c >>= fun _ =>
        (renderEach request exits name body place after).transcript c := by
  induction before with
  | nil => rfl
  | cons item rest ih => rw [List.cons_append, renderEach_cons, renderEach_cons, ih, bind_assoc]

/-- A loop evaluates its list, looks whether it is one, and renders its body for each item. -/
theorem render_loop (exits : Exits) (name : String) (list : Expr) (body : List Node) (place : Place) :
    ((Node.loop name list body).render request exits place).transcript c =
      ((list.eval request place.scope place.origin).transcript c >>= fun v =>
        (loopItems place.origin list v).transcript c >>= fun items =>
          (renderEach request exits name body place items).transcript c) :=
  rfl

/-- A condition renders one of two bodies, of which the second may be missing. -/
theorem render_cond (exits : Exits) (test : Expr) (body : List Node) (otherwise : Option (List Node)) (place : Place) :
    ((Node.cond test body otherwise).render request exits place).transcript c =
      ((test.holds request place.scope place.origin).transcript c >>= fun holds =>
        if holds then (renderAll request exits body place).transcript c
        else (otherwise.elim (pure ()) fun nodes => (renderAll request exits nodes place).transcript c)) := by
  cases otherwise with
  | none =>
    refine bind_congr fun holds => ?_
    cases holds <;> rfl
  | some nodes =>
    refine bind_congr fun holds => ?_
    cases holds <;> rfl

end

/-! ## Places with the same variables

Rendering asks for the values of variables and never for how they were bound, so scopes count as the same if each
variable has the same value. -/

namespace Scope

/-- The two scopes give the same values to the same variables. -/
def Same (s s' : Scope) : Prop := ∀ name, s.get? name = s'.get? name

theorem Same.refl (s : Scope) : s.Same s := fun _ => rfl

theorem Same.symm {s s' : Scope} (h : s.Same s') : s'.Same s := fun name => (h name).symm

/-- Inside of a loop its variable is the item, and all others are as they were. -/
theorem get?_bind (s : Scope) (name x : String) (value : Value) :
    (s.bind name value).get? x = if x = name then some value else s.get? x := by
  by_cases h : x = name
  · simp [bind, get?, h]
  · have hne : (x == name) = false := beq_eq_false_iff_ne.mpr h
    simp only [bind, get?, List.lookup_cons, hne, h, if_false]

/-- A loop binds its variable on both sides. -/
theorem Same.bind {s s' : Scope} (h : s.Same s') (name : String) (value : Value) :
    (s.bind name value).Same (s'.bind name value) := by
  intro x
  rw [get?_bind, get?_bind, h x]

/-- The same variables lead to the same ends of paths. -/
theorem Same.follow {s s' : Scope} (h : s.Same s') (path : List String) : s.follow path = s'.follow path := by
  cases path with
  | nil => rfl
  | cons name path => simp only [Scope.follow, h name]

end Scope

/-- The two requests have the same globals and the same helpers. -/
structure Request.Alike (request request' : Request) : Prop where
  globals : request.globals = request'.globals
  helpers : request.helpers = request'.helpers

theorem Request.Alike.refl (request : Request) : request.Alike request := ⟨rfl, rfl⟩

/-! ## Likenesses

A likeness has two halves, one for events and one for ends. What is asked of either is what `Like.bind` needs: nothing
is alike to nothing, events in a row are alike if their parts are, and what a node does by itself is alike. -/

/-- What can go wrong at a place in a template. -/
inductive Fault where
  /-- a path leads nowhere -/
  | undefined (name : String)
  /-- there is a loop over something that is no list -/
  | notIterable (expr : String)
  /-- something that is to be shown is a map -/
  | notDisplayable (expr : String)
  /-- a helper has the wrong number of arguments -/
  | helperArguments (helper : String)
  /-- an inherited definition is asked for where no ancestor gives one -/
  | noParentBlock (block : String)

/-- The fault as an error in a template. -/
def Fault.error (template : String) : Fault → Error
  | undefined name => .undefined template name
  | notIterable expr => .notIterable template expr
  | notDisplayable expr => .notDisplayable template expr
  | helperArguments helper => .helperArguments template helper
  | noParentBlock block => .noParentBlock template block

/-- What counts as alike in what happens. -/
structure EventLikeness where
  /-- the events are alike -/
  events : List Event → List Event → Prop
  nil : events [] []
  append {a a' b b' : List Event} : events a a' → events b b' → events (a ++ b) (a' ++ b')
  called (call : HelperCall) : events [.called call] [.called call]
  wrote (piece : Piece) : events [.wrote piece] [.wrote piece]

/-- What counts as alike in how it ends. -/
structure EndLikeness where
  /-- the ends are alike -/
  stop : Stop → Stop → Prop
  /-- the same fault in the two templates is alike -/
  origin : Origin → Origin → Prop
  isUndefined {s s' : Stop} : stop s s' → s.isUndefined = s'.isUndefined
  fault {o o' : Origin} : origin o o' → ∀ fault : Fault,
    stop (.error (fault.error o.text)) (.error (fault.error o'.text))

/-- What counts as alike in two renders. -/
structure Likeness extends EventLikeness, EndLikeness

namespace Likeness

variable {α β α' β' : Type} (L : Likeness)

/-- The outcomes are alike: values are related, and ends are alike. -/
def Outcome (V : α → β → Prop) : Except Stop α → Except Stop β → Prop
  | .ok a, .ok b => V a b
  | .error s, .error s' => L.stop s s'
  | _, _ => False

/-- The transcripts are alike: their events are, and their outcomes. -/
structure Like (V : α → β → Prop) (t : Transcript α) (u : Transcript β) : Prop where
  events : L.events t.events u.events
  outcome : L.Outcome V t.outcome u.outcome

variable {L} {V : α → β → Prop} {W : α' → β' → Prop}

theorem Like.pure {a : α} {b : β} (h : V a b) : L.Like V (pure a) (pure b) := ⟨L.nil, h⟩

theorem Like.fail {e e' : Error} (h : L.stop (.error e) (.error e')) :
    L.Like V (Transcript.fail e) (Transcript.fail e') :=
  ⟨L.nil, h⟩

/-- An error that a node is to blame for names the template of the node, and the names of templates that correspond
are alike. -/
theorem Like.fault {o o' : Origin} (h : L.origin o o') (fault : Fault) :
    L.Like V (Transcript.fail (fault.error o.text)) (Transcript.fail (fault.error o'.text)) :=
  .fail (L.fault h fault)

/-- A call of a helper is alike on both sides, as the helpers are the same. -/
theorem Like.called (call : HelperCall) :
    L.Like Eq (Transcript.emit (.called call)) (Transcript.emit (.called call)) :=
  ⟨L.called call, rfl⟩

theorem Like.wrote (piece : Piece) : L.Like Eq (Transcript.emit (.wrote piece)) (Transcript.emit (.wrote piece)) :=
  ⟨L.wrote piece, rfl⟩

/-- Likeness goes through sequencing. -/
theorem Like.bind {t : Transcript α} {u : Transcript β} {f : α → Transcript α'} {g : β → Transcript β'}
    (h : L.Like V t u) (hfg : ∀ a b, V a b → L.Like W (f a) (g b)) : L.Like W (t >>= f) (u >>= g) := by
  obtain ⟨hevents, houtcome⟩ := h
  rcases ht : t.outcome with s | a <;> rcases hu : u.outcome with s' | b <;> rw [ht, hu] at houtcome
  · rw [Transcript.bind_of_error ht, Transcript.bind_of_error hu]
    exact ⟨hevents, houtcome⟩
  · exact houtcome.elim
  · exact houtcome.elim
  · rw [Transcript.bind_of_ok ht, Transcript.bind_of_ok hu]
    exact ⟨L.append hevents (hfg a b houtcome).events, (hfg a b houtcome).outcome⟩

/-- Sequencing, where the first parts have the same value. -/
theorem Like.bind_eq {t u : Transcript α} {f : α → Transcript α'} {g : α → Transcript β'}
    (h : L.Like Eq t u) (hfg : ∀ a, L.Like W (f a) (g a)) : L.Like W (t >>= f) (u >>= g) :=
  h.bind fun a _ hab => hab ▸ hfg a

/-- Of the values that are related, it is enough to look at those that come of the transcripts. -/
theorem Like.imp_of_outcome {V' : α → β → Prop} {t : Transcript α} {u : Transcript β} (h : L.Like V t u)
    (hV : ∀ a b, t.outcome = .ok a → u.outcome = .ok b → V a b → V' a b) : L.Like V' t u := by
  obtain ⟨hevents, houtcome⟩ := h
  refine ⟨hevents, ?_⟩
  rcases ht : t.outcome with s | a <;> rcases hu : u.outcome with s' | b <;> rw [ht, hu] at houtcome
  · exact houtcome
  · exact houtcome.elim
  · exact houtcome.elim
  · exact hV a b ht hu houtcome

theorem Like.imp {V' : α → β → Prop} {t : Transcript α} {u : Transcript β} (h : L.Like V t u)
    (hV : ∀ a b, V a b → V' a b) : L.Like V' t u :=
  h.imp_of_outcome fun a b _ _ => hV a b

/-- The values that are related are those that come of the transcripts. -/
theorem Like.attach {t : Transcript α} {u : Transcript β} (h : L.Like V t u) :
    L.Like (fun a b => V a b ∧ t.outcome = .ok a ∧ u.outcome = .ok b) t u :=
  h.imp_of_outcome fun _ _ ht hu hab => ⟨hab, ht, hu⟩

/-- What is done to values that are alike keeps them so. -/
theorem Like.map {t : Transcript α} {u : Transcript β} {f : α → α'} {g : β → β'}
    (h : L.Like V t u) (hfg : ∀ a b, V a b → W (f a) (g b)) : L.Like W (f <$> t) (g <$> u) := by
  rw [map_eq_pure_bind, map_eq_pure_bind]
  exact h.bind fun a b hab => .pure (hfg a b hab)

/-- Whether a path leads nowhere is the same on both sides, and so is the value in place of it. -/
theorem Like.orIfUndefined {t u : Transcript α} (h : L.Like Eq t u) (instead : α) :
    L.Like Eq (t.orIfUndefined instead) (u.orIfUndefined instead) := by
  obtain ⟨hevents, houtcome⟩ := h
  rcases ht : t.outcome with s | a <;> rcases hu : u.outcome with s' | b <;> rw [ht, hu] at houtcome
  · have hs := L.isUndefined houtcome
    rcases hdef : s'.isUndefined
    · rw [Transcript.orIfUndefined_of_not_isUndefined ht (hs.trans hdef),
        Transcript.orIfUndefined_of_not_isUndefined hu hdef]
      exact ⟨hevents, by rw [ht, hu]; exact houtcome⟩
    · rw [Transcript.orIfUndefined_of_isUndefined ht (hs.trans hdef),
        Transcript.orIfUndefined_of_isUndefined hu hdef]
      exact ⟨hevents, rfl⟩
  · exact houtcome.elim
  · exact houtcome.elim
  · rw [Transcript.orIfUndefined_of_ok ht, Transcript.orIfUndefined_of_ok hu]
    exact ⟨hevents, by rw [ht, hu]; exact houtcome⟩

end Likeness

/-- The same happens. -/
def EventLikeness.same : EventLikeness where
  events := Eq
  nil := rfl
  append h h' := by rw [h, h']
  called _ := rfl
  wrote _ := rfl

/-- Whatever happens. -/
def EventLikeness.any : EventLikeness where
  events _ _ := True
  nil := trivial
  append _ _ := trivial
  called _ := trivial
  wrote _ := trivial

/-- It ends in the same way. -/
def EndLikeness.same : EndLikeness where
  stop := Eq
  origin := Eq
  isUndefined h := by rw [h]
  fault h _ := by rw [h]

/-- The likeness of what is the same. -/
def Likeness.exact : Likeness := ⟨.same, .same⟩

/-- Where like ends are the same, like outcomes are. -/
theorem Likeness.Outcome.eq {α : Type} {L : Likeness} (hstop : ∀ {s s'}, L.stop s s' → s = s')
    {o o' : Except Stop α} (h : L.Outcome Eq o o') : o = o' := by
  rcases o with s | a <;> rcases o' with s' | b
  · exact congrArg _ (hstop h)
  · exact h.elim
  · exact h.elim
  · exact congrArg _ h

/-- The likeness of what is equal says that transcripts are equal. -/
theorem Likeness.eq_of_exact {α : Type} {t u : Transcript α} (h : Likeness.exact.Like Eq t u) : t = u :=
  Transcript.ext h.events (h.outcome.eq id)

/-- A transcript is like itself, if its events and ends are. -/
theorem Likeness.Like.refl {α : Type} {L : Likeness} {V : α → α → Prop} (hevents : ∀ es, L.events es es)
    (hstop : ∀ s, L.stop s s) (hV : ∀ a, V a a) (t : Transcript α) : L.Like V t t := by
  refine ⟨hevents _, ?_⟩
  rcases t.outcome with s | a
  · exact hstop s
  · exact hV a

/-! ## Expressions

What is in an expression besides paths are calls, and both sides make the same. That a path leads nowhere is the only
other thing that can happen, at the same variables. -/

section

variable {L : Likeness} {c c' : Catalog} {request request' : Request} {scope scope' : Scope} {o o' : Origin}

/-- A path that leads nowhere is an error on both sides, and only the names of the templates differ. -/
theorem Expr.orUndefined_like (ho : L.origin o o') (e : Expr) (v : Option Value) :
    L.Like Eq ((Expr.orUndefined o e v).transcript c) ((Expr.orUndefined o' e v).transcript c') := by
  cases v with
  | none => exact .fault ho (.undefined e.display)
  | some v => exact .pure rfl

theorem Expr.callHelper_like (hrequest : request.Alike request') (ho : L.origin o o') (helper : Helper)
    (args : List Value) :
    L.Like Eq ((Expr.callHelper request o helper args).transcript c)
      ((Expr.callHelper request' o' helper args).transcript c') := by
  unfold Expr.callHelper
  cases helper.call? args with
  | none => exact .fault ho (.helperArguments helper.name)
  | some call =>
    rw [hrequest.helpers]
    exact (Likeness.Like.called call).bind_eq fun _ => .pure rfl

mutual

/-- Expressions respect every likeness. -/
theorem Expr.eval_like (hrequest : request.Alike request') (hscope : scope.Same scope') (ho : L.origin o o') :
    ∀ e : Expr, L.Like Eq ((e.eval request scope o).transcript c) ((e.eval request' scope' o').transcript c')
  | .var path => by
    rw [Expr.eval, Expr.eval, hscope.follow path]
    exact Expr.orUndefined_like ho _ _
  | .global path => by
    rw [Expr.eval, Expr.eval, Request.follow, Request.follow, hrequest.globals]
    exact Expr.orUndefined_like ho _ _
  | .str s => by
    rw [Expr.eval, Expr.eval]
    exact .pure rfl
  | .int n => by
    rw [Expr.eval, Expr.eval]
    exact .pure rfl
  -- what is recovered is recovered on both sides, since alike errors are undefined together
  | .not e => by
    have ih := (Expr.eval_like hrequest hscope ho e).map (f := Value.isTruthy) (g := Value.isTruthy)
      fun _ _ h => congrArg _ h
    rw [Expr.eval, Expr.eval]
    exact (ih.orIfUndefined false).bind_eq fun _ => .pure rfl
  -- the helpers are one and the same function, so alike arguments give alike results
  | .call helper args => by
    rw [Expr.eval, Expr.eval]
    exact (Expr.evalAll_like hrequest hscope ho args).bind_eq fun values =>
      Expr.callHelper_like hrequest ho helper values

/-- Together with `Expr.eval_like`, by induction on the expressions. -/
theorem Expr.evalAll_like (hrequest : request.Alike request') (hscope : scope.Same scope') (ho : L.origin o o') :
    ∀ es : List Expr, L.Like Eq ((Expr.evalAll request scope o es).transcript c)
      ((Expr.evalAll request' scope' o' es).transcript c')
  | [] => by
    rw [Expr.evalAll, Expr.evalAll]
    exact .pure rfl
  | e :: es => by
    rw [Expr.evalAll, Expr.evalAll]
    exact (Expr.eval_like hrequest hscope ho e).bind_eq fun _ =>
      (Expr.evalAll_like hrequest hscope ho es).bind_eq fun _ => .pure rfl

end

theorem Expr.holds_like (hrequest : request.Alike request') (hscope : scope.Same scope') (ho : L.origin o o')
    (e : Expr) :
    L.Like Eq ((e.holds request scope o).transcript c) ((e.holds request' scope' o').transcript c') :=
  ((Expr.eval_like hrequest hscope ho e).map fun _ _ h => congrArg Value.isTruthy h).orIfUndefined false

/-- The arguments of a snippet have the same values on both sides. -/
theorem Expr.arguments_like (hrequest : request.Alike request') (hscope : scope.Same scope') (ho : L.origin o o')
    (args : List (String × Expr)) :
    L.Like Eq ((Expr.arguments request scope o args).transcript c)
      ((Expr.arguments request' scope' o' args).transcript c') := by
  induction args with
  | nil => exact .pure rfl
  | cons arg rest ih =>
    exact ((Expr.eval_like hrequest hscope ho arg.2).orIfUndefined .null).bind_eq fun _ =>
      ih.bind_eq fun _ => .pure rfl

theorem loopItems_like (ho : L.origin o o') (e : Expr) (v : Value) :
    L.Like Eq ((loopItems o e v).transcript c) ((loopItems o' e v).transcript c') := by
  cases v with
  | list items => exact .pure rfl
  | null => exact .pure rfl
  | _ => exact .fault ho (.notIterable e.display)

theorem writePieces_like (pieces : List Piece) :
    L.Like Eq ((writePieces pieces).transcript c) ((writePieces pieces).transcript c') := by
  induction pieces with
  | nil => exact .pure rfl
  | cons piece rest ih => exact (Likeness.Like.wrote piece).bind_eq fun _ => ih

/-- A loop does alike things for each of the same items. -/
theorem forEach_like {body body' : Value → Run Unit}
    (h : ∀ item, L.Like Eq ((body item).transcript c) ((body' item).transcript c')) (items : List Value) :
    L.Like Eq ((forEach items body).transcript c) ((forEach items body').transcript c') := by
  induction items with
  | nil => exact .pure rfl
  | cons item rest ih => exact (h item).bind_eq fun _ => ih

/-! ## Nodes

What a node renders is made of expressions, of the nodes in it, and of two ways out of it, into a block definition and
into a snippet. The lemmas for the single kinds of nodes take what they enclose as given, so that they serve where the
nodes on the two sides are not the same as well. -/

/-- The two places have the same variables, are in the same block definition, and are written in templates whose
faults are alike. -/
structure Likeness.Places (L : Likeness) (place place' : Place) : Prop where
  scope : place.scope.Same place'.scope
  origin : L.origin place.origin place'.origin
  enclosing : place.enclosing = place'.enclosing

/-- The ways out are alike at alike places. -/
structure Likeness.Exits (L : Likeness) (c c' : Catalog) (exits exits' : ThemedPages.Exits) : Prop where
  block (name : String) (level : Nat) {place place' : Place} : L.Places place place' →
    L.Like Eq ((exits.block name level place).transcript c) ((exits'.block name level place').transcript c')
  snippet (path : String) (context : Context) :
    L.Like Eq ((exits.snippet path context).transcript c) ((exits'.snippet path context).transcript c')

section

variable {exits exits' : Exits} {place place' : Place}

/-- What is shown is shown alike, be it a value or the fault that a map can not be shown. -/
theorem output_like (hrequest : request.Alike request') (hscope : place.scope.Same place'.scope)
    (ho : L.origin place.origin place'.origin) (e : Expr) :
    L.Like Eq (((Node.output e).render request exits place).transcript c)
      (((Node.output e).render request' exits' place').transcript c') := by
  refine Likeness.Like.bind_eq (Expr.eval_like hrequest hscope ho e) fun v => ?_
  -- a map can not be shown, and everything else can
  by_cases hv : v.isMap
  · simp only [hv, if_true]
    exact .fault ho (.notDisplayable e.display)
  · simp only [hv]
    exact writePieces_like v.pieces

/-- Loops over the same list are alike where their bodies are, for each item. -/
theorem loop_like (hrequest : request.Alike request') (hscope : place.scope.Same place'.scope)
    (ho : L.origin place.origin place'.origin) (name : String) (list : Expr) {body body' : List Node}
    (hbody : ∀ item, L.Like Eq
      ((renderAll request exits body { place with scope := place.scope.bind name item }).transcript c)
      ((renderAll request' exits' body' { place' with scope := place'.scope.bind name item }).transcript c')) :
    L.Like Eq (((Node.loop name list body).render request exits place).transcript c)
      (((Node.loop name list body').render request' exits' place').transcript c') := by
  rw [render_loop, render_loop]
  refine (Expr.eval_like hrequest hscope ho list).bind_eq fun v => ?_
  exact (loopItems_like ho list v).bind_eq fun items => forEach_like hbody items

/-- Conditions with the same test are alike where what they choose between is. -/
theorem cond_like (hrequest : request.Alike request') (hscope : place.scope.Same place'.scope)
    (ho : L.origin place.origin place'.origin) (test : Expr) {body body' : List Node}
    {otherwise otherwise' : Option (List Node)}
    (hbody : L.Like Eq ((renderAll request exits body place).transcript c)
      ((renderAll request' exits' body' place').transcript c'))
    (hother : Option.Rel (fun nodes nodes' => L.Like Eq ((renderAll request exits nodes place).transcript c)
      ((renderAll request' exits' nodes' place').transcript c')) otherwise otherwise') :
    L.Like Eq (((Node.cond test body otherwise).render request exits place).transcript c)
      (((Node.cond test body' otherwise').render request' exits' place').transcript c') := by
  rw [render_cond, render_cond]
  refine (Expr.holds_like hrequest hscope ho test).bind_eq fun holds => ?_
  cases holds with
  | true => exact hbody
  | false =>
    cases hother with
    | none => exact .pure rfl
    | some hother => exact hother

/-- Snippets with the same arguments are shown alike where the ways out to them are alike. -/
theorem snippet_like (hrequest : request.Alike request') (hscope : place.scope.Same place'.scope)
    (ho : L.origin place.origin place'.origin) (path : String) (args : List (String × Expr))
    (hsnippet : ∀ context,
      L.Like Eq ((exits.snippet path context).transcript c) ((exits'.snippet path context).transcript c')) :
    L.Like Eq (((Node.snippet path args).render request exits place).transcript c)
      (((Node.snippet path args).render request' exits' place').transcript c') :=
  Likeness.Like.bind_eq (Expr.arguments_like hrequest hscope ho args) fun _ => hsnippet _

end

/-- Nodes respect every likeness that the ways out of them respect. -/
theorem renderAll_like {exits exits' : Exits} (hrequest : request.Alike request')
    (hexits : L.Exits c c' exits exits') (nodes : List Node) :
    ∀ {place place' : Place}, L.Places place place' →
      L.Like Eq ((renderAll request exits nodes place).transcript c)
        ((renderAll request' exits' nodes place').transcript c') := by
  induction nodes using Node.listInduction with
  | nil => exact fun _ => .pure rfl
  | comment rest ih =>
    intro place place' h
    exact (Likeness.Like.pure rfl).bind_eq fun _ => ih h
  | text s rest ih =>
    intro place place' h
    exact (Likeness.Like.wrote _).bind_eq fun _ => ih h
  | output e rest ih =>
    intro place place' h
    exact (output_like hrequest h.scope h.origin e).bind_eq fun _ => ih h
  | loop name list body rest hbody ih =>
    intro place place' h
    refine (loop_like hrequest h.scope h.origin name list fun item => ?_).bind_eq fun _ => ih h
    exact hbody ⟨h.scope.bind name item, h.origin, h.enclosing⟩
  -- the two kinds of condition are one node, with and without an else
  | cond test body rest hbody ih =>
    intro place place' h
    exact (cond_like hrequest h.scope h.origin test (hbody h) .none).bind_eq fun _ => ih h
  | condElse test body otherwise rest hbody hother ih =>
    intro place place' h
    exact (cond_like hrequest h.scope h.origin test (hbody h) (.some (hother h))).bind_eq fun _ => ih h
  | block name body rest _ ih =>
    intro place place' h
    exact (hexits.block name 0 h).bind_eq fun _ => ih h
  -- alike places are in the same block, or both in none
  | inherited rest ih =>
    intro place place' h
    refine Likeness.Like.bind_eq ?_ fun _ => ih h
    rw [Node.render, Node.render, ← h.enclosing]
    cases place.enclosing with
    | none => exact .pure rfl
    | some enclosing => exact hexits.block _ _ h
  | snippet path args rest ih =>
    intro place place' h
    exact (snippet_like hrequest h.scope h.origin path args (hexits.snippet path)).bind_eq fun _ => ih h

end

end ThemedPages
