import ThemedPages.Proofs.Transcripts
import ThemedPages.Render

/-!
# What comes of expressions

While an expression is evaluated, helpers are called and nothing else happens. It has no value only where a path leads
nowhere, or where a helper has the wrong number of arguments; and the latter is not possible for expressions that are
read from a source.

* `Expr.Proper` is what can be told of an expression without evaluating it, and `Expr.Lacks` why it has no value.
* `Expr.eval_quiet` says this of expressions, and `Expr.arguments_quiet` of the arguments of a snippet, which never lack
  a value if they are proper (`Expr.arguments_outcome`).
* `Expr.Spoils` says how a node can go wrong because of an expression.
-/

namespace ThemedPages

/-! ## Proper expressions

Whether an expression is proper is seen from the expression alone. For one that is not, the error is that a helper has
the wrong number of arguments; for one that is, no error is left but that a path leads nowhere. -/

mutual

/-- Every variable in the expression has a name, and every helper as many arguments as it takes. -/
def Expr.Proper : Expr → Prop
  | .var path => path ≠ []
  | .not e => e.Proper
  | .call helper args => args.length = helper.arity ∧ Expr.ProperAll args
  | .global _ | .str _ | .int _ => True

/-- So it is in each of some expressions. -/
def Expr.ProperAll : List Expr → Prop
  | [] => True
  | e :: es => e.Proper ∧ Expr.ProperAll es

end

theorem Expr.properAll_iff {es : List Expr} : ProperAll es ↔ ∀ e ∈ es, e.Proper := by
  induction es with
  | nil => simp [ProperAll]
  | cons e es ih => simp [ProperAll, ih]

/-- Why an expression has no value, in a template. -/
inductive Expr.Lacks (origin : Origin) (proper : Prop) : Stop → Prop where
  /-- a path in it leads nowhere -/
  | undefined (name : String) : Lacks origin proper (.error (.undefined origin.text name))
  /-- a helper in it has the wrong number of arguments -/
  | arguments (helper : String) (h : ¬proper) : Lacks origin proper (.error (.helperArguments origin.text helper))

theorem Expr.Lacks.imp {origin : Origin} {p q : Prop} (hpq : p → q) {stop : Stop} (h : Lacks origin q stop) :
    Lacks origin p stop := by
  cases h with
  | undefined name => exact .undefined name
  | arguments helper hq => exact .arguments helper fun hp => hq (hpq hp)

/-- Proper expressions only lack a value where a path leads nowhere. -/
theorem Expr.Lacks.isUndefined {origin : Origin} {p : Prop} (hp : p) {stop : Stop} (h : Lacks origin p stop) :
    stop.isUndefined = true := by
  cases h with
  | undefined name => rfl
  | arguments helper hnot => exact absurd hp hnot

/-! ## Quiet transcripts

That a transcript is quiet is carried through sequencing, so an expression is quiet as its parts are. The reasons are
a parameter: they are those of the expression around all the parts, so the parts are weakened to it (`Quiet.imp`). -/

/-- The event is a call of a helper. -/
def Event.isCall : Event → Bool
  | .called _ => true
  | _ => false

/-- Nothing but calls of helpers happens, and if there is no value in the end, it is for one of some reasons. -/
structure Transcript.Quiet {α : Type} (reason : Stop → Prop) (t : Transcript α) : Prop where
  /-- what happens -/
  events : ∀ e ∈ t.events, e.isCall = true
  /-- why there is no value -/
  stop {stop : Stop} (h : t.outcome = .error stop) : reason stop

namespace Transcript.Quiet

variable {α β : Type} {reason reason' : Stop → Prop} {t : Transcript α}

theorem pure (a : α) : (Pure.pure a : Transcript α).Quiet reason := ⟨fun _ he => absurd he List.not_mem_nil, nofun⟩

theorem called (call : HelperCall) : (Transcript.emit (.called call)).Quiet reason := by
  refine ⟨fun e he => ?_, nofun⟩
  obtain rfl := List.mem_singleton.mp he
  rfl

theorem fail {e : Error} (h : reason (.error e)) : (Transcript.fail e : Transcript α).Quiet reason := by
  refine ⟨fun _ he => absurd he List.not_mem_nil, ?_⟩
  rintro _ ⟨⟩
  exact h

/-- More reasons can be given. -/
theorem imp (h : t.Quiet reason) (himp : ∀ stop, reason stop → reason' stop) : t.Quiet reason' :=
  ⟨h.events, fun hstop => himp _ (h.stop hstop)⟩

/-- **Sequence:** what happens in either part is a call, and either part may be the one without a value. -/
theorem bind (h : t.Quiet reason) {f : α → Transcript β} (hf : ∀ a, t.outcome = .ok a → (f a).Quiet reason) :
    (t >>= f).Quiet reason := by
  refine ⟨fun e he => ?_, fun {stop} hstop => ?_⟩
  · rcases mem_events_bind he with he | ⟨a, ht, he⟩
    · exact h.events e he
    · exact (hf a ht).events e he
  · rcases outcome_bind_eq_error.mp hstop with hstop | ⟨a, ht, hstop⟩
    · exact h.stop hstop
    · exact (hf a ht).stop hstop

theorem map (h : t.Quiet reason) (f : α → β) : (f <$> t).Quiet reason := by
  rw [map_eq_pure_bind]
  exact h.bind fun a _ => .pure (f a)

/-- With a value in place of it, the error that a path leads nowhere is no reason any more. -/
theorem orIfUndefined (h : t.Quiet reason) (instead : α) :
    (t.orIfUndefined instead).Quiet fun stop => reason stop ∧ stop.isUndefined = false := by
  refine ⟨by rw [events_orIfUndefined]; exact h.events, fun {stop} hstop => ?_⟩
  rcases ht : t.outcome with stop' | a
  · rcases hdef : stop'.isUndefined
    · rw [orIfUndefined_of_not_isUndefined ht hdef, ht] at hstop
      obtain rfl := Except.error.inj hstop
      exact ⟨h.stop ht, hdef⟩
    · rw [orIfUndefined_of_isUndefined ht hdef] at hstop
      cases hstop
  · rw [orIfUndefined_of_ok ht, ht] at hstop
    cases hstop

end Transcript.Quiet

/-- Nothing is written meanwhile. -/
theorem Transcript.Quiet.pieces {α : Type} {reason : Stop → Prop} {t : Transcript α} (h : t.Quiet reason) :
    t.pieces = [] := by
  refine List.filterMap_eq_nil_iff.mpr fun e he => ?_
  have hcall := h.events e he
  cases e <;> first | rfl | exact absurd hcall Bool.noConfusion

/-! ## Expressions

A path calls no helper. A call evaluates its arguments, and makes one call with their values if it is proper: the
number of arguments is checked on the values, of which there are as many as arguments. -/

/-- A helper can be called with as many values as it takes. -/
theorem Helper.call?_isSome {helper : Helper} {args : List Value} (h : args.length = helper.arity) :
    (helper.call? args).isSome := by
  match args, h with
  | [], h => cases helper <;> cases h
  | [a], h => cases helper <;> first | rfl | cases h
  | [a, b], h => cases helper <;> first | rfl | cases h
  | a :: b :: c :: rest, h =>
    have harity : helper.arity ≤ 2 := by cases helper <;> decide
    rw [List.length_cons, List.length_cons, List.length_cons] at h
    omega

namespace Expr

variable {c : Catalog} {request : Request} {scope : Scope} {origin : Origin}

/-- There are as many values as expressions, if there are any. -/
theorem length_of_evalAll {es : List Expr} {values : List Value}
    (h : ((evalAll request scope origin es).transcript c).outcome = .ok values) : values.length = es.length := by
  induction es generalizing values with
  | nil =>
    rw [evalAll] at h
    obtain rfl := Except.ok.inj h
    rfl
  | cons e es ih =>
    rw [evalAll] at h
    obtain ⟨v, -, h⟩ := Transcript.outcome_bind_eq_ok.mp h
    obtain ⟨vs, hvs, h⟩ := Transcript.outcome_bind_eq_ok.mp h
    obtain rfl := Except.ok.inj h
    rw [List.length_cons, List.length_cons, ih hvs]

theorem orUndefined_quiet (e : Expr) (found : Option Value) (proper : Prop) :
    ((orUndefined origin e found).transcript c).Quiet (Lacks origin proper) := by
  cases found with
  | none => exact .fail (.undefined e.display)
  | some v => exact .pure v

/-- What a helper can go wrong with is the number of its arguments. -/
theorem callHelper_quiet {helper : Helper} {args : List Value} {proper : Prop}
    (h : proper → args.length = helper.arity) :
    ((callHelper request origin helper args).transcript c).Quiet (Lacks origin proper) := by
  unfold callHelper
  rcases hcall : helper.call? args with _ | made
  · refine .fail (.arguments helper.name fun hproper => ?_)
    have hsome := Helper.call?_isSome (h hproper)
    rw [hcall] at hsome
    cases hsome
  · exact (Transcript.Quiet.called made).bind fun _ _ => .pure _

mutual

/-- While an expression is evaluated only helpers are called, and it has a value unless a path in it leads nowhere or a
helper in it has the wrong number of arguments. -/
theorem eval_quiet : ∀ e : Expr, ((e.eval request scope origin).transcript c).Quiet (Lacks origin e.Proper)
  | .var path => by
    rw [eval]
    exact orUndefined_quiet _ _ _
  | .global path => by
    rw [eval]
    exact orUndefined_quiet _ _ _
  | .str s => by
    rw [eval]
    exact .pure _
  | .int n => by
    rw [eval]
    exact .pure _
  -- what is undefined inside of a negation is recovered, and other errors stay
  | .not e => by
    rw [eval, Proper]
    refine .bind ?_ fun holds _ => .pure _
    exact (((eval_quiet e).map Value.isTruthy).orIfUndefined false).imp fun _ h => h.1
  -- there are as many values as arguments, and the helper counts the values
  | .call helper args => by
    rw [eval, Proper]
    refine .bind ((evalAll_quiet args).imp fun _ h => h.imp And.right) fun values hvalues => callHelper_quiet fun h => ?_
    rw [length_of_evalAll hvalues]
    exact h.1

/-- Together with `eval_quiet`: by induction on the expressions, where what is proper of all is so of each. -/
theorem evalAll_quiet : ∀ es : List Expr,
    ((evalAll request scope origin es).transcript c).Quiet (Lacks origin (ProperAll es))
  | [] => by
    rw [evalAll]
    exact .pure _
  | e :: es => by
    rw [evalAll, ProperAll]
    refine .bind ((eval_quiet e).imp fun _ h => h.imp And.left) fun v _ => ?_
    exact .bind ((evalAll_quiet es).imp fun _ h => h.imp And.right) fun vs _ => .pure _

end

/-- A condition does not lack a value where a path leads nowhere. -/
theorem holds_quiet (e : Expr) :
    ((e.holds request scope origin).transcript c).Quiet fun stop =>
      Lacks origin e.Proper stop ∧ stop.isUndefined = false :=
  ((eval_quiet e).map Value.isTruthy).orIfUndefined false

/-- Nor does an argument, which is nothing then. -/
theorem argument_quiet (e : Expr) :
    ((e.argument request scope origin).transcript c).Quiet fun stop =>
      Lacks origin e.Proper stop ∧ stop.isUndefined = false :=
  (eval_quiet e).orIfUndefined .null

theorem arguments_quiet (args : List (String × Expr)) :
    ((arguments request scope origin args).transcript c).Quiet fun stop =>
      ∃ arg ∈ args, Lacks origin arg.2.Proper stop ∧ stop.isUndefined = false := by
  induction args with
  | nil => exact .pure _
  | cons arg rest ih =>
    refine .bind ((argument_quiet arg.2).imp fun _ h => ⟨arg, List.mem_cons_self, h⟩) fun v _ => ?_
    exact .bind (ih.imp fun _ ⟨arg', hmem, h⟩ => ⟨arg', List.mem_cons_of_mem _ hmem, h⟩) fun vs _ => .pure _

/-! ## Arguments of snippets

The values of arguments are given as a function, `valueOrNull`, since with proper arguments there is nothing else that
could come of them. -/

variable (c request scope origin) in
/-- The value of an argument: that of the expression, or nothing if it has none. -/
def valueOrNull (e : Expr) : Value :=
  match ((e.eval request scope origin).transcript c).outcome with
  | .ok v => v
  | .error _ => .null

/-- **An argument that is proper has a value,** be it nothing. -/
theorem argument_outcome {e : Expr} (h : e.Proper) :
    ((e.argument request scope origin).transcript c).outcome = .ok (e.valueOrNull c request scope origin) := by
  rw [argument, valueOrNull, Run.transcript_orIfUndefined]
  rcases he : ((e.eval request scope origin).transcript c).outcome with stop | v
  · rw [Transcript.orIfUndefined_of_isUndefined he (((eval_quiet e).stop he).isUndefined h)]
  · rw [Transcript.orIfUndefined_of_ok he]
    exact he

/-- The arguments of a snippet have their values, whatever the variables are. -/
theorem arguments_outcome {args : List (String × Expr)} (h : ∀ arg ∈ args, arg.2.Proper) :
    ((arguments request scope origin args).transcript c).outcome =
      .ok (args.map fun arg => (arg.1, arg.2.valueOrNull c request scope origin)) := by
  induction args with
  | nil => rfl
  | cons arg rest ih =>
    have hfirst : ((arg.2.argument request scope origin).transcript c).outcome = _ :=
      argument_outcome (h arg List.mem_cons_self)
    have hrest := ih fun arg' hmem => h arg' (List.mem_cons_of_mem _ hmem)
    refine Transcript.outcome_bind_eq_ok.mpr ⟨_, hfirst, ?_⟩
    exact Transcript.outcome_bind_eq_ok.mpr ⟨_, hrest, rfl⟩

end Expr

/-! ## Nodes that go wrong

A node evaluates an expression and does something with the value, so these are all the ways there are for it to go
wrong by itself. What goes wrong in a snippet or in a block is not among them. -/

/-- How a node in a template can go wrong because of an expression. -/
inductive Expr.Spoils (origin : Origin) (e : Expr) : Stop → Prop where
  /-- the expression has no value -/
  | lacks {stop : Stop} (h : Lacks origin e.Proper stop) : Spoils origin e stop
  /-- there is a loop over its value, which is no list -/
  | notIterable : Spoils origin e (.error (.notIterable origin.text e.display))
  /-- its value is to be shown, and is a map -/
  | notDisplayable : Spoils origin e (.error (.notDisplayable origin.text e.display))

end ThemedPages
