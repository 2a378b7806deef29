import ThemedPages.Proofs.Checks
import ThemedPages.Proofs.Likeness

/-!
# Values of expressions

What the value of an expression is, and where it has none, said without going through it step by step.

* `Expr.value?` is the value, and `Expr.Undefined` says that there is none: a path leads nowhere, and it is not
  negated. `Expr.value?_eq_none` says that these are the same.
* `Expr.eval_ends`: evaluating a proper expression comes to its value, or else to the error that the first path in it
  leads nowhere, among those that are not negated.
* `Expr.holds_transcript` and `Expr.argument_transcript`: conditions and arguments have their values in any case, and
  so `Node.outcome_cond` and `Node.outcome_snippet` say what comes of nodes with these.

Evaluation goes from left to right and ends at the first path that leads nowhere. The value alone does not show which
one that was, so it is kept beside it: `Expr.paths` lists the paths that are not negated in the order in which they are
come to, and `Expr.nowhere?` is the first of them that leads nowhere. `Expr.Ends` ties the three together, and it is
this that the induction on expressions carries.
-/

namespace ThemedPages

namespace Expr

/-! ## Values and their lack

A negation has a value in any case. A call has one if its arguments do, and everything else is a path or has a value. -/

mutual

/-- The value of an expression, if it has one. -/
def value? (request : Request) (scope : Scope) : Expr → Option Value
  | .var path => scope.follow path
  | .global path => request.follow path
  | .str s => some (.string s)
  | .int n => some (.int n)
  | .not e => some (.bool !(e.value? request scope).elim false Value.isTruthy)
  | .call helper args => (values? request scope args >>= helper.call?).map request.helpers.answer

/-- The values of some expressions, if they all have one. -/
def values? (request : Request) (scope : Scope) : List Expr → Option (List Value)
  | [] => some []
  | e :: es => do
    let v ← e.value? request scope
    let vs ← values? request scope es
    return v :: vs

end

/-- The expression has no value, because a path in it leads nowhere. -/
inductive Undefined (request : Request) (scope : Scope) : Expr → Prop where
  /-- it is a path that begins with a variable, and leads nowhere -/
  | var {path : List String} (h : scope.follow path = none) : Undefined request scope (.var path)
  /-- it is a path into the globals that leads nowhere -/
  | global {path : List String} (h : request.follow path = none) : Undefined request scope (.global path)
  /-- it is a call with an argument that has no value -/
  | call (helper : Helper) {args : List Expr} {arg : Expr} (hmem : arg ∈ args) (h : Undefined request scope arg) :
    Undefined request scope (.call helper args)

mutual

/-- The paths in an expression that are not negated, from left to right. -/
def paths : Expr → List Expr
  | e@(.var _) | e@(.global _) => [e]
  | .call _ args => pathsIn args
  | .str _ | .int _ | .not _ => []

/-- The paths in some expressions that are not negated, from left to right. -/
def pathsIn : List Expr → List Expr
  | [] => []
  | e :: es => e.paths ++ pathsIn es

end

/-- The first of some paths that leads nowhere. -/
def nowhere? (request : Request) (scope : Scope) (ps : List Expr) : Option Expr :=
  ps.find? fun p => (p.value? request scope).isNone

variable {c : Catalog} {request : Request} {scope : Scope} {origin : Origin}

theorem undefined_var {path : List String} : (Expr.var path).Undefined request scope ↔ scope.follow path = none :=
  ⟨fun h => by cases h; assumption, .var⟩

theorem undefined_global {path : List String} :
    (Expr.global path).Undefined request scope ↔ request.follow path = none :=
  ⟨fun h => by cases h; assumption, .global⟩

/-- A call is undefined if one of its arguments is, whichever it is. -/
theorem undefined_call {helper : Helper} {args : List Expr} :
    (Expr.call helper args).Undefined request scope ↔ ∃ arg ∈ args, arg.Undefined request scope :=
  ⟨fun h => by cases h with | call _ hmem h => exact ⟨_, hmem, h⟩, fun ⟨_, hmem, h⟩ => .call helper hmem h⟩

/-- The first path that leads nowhere is in the first part, or else in the second. -/
theorem nowhere?_append (ps qs : List Expr) :
    nowhere? request scope (ps ++ qs) = (nowhere? request scope ps).or (nowhere? request scope qs) :=
  List.find?_append

theorem length_of_values? {es : List Expr} {vs : List Value} (h : values? request scope es = some vs) :
    vs.length = es.length := by
  induction es generalizing vs with
  | nil =>
    rw [values?] at h
    obtain rfl := Option.some.inj h
    rfl
  | cons e es ih =>
    rw [values?] at h
    obtain ⟨v, -, h⟩ := Option.bind_eq_some_iff.mp h
    obtain ⟨vs', hvs', h⟩ := Option.bind_eq_some_iff.mp h
    obtain rfl := Option.some.inj h
    rw [List.length_cons, List.length_cons, ih hvs']

/-- A call has a value if its arguments have. -/
theorem exists_call?_of_values? {helper : Helper} {args : List Expr} {values : List Value}
    (hargs : args.length = helper.arity) (h : values? request scope args = some values) :
    ∃ made, helper.call? values = some made :=
  Option.isSome_iff_exists.mp (Helper.call?_isSome ((length_of_values? h).trans hargs))

mutual

/-- Whatever is among the paths of an expression is one. -/
theorem eq_of_mem_paths : ∀ {e p : Expr}, p ∈ e.paths → ∃ path, p = .var path ∨ p = .global path
  | .var path, p, h => by
    rw [paths] at h
    exact ⟨path, .inl (List.mem_singleton.mp h)⟩
  | .global path, p, h => by
    rw [paths] at h
    exact ⟨path, .inr (List.mem_singleton.mp h)⟩
  | .str _, p, h | .int _, p, h | .not _, p, h => by
    rw [paths] at h
    cases h
  | .call _ args, p, h => by
    rw [paths] at h
    exact eq_of_mem_pathsIn h

theorem eq_of_mem_pathsIn : ∀ {es : List Expr} {p : Expr}, p ∈ pathsIn es → ∃ path, p = .var path ∨ p = .global path
  | [], p, h => by
    rw [pathsIn] at h
    cases h
  | e :: es, p, h => by
    rw [pathsIn] at h
    rcases List.mem_append.mp h with h | h
    · exact eq_of_mem_paths h
    · exact eq_of_mem_pathsIn h

end

mutual

/-- A proper expression has no value just if it is undefined. -/
theorem value?_eq_none : ∀ {e : Expr}, e.Proper → (e.value? request scope = none ↔ e.Undefined request scope)
  | .var path, _ => by rw [value?, undefined_var]
  | .global path, _ => by rw [value?, undefined_global]
  | .str _, _ | .int _, _ | .not _, _ => by
    rw [value?]
    exact ⟨nofun, nofun⟩
  | .call helper args, h => by
    obtain ⟨hlength, hargs⟩ := h
    rw [undefined_call, ← values?_eq_none hargs, value?, Option.map_eq_none_iff]
    rcases hvs : values? request scope args with _ | values
    · exact ⟨fun _ => rfl, fun _ => rfl⟩
    · obtain ⟨made, hmade⟩ := exists_call?_of_values? hlength hvs
      exact ⟨fun hnone => absurd (hmade.symm.trans hnone) nofun, nofun⟩

/-- Together with `value?_eq_none`: of some expressions there are no values if one of them has none. -/
theorem values?_eq_none : ∀ {es : List Expr}, ProperAll es →
    (values? request scope es = none ↔ ∃ e ∈ es, e.Undefined request scope)
  | [], _ => by simp [values?]
  | e :: es, h => by
    rw [List.exists_mem_cons_iff, ← value?_eq_none h.1, ← values?_eq_none h.2, values?]
    rcases e.value? request scope with _ | v
    · simp
    · cases values? request scope es <;> simp

end

/-- The first path that leads nowhere is undefined, and none before it is. -/
theorem nowhere?_eq_some {e p : Expr} :
    nowhere? request scope e.paths = some p ↔
      ∃ before after, e.paths = before ++ p :: after ∧ p.Undefined request scope ∧
        ∀ q ∈ before, ¬q.Undefined request scope := by
  -- of the paths in an expression, those without a value are those that lead nowhere
  have hundefined : ∀ q ∈ e.paths, (q.value? request scope).isNone = true ↔ q.Undefined request scope := by
    intro q hq
    rw [Option.isNone_iff_eq_none]
    obtain ⟨path, rfl | rfl⟩ := eq_of_mem_paths hq
    · rw [value?, undefined_var]
    · rw [value?, undefined_global]
  rw [nowhere?, List.find?_eq_some_iff_append]
  constructor
  · rintro ⟨hp, before, after, hpaths, hbefore⟩
    rw [hpaths] at hundefined
    refine ⟨before, after, hpaths, (hundefined p (by simp)).mp hp, fun q hq h => ?_⟩
    have hnone := (hundefined q (List.mem_append_left _ hq)).mpr h
    simpa [hnone] using hbefore q hq
  · rintro ⟨before, after, hpaths, hp, hbefore⟩
    rw [hpaths] at hundefined
    refine ⟨(hundefined p (by simp)).mpr hp, before, after, hpaths, fun q hq => ?_⟩
    have hdefined := hbefore q hq
    rw [← hundefined q (List.mem_append_left _ hq)] at hdefined
    simpa [Option.isSome_iff_ne_none] using hdefined

/-! ## Outcomes

An expression ends with its value or with an error, and which one is known from the paths in it. -/

/-- The outcome is a value, and then no path leads nowhere, or it is the error that the first such path does. -/
inductive Ends (origin : Origin) {α : Type} (value? : Option α) (path? : Option Expr) (outcome : Except Stop α) :
    Prop where
  /-- a value -/
  | value {a : α} (hvalue : value? = some a) (hpath : path? = none) (houtcome : outcome = .ok a)
  /-- an error -/
  | nowhere {p : Expr} (hvalue : value? = none) (hpath : path? = some p)
    (houtcome : outcome = .error (.error (.undefined origin.text p.display)))

/-- A path ends with what is found at its end, or with the error that it leads nowhere. -/
theorem ends_orUndefined {e : Expr} (he : e.paths = [e]) :
    Ends origin (e.value? request scope) (nowhere? request scope e.paths)
      ((orUndefined origin e (e.value? request scope)).transcript c).outcome := by
  rw [he]
  rcases h : e.value? request scope with _ | v
  · exact .nowhere rfl (by simp [nowhere?, h]) rfl
  · exact .value rfl (by simp [nowhere?, h]) rfl

/-- What is negated has a value in any case. -/
theorem Ends.recover {v? : Option Value} {p? : Option Expr} {t : Transcript Value} (h : Ends origin v? p? t.outcome) :
    ((Value.isTruthy <$> t).orIfUndefined false).outcome = .ok (v?.elim false Value.isTruthy) := by
  rw [Transcript.outcome_orIfUndefined, Transcript.outcome_map]
  cases h with
  | value hvalue _ houtcome =>
    rw [houtcome, hvalue]
    rfl
  | nowhere hvalue _ houtcome =>
    rw [houtcome, hvalue]
    rfl

mutual

/-- Evaluating a proper expression comes to its value, or to the error that the first path in it leads nowhere, among
those that are not negated. -/
theorem eval_ends : ∀ {e : Expr}, e.Proper →
    Ends origin (e.value? request scope) (nowhere? request scope e.paths)
      ((e.eval request scope origin).transcript c).outcome
  | .var path, _ => by
    rw [eval]
    exact ends_orUndefined (by rw [paths])
  | .global path, _ => by
    rw [eval]
    exact ends_orUndefined (by rw [paths])
  | .str s, _ => by
    rw [eval]
    exact .value (by rw [value?]) (by rw [paths]; rfl) rfl
  | .int n, _ => by
    rw [eval]
    exact .value (by rw [value?]) (by rw [paths]; rfl) rfl
  | .not e, h => by
    -- a negation has a value whatever happens inside of it
    have hholds := (eval_ends (e := e) h).recover
    refine .value (by rw [value?]) (by rw [paths]; rfl) ?_
    rw [eval]
    exact Transcript.outcome_bind_eq_ok.mpr ⟨_, hholds, rfl⟩
  | .call helper args, h => by
    obtain ⟨hlength, hargs⟩ := h
    rw [eval, value?, paths, Run.transcript_bind]
    cases evalAll_ends hargs with
    | @value values hvalues hpath houtcome =>
      -- the arguments have values, as many as the helper takes
      obtain ⟨made, hmade⟩ := exists_call?_of_values? hlength hvalues
      refine .value (a := request.helpers.answer made) ?_ hpath ?_
      · rw [hvalues]
        exact congrArg _ hmade
      · refine Transcript.outcome_bind_eq_ok.mpr ⟨_, houtcome, ?_⟩
        rw [callHelper, hmade]
        rfl
    | nowhere hvalues hpath houtcome =>
      refine .nowhere ?_ hpath ?_
      · rw [hvalues]
        rfl
      · rw [Transcript.bind_of_error houtcome]

/-- Together with `eval_ends`. If an expression has no value, those after it are not evaluated. -/
theorem evalAll_ends : ∀ {es : List Expr}, ProperAll es →
    Ends origin (values? request scope es) (nowhere? request scope (pathsIn es))
      ((evalAll request scope origin es).transcript c).outcome
  | [], _ => by
    rw [evalAll]
    exact .value (by rw [values?]) (by rw [pathsIn]; rfl) rfl
  | e :: es, h => by
    rw [evalAll, values?, pathsIn, nowhere?_append, Run.transcript_bind]
    cases eval_ends h.1 with
    | @nowhere p hvalue hpath houtcome =>
      -- the first argument has no value, so the others are not evaluated
      refine .nowhere (p := p) ?_ ?_ ?_
      · rw [hvalue]
        rfl
      · rw [hpath]
        rfl
      · rw [Transcript.bind_of_error houtcome]
    | @value v hvalue hpath houtcome =>
      rw [Transcript.bind_of_ok houtcome, hvalue, hpath, Run.transcript_bind]
      -- the first one has, so the others decide
      cases evalAll_ends h.2 with
      | nowhere hvalues hpaths houtcomes =>
        refine .nowhere ?_ hpaths ?_
        · rw [hvalues]
          rfl
        · rw [Transcript.bind_of_error houtcomes]
      | @value vs hvalues hpaths houtcomes =>
        refine .value (a := v :: vs) ?_ hpaths ?_
        · rw [hvalues]
          rfl
        · rw [Transcript.bind_of_ok houtcomes]
          rfl

end

section

variable {e : Expr} (h : e.Proper)

include h

/-- Evaluating an expression comes to a value exactly if that is its value. -/
theorem eval_eq_ok_iff {v : Value} :
    ((e.eval request scope origin).transcript c).outcome = .ok v ↔ e.value? request scope = some v := by
  cases eval_ends h with
  | value hvalue _ houtcome =>
    rw [houtcome, hvalue]
    exact ⟨fun heq => congrArg _ (Except.ok.inj heq), fun heq => congrArg _ (Option.some.inj heq)⟩
  | nowhere hvalue _ houtcome =>
    rw [houtcome, hvalue]
    exact ⟨nofun, nofun⟩

/-- It comes to some value exactly if the expression is not undefined. -/
theorem exists_value_iff :
    (∃ v, ((e.eval request scope origin).transcript c).outcome = .ok v) ↔ ¬e.Undefined request scope := by
  simp only [eval_eq_ok_iff h]
  rw [← value?_eq_none h, Option.eq_none_iff_forall_ne_some]
  simp

/-- A condition that has no value does not hold. -/
theorem holds_transcript :
    (e.holds request scope origin).transcript c =
      ⟨((e.eval request scope origin).transcript c).events,
        .ok ((e.value? request scope).elim false Value.isTruthy)⟩ := by
  refine Transcript.ext ?_ (eval_ends h).recover
  rw [holds, Run.transcript_orIfUndefined, Transcript.events_orIfUndefined, Run.transcript_map, Transcript.events_map]

/-- An argument that has no value is nothing. -/
theorem valueOrNull_eq : e.valueOrNull c request scope origin = (e.value? request scope).getD .null := by
  rw [valueOrNull]
  cases eval_ends h with
  | value hvalue _ houtcome => rw [houtcome, hvalue, Option.getD_some]
  | nowhere hvalue _ houtcome => rw [houtcome, hvalue, Option.getD_none]

/-- An argument has its value, or nothing if it has none, and the same helpers are called for it. -/
theorem argument_transcript :
    (e.argument request scope origin).transcript c =
      ⟨((e.eval request scope origin).transcript c).events, .ok ((e.value? request scope).getD .null)⟩ := by
  refine Transcript.ext ?_ ?_
  · rw [argument, Run.transcript_orIfUndefined, Transcript.events_orIfUndefined]
  · rw [argument_outcome h, valueOrNull_eq h]

end

end Expr

/-! ## Conditions and snippets -/

namespace Node

variable {c : Catalog} {request : Request} {exits : Exits} {place : Place}

/-- A condition ends as the part of it that is shown. -/
theorem outcome_cond {test : Expr} (h : test.Proper) (body : List Node) (otherwise : Option (List Node)) :
    (((Node.cond test body otherwise).render request exits place).transcript c).outcome =
      if (test.value? request place.scope).elim false Value.isTruthy then
        ((renderAll request exits body place).transcript c).outcome
      else ((renderAll request exits (otherwise.getD []) place).transcript c).outcome := by
  rw [render_cond, Expr.holds_transcript h, Transcript.bind_of_ok rfl]
  cases (test.value? request place.scope).elim false Value.isTruthy with
  | true => rfl
  | false =>
    cases otherwise with
    | none => rfl
    | some nodes => rfl

/-- A snippet ends as what its arguments are passed to. -/
theorem outcome_snippet (path : String) {args : List (String × Expr)} (h : ∀ arg ∈ args, arg.2.Proper) :
    (((Node.snippet path args).render request exits place).transcript c).outcome =
      ((exits.snippet path (Context.ofPairs (args.map fun arg =>
        (arg.1, (arg.2.value? request place.scope).getD .null)))).transcript c).outcome := by
  have hparams : (args.map fun arg => (arg.1, arg.2.valueOrNull c request place.scope place.origin)) =
      args.map fun arg => (arg.1, (arg.2.value? request place.scope).getD .null) :=
    List.map_congr_left fun arg hmem => by rw [Expr.valueOrNull_eq (h arg hmem)]
  rw [Node.render, Run.transcript_bind, Transcript.bind_of_ok (Expr.arguments_outcome h), hparams]

end Node

end ThemedPages
