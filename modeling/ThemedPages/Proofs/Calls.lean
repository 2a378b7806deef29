import ThemedPages.Proofs.ReadingExpressions
import ThemedPages.Proofs.Values

/-!
# Calls of helpers

Which helpers are called while an expression is evaluated, and in which order, said of the places of the calls in it.

* `Position` is a way from an expression to one inside it. `Position.Before` is the order in which expressions are
  evaluated: from left to right, and what is inside of another before it.
* `Expr.RunsAt` says that a call is made: its arguments have values, and so has everything to the left of it in the
  expressions around it.
* `Expr.eval_calls`: these calls are made and no others, in this order.
* `Expr.eval_of_readable` puts this together with the values of expressions, for all that can be read from a source.

`Expr.RunsAt` speaks of all expressions around a call at once. The proof goes through the expression, so it is turned
into what is so at the top and in one part (`Expr.runsAt_nil`, `Expr.runsAt_cons`), and from that into one equivalence
for each kind of expression. `CallsAt` is what the induction carries: the events are calls at certain positions, and
nothing is said of how often one position could come, for the order does not allow it twice.
-/

namespace ThemedPages

/-! ## Positions -/

/-- The way from an expression to one inside it: which one of its parts, which one of that one's, and so on. -/
abbrev Position := List Nat

/-- What is at the first position is evaluated before what is at the second. -/
inductive Position.Before : Position → Position → Prop where
  /-- it is inside of the other -/
  | inside (i : Nat) (p : Position) : Before (i :: p) []
  /-- it is to the left of the other -/
  | left {i j : Nat} (h : i < j) (p q : Position) : Before (i :: p) (j :: q)
  /-- so it is in the same part of an expression -/
  | there (i : Nat) {p q : Position} (h : Before p q) : Before (i :: p) (i :: q)

namespace Expr

/-- The parts of an expression, from left to right. -/
def parts : Expr → List Expr
  | .not e => [e]
  | .call _ args => args
  | _ => []

/-- The expression at a position. -/
def at? : Position → Expr → Option Expr
  | [], e => some e
  | i :: p, e => e.parts[i]? >>= at? p

/-- The call at a position is made: its arguments have values, and in the expressions around it no part that is to the
left of it is undefined. -/
structure RunsAt (request : Request) (scope : Scope) (e : Expr) (p : Position) (made : HelperCall) : Prop where
  /-- there is a call with these values -/
  call : ∃ helper args values, e.at? p = some (.call helper args) ∧ values? request scope args = some values ∧
    helper.call? values = some made
  /-- it is come to -/
  reached : ∀ outer i inner, p = outer ++ i :: inner → ∀ around, e.at? outer = some around →
    ∀ left ∈ around.parts.take i, ¬left.Undefined request scope

variable {c : Catalog} {request : Request} {scope : Scope} {origin : Origin} {made : HelperCall}

/-- At the top there is a call if the expression is one and its arguments have values. -/
theorem runsAt_nil {e : Expr} :
    e.RunsAt request scope [] made ↔
      ∃ helper args values, e = .call helper args ∧ values? request scope args = some values ∧
        helper.call? values = some made := by
  constructor
  · rintro ⟨⟨helper, args, values, hat, hvalues, hmade⟩, -⟩
    exact ⟨helper, args, values, Option.some.inj hat, hvalues, hmade⟩
  · rintro ⟨helper, args, values, rfl, hvalues, hmade⟩
    exact ⟨⟨helper, args, values, rfl, hvalues, hmade⟩, fun outer i inner hp => absurd hp.symm (by simp)⟩

/-- In a part a call is made if it is made there and no part to the left is undefined. -/
theorem runsAt_cons {e : Expr} {i : Nat} {p : Position} :
    e.RunsAt request scope (i :: p) made ↔
      ∃ part, e.parts[i]? = some part ∧ (∀ left ∈ e.parts.take i, ¬left.Undefined request scope) ∧
        part.RunsAt request scope p made := by
  constructor
  · rintro ⟨⟨helper, args, values, hat, hvalues, hmade⟩, hreached⟩
    obtain ⟨part, hpart, hat⟩ := Option.bind_eq_some_iff.mp hat
    refine ⟨part, hpart, hreached [] i p rfl e rfl, ⟨helper, args, values, hat, hvalues, hmade⟩, ?_⟩
    -- what is around the position in the part is around it in the whole, one step further
    rintro outer j inner rfl around haround
    exact hreached (i :: outer) j inner rfl around (Option.bind_eq_some_iff.mpr ⟨part, hpart, haround⟩)
  -- what is around it in the whole is the expression itself, or is in the part
  · rintro ⟨part, hpart, hleft, ⟨helper, args, values, hat, hvalues, hmade⟩, hreached⟩
    refine ⟨⟨helper, args, values, Option.bind_eq_some_iff.mpr ⟨part, hpart, hat⟩, hvalues, hmade⟩, ?_⟩
    intro outer j inner hp around haround
    rcases List.cons_eq_append_iff.mp hp with ⟨rfl, hinner⟩ | ⟨outer, rfl, rfl⟩
    · obtain ⟨rfl, rfl⟩ := List.cons.inj hinner
      obtain rfl := Option.some.inj haround
      exact hleft
    · obtain ⟨part', hpart', haround⟩ := Option.bind_eq_some_iff.mp haround
      obtain rfl := Option.some.inj (hpart.symm.trans hpart')
      exact hreached outer j inner rfl around haround

/-- No calls are made in what has no parts and is no call. -/
theorem not_runsAt {e : Expr} (hparts : e.parts = []) (hcall : ∀ helper args, e ≠ .call helper args) (p : Position) :
    ¬e.RunsAt request scope p made := by
  intro h
  cases p with
  | nil =>
    obtain ⟨helper, args, -, rfl, -⟩ := runsAt_nil.mp h
    exact hcall helper args rfl
  | cons i p =>
    obtain ⟨part, hpart, -⟩ := runsAt_cons.mp h
    simp [hparts] at hpart

end Expr

/-! ## Events that are calls

There is one lemma for each way in which the events of an expression are put together from those of its parts. -/

/-- The events are calls, those at some positions, in the order of the positions. -/
def CallsAt (P : Position → HelperCall → Prop) (events : List Event) : Prop :=
  ∃ run : List (Position × HelperCall), events = run.map (fun call => .called call.2) ∧
    run.Pairwise (fun call call' => call.1.Before call'.1) ∧ ∀ p made, (p, made) ∈ run ↔ P p made

namespace CallsAt

variable {P Q : Position → HelperCall → Prop} {events events' : List Event}

theorem congr (h : CallsAt P events) (hPQ : ∀ p made, P p made ↔ Q p made) : CallsAt Q events := by
  obtain ⟨run, hevents, hordered, hmem⟩ := h
  exact ⟨run, hevents, hordered, fun p made => (hmem p made).trans (hPQ p made)⟩

theorem nil (h : ∀ p made, ¬P p made) : CallsAt P [] :=
  ⟨[], rfl, .nil, fun p made => ⟨fun hmem => absurd hmem List.not_mem_nil, fun hP => absurd hP (h p made)⟩⟩

theorem singleton (p : Position) (made : HelperCall) : CallsAt (fun p' made' => p' = p ∧ made' = made) [.called made] :=
  ⟨[(p, made)], rfl, List.pairwise_singleton _ _, fun p' made' => by simp⟩

/-- Two rows of calls make one if those of the first come before those of the second. -/
theorem append (h : CallsAt P events) (h' : CallsAt Q events')
    (hbefore : ∀ p made, P p made → ∀ q made', Q q made' → p.Before q) :
    CallsAt (fun p made => P p made ∨ Q p made) (events ++ events') := by
  obtain ⟨run, rfl, hordered, hmem⟩ := h
  obtain ⟨run', rfl, hordered', hmem'⟩ := h'
  refine ⟨run ++ run', List.map_append.symm, List.pairwise_append.mpr ⟨hordered, hordered', ?_⟩, fun p made => ?_⟩
  · rintro ⟨p, made⟩ hp ⟨q, made'⟩ hq
    exact hbefore p made ((hmem p made).mp hp) q made' ((hmem' q made').mp hq)
  · rw [List.mem_append, hmem, hmem']

/-- The calls in a part are calls in the expression, one step further down. -/
theorem cons (h : CallsAt P events) (i : Nat) : CallsAt (fun q made => ∃ p, q = i :: p ∧ P p made) events := by
  obtain ⟨run, rfl, hordered, hmem⟩ := h
  refine ⟨run.map fun call => (i :: call.1, call.2), ?_, ?_, fun q made => ?_⟩
  · rw [List.map_map]
    rfl
  · exact List.pairwise_map.mpr (hordered.imp fun hbefore => .there i hbefore)
  · simp only [List.mem_map, Prod.mk.injEq, Prod.exists, ← hmem]
    grind

end CallsAt

namespace Expr

variable {c : Catalog} {request : Request} {scope : Scope} {origin : Origin} {made : HelperCall}

/-! ## Calls in expressions

The arguments of a call are numbered, and the induction on them takes the first one off. So what is said of the rest
is said with the number that the first of them has (`RunsIn`). -/

/-- The call at a position in some expressions, of which the first one has a number, is made. -/
def RunsIn (request : Request) (scope : Scope) (number : Nat) (es : List Expr) (q : Position) (made : HelperCall) :
    Prop :=
  ∃ i p e, q = (number + i) :: p ∧ es[i]? = some e ∧ (∀ left ∈ es.take i, ¬left.Undefined request scope) ∧
    e.RunsAt request scope p made

/-- In a call, calls are made in the arguments first and then the call itself. -/
theorem runsAt_call {helper : Helper} {args : List Expr} {q : Position} :
    (Expr.call helper args).RunsAt request scope q made ↔
      RunsIn request scope 0 args q made ∨
        q = [] ∧ ∃ values, values? request scope args = some values ∧ helper.call? values = some made := by
  cases q with
  | nil =>
    rw [runsAt_nil]
    simp [RunsIn]
  | cons i p =>
    rw [runsAt_cons]
    simp [RunsIn, parts]

theorem runsAt_not {e : Expr} {q : Position} :
    (Expr.not e).RunsAt request scope q made ↔ ∃ p, q = 0 :: p ∧ e.RunsAt request scope p made := by
  cases q with
  | nil =>
    rw [runsAt_nil]
    simp
  | cons i p =>
    rw [runsAt_cons]
    cases i <;> simp [parts]

/-- The arguments after the first are evaluated unless the first is undefined. -/
theorem runsIn_cons {number : Nat} {e : Expr} {es : List Expr} {q : Position} :
    RunsIn request scope number (e :: es) q made ↔
      (∃ p, q = number :: p ∧ e.RunsAt request scope p made) ∨
        ¬e.Undefined request scope ∧ RunsIn request scope (number + 1) es q made := by
  constructor
  · rintro ⟨i, p, e', rfl, he', hleft, hruns⟩
    cases i with
    | zero =>
      obtain rfl := Option.some.inj he'
      exact .inl ⟨p, rfl, hruns⟩
    | succ i =>
      rw [List.take_succ_cons, List.forall_mem_cons] at hleft
      exact .inr ⟨hleft.1, i, p, e', by rw [Nat.add_right_comm]; rfl, he', hleft.2, hruns⟩
  · rintro (⟨p, rfl, hruns⟩ | ⟨he, i, p, e', rfl, he', hleft, hruns⟩)
    · exact ⟨0, p, e, rfl, rfl, by simp, hruns⟩
    · refine ⟨i + 1, p, e', by rw [Nat.add_right_comm]; rfl, he', ?_, hruns⟩
      rw [List.take_succ_cons, List.forall_mem_cons]
      exact ⟨he, hleft⟩

theorem events_orUndefined (e : Expr) (found : Option Value) :
    ((orUndefined origin e found).transcript c).events = [] := by
  cases found <;> rfl

mutual

/-- While a proper expression is evaluated, the calls in it are made that are come to, and no others. -/
theorem eval_calls : ∀ {e : Expr}, e.Proper →
    CallsAt (e.RunsAt request scope) ((e.eval request scope origin).transcript c).events
  | .var path, _ => by
    rw [eval, events_orUndefined]
    exact .nil fun p made => not_runsAt rfl (by simp) p
  | .global path, _ => by
    rw [eval, events_orUndefined]
    exact .nil fun p made => not_runsAt rfl (by simp) p
  | .str s, _ => by
    rw [eval]
    exact .nil fun p made => not_runsAt rfl (by simp) p
  | .int n, _ => by
    rw [eval]
    exact .nil fun p made => not_runsAt rfl (by simp) p
  -- the value is recovered, and the calls stay
  | .not e, h => by
    have hends : Ends origin (e.value? request scope) (nowhere? request scope e.paths)
      ((e.eval request scope origin).transcript c).outcome := eval_ends (e := e) h
    have hevents : (((Expr.not e).eval request scope origin).transcript c).events =
        ((e.eval request scope origin).transcript c).events := by
      rw [eval, Run.transcript_bind]
      refine (congrArg Transcript.events (Transcript.bind_of_ok hends.recover _)).trans ?_
      simp
    rw [hevents]
    exact ((eval_calls (e := e) h).cons 0).congr fun q made => runsAt_not.symm
  | .call helper args, h => by
    obtain ⟨hlength, hargs⟩ := h
    have hcalls := evalAll_calls 0 hargs
    have hends : Ends origin (values? request scope args) (nowhere? request scope (pathsIn args))
      ((evalAll request scope origin args).transcript c).outcome := evalAll_ends hargs
    rw [eval, Run.transcript_bind]
    cases hends with
    -- the arguments have values, so the call itself comes after theirs
    | @value values hvalues _ houtcome =>
      obtain ⟨made, hmade⟩ := exists_call?_of_values? hlength hvalues
      have hown : ((callHelper request origin helper values).transcript c).events = [.called made] := by
        rw [callHelper, hmade]
        rfl
      rw [Transcript.bind_of_ok houtcome, hown]
      refine (hcalls.append (.singleton [] made) ?_).congr fun q made' => ?_
      · rintro _ _ ⟨i, p, e, rfl, -⟩ _ _ ⟨rfl, -⟩
        exact .inside _ p
      · rw [runsAt_call, hvalues]
        simp [hmade, eq_comm]
    -- they do not, and the calls are those that were made until then
    | nowhere hvalues _ houtcome =>
      rw [Transcript.bind_of_error houtcome]
      refine hcalls.congr fun q made => ?_
      rw [runsAt_call, hvalues]
      simp

/-- Together with `eval_calls`. The first argument comes before the others, as its number is smaller. -/
theorem evalAll_calls : ∀ {es : List Expr} (number : Nat), ProperAll es →
    CallsAt (RunsIn request scope number es) ((evalAll request scope origin es).transcript c).events
  | [], number, _ => by
    rw [evalAll]
    exact .nil fun p made => by simp [RunsIn]
  | e :: es, number, h => by
    have hfirst := (eval_calls h.1).cons number
    have hdefined : e.value? request scope = none ↔ e.Undefined request scope := value?_eq_none h.1
    have hends : Ends origin (e.value? request scope) (nowhere? request scope e.paths)
      ((e.eval request scope origin).transcript c).outcome := eval_ends h.1
    rw [evalAll, Run.transcript_bind]
    cases hends with
    | value hvalue _ houtcome =>
      -- the first has a value, so the others are evaluated after it
      have hrest := evalAll_calls (number + 1) h.2
      rw [hvalue] at hdefined
      rw [Transcript.bind_of_ok houtcome, Run.transcript_bind]
      simp only [Run.transcript_pure, ← map_eq_pure_bind, Transcript.events_map]
      refine (hfirst.append hrest ?_).congr fun q made => ?_
      · rintro _ _ ⟨p, rfl, -⟩ _ _ ⟨i, p', e', rfl, -⟩
        exact .left (by omega) p p'
      · rw [runsIn_cons, ← hdefined]
        simp
    | nowhere hvalue _ houtcome =>
      -- the first has none, and nothing comes after it
      rw [hvalue] at hdefined
      rw [Transcript.bind_of_error houtcome]
      refine hfirst.congr fun q made => ?_
      rw [runsIn_cons, ← hdefined]
      simp

end

/-! ## Expressions that are read

What is read is proper, so none of this has to be asked of it. -/

/-- The expression can be read from a source. -/
def Readable (e : Expr) : Prop := ∃ source rest, Grammar.expression source = .ok e rest

theorem Readable.proper {e : Expr} (h : e.Readable) : e.Proper := by
  obtain ⟨source, rest, hread⟩ := h
  exact Grammar.yields_expression hread

/-- What can be written can be read. -/
theorem WellFormed.readable {e : Expr} (h : e.WellFormed) : e.Readable :=
  ⟨_, [], Grammar.expression_source e h (stops_nil _)⟩

/-- What comes of an expression that can be read, anywhere in a page.

It has a value if it is not undefined, and otherwise the error is that the first path in it leads nowhere, among those
that are not negated. What is negated is true if it is undefined or false. The helpers are called whose arguments have
values and that are come to before anything around them is found to be undefined, in order.

So a condition always holds or does not, and is otherwise no part of how the node ends. Nor are the arguments of a
snippet, which are nothing where they are undefined. -/
theorem eval_of_readable (c : Catalog) (request : Request) (place : Place) {e : Expr} (h : e.Readable) :
    let t := (e.eval request place.scope place.origin).transcript c
    (∀ v, t.outcome = .ok v ↔ e.value? request place.scope = some v) ∧
    ((∃ v, t.outcome = .ok v) ↔ ¬e.Undefined request place.scope) ∧
    (e.Undefined request place.scope → ∃ before p after, e.paths = before ++ p :: after ∧
      p.Undefined request place.scope ∧ (∀ q ∈ before, ¬q.Undefined request place.scope) ∧
      t.outcome = .error (.error (.undefined place.origin.text p.display))) ∧
    (∃ b, (((Expr.not e).eval request place.scope place.origin).transcript c).outcome = .ok (.bool b) ∧
      (b = true ↔ e.Undefined request place.scope ∨ ∃ v, t.outcome = .ok v ∧ v.isTruthy = false)) ∧
    CallsAt (e.RunsAt request place.scope) t.events ∧
    (∃ b, (e.holds request place.scope place.origin).transcript c = ⟨t.events, .ok b⟩ ∧
      (b = true ↔ ∃ v, t.outcome = .ok v ∧ v.isTruthy = true) ∧
      ∀ exits body otherwise, (((Node.cond e body otherwise).render request exits place).transcript c).outcome =
        ((renderAll request exits (if b then body else otherwise.getD []) place).transcript c).outcome) ∧
    (e.argument request place.scope place.origin).transcript c =
      ⟨t.events, .ok ((e.value? request place.scope).getD .null)⟩ ∧
    ∀ path args, (∀ arg ∈ args, arg.2.Readable) → ∀ exits,
      (((Node.snippet path args).render request exits place).transcript c).outcome =
        ((exits.snippet path (Context.ofPairs (args.map fun arg =>
          (arg.1, (arg.2.value? request place.scope).getD .null)))).transcript c).outcome := by
  intro t
  have hproper := h.proper
  refine ⟨fun v => eval_eq_ok_iff hproper, exists_value_iff hproper, fun hundefined => ?_, ?_, eval_calls hproper, ?_,
    argument_transcript hproper, fun path args hargs exits => ?_⟩
  -- the error is about the first path that leads nowhere
  · have hends : Ends place.origin (e.value? request place.scope) (nowhere? request place.scope e.paths) t.outcome :=
      eval_ends hproper
    cases hends with
    | value hvalue => exact absurd ((value?_eq_none hproper).mpr hundefined) (by simp [hvalue])
    | nowhere _ hpath houtcome =>
      obtain ⟨before, after, hpaths, hp, hbefore⟩ := nowhere?_eq_some.mp hpath
      exact ⟨before, _, after, hpaths, hp, hbefore, houtcome⟩
  · have hnot : (Expr.not e).Proper := hproper
    refine ⟨_, (eval_eq_ok_iff hnot).mpr (by rw [value?]), ?_⟩
    simp only [t, eval_eq_ok_iff hproper, ← value?_eq_none hproper]
    cases e.value? request place.scope <;> simp
  · refine ⟨_, holds_transcript hproper, ?_, fun exits body otherwise => ?_⟩
    · simp only [t, eval_eq_ok_iff hproper]
      cases e.value? request place.scope <;> simp
    · rw [Node.outcome_cond hproper]
      split <;> rfl
  · exact Node.outcome_snippet path fun arg hmem => (hargs arg hmem).proper

/-- Nothing is translated after a variable that there is not, but what is negated may lack one. -/
theorem eval_of_readable_access :
    let request : Request := ⟨none, .empty, Helpers.standard⟩
    let place : Place := ⟨.ofContext .empty, ⟨"default", "page.html"⟩, none⟩
    let c := Catalog.ofRoot (.inMemory Root.defaultName [])
    let negated : Expr := .call .checkAccess [.call .translate [.str "read"], .not (.var ["user"])]
    let lacking : Expr := .call .checkAccess [.var ["user"], .call .translate [.str "read"]]
    negated.Readable ∧ lacking.Readable ∧
      (∃ v, ((negated.eval request place.scope place.origin).transcript c).outcome = .ok v) ∧
      ((lacking.eval request place.scope place.origin).transcript c).outcome =
        .error (.error (.undefined "default:page.html" "user")) ∧
      ∀ p made, ¬lacking.RunsAt request place.scope p made := by
  intro request place c negated lacking
  have hnegated : negated.Readable := WellFormed.readable (by decide)
  have hlacking : lacking.Readable := WellFormed.readable (by decide)
  obtain ⟨-, hvalue, -⟩ := eval_of_readable c request place hnegated
  obtain ⟨-, -, herror, -, ⟨run, hevents, -, hrun⟩, -⟩ := eval_of_readable c request place hlacking
  refine ⟨hnegated, hlacking, hvalue.mpr ?_, ?_, fun p made hruns => ?_⟩
  · rw [← value?_eq_none hnegated.proper]
    exact nofun
  · obtain ⟨before, p, after, hpaths, -, -, houtcome⟩ := herror (.call _ List.mem_cons_self (.var rfl))
    have hpaths : before ++ p :: after = [.var ["user"]] := hpaths.symm
    rcases List.append_eq_singleton_iff.mp hpaths with ⟨-, hp⟩ | ⟨-, hp⟩
    · obtain ⟨rfl, -⟩ := List.cons.inj hp
      exact houtcome
    · cases hp
  · have hnil : run.map (fun call => Event.called call.2) = [] := hevents.symm
    rw [← hrun, List.map_eq_nil_iff.mp hnil] at hruns
    cases hruns

end Expr

end ThemedPages
