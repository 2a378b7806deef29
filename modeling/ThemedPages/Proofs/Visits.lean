import Mathlib.Logic.Relation
import ThemedPages.Proofs.Exits
import ThemedPages.Proofs.LookUps
import ThemedPages.Site

/-!
# Visits

To render a page is to visit its body, to visit the definition of a block from there, to visit another one from that,
and so on. `Visit.within` does so in visits that are nested at most so deep, whatever they are, where `Site.render`
counts what a page can do at all.

* `Visit.EndsWithin.transcript_eq`: however deep visits may be nested, one that ends does the same.
* `Visit.Enters` says which visits are made from another one. `Visit.Enters.endsWithin`: what is entered by a visit
  that ends within some depth ends within a smaller one.
* `Visit.Fails` says which visits go wrong by themselves. What goes wrong in one goes wrong in all those on the way to
  it (`Visit.Fails.outcome_of_reflTransGen`), and there is no other way but by an expression
  (`Visit.exists_fails_of_error`).
* `Visit.not_goesRound_of_endsWithin`: a visit that ends never comes by the same block definition again, with the same
  variables, before it is done with it.
-/

namespace ThemedPages

open Filter

/-! ## Visits

The depth to which visits are nested is the bound here. What would be nested deeper is cut off, so with a greater
bound there may be more, and a visit that ends stays as it is. -/

/-- Something that is visited when a page is rendered. -/
inductive Visit where
  /-- the page at a path, or the snippet, with at most so many snippets nested in each other, itself included -/
  | page (left : Nat) (path : String) (context : Context)
  /-- a definition of a block of a layout, from a place, with at most so many snippets nested in it -/
  | block (left : Nat) (layout : Layout) (name : String) (level : Nat) (place : Place)

/-- What a way out leads to. -/
def Exit.visit (left : Nat) (l : Layout) : Exit → Visit
  | .block name level place => .block left l name level place
  | .snippet path context => .page left path context

/-- The ways out of the nodes of a layout, given what is to be done in a visit. -/
def Exits.into (go : Visit → Run Unit) (left : Nat) (l : Layout) : Exits where
  block name level place := go (.block left l name level place)
  snippet path context := go (.page left path context)

theorem Exits.take_into (go : Visit → Run Unit) (left : Nat) (l : Layout) (exit : Exit) :
    (Exits.into go left l).take exit = go (exit.visit left l) := by
  cases exit <;> rfl

namespace Visit

/-- What is to be done in a visit, given what is to be done in those that are made from it. -/
def run (site : Site) (request : Request) (go : Visit → Run Unit) : Visit → Run Unit
  | page 0 path _ => Run.fail (.includeDepth path site.snippetLimit)
  | page (left + 1) path context => do
    let l ← Run.layout ⟨path, request.theme⟩
    renderAll request (.into go left l) l.base.template.body
      { scope := .ofContext context, origin := l.base.origin, enclosing := none }
  | block left l name level place =>
    match l.table.definition? name level with
    | none => Run.fail (.noParentBlock place.origin.text name)
    | some definition =>
      renderAll request (.into go left l) definition.body
        { place with origin := definition.origin, enclosing := some ⟨name, level⟩ }

/-- What is to be done in a visit, in visits nested at most so deep. -/
def within (site : Site) (request : Request) : Nat → Visit → Run Unit
  | 0, _ => Run.endless
  | depth + 1, v => v.run site request (within site request depth)

section

variable {site : Site} {request : Request} {v w : Visit}

variable (site request) in
/-- The visit ends in visits nested at most so deep. -/
def EndsWithin (depth : Nat) (v : Visit) : Prop :=
  ((v.within site request depth).transcript site.catalog).outcome ≠ .error .endless

variable (site request) in
/-- The visit shows nodes of a layout at a place, with at most so many snippets nested in them. -/
inductive Shows : Visit → Nat → Layout → List Node → Place → Prop where
  /-- the body of a page -/
  | page (left : Nat) {path : String} (context : Context) {l : Layout}
    (h : (site.catalog.layout ⟨path, request.theme⟩).outcome = .ok l) :
    Shows (.page (left + 1) path context) left l l.base.template.body
      { scope := .ofContext context, origin := l.base.origin, enclosing := none }
  /-- the body of a block definition -/
  | block (left : Nat) {l : Layout} {name : String} {level : Nat} {definition : Definition} (place : Place)
    (h : l.table.definition? name level = some definition) :
    Shows (.block left l name level place) left l definition.body
      { place with origin := definition.origin, enclosing := some ⟨name, level⟩ }

variable (site request) in
/-- The second visit is made from the first. -/
inductive Enters : Visit → Visit → Prop where
  /-- the nodes come to it when visits are nested deep enough for what is before it -/
  | intro {v : Visit} {left : Nat} {l : Layout} {nodes : List Node} {place : Place} (depth : Nat) {exit : Exit}
    (hshows : Shows site request v left l nodes place)
    (hcomes : Comes site.catalog request (.into (within site request depth) left l) nodes place exit) :
    Enters v (exit.visit left l)

/-- The end of a visit is that of the nodes it shows. -/
theorem Shows.outcome_run {left : Nat} {l : Layout} {nodes : List Node} {place : Place}
    (h : Shows site request v left l nodes place) (go : Visit → Run Unit) :
    ((v.run site request go).transcript site.catalog).outcome =
      ((renderAll request (.into go left l) nodes place).transcript site.catalog).outcome := by
  cases h with
  | page left context hlayout =>
    rw [run, Run.transcript_bind, Run.transcript_layout, Transcript.bind_of_ok hlayout]
  | block left place hdefinition => rw [run, hdefinition]

/-! ## Visits nested deeper

A visit that ends in some depth enters only visits that end in a smaller one. So going from visit to visit comes to an
end with the depth. -/

/-- The deeper the visits from a visit may be nested, the more of it is done. -/
theorem run_nears {ι : Type} {f : Filter ι} {go : Visit → Run Unit} {go' : ι → Visit → Run Unit}
    (h : ∀ w, ((go w).transcript site.catalog).Nears f fun i => (go' i w).transcript site.catalog) (v : Visit) :
    ((v.run site request go).transcript site.catalog).Nears f
      fun i => (v.run site request (go' i)).transcript site.catalog := by
  have hexits : ∀ left l exit, (((Exits.into go left l).take exit).transcript site.catalog).Nears f
      fun i => ((Exits.into (go' i) left l).take exit).transcript site.catalog := by
    intro left l exit
    simp only [Exits.take_into]
    exact h _
  cases v with
  | page left path context =>
    cases left with
    | zero => exact .refl _
    | succ left => exact .bind (.refl _) fun l _ => renderAll_nears (hexits left l) _ _
  | block left l name level place =>
    simp only [run]
    cases l.table.definition? name level with
    | none => exact .refl _
    | some definition => exact renderAll_nears (hexits left l) _ _

/-- In a greater depth a visit does the same, unless it was cut off. -/
theorem within_below {depth depth' : Nat} (h : depth ≤ depth') (v : Visit) :
    ((v.within site request depth).transcript site.catalog).Below
      ((v.within site request depth').transcript site.catalog) := by
  induction depth generalizing depth' v with
  | zero => exact .inl rfl
  | succ depth ih =>
    obtain ⟨depth', rfl⟩ : ∃ d, depth' = d + 1 := ⟨depth' - 1, by omega⟩
    have hnears : ∀ w : Visit, ((w.within site request depth).transcript site.catalog).Nears (pure ())
        fun _ => (w.within site request depth').transcript site.catalog :=
      fun w => Transcript.nears_pure.mpr (ih (Nat.le_of_succ_le_succ h) w)
    exact Transcript.nears_pure.mp (run_nears hnears v)

theorem take_into_below {depth depth' : Nat} (h : depth ≤ depth') {left : Nat} {l : Layout} (exit : Exit) :
    (((Exits.into (within site request depth) left l).take exit).transcript site.catalog).Below
      (((Exits.into (within site request depth') left l).take exit).transcript site.catalog) := by
  rw [Exits.take_into, Exits.take_into]
  exact within_below h _

theorem EndsWithin.mono {depth depth' : Nat} (h : depth ≤ depth') (hends : v.EndsWithin site request depth) :
    v.EndsWithin site request depth' := by
  unfold EndsWithin
  rw [← (within_below h v).eq hends]
  exact hends

/-- However deep visits are nested, one that ends does the same. -/
theorem EndsWithin.transcript_eq {depth depth' : Nat} (h : v.EndsWithin site request depth)
    (h' : v.EndsWithin site request depth') :
    (v.within site request depth).transcript site.catalog = (v.within site request depth').transcript site.catalog := by
  rcases Nat.le_total depth depth' with hle | hle
  · exact (within_below hle v).eq h
  · exact ((within_below hle v).eq h').symm

/-- What is entered by a visit that ends within some depth ends within a smaller one. -/
theorem Enters.endsWithin (henters : Enters site request v w) {depth : Nat} (h : v.EndsWithin site request depth) :
    ∃ depth' < depth, w.EndsWithin site request depth' := by
  obtain ⟨depth₁, hshows, hcomes⟩ := henters
  cases depth with
  | zero => exact (h rfl).elim
  | succ depth =>
    refine ⟨depth, Nat.lt_succ_self depth, ?_⟩
    -- the way out is taken in a depth that is enough for the visit to come to it and for itself to end
    have hcomes' := hcomes.of_below (take_into_below (Nat.le_max_right depth depth₁))
    have hends := hcomes'.ne_endless (take_into_below (Nat.le_max_left depth depth₁))
      (by rw [← hshows.outcome_run]; exact h)
    rwa [Exits.take_into] at hends

/-- So does all that is come to from there, in no greater depth. -/
theorem endsWithin_of_reflTransGen (hreach : Relation.ReflTransGen (Enters site request) v w) {depth : Nat}
    (h : v.EndsWithin site request depth) : ∃ depth' ≤ depth, w.EndsWithin site request depth' := by
  induction hreach with
  | refl => exact ⟨depth, Nat.le_refl depth, h⟩
  | tail _ henters ih =>
    obtain ⟨depth₁, hle, h₁⟩ := ih
    obtain ⟨depth₂, hlt, h₂⟩ := henters.endsWithin h₁
    exact ⟨depth₂, by omega, h₂⟩

/-- After at least one step it ends in a smaller depth. -/
theorem endsWithin_of_transGen (hreach : Relation.TransGen (Enters site request) v w) {depth : Nat}
    (h : v.EndsWithin site request depth) : ∃ depth' < depth, w.EndsWithin site request depth' := by
  induction hreach with
  | single henters => exact henters.endsWithin h
  | tail _ henters ih =>
    obtain ⟨depth₁, hlt, h₁⟩ := ih
    obtain ⟨depth₂, hlt', h₂⟩ := henters.endsWithin h₁
    exact ⟨depth₂, by omega, h₂⟩

/-! ## Visits that go wrong

A visit goes wrong by itself if it can not find what it shows, or if it is a snippet too many, and also if it is of a
block without a definition. -/

variable (site request) in
/-- The visit goes wrong by itself, whatever comes of those that are made from it. -/
inductive Fails : Visit → Stop → Prop where
  /-- there are too many snippets within snippets -/
  | tooDeep (path : String) (context : Context) :
    Fails (.page 0 path context) (.error (.includeDepth path site.snippetLimit))
  /-- there is no layout to be found -/
  | lookUp (left : Nat) {path : String} (context : Context) {stop : Stop}
    (h : (site.catalog.layout ⟨path, request.theme⟩).outcome = .error stop) :
    Fails (.page (left + 1) path context) stop
  /-- there is no such definition -/
  | noParent (left : Nat) {l : Layout} {name : String} {level : Nat} (place : Place)
    (h : l.table.definition? name level = none) :
    Fails (.block left l name level place) (.error (.noParentBlock place.origin.text name))

variable {stop : Stop}

/-- Whatever visits there are further on, such a visit does not come to them. -/
theorem Fails.outcome_run (h : v.Fails site request stop) (go : Visit → Run Unit) :
    ((v.run site request go).transcript site.catalog).outcome = .error stop := by
  cases h with
  | tooDeep path context => rfl
  | lookUp left context hlayout => rw [run, Run.transcript_bind, Run.transcript_layout, Transcript.bind_of_error hlayout]
  | noParent left place hdefinition => simp [run, hdefinition]

/-- What goes wrong in a visit that is made from another one goes wrong in that. -/
theorem Enters.outcome_of_error (henters : Enters site request v w) (hstop : stop ≠ .endless) {depth : Nat}
    (h : ((w.within site request depth).transcript site.catalog).outcome = .error stop) :
    ∃ depth', ((v.within site request depth').transcript site.catalog).outcome = .error stop := by
  obtain ⟨depth₁, hshows, hcomes⟩ := henters
  -- in a depth that is enough for the visit to come to it, and for it to go wrong
  have hcomes' := hcomes.of_below (take_into_below (Nat.le_max_right depth depth₁))
  have hends : _ ≠ Except.error Stop.endless := fun hend => hstop (Except.error.inj (h.symm.trans hend))
  refine ⟨max depth depth₁ + 1, (hshows.outcome_run _).trans (hcomes'.outcome_of_error ?_)⟩
  rw [Exits.take_into, ← (within_below (Nat.le_max_left depth depth₁) _).eq hends]
  exact h

/-- Nothing on the way holds up what goes wrong. -/
theorem Fails.outcome_of_reflTransGen (h : w.Fails site request stop) (hstop : stop ≠ .endless)
    (hreach : Relation.ReflTransGen (Enters site request) v w) :
    ∃ depth, ((v.within site request depth).transcript site.catalog).outcome = .error stop := by
  induction hreach using Relation.ReflTransGen.head_induction_on with
  | refl => exact ⟨1, h.outcome_run _⟩
  | head henters _ ih =>
    obtain ⟨depth, hdepth⟩ := ih
    exact henters.outcome_of_error hstop hdepth

variable (site request) in
/-- No expression in what is shown by the visit, or by one that is come to from it, can go wrong in this way. -/
def Unspoilt (stop : Stop) (v : Visit) : Prop :=
  ∀ ⦃w⦄, Relation.ReflTransGen (Enters site request) v w →
    ∀ ⦃left l nodes place⦄, w.Shows site request left l nodes place → ThemedPages.Unspoilt stop nodes

/-- What goes wrong, but not by an expression, does so in a visit that goes wrong by itself. -/
theorem exists_fails_of_error (hstop : stop ≠ .endless) (hunspoilt : v.Unspoilt site request stop) {depth : Nat}
    (h : ((v.within site request depth).transcript site.catalog).outcome = .error stop) :
    ∃ w, Relation.ReflTransGen (Enters site request) v w ∧ w.Fails site request stop := by
  induction depth generalizing v with
  | zero => exact absurd (Except.error.inj h).symm hstop
  | succ depth ih =>
    -- a visit that shows nodes fails at one of them, or in a visit that it enters
    have hshown : ∀ {left l nodes place}, v.Shows site request left l nodes place →
        ((v.run site request (within site request depth)).transcript site.catalog).outcome = .error stop →
        ∃ w, Relation.ReflTransGen (Enters site request) v w ∧ w.Fails site request stop := by
      intro left l nodes place hshows h
      rw [hshows.outcome_run] at h
      obtain ⟨exit, hcomes, hexit⟩ := exists_comes_of_error (hunspoilt .refl hshows) h
      rw [Exits.take_into] at hexit
      have henters : Enters site request v (exit.visit left l) := .intro depth hshows hcomes
      obtain ⟨w, hreach, hfails⟩ := ih (fun w hw => hunspoilt (hw.head henters)) hexit
      exact ⟨w, hreach.head henters, hfails⟩
    cases v with
    | page left path context =>
      cases left with
      -- no snippet may be opened any more
      | zero =>
        obtain rfl := Except.error.inj h
        exact ⟨_, .refl, .tooDeep path context⟩
      | succ left =>
        rcases hlayout : (site.catalog.layout ⟨path, request.theme⟩).outcome with stop' | l
        · obtain rfl := Except.error.inj (((Fails.lookUp left context hlayout).outcome_run _).symm.trans h)
          exact ⟨_, .refl, .lookUp left context hlayout⟩
        -- the layout is found, so what fails is in its nodes
        · exact hshown (.page left context hlayout) h
    | block left l name level place =>
      rcases hdefinition : l.table.definition? name level with _ | definition
      · obtain rfl := Except.error.inj (((Fails.noParent left place hdefinition).outcome_run _).symm.trans h)
        exact ⟨_, .refl, .noParent left place hdefinition⟩
      · exact hshown (.block left place hdefinition) h

/-! ## Visits that are alike

Two visits of a block are alike if the variables have the same values. They end in the same depth, so a visit that
comes to one that is alike to itself would end in a depth smaller than its own. -/

/-- The two visits are of the same block definition, with the same variables. -/
inductive Alike : Visit → Visit → Prop where
  /-- from places where each variable has the same value -/
  | block (left : Nat) (l : Layout) (name : String) (level : Nat) {place place' : Place}
    (h : place.scope.Same place'.scope) : Alike (.block left l name level place) (.block left l name level place')

theorem Alike.symm (h : v.Alike w) : w.Alike v := by
  obtain ⟨left, l, name, level, h⟩ := h
  exact ⟨left, l, name, level, h.symm⟩

/-- Where variables have the same values, block definitions end together. -/
theorem within_like (depth left : Nat) (l : Layout) (name : String) (level : Nat) {place place' : Place}
    (h : place.scope.Same place'.scope) :
    Likeness.together.Like Eq
      (((Visit.block left l name level place).within site request depth).transcript site.catalog)
      (((Visit.block left l name level place').within site request depth).transcript site.catalog) := by
  induction depth generalizing left l name level place place' with
  | zero => exact Likeness.together_refl _
  | succ depth ih =>
    simp only [within, run]
    cases l.table.definition? name level with
    | none => exact .fault trivial (.noParentBlock name)
    | some definition =>
      refine renderAll_like (.refl request) ⟨fun name level _ _ hplaces => ?_, fun path context => ?_⟩ _
        ⟨h, trivial, rfl⟩
      · exact ih left l name level hplaces.scope
      · exact Likeness.together_refl _

theorem Alike.endsWithin (h : v.Alike w) {depth : Nat} (hends : v.EndsWithin site request depth) :
    w.EndsWithin site request depth := by
  obtain ⟨left, l, name, level, hsame⟩ := h
  exact fun hend => hends ((Likeness.together_endless (within_like depth left l name level hsame)).mpr hend)

variable (site request) in
/-- From the visit, a block definition is come to, and from there again the same one with the same variables. -/
def GoesRound (v : Visit) : Prop :=
  ∃ first again, Relation.ReflTransGen (Enters site request) v first ∧
    Relation.TransGen (Enters site request) first again ∧ first.Alike again

/-- What comes to a visit that goes round goes round. -/
theorem GoesRound.of_reflTransGen (hreach : Relation.ReflTransGen (Enters site request) v w)
    (h : w.GoesRound site request) : v.GoesRound site request := by
  obtain ⟨first, again, hfirst, hagain, halike⟩ := h
  exact ⟨first, again, hreach.trans hfirst, hagain, halike⟩

/-- What is come to again would have to end within a smaller depth than itself. -/
theorem not_endsWithin_of_transGen {first again : Visit} (hagain : Relation.TransGen (Enters site request) first again)
    (halike : first.Alike again) (depth : Nat) : ¬first.EndsWithin site request depth := by
  induction depth using Nat.strongRecOn with
  | ind depth ih =>
    intro hends
    obtain ⟨depth', hlt, hends'⟩ := endsWithin_of_transGen hagain hends
    -- the first is like the second, and so would end within that depth already
    exact ih depth' hlt (halike.symm.endsWithin hends')

/-- A visit that ends does not go round. -/
theorem not_goesRound_of_endsWithin {depth : Nat} (h : v.EndsWithin site request depth) :
    ¬v.GoesRound site request := by
  rintro ⟨first, again, hfirst, hagain, halike⟩
  obtain ⟨depth', -, hends⟩ := endsWithin_of_reflTransGen hfirst h
  exact not_endsWithin_of_transGen hagain halike depth' hends

end

end Visit

end ThemedPages
