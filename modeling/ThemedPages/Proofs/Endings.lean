import Mathlib.Data.List.Perm.Subperm
import ThemedPages.Proofs.Pages
import ThemedPages.Proofs.Standings
import ThemedPages.Proofs.Visits

/-!
# Which pages end

Templates can not extend each other in a circle, and snippets can not be nested without end. But block definitions can
enclose each other: where one template defines `b` inside of `a`, and another one `a` inside of `b`, a page may come
from `a` to `b` and to `a` again. Nothing keeps it from that, and it is the only way for a page not to end.

* `Site.snippetAt_nears`: what is rendered at all is rendered in visits that are nested deep enough.
* `Site.goesRound_of_endless`: a page that is not rendered to its end goes round. In a layout there are only so many
  ways to stand in a block definition, so that one that is nested deeper comes by one of them again.
* `Site.ends_iff_not_goesRound` puts this together. `Site.renderRounds_eq_error_iff` says how else pages end without
  being complete.
-/

namespace ThemedPages

open Filter

namespace Site

variable {site : Site} {request : Request} {rounds : Nat}

/-! ## What is rendered

A page is given a number of rounds that is computed from it, and visits are given a depth. What was rendered with
rounds is rendered in visits too, if they may be nested deep enough. -/

/-- A visit in some depth is its render with those of the next smaller depth. -/
theorem nears_within {t : Transcript Unit} {v : Visit}
    (h : t.Nears atTop fun depth => (v.run site request (Visit.within site request depth)).transcript site.catalog) :
    t.Nears atTop fun depth => (v.within site request depth).transcript site.catalog := by
  unfold Transcript.Nears
  rw [← map_add_atTop_eq_nat 1, eventually_map]
  exact h

/-- What is rendered of a block definition is rendered in visits that are nested deep enough. -/
theorem table_nears {left : Nat} {snippet : String → Context → Run Unit}
    (h : ∀ path context, ((snippet path context).transcript site.catalog).Nears atTop
      fun depth => ((Visit.page left path context).within site request depth).transcript site.catalog)
    (l : Layout) (fuel : Nat) (name : String) (level : Nat) (place : Place) :
    ((l.table.render request snippet fuel name level place).transcript site.catalog).Nears atTop
      fun depth => ((Visit.block left l name level place).within site request depth).transcript site.catalog := by
  induction fuel generalizing name level place with
  -- out of rounds the table runs without end, which is near to whatever comes
  | zero => exact .of_endless rfl
  -- a visit enters the definition too, and both render the same nodes with their exits near
  | succ fuel ih =>
    apply nears_within
    rw [BlockTable.render]
    simp only [Visit.run]
    cases l.table.definition? name level with
    | none => exact .refl _
    | some definition =>
      refine renderAll_nears (fun exit => ?_) _ _
      simp only [Exits.take_into]
      cases exit with
      | block name level place => exact ih name level place
      | snippet path context => exact h path context

/-- What is rendered of a snippet is rendered in visits that are nested deep enough. -/
theorem snippetAt_nears (left : Nat) (path : String) (context : Context) :
    ((site.snippetAt request rounds left path context).transcript site.catalog).Nears atTop
      fun depth => ((Visit.page left path context).within site request depth).transcript site.catalog := by
  induction left generalizing path context with
  | zero => exact nears_within (.refl _)
  | succ left ih =>
    rw [snippetAt_succ]
    refine nears_within (.bind (.refl _) fun l _ => renderAll_nears (fun exit => ?_) _ _)
    simp only [Exits.take_into]
    cases exit with
    | block name level place => exact table_nears ih l _ name level place
    | snippet path context => exact ih path context

/-- The ways out that are taken lead to visits. -/
theorem enters_of_comes {left : Nat} {snippet : String → Context → Run Unit}
    (h : ∀ path context, ((snippet path context).transcript site.catalog).Nears atTop
      fun depth => ((Visit.page left path context).within site request depth).transcript site.catalog)
    {v : Visit} {l : Layout} {nodes : List Node} {place : Place} (hshows : v.Shows site request left l nodes place)
    {fuel : Nat} {exit : Exit}
    (hcomes : Comes site.catalog request ⟨l.table.render request snippet fuel, snippet⟩ nodes place exit) :
    v.Enters site request (exit.visit left l) := by
  have hcomes' : ∀ᶠ depth in atTop,
      Comes site.catalog request (.into (Visit.within site request depth) left l) nodes place exit := by
    refine hcomes.nears fun exit => ?_
    simp only [Exits.take_into]
    cases exit with
    | block name level place => exact table_nears h l fuel name level place
    | snippet path context => exact h path context
  obtain ⟨depth, hdepth⟩ := hcomes'.exists
  exact .intro depth hshows hdepth

/-! ## What is not rendered

The invariant is a trail: the standings in which the block definitions around the present one were entered. Each of
them leads to the present one (`Passed`), and they are all different. When the rounds are used up, the trail has more
standings than there are, so before that one of them came again. -/

/-- On the way from one visit to another there is a block definition of the layout, in some standing. -/
def Passed (site : Site) (request : Request) (context : Context) (start : Visit) (left : Nat) (l : Lineage)
    (standing : (String × Nat) × List (Option Value)) (v : Visit) : Prop :=
  ∃ name level place, standing = ((name, level), place.scope.standing l.allLoopNames) ∧
    place.scope.Drawn request context l.allLoopNames ∧
    Relation.ReflTransGen (Visit.Enters site request) start (.block left l.layout name level place) ∧
    Relation.TransGen (Visit.Enters site request) (.block left l.layout name level place) v

/-- A block definition that is come to again in the same standing. -/
theorem Passed.goesRound {context : Context} {start : Visit} {left : Nat} {l : Lineage} {name : String} {level : Nat}
    {place : Place}
    (h : Passed site request context start left l ((name, level), place.scope.standing l.allLoopNames)
      (.block left l.layout name level place))
    (hplace : place.scope.Drawn request context l.allLoopNames) : start.GoesRound site request := by
  obtain ⟨name', level', place', hstanding, hplace', hreach, hagain⟩ := h
  obtain ⟨hkey, hitems⟩ := Prod.mk.inj hstanding
  obtain ⟨rfl, rfl⟩ := Prod.mk.inj hkey
  exact ⟨_, _, hreach, hagain, .block left l.layout name level (hplace'.same hplace hitems.symm)⟩

/-- A block definition of a page that is not rendered to its end: each one nested in it stands in another way, until
one does not. -/
theorem goesRound_of_table_endless {context : Context} {start : Visit} {left : Nat} {l : Lineage}
    {snippet : String → Context → Run Unit}
    (hnears : ∀ path context, ((snippet path context).transcript site.catalog).Nears atTop
      fun depth => ((Visit.page left path context).within site request depth).transcript site.catalog)
    (hsnippet : ∀ path context, ((snippet path context).transcript site.catalog).outcome = .error .endless →
      (Visit.page left path context).GoesRound site request)
    (fuel : Nat) {trail : List ((String × Nat) × List (Option Value))} {name : String} {level : Nat} {place : Place}
    (hreach : Relation.ReflTransGen (Visit.Enters site request) start (.block left l.layout name level place))
    (hplace : place.scope.Drawn request context l.allLoopNames)
    (htrail : ∀ standing ∈ trail,
      Passed site request context start left l standing (.block left l.layout name level place))
    (hnodup : trail.Nodup) (hsubset : trail ⊆ l.allStandings request context)
    (hfuel : l.layout.standings request context < fuel + trail.length)
    (hend : ((l.layout.table.render request snippet fuel name level place).transcript site.catalog).outcome =
      .error .endless) : start.GoesRound site request := by
  induction fuel generalizing trail name level place with
  | zero =>
    -- the standings on the trail are all different, and there are no more than these
    have hlength := (List.subperm_of_subset hnodup hsubset).length_le
    rw [l.length_allStandings] at hlength
    omega
  | succ fuel ih =>
    rw [BlockTable.render] at hend
    rcases hdefinition : l.layout.table.definition? name level with _ | definition <;> rw [hdefinition] at hend
    · cases hend
    · dsimp only at hend
      by_cases hpassed : ((name, level), place.scope.standing l.allLoopNames) ∈ trail
      · exact (htrail _ hpassed).goesRound hplace
      · -- this standing joins the trail, and the next definition in it does not end either
        have hdefinition' : l.definition? name level = some definition := by
          rw [← l.definition?_table]
          exact hdefinition
        obtain ⟨exit, hcomes, hexit⟩ := exists_comes_of_endless hend
        have henters := enters_of_comes hnears (.block left place hdefinition) hcomes
        cases exit with
        | snippet path params => exact (hsnippet path params hexit).of_reflTransGen (hreach.tail henters)
        | block name' level' place' =>
          have hplace' := hcomes.drawn (l.loopNamesIn_definition hdefinition') ⟨hplace.page, hplace.bound⟩ rfl
          refine ih (hreach.tail henters) hplace' ?_ (List.nodup_cons.mpr ⟨hpassed, hnodup⟩) ?_ ?_ hexit
          · intro standing hstanding
            rcases List.mem_cons.mp hstanding with rfl | hstanding
            · exact ⟨name, level, place, rfl, hplace, hreach, .single henters⟩
            · obtain ⟨name₁, level₁, place₁, hstanding₁, hplace₁, hreach₁, hagain₁⟩ := htrail _ hstanding
              exact ⟨name₁, level₁, place₁, hstanding₁, hplace₁, hreach₁, hagain₁.tail henters⟩
          · have hmem := Lineage.mem_allStandings (Option.isSome_of_eq_some hdefinition') hplace
            exact List.cons_subset.mpr ⟨hmem, hsubset⟩
          · rw [List.length_cons]
            omega

/-- A block definition of a page that is not rendered to its end, come to from the body of the page. -/
theorem goesRound_of_base_endless (hrounds : 0 < rounds) {start : Visit} {left : Nat} {l : Lineage} {context : Context}
    (hsnippet : ∀ path context,
      ((site.snippetAt request rounds left path context).transcript site.catalog).outcome = .error .endless →
        (Visit.page left path context).GoesRound site request)
    {name : String} {level : Nat} {place : Place} (hplace : place.scope.Drawn request context l.allLoopNames)
    (hreach : Relation.ReflTransGen (Visit.Enters site request) start (.block left l.layout name level place))
    (hend : ((l.layout.table.render request (site.snippetAt request rounds left)
      (l.layout.standings request context * rounds + 1) name level place).transcript site.catalog).outcome =
        .error .endless) : start.GoesRound site request := by
  have hnone : ∀ standing ∈ [], Passed site request context start left l standing
      (.block left l.layout name level place) := fun _ h => absurd h List.not_mem_nil
  refine goesRound_of_table_endless (snippetAt_nears left) hsnippet _ hreach hplace hnone List.nodup_nil
    (List.nil_subset _) ?_ hend
  have hmul := Nat.le_mul_of_pos_right (l.layout.standings request context) hrounds
  rw [List.length_nil]
  omega

/-- A snippet, or a page, that is not rendered to its end goes round. -/
theorem goesRound_of_endless (hrounds : 0 < rounds) (left : Nat) (path : String) (context : Context)
    (hend : ((site.snippetAt request rounds left path context).transcript site.catalog).outcome = .error .endless) :
    (Visit.page left path context).GoesRound site request := by
  induction left generalizing path context with
  | zero => cases hend
  | succ left ih =>
    rw [snippetAt_succ, Request.render, Run.transcript_bind, Run.transcript_layout,
      Transcript.outcome_bind_eq_error] at hend
    rcases hend with hend | ⟨layout, hlayout, hend⟩
    · -- looking up a layout always comes to an end
      exact (Catalog.layout_ne_endless _ _ hend).elim
    · obtain ⟨l, -, rfl⟩ := Catalog.exists_lineage_of_layout hlayout
      rw [Layout.render] at hend
      obtain ⟨exit, hcomes, hexit⟩ := exists_comes_of_endless hend
      have henters := enters_of_comes (snippetAt_nears left) (.page left context hlayout) hcomes
      cases exit with
      | snippet path params => exact (ih path params hexit).of_reflTransGen (.single henters)
      | block name level place =>
        have hplace := hcomes.drawn (l.loopNamesIn_subset_allLoopNames l.base_mem_templates) .ofContext rfl
        exact goesRound_of_base_endless hrounds ih hplace (.single henters) hexit

/-! ## Pages with an end

Both directions come together: a page that does not go round is rendered with the rounds that it is given, and one
that goes round is rendered in no depth. -/

/-- What is to be done to render the page at a path, in visits nested at most so deep. -/
def renderWithin (site : Site) (request : Request) (depth : Nat) (path : String) (context : Context) : Run Unit :=
  (Visit.page (site.snippetLimit + 1) path context).within site request depth

/-- The page at a path has an end: it comes to it in visits that are nested deep enough. -/
def Ends (site : Site) (request : Request) (path : String) (context : Context) : Prop :=
  ∃ depth, ((site.renderWithin request depth path context).transcript site.catalog).outcome ≠ .error .endless

/-- The page at a path goes round: a block definition is come to, and from within it the same one again, with the same
values of all variables. -/
def GoesRound (site : Site) (request : Request) (path : String) (context : Context) : Prop :=
  (Visit.page (site.snippetLimit + 1) path context).GoesRound site request

/-- All of a page is rendered in visits that are nested deep enough. -/
theorem renderRounds_nears (path : String) (context : Context) :
    ((site.renderRounds request rounds path context).transcript site.catalog).Nears atTop
      fun depth => (site.renderWithin request depth path context).transcript site.catalog :=
  snippetAt_nears (site.snippetLimit + 1) path context

/-- A page that ends is rendered to its end. -/
theorem renderRounds_ne_endless (hrounds : 0 < rounds) {path : String} {context : Context}
    (h : site.Ends request path context) :
    ((site.renderRounds request rounds path context).transcript site.catalog).outcome ≠ .error .endless := by
  obtain ⟨depth, hdepth⟩ := h
  exact fun hend => Visit.not_goesRound_of_endsWithin hdepth (goesRound_of_endless hrounds _ path context hend)

/-- What is rendered to its end is all there is. -/
theorem renderRounds_transcript (hrounds : 0 < rounds) {depth : Nat} {path : String} {context : Context}
    (h : ((site.renderWithin request depth path context).transcript site.catalog).outcome ≠ .error .endless) :
    (site.renderRounds request rounds path context).transcript site.catalog =
      (site.renderWithin request depth path context).transcript site.catalog := by
  have hend := renderRounds_ne_endless hrounds ⟨depth, h⟩
  obtain ⟨depth', hdepth'⟩ := ((renderRounds_nears path context).eq hend).exists
  rw [hdepth'] at hend ⊢
  exact Visit.EndsWithin.transcript_eq hend h

/-- A page goes wrong exactly if a visit is come to that does, unless an expression is to blame. -/
theorem renderRounds_eq_error_iff (hrounds : 0 < rounds) {path : String} {context : Context} {stop : Stop}
    (hstop : stop ≠ .endless)
    (hunspoilt : (Visit.page (site.snippetLimit + 1) path context).Unspoilt site request stop) :
    ((site.renderRounds request rounds path context).transcript site.catalog).outcome = .error stop ↔
      ∃ w, Relation.ReflTransGen (Visit.Enters site request) (.page (site.snippetLimit + 1) path context) w ∧
        w.Fails site request stop := by
  have hends : ∀ {o : Except Stop Unit}, o = .error stop → o ≠ .error .endless := by
    rintro _ rfl hend
    exact hstop (Except.error.inj hend)
  constructor
  · intro h
    obtain ⟨depth, hdepth⟩ := ((renderRounds_nears path context).eq (hends h)).exists
    rw [hdepth] at h
    exact Visit.exists_fails_of_error hstop hunspoilt h
  · rintro ⟨w, hreach, hfails⟩
    obtain ⟨depth, hdepth⟩ := hfails.outcome_of_reflTransGen hstop hreach
    rw [renderRounds_transcript hrounds (hends hdepth)]
    exact hdepth

/-- A page ends unless it goes round. A page that ends is rendered to its end, wherever it is written; of a page that
goes round, no depth is enough. -/
theorem ends_iff_not_goesRound (site : Site) (request : Request) (path : String) (context : Context) :
    (site.Ends request path context ↔ ¬site.GoesRound request path context) ∧
    ((site.keep request path context).outcome = .error .endless ↔ site.GoesRound request path context) ∧
    ∀ depth, ((site.renderWithin request depth path context).transcript site.catalog).outcome ≠ .error .endless →
      ∀ (σ : Type) (sink : Sink σ) (st : σ), site.deliver request path context sink st =
        (site.renderWithin request depth path context).deliver site.catalog sink st := by
  -- what is not done within its rounds comes by one of its visits again
  have hkeep : (site.keep request path context).outcome = .error .endless → site.GoesRound request path context := by
    intro h
    rw [keep_outcome] at h
    exact goesRound_of_endless Nat.one_pos _ path context h
  -- what does so ends in no depth
  have hround : site.GoesRound request path context → ¬site.Ends request path context :=
    fun h ⟨depth, hdepth⟩ => Visit.not_goesRound_of_endsWithin hdepth h
  -- what comes of the rounds, if anything, comes of some depth as well
  have hends : (site.keep request path context).outcome ≠ .error .endless → site.Ends request path context := by
    intro h
    rw [keep_outcome] at h
    obtain ⟨depth, hdepth⟩ := ((renderRounds_nears path context).eq h).exists
    exact ⟨depth, hdepth ▸ h⟩
  refine ⟨⟨fun h hgoes => hround hgoes h, fun h => hends fun hend => h (hkeep hend)⟩, ⟨hkeep, fun h => ?_⟩, ?_⟩
  · by_contra hend
    exact hround h (hends hend)
  · intro depth hdepth σ sink st
    rw [deliver, Run.deliver_eq, Run.deliver_eq, renderRounds_transcript (Nat.succ_pos _) hdepth]

/-- The default templates `base.html`, where `b` is defined inside of `a`, and `page.html`, where `a` is defined inside
of `b` and inherits from the other. -/
def crossed : Site :=
  .ofCatalog (.ofRoot (.inMemory Root.defaultName
    [("base.html", .ok "@block a \x7bx@block b \x7b\x7d\x7d"),
      ("page.html", .ok "@extends(\"base.html\")@block b \x7b@block a \x7b@super()\x7d\x7d")]))

/-- Not every page ends. -/
theorem not_forall_ends : ¬∀ (site : Site) (request : Request) (path : String) (context : Context),
    site.Ends request path context := by
  intro hall
  have hendless : (crossed.keep ⟨none, .empty, Helpers.standard⟩ "page.html" .empty).outcome = .error .endless := by
    decide +kernel
  rw [keep_outcome] at hendless
  -- were there any depth that is enough, this would have been enough too
  exact renderRounds_ne_endless Nat.one_pos (hall crossed _ _ _) hendless

end Site

end ThemedPages
