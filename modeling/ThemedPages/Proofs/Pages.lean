import Mathlib.Data.List.Forall2
import ThemedPages.Proofs.Deliveries

/-!
# Pages of two sites

Where two catalogs find templates that go together, they find lineages that do: `Catalog.lineageOf_like`. Where two
sites find layouts that are alike under every path, they deliver pages that are alike: `Site.Finds.deliver_alike`. All
that a page takes from a site is the layouts that are found and the limit on snippets within snippets.

The way from templates to pages is in three stages, and each of them is an induction on a bound: on the ancestors that
are still to come, on the block definitions that are entered, and on the snippets within snippets. The bounds are the
same on both sides, so where one runs out the other does, and being cut off has to be alike to itself.
-/

namespace ThemedPages

/-! ## Lineages that are alike

Templates that go together have parents that do, and whether two of a lineage are the same has to be the same on both
sides. This is what `Likeness.Pairs` asks for. -/

/-- Templates that are related go together: they extend the same, and two of them are one template if and only if the
other two are. -/
structure Likeness.Pairs (L : Likeness) (V : Loaded → Loaded → Prop) : Prop where
  /-- what they extend -/
  parent {t t' : Loaded} (h : V t t') : t.template.parent = t'.template.parent
  /-- where two of them are from -/
  origin {t t' u u' : Loaded} (ht : V t t') (hu : V u u') : t.origin = u.origin ↔ t'.origin = u'.origin
  /-- a circle of them -/
  cyclic {ts ts' : List Loaded} (h : List.Forall₂ V ts ts') :
    L.stop (.error (.cyclic (ts.map fun t => t.origin.text))) (.error (.cyclic (ts'.map fun t => t.origin.text)))

section

variable {L : Likeness} {V : Loaded → Loaded → Prop}

/-- A parent was met before on both sides or on neither. -/
theorem Likeness.Pairs.any_origin_eq (hV : L.Pairs V) {ts ts' : List Loaded} {u u' : Loaded}
    (h : List.Forall₂ V ts ts') (hu : V u u') :
    (ts.any fun t => t.origin = u.origin) = ts'.any fun t => t.origin = u'.origin := by
  induction h with
  | nil => rfl
  | cons ht _ ih => simp only [List.any_cons, ih, hV.origin ht hu]

/-- The way up leads through templates that go together. -/
theorem Lineage.climb_like (hV : L.Pairs V) (hendless : L.stop .endless .endless)
    {find find' : String → Transcript Loaded} (hfind : ∀ path, L.Like V (find path) (find' path)) (fuel : Nat)
    {below below' : List Loaded} {current current' : Loaded} (hbelow : List.Forall₂ V below below')
    (hcurrent : V current current') :
    L.Like (List.Forall₂ V) (climb find fuel below current) (climb find' fuel below' current') := by
  induction fuel generalizing below below' current current' with
  | zero => exact ⟨L.nil, hendless⟩
  | succ fuel ih =>
    rw [climb, climb, ← hV.parent hcurrent]
    cases current.template.parent with
    | none => exact .pure .nil
    | some path =>
      refine (hfind path).bind fun parent parent' hparent => ?_
      have hbelow' := List.rel_append hbelow (.cons hcurrent .nil)
      dsimp only
      -- the parent is among those below it on both ways up, or on none
      rw [hV.any_origin_eq hbelow' hparent]
      split
      · exact .fail (hV.cyclic (List.rel_append hbelow' (.cons hparent .nil)))
      · exact (ih hbelow' hparent).bind fun _ _ hancestors => .pure (.cons hparent hancestors)

/-- The lineages of templates that go together are of such templates. -/
theorem Catalog.lineageOf_like (hV : L.Pairs V) (hendless : L.stop .endless .endless) {c c' : Catalog}
    {theme theme' : Option String} (hfind : ∀ path, L.Like V (c.find ⟨path, theme⟩) (c'.find ⟨path, theme'⟩))
    {leaf leaf' : Loaded} (hleaf : V leaf leaf') :
    L.Like (fun l l' => List.Forall₂ V l.templates l'.templates) (c.lineageOf theme leaf)
      (c'.lineageOf theme' leaf') := by
  -- the bounds on the ways up are different, and make no difference
  rw [lineageOf_eq c theme leaf (Nat.le_max_left _ (c'.extent + 2)),
    lineageOf_eq c' theme' leaf' (Nat.le_max_right (c.extent + 2) _)]
  exact (Lineage.climb_like hV hendless hfind _ .nil hleaf).map fun _ _ hancestors => .cons hleaf hancestors

end

/-! ## Layouts that are alike

Two layouts are alike if the bodies are the same and each block has the same definitions, written in templates that
correspond. -/

/-- The layouts show the same in templates whose faults are alike. -/
structure Likeness.Layouts (L : Likeness) (l l' : Layout) : Prop where
  /-- the pages -/
  body : l.base.template.body = l'.base.template.body
  /-- the templates of the pages -/
  origin : L.origin l.base.origin l'.base.origin
  /-- the definitions of the blocks -/
  definition (name : String) (level : Nat) :
    Option.Rel (fun d d' => L.origin d.origin d'.origin ∧ d.body = d'.body) (l.table.definition? name level)
      (l'.table.definition? name level)
  /-- how many there are -/
  definitions : l.definitions = l'.definitions
  /-- the names of the variables of loops -/
  loopNames : l.loopNames = l'.loopNames

theorem Likeness.Layouts.refl {L : Likeness} (h : ∀ o, L.origin o o) (l : Layout) : L.Layouts l l where
  body := rfl
  origin := h _
  definition name level := by
    cases l.table.definition? name level with
    | none => exact .none
    | some d => exact .some ⟨h _, rfl⟩
  definitions := rfl
  loopNames := rfl

section

variable {L : Likeness} {c c' : Catalog} {request request' : Request} {snippet snippet' : String → Context → Run Unit}

/-- Block definitions are rendered alike, however often they are entered. -/
theorem BlockTable.render_like (hrequest : request.Alike request')
    (hsnippet : ∀ path context,
      L.Like Eq ((snippet path context).transcript c) ((snippet' path context).transcript c'))
    (hendless : L.stop .endless .endless) {l l' : Layout} (h : L.Layouts l l') (fuel : Nat) (name : String)
    (level : Nat) {place place' : Place} (hplace : L.Places place place') :
    L.Like Eq ((l.table.render request snippet fuel name level place).transcript c)
      ((l'.table.render request' snippet' fuel name level place').transcript c') := by
  induction fuel generalizing name level place place' with
  -- both have run out of rounds
  | zero => exact ⟨L.nil, hendless⟩
  | succ fuel ih =>
    have hdefinition := h.definition name level
    rw [render, render]
    generalize l.table.definition? name level = d, l'.table.definition? name level = d' at hdefinition
    -- both tables have the definition, or neither has
    cases hdefinition with
    | none => exact .fault hplace.origin (.noParentBlock name)
    | some hd =>
      dsimp only
      rw [hd.2]
      exact renderAll_like hrequest ⟨fun name level _ _ hplace => ih name level hplace, hsnippet⟩ _
        ⟨hplace.scope, hd.1, rfl⟩

/-- So are pages, given that snippets are. -/
theorem Layout.render_like (hrequest : request.Alike request')
    (hsnippet : ∀ path context,
      L.Like Eq ((snippet path context).transcript c) ((snippet' path context).transcript c'))
    (hendless : L.stop .endless .endless) {l l' : Layout} (h : L.Layouts l l') (rounds : Nat) (context : Context) :
    L.Like Eq ((l.render request snippet rounds context).transcript c)
      ((l'.render request' snippet' rounds context).transcript c') := by
  have hstandings : l.standings request context = l'.standings request' context := by
    rw [standings, standings, h.definitions, h.loopNames, hrequest.globals]
  rw [render, render, hstandings, h.body]
  have hexits := fun name level place place' (hplace : L.Places place place') =>
    BlockTable.render_like hrequest hsnippet hendless h (l'.standings request' context * rounds + 1) name level hplace
  exact renderAll_like hrequest ⟨fun name level place place' => hexits name level place place', hsnippet⟩ _
    ⟨.refl _, h.origin, rfl⟩

end

/-! ## Pages that are alike

A snippet is a page with one fewer snippet to go, and the induction is on that number. -/

namespace Site

variable {L : Likeness} {site site' : Site} {request request' : Request} {rounds : Nat}

/-- What is to be done for a snippet, with at most so many nested in each other, itself included. -/
def snippetAt (site : Site) (request : Request) (rounds : Nat) : Nat → String → Context → Run Unit
  | 0, path, _ => Run.fail (.includeDepth path site.snippetLimit)
  | left + 1, path, context => site.renderNested request rounds left path context

theorem snippetAt_succ (left : Nat) (path : String) (context : Context) :
    site.snippetAt request rounds (left + 1) path context =
      request.render (site.snippetAt request rounds left) rounds path context := by
  cases left <;> rfl

/-- What the two sites find is alike, and so is whatever else can happen. -/
structure Finds (L : Likeness) (site site' : Site) (request request' : Request) : Prop where
  /-- what belongs to the requests -/
  alike : request.Alike request'
  /-- the limits on snippets within snippets -/
  limit : site.snippetLimit = site'.snippetLimit
  /-- the layouts -/
  layout (path : String) : L.Like L.Layouts (site.catalog.layout ⟨path, request.theme⟩)
    (site'.catalog.layout ⟨path, request'.theme⟩)
  /-- errors that have nothing to do with what is found -/
  stop (s : Stop) : L.stop s s

/-- Snippets are rendered alike, however deep they go. -/
theorem Finds.snippetAt_like (h : Finds L site site' request request') (rounds left : Nat) (path : String)
    (context : Context) :
    L.Like Eq ((site.snippetAt request rounds left path context).transcript site.catalog)
      ((site'.snippetAt request' rounds left path context).transcript site'.catalog) := by
  induction left generalizing path context with
  | zero =>
    rw [snippetAt, snippetAt, h.limit]
    exact .fail (h.stop _)
  | succ left ih =>
    rw [snippetAt_succ, snippetAt_succ]
    exact (h.layout path).bind fun l l' hl => Layout.render_like h.alike ih (h.stop _) hl rounds context

/-- The sites deliver pages that are alike. -/
theorem Finds.deliver_alike (h : Finds L site site' request request')
    (hevents : ∀ {es es'}, L.events es es' → effects es = effects es') (path : String) (context : Context) {σ : Type}
    (sink : Sink σ) (st : σ) :
    (site.deliver request path context sink st).Alike L (site'.deliver request' path context sink st) := by
  have hlike := h.snippetAt_like ((sink.room st).getD 0 + 1) (site.snippetLimit + 1) path context
  rw [deliver, deliver, renderRounds, renderRounds, ← h.limit]
  exact Run.deliver_alike hlike (hevents hlike.events) (fun _ => h.stop _) sink st

/-- Sites that find the same layouts deliver the same pages. -/
theorem deliver_congr {request : Request} (hlimit : site.snippetLimit = site'.snippetLimit)
    (hlayout : ∀ path, site.catalog.layout ⟨path, request.theme⟩ = site'.catalog.layout ⟨path, request.theme⟩)
    (path : String) (context : Context) {σ : Type} (sink : Sink σ) (st : σ) :
    site.deliver request path context sink st = site'.deliver request path context sink st := by
  have hfinds : Finds .exact site site' request request := by
    refine ⟨.refl request, hlimit, fun path => ?_, fun _ => rfl⟩
    rw [hlayout]
    exact .refl (fun _ => rfl) (fun _ => rfl) (fun l => .refl (fun _ => rfl) l) _
  have hlike := hfinds.snippetAt_like ((sink.room st).getD 0 + 1) (site.snippetLimit + 1) path context
  have hsame := Likeness.eq_of_exact hlike
  rw [snippetAt, snippetAt] at hsame
  rw [deliver, deliver, renderRounds, renderRounds, Run.deliver_eq, Run.deliver_eq, ← hlimit, hsame]

end Site

end ThemedPages
