import ThemedPages.Proofs.Checks
import ThemedPages.Proofs.Endings
import ThemedPages.Proofs.Histories
import ThemedPages.Proofs.Provenance
import ThemedPages.Proofs.Spots

/-!
# Places as they are written

What a render knows of the place where it has come to is what can be read off the template there: in which one it is,
and in which definition of which block. So what is checked when a template is read can be relied on when it is rendered.

* `Catalog.OnlyRead`: all templates that a site finds were read from sources, whatever was done with it before.
* `Lineage.Locates` says that a node is written at some spot of a template of a lineage, and that its place is what can
  be read off there.
* `Site.Reached` says which nodes are come to when a page is rendered. `Site.Reached.exists_locates`: each of them is
  located.
* `Site.reached_as_written` puts this together with what was checked when the templates were read.

A page is rendered by going from visit to visit, into a block definition or a snippet each time, and within each visit
from node to node. The first is a chain, along which every visit stays one of some lineage (`Visit.OfLineage`), and the
second is an induction on what is reached (`Lineage.locates_of_reaches`).
-/

namespace ThemedPages

/-! ## Templates that were read

What is on the shelf was loaded at some time, and loading reads a source. A history keeps this, as each operation
does. -/

/-- The template was read from a source. -/
def Template.WasRead (t : Template) : Prop := ∃ name source, Template.read name source = .ok t

namespace Catalog

variable {c : Catalog} {key : Key} {found : Loaded}

/-- All templates that are remembered were read. -/
def OnlyRead (c : Catalog) : Prop :=
  ∀ key shelved, c.shelf.lookup key = some shelved → shelved.found.template.WasRead

theorem wasRead_of_load (h : (c.load key).outcome = .ok found) : found.template.WasRead := by
  obtain ⟨-, -, root, -, -, source, -, hread⟩ := exists_root_of_load h
  exact ⟨_, _, hread⟩

theorem OnlyRead.of_find (hc : c.OnlyRead) (h : (c.find key).outcome = .ok found) : found.template.WasRead := by
  obtain ⟨-, hshelved | ⟨-, hload⟩⟩ := find_eq_ok_iff.mp h
  · obtain ⟨shelved, hlookup, rfl⟩ := Option.map_eq_some_iff.mp hshelved
    exact hc key shelved hlookup
  · exact wasRead_of_load hload

theorem OnlyRead.of_lineage (hc : c.OnlyRead) {l : Lineage} (hl : (c.lineage key).outcome = .ok l) {t : Loaded}
    (ht : t ∈ l.templates) : t.template.WasRead := by
  obtain ⟨key', hopened⟩ := opened_of_lineage hl t ht
  have hfound : (c.find key').outcome = .ok t := onlyLooksUp_lineage key _ hopened
  exact hc.of_find hfound

end Catalog

/-- Whatever was done with a site, all that it remembers was read. -/
theorem Site.onlyRead_run (base : Root) (themes : ByName Root) (snippetLimit : Nat) (history : List Operation) :
    ((new base themes snippetLimit).run history).catalog.OnlyRead := by
  intro key shelved hlookup
  have hnew : (new base themes snippetLimit).catalog.shelf = [] := rfl
  obtain ⟨hnone, hsome⟩ := shelf_run hnew history key
  rcases hfirst : (new base themes snippetLimit).firstFound? key history with _ | first
  · rw [hnone hfirst] at hlookup
    cases hlookup
  · obtain ⟨serial, hrecalls⟩ := hsome first hfirst
    obtain rfl := Option.some.inj (hrecalls.now.symm.trans hlookup)
    exact Catalog.wasRead_of_load hrecalls.load

/-! ## Nodes that are located

A spot of a template is made of two: that of the block definition, and that of the node in it. -/

/-- The node is among some nodes that are shown, at a spot in these, and at a spot of a template as a whole; its place
is what can be read off there. -/
structure Lineage.Locates (l : Lineage) (t : Loaded) (whole : Spot) (nodes : List Node) (spot : Spot) (node : Node)
    (place : Place) : Prop where
  /-- the template is in the lineage -/
  template : t ∈ l.templates
  /-- it is the one that the place is in -/
  origin : place.origin = t.origin
  /-- in it the node is written, and the block around it most closely is that of the place -/
  written : nodeAt? none whole t.template.body = some (place.enclosing.map (·.block), node)
  /-- if there is none, the page itself is shown -/
  page (h : place.enclosing = none) : t = l.base ∧ nodes = t.template.body ∧ whole = spot
  /-- if there is one, what is shown is the definition that the template gives of that block, which is the definition
  at the level of the place -/
  definition {enclosing : Enclosing} (h : place.enclosing = some enclosing) :
    l.layout.table.definition? enclosing.block enclosing.level = some ⟨t.origin, nodes⟩ ∧
      ∃ outer around, whole = outer ++ .into :: spot ∧
        nodeAt? none outer t.template.body = some (around, .block enclosing.block nodes)

section

variable {l : Lineage} {t : Loaded} {whole : Spot} {nodes : List Node} {spot : Spot} {node : Node} {place : Place}

theorem Lineage.Locates.mem_nodesIn (h : l.Locates t whole nodes spot node place) :
    node ∈ nodesIn t.template.body :=
  mem_nodesIn_of_nodeAt? h.written

/-- Nodes that are written in no block but that of a definition are come to as they are written. -/
theorem Lineage.locates_of_reaches {c : Catalog} {request : Request} {exits : Exits} {start : Place}
    (hreaches : Reaches c request exits nodes start spot node place)
    (h : start.enclosing = none ∧ start.origin = l.base.origin ∧ nodes = l.base.template.body ∨
      ∃ enclosing, start.enclosing = some enclosing ∧
        l.layout.table.definition? enclosing.block enclosing.level = some ⟨start.origin, nodes⟩) :
    ∃ t whole, l.Locates t whole nodes spot node place := by
  -- the way starts at the base of the page, or in a definition
  rcases h with ⟨henclosing, horigin, rfl⟩ | ⟨enclosing, henclosing, hdefinition⟩
  · refine ⟨l.base, spot, l.base_mem_templates, hreaches.origin.trans horigin, ?_, fun _ => ⟨rfl, rfl, rfl⟩, ?_⟩
    · rw [hreaches.enclosing, henclosing]
      exact hreaches.nodeAt? none
    · intro enclosing h
      rw [hreaches.enclosing, henclosing] at h
      cases h
  · have htable := hdefinition
    rw [l.definition?_layout] at htable
    obtain ⟨t, ht, horigin, hblock⟩ := exists_template_of_definition? htable
    -- the definition is written at a spot of its template, and the way goes on inside of it
    obtain ⟨outer, around, houter⟩ := (definedIn_of_mem_blocksIn hblock).exists_nodeAt? none
    refine ⟨t, outer ++ .into :: spot, ht, hreaches.origin.trans horigin, ?_, fun h => ?_, fun {enclosing'} h => ?_⟩
    · rw [nodeAt?_append houter, hreaches.enclosing, henclosing]
      exact hreaches.nodeAt? _
    · rw [hreaches.enclosing, henclosing] at h
      cases h
    · rw [hreaches.enclosing, henclosing] at h
      obtain rfl := Option.some.inj h
      exact ⟨horigin ▸ hdefinition, outer, around, rfl, houter⟩

/-- An inherited definition is only asked for in a block. -/
theorem Lineage.Locates.isSome_enclosing (h : l.Locates t whole nodes spot .inherited place)
    (hread : t.template.WasRead) : place.enclosing.isSome := by
  obtain ⟨name, source, hread⟩ := hread
  have hflaw := Template.flaw?_of_read hread
  rw [Template.flaw?, Option.orElse_eq_none] at hflaw
  have hmisplaced : flawIn (none : Option String).isSome t.template.body = none := hflaw.2
  have hsome := isSome_of_nodeAt?_inherited hmisplaced h.written
  rwa [Option.isSome_map] at hsome

/-- A block that is written somewhere has a definition. -/
theorem Lineage.Locates.isSome_definition? {name : String} {body : List Node}
    (h : l.Locates t whole nodes spot (.block name body) place) : (l.layout.table.definition? name 0).isSome := by
  have hblock := mem_blocksIn_of_nodeAt? h.written
  have hname : name ∈ l.allNames := List.mem_flatMap.mpr ⟨t, h.template, List.mem_map_of_mem hblock⟩
  have hdepth : 0 < l.depth name := by
    rw [l.depth_eq_count]
    exact List.count_pos_iff.mpr hname
  rw [l.definition?_layout]
  exact definition?_isSome.mpr hdepth

/-- The expressions of a node that is located are proper, since its template was read. -/
theorem Lineage.Locates.proper (h : l.Locates t whole nodes spot node place) (hread : t.template.WasRead) :
    ∀ e ∈ node.exprs, e.Proper := by
  obtain ⟨name, source, hread⟩ := hread
  exact Template.proper_of_read hread node h.mem_nodesIn

end

/-! ## Nodes that are come to

What a visit shows is the body of the base of a lineage, or that of a block definition in it. -/

section

variable {site : Site} {request : Request} {path : String} {context : Context}

variable (site request) in
/-- The layout of the visit is that of a lineage that the site finds. -/
def Visit.OfLineage : Visit → Prop
  | .page _ _ _ => True
  | .block _ layout _ _ _ => ∃ path l, (site.catalog.lineage ⟨path, request.theme⟩).outcome = .ok l ∧ layout = l.layout

theorem Visit.ofLineage_page (left : Nat) (path : String) (context : Context) :
    (Visit.page left path context).OfLineage site request :=
  trivial

/-- What is shown is in the lineage, and the enclosing block definition is the one that it is in. -/
theorem Visit.Shows.ofLineage {v : Visit} {left : Nat} {layout : Layout} {nodes : List Node} {place : Place}
    (h : v.Shows site request left layout nodes place) (hv : v.OfLineage site request) :
    ∃ path l, (site.catalog.lineage ⟨path, request.theme⟩).outcome = .ok l ∧ layout = l.layout ∧
      (place.enclosing = none ∧ place.origin = l.base.origin ∧ nodes = l.base.template.body ∨
        ∃ enclosing, place.enclosing = some enclosing ∧
          l.layout.table.definition? enclosing.block enclosing.level = some ⟨place.origin, nodes⟩) := by
  cases h with
  | page left context hlayout =>
    obtain ⟨l, hl, rfl⟩ := Catalog.exists_lineage_of_layout hlayout
    exact ⟨_, l, hl, rfl, .inl ⟨rfl, rfl, rfl⟩⟩
  | block left place hdefinition =>
    obtain ⟨path, l, hl, rfl⟩ := hv
    exact ⟨path, l, hl, rfl, .inr ⟨_, rfl, hdefinition⟩⟩

/-- From a page on, all visits are of lineages. -/
theorem Visit.OfLineage.of_reflTransGen {v w : Visit} (hv : v.OfLineage site request)
    (h : Relation.ReflTransGen (Visit.Enters site request) v w) : w.OfLineage site request := by
  induction h with
  | refl => exact hv
  | tail _ henters ih =>
    cases henters with
    | @intro _ _ _ _ depth exit hshows hcomes =>
      obtain ⟨path, l, hl, rfl, -⟩ := hshows.ofLineage ih
      cases exit with
      | block name level place => exact ⟨path, l, hl, rfl⟩
      | snippet path context => trivial

/-- When the page at a path is rendered, a node is come to: it is at a spot in some nodes that are shown, and at a place
of its own. -/
inductive Site.Reached (site : Site) (request : Request) (path : String) (context : Context) :
    Layout → List Node → Spot → Node → Place → Prop where
  /-- in a visit that is come to, in which the nodes are shown -/
  | intro {v : Visit} {left : Nat} {layout : Layout} {nodes : List Node} {start : Place} (depth : Nat) {spot : Spot}
    {node : Node} {place : Place}
    (hvisit : Relation.ReflTransGen (Visit.Enters site request) (.page (site.snippetLimit + 1) path context) v)
    (hshows : v.Shows site request left layout nodes start)
    (hreaches : Reaches site.catalog request (.into (Visit.within site request depth) left layout) nodes start spot
      node place) :
    Reached site request path context layout nodes spot node place

/-- Whatever is come to is located in a lineage that the site finds. -/
theorem Site.Reached.exists_locates {layout : Layout} {nodes : List Node} {spot : Spot} {node : Node} {place : Place}
    (h : site.Reached request path context layout nodes spot node place) :
    ∃ path' l, (site.catalog.lineage ⟨path', request.theme⟩).outcome = .ok l ∧ layout = l.layout ∧
      ∃ t whole, l.Locates t whole nodes spot node place := by
  obtain ⟨depth, hvisit, hshows, hreaches⟩ := h
  obtain ⟨path', l, hl, rfl, hstart⟩ := hshows.ofLineage ((Visit.ofLineage_page _ _ _).of_reflTransGen hvisit)
  exact ⟨path', l, hl, rfl, Lineage.locates_of_reaches hreaches hstart⟩

/-! ## What can not go wrong

Of the errors that rendering can come to, one is never the case for templates that were read, and another one only
where a block has no further definition. -/

/-- The nodes that are shown in some visit are those of a template that was read. -/
theorem Visit.Shows.subset_nodesIn {v : Visit} {left : Nat} {layout : Layout} {nodes : List Node} {place : Place}
    (h : v.Shows site request left layout nodes place) (hv : v.OfLineage site request)
    (hread : site.catalog.OnlyRead) : ∃ t : Template, t.WasRead ∧ nodesIn nodes ⊆ nodesIn t.body := by
  obtain ⟨path, l, hl, rfl, ⟨-, -, rfl⟩ | ⟨enclosing, -, hdefinition⟩⟩ := h.ofLineage hv
  · exact ⟨_, hread.of_lineage hl l.base_mem_templates, List.Subset.refl _⟩
  · rw [l.definition?_layout] at hdefinition
    obtain ⟨t, ht, -, hblock⟩ := Lineage.exists_template_of_definition? hdefinition
    exact ⟨_, hread.of_lineage hl ht, (definedIn_of_mem_blocksIn hblock).nodesIn_subset⟩

/-- No expression in a template that was read is to blame for an end, unless one can be that is proper. -/
theorem Visit.unspoilt_of_proper (hread : site.catalog.OnlyRead) {v : Visit} (hv : v.OfLineage site request)
    {stop : Stop} (hstop : ∀ (e : Expr) (origin : Origin), e.Proper → ¬e.Spoils origin stop) :
    v.Unspoilt site request stop := by
  intro w hw left layout nodes place hshows node hnode e he origin hspoils
  obtain ⟨t, ⟨name, source, ht⟩, hsubset⟩ := hshows.subset_nodesIn (hv.of_reflTransGen hw) hread
  exact hstop e origin (Template.proper_of_read ht node (hsubset hnode) e he) hspoils

/-- No page ends because a helper has the wrong number of arguments. -/
theorem Site.renderRounds_ne_helperArguments (hread : site.catalog.OnlyRead) {rounds : Nat} (hrounds : 0 < rounds)
    (template helper : String) :
    ((site.renderRounds request rounds path context).transcript site.catalog).outcome ≠
      .error (.error (.helperArguments template helper)) := by
  intro h
  have hunspoilt : (Visit.page (site.snippetLimit + 1) path context).Unspoilt site request
      (.error (.helperArguments template helper)) := by
    refine Visit.unspoilt_of_proper hread (Visit.ofLineage_page _ _ _) fun e origin hproper hspoils => ?_
    cases hspoils with
    | lacks hlacks => exact Bool.noConfusion (hlacks.isUndefined hproper)
  obtain ⟨w, -, hfails⟩ := (renderRounds_eq_error_iff hrounds Stop.noConfusion hunspoilt).mp h
  cases hfails with
  | lookUp left context hlayout => exact Bool.noConfusion (site.catalog.layout_rendersNothing _ _ hlayout)

/-- A definition of a block is entered where a node leads to it. -/
theorem Visit.Enters.exists_reaches {v : Visit} {left : Nat} {layout : Layout} {name : String} {level : Nat}
    {place : Place} (h : v.Enters site request (.block left layout name level place)) :
    ∃ nodes start depth spot node place', v.Shows site request left layout nodes start ∧
      Reaches site.catalog request (.into (Visit.within site request depth) left layout) nodes start spot node place' ∧
      node.LeadsOut site.catalog request place' (.block name level place) := by
  generalize hw : Visit.block left layout name level place = w at h
  cases h with
  | @intro _ _ _ _ depth exit hshows hcomes =>
    cases exit with
    | snippet path context => cases hw
    | block name level place =>
      cases hw
      obtain ⟨spot, node, place', hreaches, hleads⟩ := exists_reaches_of_comes hcomes
      exact ⟨_, _, depth, spot, node, place', hshows, hreaches, hleads⟩

/-- A page that ends because there is no definition to be inherited has come to where one is asked for. -/
theorem Site.exists_reached_of_noParentBlock (hread : site.catalog.OnlyRead) {rounds : Nat} (hrounds : 0 < rounds)
    {template block : String}
    (h : ((site.renderRounds request rounds path context).transcript site.catalog).outcome =
      .error (.error (.noParentBlock template block))) :
    ∃ layout nodes spot place level, site.Reached request path context layout nodes spot .inherited place ∧
      place.enclosing = some ⟨block, level⟩ ∧ place.origin.text = template ∧
      (layout.table.definition? block level).isSome ∧ layout.table.definition? block (level + 1) = none := by
  have hunspoilt : (Visit.page (site.snippetLimit + 1) path context).Unspoilt site request
      (.error (.noParentBlock template block)) := by
    refine Visit.unspoilt_of_proper hread (Visit.ofLineage_page _ _ _) fun e origin _ hspoils => ?_
    cases hspoils with
    | lacks hlacks => cases hlacks
  obtain ⟨w, hw, hfails⟩ := (renderRounds_eq_error_iff hrounds Stop.noConfusion hunspoilt).mp h
  cases hfails with
  | lookUp left context hlayout =>
    have hlookUp := site.catalog.layout_rendersNothing _ _ hlayout
    cases hlookUp
  | @noParent left layout name level place hnone =>
    obtain hpage | ⟨v, hv, henters⟩ := Relation.ReflTransGen.cases_tail hw
    · cases hpage
    · obtain ⟨nodes, start, depth, spot, node, place', hshows, hreaches, hleads⟩ := henters.exists_reaches
      have hreached : site.Reached request path context layout nodes spot node place' :=
        .intro depth hv hshows hreaches
      obtain ⟨-, l, -, rfl, t, whole, hlocates⟩ := hreached.exists_locates
      cases hleads with
      | block name body place =>
        -- a block that is written somewhere has a definition
        have hsome := hlocates.isSome_definition?
        rw [hnone] at hsome
        cases hsome
      | inherited henclosing =>
        refine ⟨_, nodes, spot, place, _, hreached, henclosing, rfl, ?_, hnone⟩
        exact Option.isSome_of_eq_some (hlocates.definition henclosing).1

/-- What can be relied on wherever a render has come to, on a site with any history that begins with a new one.

A node that is come to is written in a template of a lineage that was found, and what is known of its place is what can
be read off there: the template, the block that is around it most closely, and the level at which the definition in
which it is written is found in the table. Where an inherited definition is asked for there is such a block, a block
that is come to has a definition, and all expressions are proper.

So a page ends for want of a definition to be inherited only where one is asked for in the last definition of a block,
and it names the block and the template; and no page ends because a helper has the wrong number of arguments. -/
theorem Site.reached_as_written (base : Root) (themes : ByName Root) (snippetLimit : Nat) (history : List Operation)
    (request : Request) (path : String) (context : Context) :
    let site := (new base themes snippetLimit).run history
    (∀ layout nodes spot node place, site.Reached request path context layout nodes spot node place →
      (∃ path' l, (site.catalog.lineage ⟨path', request.theme⟩).outcome = .ok l ∧ layout = l.layout ∧
        ∃ t whole, l.Locates t whole nodes spot node place) ∧
      (node = .inherited → place.enclosing.isSome) ∧
      (∀ name body, node = .block name body → (layout.table.definition? name 0).isSome) ∧
      ∀ e ∈ node.exprs, e.Proper) ∧
    ∀ {σ : Type} (sink : Sink σ) (st : σ),
      (∀ template block,
        (site.deliver request path context sink st).outcome = .error (.error (.noParentBlock template block)) →
        ∃ layout nodes spot place level, site.Reached request path context layout nodes spot .inherited place ∧
          place.enclosing = some ⟨block, level⟩ ∧ place.origin.text = template ∧
          (layout.table.definition? block level).isSome ∧ layout.table.definition? block (level + 1) = none) ∧
      ∀ template helper,
        (site.deliver request path context sink st).outcome ≠ .error (.error (.helperArguments template helper)) := by
  intro site
  have hread : site.catalog.OnlyRead := onlyRead_run base themes snippetLimit history
  refine ⟨fun layout nodes spot node place hreached => ?_, fun {σ} sink st => ?_⟩
  · obtain ⟨path', l, hl, rfl, t, whole, hlocates⟩ := hreached.exists_locates
    -- a template that was opened was read, so it has what reading it checks
    have hwas := hread.of_lineage hl hlocates.template
    refine ⟨⟨path', l, hl, rfl, t, whole, hlocates⟩, ?_, ?_, hlocates.proper hwas⟩
    · rintro rfl
      exact hlocates.isSome_enclosing hwas
    · rintro name body rfl
      exact hlocates.isSome_definition?
  · refine ⟨fun template block h => ?_, fun template helper h => ?_⟩
    · exact exists_reached_of_noParentBlock hread (Nat.succ_pos _) (Run.outcome_of_deliver h nofun)
    · exact renderRounds_ne_helperArguments hread (Nat.succ_pos _) template helper (Run.outcome_of_deliver h nofun)

/-- A page with a single template, in which a block inherits from nothing. -/
theorem Site.reached_as_written_onePage :
    let request : Request := ⟨none, .empty, Helpers.standard⟩
    let site := new (onePage "@block a \x7b@if !x \x7b@super()\x7d\x7d") [] 8
    (site.deliver request "page.html" .empty Sink.memory .nothing).outcome =
        .error (.error (.noParentBlock "default:page.html" "a")) ∧
      ∃ layout nodes spot place level, site.Reached request "page.html" .empty layout nodes spot .inherited place ∧
        place.enclosing = some ⟨"a", level⟩ ∧ place.origin.text = "default:page.html" := by
  intro request site
  have hend : (site.deliver request "page.html" .empty Sink.memory .nothing).outcome =
      .error (.error (.noParentBlock "default:page.html" "a")) := by decide +kernel
  obtain ⟨-, hends⟩ := reached_as_written (onePage "@block a \x7b@if !x \x7b@super()\x7d\x7d") [] 8 [] request
    "page.html" .empty
  obtain ⟨layout, nodes, spot, place, level, hreached, henclosing, horigin, -⟩ :=
    (hends Sink.memory .nothing).1 _ _ hend
  exact ⟨hend, layout, nodes, spot, place, level, hreached, henclosing, horigin⟩

end

end ThemedPages
