import ThemedPages.Proofs.Cuts
import ThemedPages.Proofs.Endings
import ThemedPages.Proofs.Expansion

/-!
# Templates that only pass on

A template that extends another one, and in whose blocks there is nothing but what they inherit, changes nothing.

* `Lineage.PassesOn` says that a template is like that, and `Lineage.extend` puts it in front of a lineage. All
  definitions of the blocks that it passes on are so many levels further up then (`Lineage.definition?_extend`).
* `Lineage.PassesOn.renderTo_upTo_extend` and `Lineage.PassesOn.renderTo_extend_upTo`: as far as one of the two lineages
  is rendered, what is done is what is done for the other. Block definitions are nested deeper in the longer one, so
  that the depths are not the same.
* `Site.renderTo_endless`: a page that is not rendered to its end goes on in any depth.
* `Lineage.deliver_extend` puts this together.

In the longer lineage a block is come to through the definition that passes on, and only from there to the one that
counted before. So the two pages do the same things at different depths, and neither is rendered further than the
other in any fixed one. What holds in each direction is that whatever one page does up to some depth is the beginning
of what the other does up to a greater one. For a page that ends these two are an equation.
-/

namespace ThemedPages

/-! ## Deeper and deeper

A page that is rendered to some depth is cut off there. The depth at which a page is rendered in full need not be
known, so pages are compared in all depths. -/

/-- It never ends. -/
def Stop.IsEndless (stop : Stop) : Prop := stop = .endless

theorem Stop.isEndless : Stop.IsEndless .endless := rfl

/-- If nothing but the depth cuts it short, what is not cut off is the same. -/
theorem Transcript.UpTo.below {α : Type} {t u : Transcript α} (h : t.UpTo Stop.IsEndless u) : t.Below u := by
  cases h with
  | whole h => exact .inr h
  | short hstop hcut => exact .inl (hstop ▸ hcut)

theorem Delivery.UpTo.eq_of_ends {σ : Type} {sink : Sink σ} {d d' : Delivery σ} (h : d.UpTo sink Stop.IsEndless d')
    (hend : d.outcome ≠ .error .endless) : d' = d := by
  refine h.eq ?_
  rintro _ rfl
  exact hend

section

variable {c : Catalog} {request : Request} {snippet : String → Context → Run Unit}

/-- In a greater depth there is more of a block definition, and nothing of it changes. -/
theorem BlockTable.render_mono (table : BlockTable) {depth depth' : Nat} (h : depth ≤ depth') (name : String)
    (level : Nat) (place : Place) :
    ((table.render request snippet depth name level place).transcript c).UpTo Stop.IsEndless
      ((table.render request snippet depth' name level place).transcript c) := by
  induction depth generalizing depth' name level place with
  | zero => exact .endless Stop.isEndless _
  | succ depth ih =>
    obtain ⟨depth', rfl⟩ : ∃ d, depth' = d + 1 := ⟨depth' - 1, by omega⟩
    rw [render, render]
    cases table.definition? name level with
    | none => exact .refl _
    | some definition =>
      refine renderAll_upTo ?_ _ (.refl _)
      exact .of_eq (ih (Nat.le_of_succ_le_succ h)) fun _ _ => .refl _

/-- The ways out of nodes into block definitions nested at most so deep. -/
def BlockTable.exits (table : BlockTable) (request : Request) (snippet : String → Context → Run Unit) (depth : Nat) :
    Exits :=
  ⟨table.render request snippet depth, snippet⟩

theorem BlockTable.exits_below (table : BlockTable) {depth depth' : Nat} (h : depth ≤ depth') (exit : Exit) :
    (((table.exits request snippet depth).take exit).transcript c).Below
      (((table.exits request snippet depth').take exit).transcript c) := by
  cases exit with
  | block name level place => exact (table.render_mono h name level place).below
  | snippet path context => exact .refl _

/-- Where no block definition may be entered, nothing is rendered of any. -/
theorem BlockTable.exits_zero_upTo {table table' : BlockTable} {R : Enclosing → Enclosing → Prop} (depth : Nat) :
    (table.exits request snippet 0).UpTo c Stop.IsEndless R (table'.exits request snippet depth) :=
  ⟨fun _ _ _ _ => .endless Stop.isEndless _, fun _ _ _ _ => .endless Stop.isEndless _, fun _ _ => .refl _⟩

/-- Renders a layout, with block definitions nested at most so deep. -/
def Layout.renderTo (l : Layout) (request : Request) (snippet : String → Context → Run Unit) (depth : Nat)
    (context : Context) : Run Unit :=
  renderAll request (l.table.exits request snippet depth) l.base.template.body
    { scope := .ofContext context, origin := l.base.origin, enclosing := none }

/-- A page is rendered to a depth that is computed from what there is in it. -/
theorem Layout.render_eq_renderTo (l : Layout) (request : Request) (snippet : String → Context → Run Unit)
    (rounds : Nat) (context : Context) :
    l.render request snippet rounds context =
      l.renderTo request snippet (l.standings request context * rounds + 1) context :=
  rfl

/-- Where the ways out of the same base are cut short, so is the page. -/
theorem Layout.renderTo_upTo {l l' : Layout} (hbase : l.base = l'.base) {depth depth' : Nat}
    {R : Enclosing → Enclosing → Prop}
    (hexits : (l.table.exits request snippet depth).UpTo c Stop.IsEndless R (l'.table.exits request snippet depth'))
    (context : Context) :
    ((l.renderTo request snippet depth context).transcript c).UpTo Stop.IsEndless
      ((l'.renderTo request snippet depth' context).transcript c) := by
  rw [renderTo, renderTo, hbase]
  exact renderAll_upTo hexits _ ⟨rfl, rfl, .none⟩

theorem Layout.renderTo_mono (l : Layout) {depth depth' : Nat} (h : depth ≤ depth') (context : Context) :
    ((l.renderTo request snippet depth context).transcript c).UpTo Stop.IsEndless
      ((l.renderTo request snippet depth' context).transcript c) :=
  Layout.renderTo_upTo rfl (.of_eq (l.table.render_mono h) fun _ _ => .refl _) context

/-- In more rounds there is more of a page, and nothing of it changes. -/
theorem Layout.render_mono (l : Layout) {rounds rounds' : Nat} (h : rounds ≤ rounds')
    {snippet' : String → Context → Run Unit}
    (hsnippet : ∀ path params,
      ((snippet path params).transcript c).UpTo Stop.IsEndless ((snippet' path params).transcript c))
    (context : Context) :
    ((l.render request snippet rounds context).transcript c).UpTo Stop.IsEndless
      ((l.render request snippet' rounds' context).transcript c) := by
  refine (l.render_upTo hsnippet rounds context).trans ?_
  exact l.renderTo_mono (Nat.succ_le_succ (Nat.mul_le_mul_left _ h)) context

end

/-! ## Passing on

The child asks in each of its blocks for what is inherited, and does nothing else there. So its definitions are levels
of their own on top of those of the lineage. -/

namespace Lineage

/-- The lineage with a template in front that extends its leaf. -/
def extend (child : Loaded) (l : Lineage) : Lineage := ⟨child, l.templates⟩

/-- In the blocks of the template there is nothing but what they inherit, and they all inherit something. -/
structure PassesOn (l : Lineage) (child : Template) : Prop where
  /-- what they are defined to be -/
  body : ∀ block ∈ child.blocks, block.2 = [.inherited]
  /-- there is something to inherit -/
  mem : ∀ block ∈ child.blocks, block.1 ∈ l.blockNames

variable {l : Lineage} {child : Loaded}

/-- The base is what it was. -/
theorem base_extend (child : Loaded) (l : Lineage) : (l.extend child).base = l.base := by
  rw [base, extend, templates, base, List.getLast?_cons]
  rfl

/-- How many definitions the template gives of a block. -/
def passes (child : Loaded) (name : String) : Nat := (definitionsIn name child).length

theorem definitions_extend (name : String) :
    (l.extend child).definitions name = definitionsIn name child ++ l.definitions name := by
  rw [definitions, extend, templates, List.flatMap_cons, definitions]

/-- The definitions that were there are further up. -/
theorem definition?_extend (name : String) (level : Nat) :
    (l.extend child).definition? name (level + passes child name) = l.definition? name level := by
  rw [definition?, definitions_extend, Nat.add_comm, passes, List.getElem?_append_right (Nat.le_add_right _ _),
    Nat.add_sub_cancel_left, definition?]

/-- Those before them only ask for the next one. -/
theorem PassesOn.definition?_of_lt (h : l.PassesOn child.template) {name : String} {level : Nat}
    (hlevel : level < passes child name) :
    (l.extend child).definition? name level = some ⟨child.origin, [.inherited]⟩ := by
  rw [definition?, definitions_extend, List.getElem?_append_left hlevel]
  rcases hget : (definitionsIn name child)[level]? with _ | definition
  · exact absurd (List.getElem?_eq_none_iff.mp hget) (Nat.not_le_of_lt hlevel)
  · obtain ⟨block, hblock, hdefinition⟩ := List.mem_filterMap.mp (List.mem_of_getElem? hget)
    split_ifs at hdefinition
    obtain rfl := Option.some.inj hdefinition
    rw [h.body block hblock]

/-- A block that is passed on has a definition. -/
theorem PassesOn.exists_definition? (h : l.PassesOn child.template) {name : String}
    (hname : 0 < passes child name) : ∃ definition, l.definition? name 0 = some definition := by
  rw [passes, length_definitionsIn, List.count_pos_iff] at hname
  obtain ⟨block, hblock, rfl⟩ := List.mem_map.mp hname
  have hdepth : 0 < l.depth block.1 := by
    rw [depth_eq_count]
    exact List.count_pos_iff.mpr (mem_blockNames.mp (h.mem block hblock))
  exact Option.isSome_iff_exists.mp (definition?_isSome.mpr hdepth)

end Lineage

/-! ## The same page, in other depths

A block of the longer lineage is entered at the level of the child, and goes down from there without writing anything
until it is at the level where the shorter lineage begins. The depth that this takes is what the two renders differ
by. -/

section

variable {c : Catalog} {request : Request} {snippet : String → Context → Run Unit}

namespace BlockTable

variable {table : BlockTable} {name : String} {depth level : Nat} {definition : Definition}

/-- What is rendered of a definition does not depend on where it is asked for, but for the variables there. -/
theorem render_congr (h : table.definition? name level = some definition) {place place' : Place}
    (hscope : place.scope = place'.scope) :
    table.render request snippet depth name level place = table.render request snippet depth name level place' := by
  cases depth with
  | zero => rfl
  | succ depth => rw [render, render, h, hscope]

/-- A definition that only asks for the next one is as good as that, one deeper. -/
theorem render_of_passes {origin : Origin} (h : table.definition? name level = some ⟨origin, [.inherited]⟩)
    (hnext : table.definition? name (level + 1) = some definition) (place : Place) :
    (table.render request snippet (depth + 1) name level place).transcript c =
      (table.render request snippet depth name (level + 1) place).transcript c := by
  rw [render, h]
  dsimp only
  rw [renderAll_singleton, Node.render]
  exact congrArg (Run.transcript c) (render_congr hnext rfl)

/-- A definition is rendered up to what is rendered of it in another table, if it is what it leads to. -/
theorem render_succ_upTo {table' : BlockTable} {R : Enclosing → Enclosing → Prop} {depth' level' : Nat}
    (hexits : (table.exits request snippet depth).UpTo c Stop.IsEndless R (table'.exits request snippet depth'))
    (hdefinition : table.definition? name level = table'.definition? name level')
    (hlevel : R ⟨name, level⟩ ⟨name, level'⟩) {place place' : Place} (hplace : place.Beside R place') :
    ((table.render request snippet (depth + 1) name level place).transcript c).UpTo Stop.IsEndless
      ((table'.render request snippet (depth' + 1) name level' place').transcript c) := by
  rw [render, render, ← hdefinition]
  cases table.definition? name level with
  | none =>
    rw [hplace.origin]
    exact .refl _
  | some definition => exact renderAll_upTo hexits _ ⟨hplace.scope, rfl, .some hlevel⟩

end BlockTable

namespace Lineage

variable {l : Lineage} {child : Loaded} {name : String}

/-- Down to the last definition of those that are passed on, each one is as good as the next. -/
theorem PassesOn.upTo_of_add (h : l.PassesOn child.template) {level more : Nat}
    (hlevel : level + more = passes child name) (depth : Nat) (place : Place) :
    (((l.extend child).layout.table.render request snippet depth name level place).transcript c).UpTo Stop.IsEndless
      (((l.extend child).layout.table.render request snippet depth name (level + more) place).transcript c) ∧
    (((l.extend child).layout.table.render request snippet depth name (level + more) place).transcript c).UpTo
      Stop.IsEndless
      (((l.extend child).layout.table.render request snippet (depth + more) name level place).transcript c) := by
  induction more generalizing level depth with
  | zero => exact ⟨.refl _, .refl _⟩
  | succ more ih =>
    obtain ⟨definition, hnext⟩ : ∃ definition, (l.extend child).definition? name (level + 1) = some definition := by
      rcases more with _ | more
      · -- the last of them asks for the definition that counted before
        obtain ⟨definition, hdefinition⟩ := h.exists_definition? (by omega : 0 < passes child name)
        have hlast : (l.extend child).definition? name (0 + passes child name) = _ := definition?_extend name 0
        rw [Nat.zero_add, ← hlevel, hdefinition] at hlast
        exact ⟨definition, hlast⟩
      · exact ⟨_, h.definition?_of_lt (by omega)⟩
    have hfirst : (l.extend child).definition? name level = _ := h.definition?_of_lt (by omega)
    rw [← definition?_layout] at hfirst hnext
    have hlevel' : level + (more + 1) = level + 1 + more := by omega
    rw [hlevel']
    refine ⟨?_, ?_⟩
    · cases depth with
      | zero => exact .endless Stop.isEndless _
      | succ depth =>
        rw [BlockTable.render_of_passes hfirst hnext]
        exact (ih (by omega) depth).1.trans (BlockTable.render_mono _ (Nat.le_succ depth) _ _ _)
    · rw [← Nat.add_assoc, BlockTable.render_of_passes hfirst hnext]
      exact (ih (by omega) depth).2

/-- The second definition is in the longer lineage what the first one is in the shorter one. -/
def Above (child : Loaded) (enclosing enclosing' : Enclosing) : Prop :=
  enclosing'.block = enclosing.block ∧ enclosing'.level = enclosing.level + passes child enclosing.block

/-- The definitions of the lineage are found at their levels in the longer one, further up by what the child has. -/
theorem definition?_layout_extend (l : Lineage) (child : Loaded) (name : String) (level : Nat) :
    l.layout.table.definition? name level =
      (l.extend child).layout.table.definition? name (level + passes child name) := by
  rw [definition?_layout, definition?_layout, definition?_extend]

/-- In how great a depth the longer lineage comes as far as the shorter one does in some depth. -/
def depthIn (child : Loaded) (depth : Nat) : Nat := depth * (child.template.blocks.length + 1)

theorem passes_le (child : Loaded) (name : String) : passes child name ≤ child.template.blocks.length :=
  List.length_filterMap_le _ _

/-- Into a block of the longer lineage it is deeper, by as many definitions as are passed on. -/
theorem PassesOn.exits_upTo_extend (h : l.PassesOn child.template) (depth : Nat) :
    (l.layout.table.exits request snippet depth).UpTo c Stop.IsEndless (Above child)
      ((l.extend child).layout.table.exits request snippet (depthIn child depth)) := by
  induction depth with
  | zero => exact BlockTable.exits_zero_upTo _
  | succ depth ih =>
    have hdepth : depthIn child (depth + 1) = depthIn child depth + 1 + child.template.blocks.length := by
      rw [depthIn, Nat.succ_mul, ← depthIn]
      omega
    have hstep : ∀ name level {place place' : Place}, place.Beside (Above child) place' →
        ((l.layout.table.render request snippet (depth + 1) name level place).transcript c).UpTo Stop.IsEndless
          (((l.extend child).layout.table.render request snippet (depthIn child depth + 1) name
            (level + passes child name) place').transcript c) :=
      fun name level _ _ hplace =>
        BlockTable.render_succ_upTo ih (definition?_layout_extend l child name level) ⟨rfl, rfl⟩ hplace
    have hmono : ∀ {more} name level place, more ≤ child.template.blocks.length →
        (((l.extend child).layout.table.render request snippet (depthIn child depth + 1 + more) name level
            place).transcript c).UpTo Stop.IsEndless
          (((l.extend child).layout.table.render request snippet (depthIn child (depth + 1)) name level
            place).transcript c) :=
      fun name level place hmore => BlockTable.render_mono _ (by omega) name level place
    refine ⟨fun name place place' hplace => ?_, ?_, fun _ _ => .refl _⟩
    · -- the definition that counted before is come to from the one that counts now
      have hdown := (hstep name 0 hplace).trans (h.upTo_of_add (Nat.zero_add _) (depthIn child depth + 1) place').2
      exact hdown.trans (hmono name 0 place' (passes_le child name))
    · rintro enclosing enclosing' ⟨hblock, hlevel⟩ place place' hplace
      rw [hblock, hlevel, Nat.add_right_comm]
      exact (hstep _ (enclosing.level + 1) hplace).trans (hmono enclosing.block _ place' (Nat.zero_le _))

/-- Into a block of the shorter lineage it is not as deep. -/
theorem PassesOn.extend_exits_upTo (h : l.PassesOn child.template) (depth : Nat) :
    ((l.extend child).layout.table.exits request snippet depth).UpTo c Stop.IsEndless (flip (Above child))
      (l.layout.table.exits request snippet depth) := by
  induction depth with
  | zero => exact BlockTable.exits_zero_upTo _
  | succ depth ih =>
    have hstep : ∀ name level {place place' : Place}, place.Beside (flip (Above child)) place' →
        (((l.extend child).layout.table.render request snippet (depth + 1) name (level + passes child name)
            place).transcript c).UpTo Stop.IsEndless
          ((l.layout.table.render request snippet (depth + 1) name level place').transcript c) :=
      fun name level _ _ hplace =>
        BlockTable.render_succ_upTo ih (definition?_layout_extend l child name level).symm ⟨rfl, rfl⟩ hplace
    refine ⟨fun name place place' hplace => ?_, ?_, fun _ _ => .refl _⟩
    · exact (h.upTo_of_add (Nat.zero_add _) (depth + 1) place).1.trans (hstep name 0 hplace)
    · rintro enclosing enclosing' ⟨hblock, hlevel⟩ place place' hplace
      rw [hblock, hlevel, Nat.add_right_comm]
      exact hstep enclosing'.block (enclosing'.level + 1) hplace

/-- As far as the shorter lineage is rendered, the longer one does the same. -/
theorem PassesOn.renderTo_upTo_extend (h : l.PassesOn child.template) (depth : Nat) (context : Context) :
    ((l.layout.renderTo request snippet depth context).transcript c).UpTo Stop.IsEndless
      (((l.extend child).layout.renderTo request snippet (depthIn child depth) context).transcript c) :=
  Layout.renderTo_upTo (base_extend child l).symm (h.exits_upTo_extend depth) context

/-- As far as the longer lineage is rendered, the shorter one does the same. -/
theorem PassesOn.renderTo_extend_upTo (h : l.PassesOn child.template) (depth : Nat) (context : Context) :
    (((l.extend child).layout.renderTo request snippet depth context).transcript c).UpTo Stop.IsEndless
      ((l.layout.renderTo request snippet depth context).transcript c) :=
  Layout.renderTo_upTo (base_extend child l) (h.extend_exits_upTo depth) context

end Lineage

end

/-! ## Pages without end

What can not be rendered to its end at the depth that a page is given can not be so at any depth. This is what makes
the comparison in all depths one of pages. -/

namespace Site

variable {site : Site} {request : Request} {rounds : Nat}

theorem snippetAt_mono {rounds' : Nat} (h : rounds ≤ rounds') (left : Nat) (path : String) (context : Context) :
    ((site.snippetAt request rounds left path context).transcript site.catalog).UpTo Stop.IsEndless
      ((site.snippetAt request rounds' left path context).transcript site.catalog) := by
  induction left generalizing path context with
  | zero => exact .refl _
  | succ left ih =>
    rw [snippetAt_succ, snippetAt_succ]
    exact .bind (.refl _) fun l => l.render_mono h ih context

/-- What goes round is rendered to its end in no depth. -/
theorem table_endless {left : Nat} {l : Layout} {name : String} {level : Nat} {place : Place}
    (h : (Visit.block left l name level place).GoesRound site request) (depth : Nat) :
    ((l.table.render request (site.snippetAt request rounds left) depth name level place).transcript
      site.catalog).outcome = .error .endless := by
  by_contra hend
  obtain ⟨depth', hdepth'⟩ := ((table_nears (snippetAt_nears left) l depth name level place).eq hend).exists
  rw [hdepth'] at hend
  exact Visit.not_goesRound_of_endsWithin hend h

/-- A page that is not rendered to its end goes on in any depth. -/
theorem renderTo_endless (hrounds : 0 < rounds) (l : Lineage) (left : Nat) {context : Context}
    (hend : ((l.layout.render request (site.snippetAt request rounds left) rounds context).transcript
      site.catalog).outcome = .error .endless) (depth : Nat) :
    ((l.layout.renderTo request (site.snippetAt request rounds left) depth context).transcript
      site.catalog).outcome = .error .endless := by
  rw [Layout.render_eq_renderTo] at hend
  rcases Nat.le_total depth (l.layout.standings request context * rounds + 1) with hdepth | hdepth
  · -- in a smaller depth there is less of it
    by_contra hless
    have hsame := (l.layout.renderTo_mono hdepth context).below.eq hless
    exact hless (hsame ▸ hend)
  · obtain ⟨exit, hcomes, hexit⟩ := exists_comes_of_endless hend
    refine (hcomes.of_below (l.layout.table.exits_below hdepth)).outcome_of_error ?_
    cases exit with
    | snippet path params => exact hexit
    | block name level place =>
      have hplace := hcomes.drawn (l.loopNamesIn_subset_allLoopNames l.base_mem_templates) .ofContext rfl
      exact table_endless (goesRound_of_base_endless hrounds (goesRound_of_endless hrounds left) hplace .refl hexit) depth

end Site

/-! ## Deliveries of lineages

A lineage is delivered as the page that it makes, whichever way it was come by. -/

namespace Lineage

/-- What is to be done to render the page of a lineage, where it is followed for so many rounds if it has no end. -/
def renderRounds (l : Lineage) (site : Site) (request : Request) (rounds : Nat) (context : Context) : Run Unit :=
  l.layout.render request (site.snippetAt request rounds site.snippetLimit) rounds context

/-- The page of a lineage has an end. -/
def Ends (l : Lineage) (site : Site) (request : Request) (context : Context) : Prop :=
  ((l.renderRounds site request 1 context).transcript site.catalog).outcome ≠ .error .endless

/-- Renders the page of a lineage into a sink. -/
def deliver {σ : Type} (l : Lineage) (site : Site) (request : Request) (context : Context) (sink : Sink σ) (st : σ) :
    Delivery σ :=
  (l.renderRounds site request (((sink.room st).getD 0) + 1) context).deliver site.catalog sink st

/-- Renders the page of a lineage into a sink, with its block definitions nested at most so deep. -/
def deliverTo {σ : Type} (l : Lineage) (site : Site) (request : Request) (depth : Nat) (context : Context)
    (sink : Sink σ) (st : σ) : Delivery σ :=
  let snippet := site.snippetAt request (((sink.room st).getD 0) + 1) site.snippetLimit
  (l.layout.renderTo request snippet depth context).deliver site.catalog sink st

section

variable {l : Lineage} {child : Loaded} {site : Site} {request : Request} {rounds : Nat} {context : Context}

/-- The page at a path is that of the lineage that is found for it. -/
theorem transcript_renderRounds {path : String} (h : (site.catalog.lineage ⟨path, request.theme⟩).outcome = .ok l) :
    let page := (l.renderRounds site request rounds context).transcript site.catalog
    (site.renderRounds request rounds path context).transcript site.catalog =
      ⟨(site.catalog.lineage ⟨path, request.theme⟩).events ++ page.events, page.outcome⟩ := by
  intro page
  have hlayout : (site.catalog.layout ⟨path, request.theme⟩).outcome = .ok l.layout := by
    rw [Catalog.layout, Transcript.outcome_map, h]
    rfl
  change ((site.snippetAt request rounds (site.snippetLimit + 1) path context).transcript site.catalog) = _
  rw [Site.snippetAt_succ, Request.render, Run.transcript_bind, Run.transcript_layout, Transcript.bind_of_ok hlayout,
    Catalog.layout, Transcript.events_map]
  rfl

/-- A page that ends is delivered to its end. -/
theorem Ends.deliver_ne_endless (h : l.Ends site request context) {σ : Type} (sink : Sink σ) (st : σ) :
    (l.deliver site request context sink st).outcome ≠ .error .endless := by
  have hrounds : 1 ≤ (sink.room st).getD 0 + 1 := Nat.succ_le_succ (Nat.zero_le _)
  have hsame := (l.layout.render_mono hrounds (Site.snippetAt_mono hrounds site.snippetLimit) context).below.eq h
  intro hend
  have hpage := Run.outcome_of_deliver hend nofun
  rw [renderRounds, ← hsame] at hpage
  exact h hpage

/-- Passing on does not make a page end, nor keep it from ending. -/
theorem PassesOn.ends_iff (h : l.PassesOn child.template) :
    l.Ends site request context ↔ (l.extend child).Ends site request context := by
  constructor
  · intro hends hend
    have hdepth := Site.renderTo_endless Nat.one_pos _ site.snippetLimit hend
    have hsame := (h.renderTo_upTo_extend _ context).below.eq hends
    exact hends (hsame.symm ▸ hdepth _)
  · intro hends hend
    have hdepth := Site.renderTo_endless Nat.one_pos _ site.snippetLimit hend
    have hsame := (h.renderTo_extend_upTo _ context).below.eq hends
    exact hends (hsame.symm ▸ hdepth _)

/-- As far as one of the lineages is followed, the other one does the same. -/
theorem PassesOn.deliverTo_upTo (h : l.PassesOn child.template) (depth : Nat) {σ : Type} (sink : Sink σ) (st : σ) :
    (l.deliverTo site request depth context sink st).UpTo sink Stop.IsEndless
      ((l.extend child).deliverTo site request (depthIn child depth) context sink st) ∧
    ((l.extend child).deliverTo site request depth context sink st).UpTo sink Stop.IsEndless
      (l.deliverTo site request depth context sink st) :=
  ⟨Run.deliver_upTo (h.renderTo_upTo_extend depth context) sink st,
    Run.deliver_upTo (h.renderTo_extend_upTo depth context) sink st⟩

theorem deliverTo_mono {depth depth' : Nat} (h : depth ≤ depth') {σ : Type} (sink : Sink σ) (st : σ) :
    (l.deliverTo site request depth context sink st).UpTo sink Stop.IsEndless
      (l.deliverTo site request depth' context sink st) :=
  Run.deliver_upTo (l.layout.renderTo_mono h context) sink st

/-- A delivery is one in some depth. -/
theorem exists_depth_deliver (l : Lineage) {σ : Type} (sink : Sink σ) (st : σ) :
    ∃ depth, l.deliver site request context sink st = l.deliverTo site request depth context sink st := ⟨_, rfl⟩

/-- Deliveries that come to an end are the same. -/
theorem PassesOn.deliver_eq (h : l.PassesOn child.template) {σ : Type} (sink : Sink σ) (st : σ)
    (hend : (l.deliver site request context sink st).outcome ≠ .error .endless)
    (hend' : ((l.extend child).deliver site request context sink st).outcome ≠ .error .endless) :
    (l.extend child).deliver site request context sink st = l.deliver site request context sink st := by
  obtain ⟨depth, hdepth⟩ := l.exists_depth_deliver sink st
  obtain ⟨depth', hdepth'⟩ := (l.extend child).exists_depth_deliver sink st
  rw [hdepth] at hend ⊢
  rw [hdepth'] at hend' ⊢
  have hsame := (h.deliverTo_upTo depth sink st).1.eq_of_ends hend
  rw [← hsame] at hend ⊢
  -- in a greater depth than both, the longer lineage is delivered in the same way as in either
  have hleft := (deliverTo_mono (Nat.le_max_left (depthIn child depth) depth') sink st).eq_of_ends hend
  have hright := (deliverTo_mono (Nat.le_max_right (depthIn child depth) depth') sink st).eq_of_ends hend'
  exact hright.symm.trans hleft

/-- A template that only passes on changes nothing.

With any variables, limit on snippets and sink: a page with the template has an end exactly if the page without it
has, and then the two deliveries are the same, events, end and sink. So they are if the sink comes to an end where the
pages do not. And of pages without end, whatever happens down to some depth of the one happens in the other one too. -/
theorem deliver_extend (l : Lineage) {child : Loaded} (h : l.PassesOn child.template) (site : Site) (request : Request)
    (context : Context) :
    (l.Ends site request context ↔ (l.extend child).Ends site request context) ∧
    ∀ {σ : Type} (sink : Sink σ) (st : σ),
      let d := l.deliver site request context sink st
      let d' := (l.extend child).deliver site request context sink st
      (l.Ends site request context → d' = d) ∧
      (d.outcome ≠ .error .endless → d'.outcome ≠ .error .endless → d' = d) ∧
      ∀ depth,
        (∃ depth', (l.deliverTo site request depth context sink st).UpTo sink Stop.IsEndless
          ((l.extend child).deliverTo site request depth' context sink st)) ∧
        ((l.extend child).deliverTo site request depth context sink st).UpTo sink Stop.IsEndless
          (l.deliverTo site request depth context sink st) := by
  refine ⟨h.ends_iff, fun sink st => ⟨fun hends => ?_, h.deliver_eq sink st, fun depth => ?_⟩⟩
  · exact h.deliver_eq sink st (hends.deliver_ne_endless sink st) ((h.ends_iff.mp hends).deliver_ne_endless sink st)
  · obtain ⟨hlonger, hshorter⟩ := h.deliverTo_upTo depth sink st
    exact ⟨⟨_, hlonger⟩, hshorter⟩

end

/-- A template in front of `bordered` that passes a block of it on. -/
def passing : Loaded :=
  ⟨⟨"default", "same.html"⟩, ⟨some "page.html", [.text "nothing of this", .block "inner" [.inherited]]⟩⟩

theorem deliver_extend_bordered :
    let site : Site := .ofCatalog (.ofRoot (.inMemory "default" []))
    let request : Request := ⟨none, .empty, Helpers.standard⟩
    let d := (bordered.extend passing).deliver site request .empty Sink.memory .nothing
    bordered.PassesOn passing.template ∧ d.outcome = .ok () ∧ d.sink.bytes = Utf8.bytes "<xzy>" := by
  intro site request d
  have hblocks : passing.template.blocks = [("inner", [.inherited])] := rfl
  have hpasses : bordered.PassesOn passing.template := by
    refine ⟨fun block hblock => ?_, fun block hblock => ?_⟩ <;> rw [hblocks, List.mem_singleton] at hblock
    · rw [hblock]
    · rw [hblock]
      decide
  have hends : bordered.Ends site request .empty := by
    unfold Ends
    decide +kernel
  have hsame : d = bordered.deliver site request .empty Sink.memory .nothing :=
    ((deliver_extend bordered hpasses site request .empty).2 Sink.memory .nothing).1 hends
  rw [hsame]
  exact ⟨hpasses, by decide +kernel, by decide +kernel⟩

end Lineage

end ThemedPages
