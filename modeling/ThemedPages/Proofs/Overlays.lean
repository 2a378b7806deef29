import ThemedPages.Proofs.Blocks
import ThemedPages.Proofs.Pages

/-!
# Themes are overlays

A theme is laid over the default templates: what it has is taken from it, and everything else from them. This is decided
for each template on its own, for a page as for its ancestors and its snippets. So a page with a theme is the page of a
site without themes, whose only root has been overlaid beforehand: `Site.deliver_overlay`. What is in other themes makes
no difference.

The two sites only differ in what roots are called. Where a template is looked for again, the same one is found, so that
two templates of a lineage are the same if and only if their paths are.

* `Likeness.butRoots` is the likeness of what is the same but for the names of roots.
* `Catalog.LoadAlike` says of two catalogs that single templates are loaded alike, and `Catalog.LoadAlike.layout` that
  layouts are found alike then. `Catalog.search_overlay` says it of a theme and the overlaid root.
* The rest of the way, from layouts to pages that are delivered, is that of every likeness.

The step that is not one of sequencing is where the way up looks whether a parent was met before. It compares origins,
and an origin has the name of a root in it, which is not the same on the two sides. What makes up for it is that a root
is determined by the path: under a theme, one path is always found in the same one of the two roots.
-/

namespace ThemedPages

/-! ## Roots over each other

The upper root is asked first, and the lower one only where the upper one has nothing. An error of the upper root is
an error of the overlay. -/

/-- A root with another one laid over it: what the other answers with a source or an error is the answer. -/
def Root.overlay (upper lower : Root) (description : String) : Root where
  description := description
  load path :=
    match upper.load path with
    | .ok none => lower.load path
    | answer => answer
  extent := upper.extent + lower.extent
  bounded := by
    obtain ⟨paths, hlength, hpaths⟩ := upper.bounded
    obtain ⟨paths', hlength', hpaths'⟩ := lower.bounded
    refine ⟨paths ++ paths', by rw [List.length_append]; omega, fun path hpath hload => ?_⟩
    by_cases hupper : upper.load path = .ok none
    · rw [hupper] at hload
      exact List.mem_append_right _ (hpaths' path hpath hload)
    · exact List.mem_append_left _ (hpaths path hpath hupper)

/-! ## What roots are called -/

/-- The errors are the same but for what roots are called, and which ones were searched. -/
inductive Error.SameButRoots : Error → Error → Prop where
  /-- no root has the template -/
  | notFound (path : String) (searched searched' : List String) :
    SameButRoots (.notFound path searched) (.notFound path searched')
  /-- a template that is there and can not be read -/
  | unreadable (root root' path reason : String) :
    SameButRoots (.unreadable root path reason) (.unreadable root' path reason)
  /-- a template that extends itself by a detour, through templates at the same paths -/
  | cyclic {chain chain' : List Origin} (h : chain.map Origin.path = chain'.map Origin.path) :
    SameButRoots (.cyclic (chain.map Origin.text)) (.cyclic (chain'.map Origin.text))
  /-- a fault in a template at the same path -/
  | fault {o o' : Origin} (h : o.path = o'.path) (fault : Fault) :
    SameButRoots (fault.error o.text) (fault.error o'.text)
  /-- any other error -/
  | same (e : Error) : SameButRoots e e

/-- The ends are the same but for what roots are called. -/
inductive Stop.SameButRoots : Stop → Stop → Prop where
  /-- by errors that are -/
  | error {e e' : Error} (h : e.SameButRoots e') : SameButRoots (.error e) (.error e')
  /-- by going round and round -/
  | endless : SameButRoots .endless .endless

theorem Stop.SameButRoots.refl (s : Stop) : s.SameButRoots s := by
  cases s with
  | error e => exact .error (.same e)
  | endless => exact .endless

/-- It ends in the same way, but for what roots are called. -/
def EndLikeness.butRoots : EndLikeness where
  stop := Stop.SameButRoots
  origin o o' := o.path = o'.path
  isUndefined h := by
    cases h with
    | endless => rfl
    | error h =>
      cases h with
      | fault _ fault => cases fault <;> rfl
      | _ => rfl
  fault h fault := .error (.fault h fault)

/-- The likeness of what only differs in what roots are called, and in which of them are asked. -/
def Likeness.butRoots : Likeness := ⟨.effects, .butRoots⟩

/-! ## Layouts of the same templates

What a layout is depends on the paths of the templates and on what they are, but not on what roots are called. So it
is computed from `Lineage.written` alone, part by part. -/

namespace Lineage

/-- What the templates of a lineage are, and under which paths. -/
def written (l : Lineage) : List (String × Template) := l.templates.map fun t => (t.origin.path, t.template)

variable {l l' : Lineage}

/-- The base is the last of the templates on both sides. -/
theorem written_base (h : l.written = l'.written) :
    (l.base.origin.path, l.base.template) = (l'.base.origin.path, l'.base.template) := by
  obtain ⟨hleaf, hancestors⟩ := List.cons.inj h
  have hbase : ∀ l : Lineage, (l.base.origin.path, l.base.template) =
      (l.ancestors.map fun t => (t.origin.path, t.template)).getLast?.getD (l.leaf.origin.path, l.leaf.template) := by
    intro l
    rw [base, List.getLast?_map]
    cases l.ancestors.getLast? <;> rfl
  rw [hbase, hbase, hancestors]
  exact congrArg _ hleaf

/-- The definitions of a block, from what is written. -/
theorem map_definitions (l : Lineage) (name : String) :
    (l.definitions name).map (fun d => (d.origin.path, d.body)) = l.written.flatMap fun t =>
      t.2.blocks.filterMap fun block => if block.1 = name then some (t.1, block.2) else none := by
  rw [definitions, written, List.map_flatMap, List.flatMap_map]
  refine List.flatMap_congr fun t _ => ?_
  rw [definitionsIn, List.map_filterMap]
  refine List.filterMap_congr fun block _ => ?_
  by_cases h : block.1 = name <;> simp [h]

/-- The definition at a level is written in the same template, and is the same. -/
theorem definition?_rel (h : l.written = l'.written) (name : String) (level : Nat) :
    Option.Rel (fun d d' => d.origin.path = d'.origin.path ∧ d.body = d'.body) (l.definition? name level)
      (l'.definition? name level) := by
  have hmap : (l.definition? name level).map (fun d => (d.origin.path, d.body)) =
      (l'.definition? name level).map fun d => (d.origin.path, d.body) := by
    rw [definition?, definition?, ← List.getElem?_map, ← List.getElem?_map, map_definitions, map_definitions, h]
  rcases hd : l.definition? name level with _ | d <;> rcases hd' : l'.definition? name level with _ | d' <;>
    rw [hd, hd'] at hmap
  · exact .none
  · cases hmap
  · cases hmap
  · exact .some (Prod.mk.inj (Option.some.inj hmap))

theorem definitions_eq_of_written (l : Lineage) :
    l.layout.definitions = (l.written.flatMap fun t => t.2.blocks).length := by
  rw [written, List.flatMap_map]
  rfl

theorem loopNames_eq_of_written (l : Lineage) :
    l.layout.loopNames = (l.written.flatMap fun t => loopNamesIn t.2.body).eraseDups.length := by
  rw [written, List.flatMap_map]
  rfl

/-- The same templates under the same paths make layouts that are alike. -/
theorem layouts_butRoots (h : l.written = l'.written) : Likeness.butRoots.Layouts l.layout l'.layout where
  body := congrArg (fun t => t.2.body) (written_base h)
  origin := congrArg Prod.fst (written_base h)
  definition name level := by
    have hrel := definition?_rel h name level
    rw [← definition?_table, ← definition?_table] at hrel
    exact hrel
  definitions := by rw [definitions_eq_of_written, definitions_eq_of_written, h]
  loopNames := by rw [loopNames_eq_of_written, loopNames_eq_of_written, h]

end Lineage

/-! ## Finding the same templates

Two catalogs correspond if for each path single templates are loaded alike. Nothing is on a shelf here, so what is
found is what is loaded. -/

namespace Catalog

/-- The templates are the same, and each is found in its catalog under its path. -/
structure Counterparts (c c' : Catalog) (theme theme' : Option String) (t t' : Loaded) : Prop where
  /-- what they are -/
  template : t.template = t'.template
  /-- their paths -/
  path : t.origin.path = t'.origin.path
  /-- the first can be found again -/
  found : (c.find ⟨t.origin.path, theme⟩).outcome = .ok t
  /-- so can the second -/
  found' : (c'.find ⟨t'.origin.path, theme'⟩).outcome = .ok t'

section

variable {c c' : Catalog} {theme theme' : Option String}

/-- Two of them are in the same root, under the same path, if and only if their counterparts are. -/
theorem Counterparts.origin_eq_iff {t t' u u' : Loaded} (h : Counterparts c c' theme theme' t t')
    (h' : Counterparts c c' theme theme' u u') : t.origin = u.origin ↔ t'.origin = u'.origin := by
  constructor <;> intro horigin
  · have hpath : t'.origin.path = u'.origin.path := by rw [← h.path, ← h'.path, horigin]
    have hfound := h.found'
    rw [hpath, h'.found'] at hfound
    rw [Except.ok.inj hfound]
  · have hpath : t.origin.path = u.origin.path := by rw [h.path, h'.path, horigin]
    have hfound := h.found
    rw [hpath, h'.found] at hfound
    rw [Except.ok.inj hfound]

/-- The templates are the same, and under the same path. -/
def SameAt (path : String) (t t' : Loaded) : Prop :=
  t.template = t'.template ∧ t.origin.path = path ∧ t'.origin.path = path

/-- What two catalogs load under any path is alike. -/
def LoadAlike (c c' : Catalog) (theme theme' : Option String) : Prop :=
  ∀ path, Likeness.butRoots.Like (SameAt path) (c.load ⟨path, theme⟩) (c'.load ⟨path, theme'⟩)

/-- What is loaded alike is found alike, and each template has its counterpart. -/
theorem LoadAlike.find (h : LoadAlike c c' theme theme') (hshelf : c.shelf = []) (hshelf' : c'.shelf = [])
    (path : String) :
    Likeness.butRoots.Like (Counterparts c c' theme theme') (c.find ⟨path, theme⟩) (c'.find ⟨path, theme'⟩) := by
  rcases hpath : isTemplatePath path
  · have hinvalid : ∀ (c : Catalog) theme, c.find ⟨path, theme⟩ = Transcript.fail (.invalidPath path) :=
      fun _ _ => find_of_invalid hpath
    rw [hinvalid, hinvalid]
    exact .fail (.refl _)
  · have hlookup : c.shelf.lookup ⟨path, theme⟩ = none := by rw [hshelf]; rfl
    have hlookup' : c'.shelf.lookup ⟨path, theme'⟩ = none := by rw [hshelf']; rfl
    have hfind : c.find ⟨path, theme⟩ = c.load ⟨path, theme⟩ >>= _ := find_of_not_shelved hpath hlookup
    have hfind' : c'.find ⟨path, theme'⟩ = c'.load ⟨path, theme'⟩ >>= _ := find_of_not_shelved hpath hlookup'
    rw [hfind, hfind']
    refine (h path).attach.bind fun t t' ⟨⟨htemplate, htpath, htpath'⟩, hload, hload'⟩ => ⟨rfl, ?_⟩
    refine ⟨htemplate, htpath.trans htpath'.symm, ?_, ?_⟩
    · rw [htpath]
      exact find_eq_ok_iff.mpr ⟨hpath, .inr ⟨hlookup, hload⟩⟩
    · rw [htpath']
      exact find_eq_ok_iff.mpr ⟨hpath, .inr ⟨hlookup', hload'⟩⟩

/-- Counterparts are the same templates at the same paths. -/
theorem map_written_eq {ts ts' : List Loaded} (h : List.Forall₂ (Counterparts c c' theme theme') ts ts') :
    (ts.map fun t => (t.origin.path, t.template)) = ts'.map fun t => (t.origin.path, t.template) := by
  induction h with
  | nil => rfl
  | cons ht _ ih => rw [List.map_cons, List.map_cons, ht.path, ht.template, ih]

theorem map_path_eq {ts ts' : List Loaded} (h : List.Forall₂ (Counterparts c c' theme theme') ts ts') :
    (ts.map Loaded.origin).map Origin.path = (ts'.map Loaded.origin).map Origin.path := by
  have hpaths := congrArg (List.map Prod.fst) (map_written_eq h)
  rw [List.map_map, List.map_map] at hpaths ⊢
  exact hpaths

/-- **Counterparts are enough for a lineage:** they have the same parent, and are equal where their paths are. -/
theorem pairs_counterparts : Likeness.butRoots.Pairs (Counterparts c c' theme theme') where
  parent h := by rw [h.template]
  origin h h' := h.origin_eq_iff h'
  cyclic h := by
    have hcyclic := Error.SameButRoots.cyclic (map_path_eq h)
    rw [List.map_map, List.map_map] at hcyclic
    exact .error hcyclic

/-- The layouts that are found are alike. -/
theorem LoadAlike.layout (h : LoadAlike c c' theme theme') (hshelf : c.shelf = []) (hshelf' : c'.shelf = [])
    (path : String) :
    Likeness.butRoots.Like Likeness.butRoots.Layouts (c.layout ⟨path, theme⟩) (c'.layout ⟨path, theme'⟩) := by
  have hfind := h.find hshelf hshelf'
  have hlineage := (hfind path).bind fun leaf leaf' hleaf => lineageOf_like pairs_counterparts .endless hfind hleaf
  exact hlineage.map fun l l' htemplates => Lineage.layouts_butRoots (map_written_eq htemplates)

end

end Catalog

/-! ## Themes

A search goes through the root of the theme and then the default one, which is what asking the overlay once comes to. -/

namespace Catalog

/-- Asking roots one after the other is asking the last one, overlaid with the first. -/
theorem search_overlay (upper lower : Root) (description name name' name'' path : String) :
    Likeness.butRoots.Like (Option.Rel (SameAt path))
      (search path [(name, upper), (name', lower)]) (search path [(name'', upper.overlay lower description)]) := by
  have hasked : ∀ name name', Likeness.butRoots.Like Eq (Transcript.emit (.asked name path))
      (Transcript.emit (.asked name' path)) := fun _ _ => ⟨rfl, rfl⟩
  rw [search, search]
  refine (hasked name name'').bind_eq fun _ => ?_
  -- an error or a source of the upper root is final, and otherwise the lower one is asked
  rcases hupper : upper.load path with reason | _ | source
  · have hload : (upper.overlay lower description).load path = .error reason := by simp [Root.overlay, hupper]
    rw [hload]
    exact .fail (.error (.unreadable _ _ _ _))
  · have hload : (upper.overlay lower description).load path = lower.load path := by simp [Root.overlay, hupper]
    rw [hload, search]
    have hnothing : Likeness.butRoots.Like Eq (Transcript.emit (.asked name' path)) (pure ()) := ⟨rfl, rfl⟩
    refine hnothing.bind_eq (g := fun _ => _) fun _ => ?_
    rcases lower.load path with reason | _ | source
    · exact .fail (.error (.unreadable _ _ _ _))
    · exact .pure .none
    · dsimp only
      cases Template.read path (Utf8.bytes source) with
      | ok template => exact .pure (.some ⟨rfl, rfl, rfl⟩)
      | error e => exact .fail (.refl _)
  · have hload : (upper.overlay lower description).load path = .ok (some source) := by simp [Root.overlay, hupper]
    rw [hload]
    dsimp only
    cases Template.read path (Utf8.bytes source) with
    | ok template => exact .pure (.some ⟨rfl, rfl, rfl⟩)
    | error e => exact .fail (.refl _)

theorem loadAlike_overlay (c : Catalog) {theme : String} {root : Root} (h : c.themes.get? theme = some root)
    (description : String) : LoadAlike c (.ofRoot (root.overlay c.base description)) (some theme) none := by
  intro path
  have hroots : c.roots? (some theme) = some [(theme, root), (Root.defaultName, c.base)] := by
    rw [roots?, h]
    rfl
  rw [load, load, hroots]
  refine (search_overlay root c.base description theme Root.defaultName Root.defaultName path).bind fun t t' ht => ?_
  cases ht with
  | none => exact .fail (.error (.notFound _ _ _))
  | some ht => exact .pure ht

/-- Under a theme, other themes are never asked. -/
theorem find_congr {c : Catalog} {theme : String} {others : ByName Root}
    (h : others.get? theme = c.themes.get? theme) (path : String) :
    { c with themes := others }.find ⟨path, some theme⟩ = c.find ⟨path, some theme⟩ := by
  have hroots : { c with themes := others }.roots? (some theme) = c.roots? (some theme) := by
    rw [roots?, roots?, h]
  rw [find, find, load, load, hroots]

end Catalog

/-- A theme is an overlay. Rendering with a theme, on a site that remembers nothing, is rendering without one on a site
whose only root is that of the theme laid over that of the default templates, but for what errors call the roots. With
other themes in place of the others it is the same. -/
theorem Site.deliver_overlay (site : Site) (hshelf : site.catalog.shelf = []) {theme : String} {root : Root}
    (htheme : site.catalog.themes.get? theme = some root) (description : String) (globals : Context)
    (helpers : Helpers) (path : String) (context : Context) {σ : Type} (sink : Sink σ) (st : σ) :
    let overlaid : Site := ⟨.ofRoot (root.overlay site.catalog.base description), site.snippetLimit⟩
    (site.deliver ⟨some theme, globals, helpers⟩ path context sink st).Alike .butRoots
      (overlaid.deliver ⟨none, globals, helpers⟩ path context sink st) ∧
    ∀ others : ByName Root, others.get? theme = some root →
      ({ site with catalog := { site.catalog with themes := others } } : Site).deliver ⟨some theme, globals, helpers⟩
          path context sink st =
        site.deliver ⟨some theme, globals, helpers⟩ path context sink st := by
  constructor
  · have hload := Catalog.loadAlike_overlay site.catalog htheme description
    -- the overlay finds what the theme finds, up to the names of the roots
    have hfinds : Site.Finds .butRoots site ⟨.ofRoot (root.overlay site.catalog.base description), site.snippetLimit⟩
        ⟨some theme, globals, helpers⟩ ⟨none, globals, helpers⟩ :=
      ⟨⟨rfl, rfl⟩, rfl, hload.layout hshelf rfl, Stop.SameButRoots.refl⟩
    exact hfinds.deliver_alike (fun h => h) path context sink st
  · intro others hothers
    refine deliver_congr ?_ (Catalog.layout_congr fun path => ?_) path context sink st
    · rfl
    · exact Catalog.find_congr (hothers.trans htheme.symm) path

/-- Default templates of a page and its layout. -/
def Root.bright : Root :=
  .inMemory Root.defaultName
    [("base.html", .ok "<@block main \x7b\x7d>"), ("page.html", .ok "@extends(\"base.html\")@block main \x7bday\x7d")]

/-- A theme with another layout. -/
def Root.dark : Root := .inMemory "dark" [("base.html", .ok "[@block main \x7b\x7d]")]

theorem Site.deliver_overlay_dark :
    let site : Site := ⟨⟨Root.bright, [("dark", Root.dark)], [], 0⟩, 32⟩
    site.catalog.shelf = [] ∧ site.catalog.themes.get? "dark" = some Root.dark ∧
      (site.deliver ⟨some "dark", .empty, Helpers.standard⟩ "page.html" .empty Sink.memory .nothing).Alike .butRoots
        ((⟨.ofRoot (Root.dark.overlay Root.bright "dark or bright"), 32⟩ : Site).deliver
          ⟨none, .empty, Helpers.standard⟩ "page.html" .empty Sink.memory .nothing) := by
  intro site
  have htheme : site.catalog.themes.get? "dark" = some Root.dark := by simp [site, ByName.get?]
  exact ⟨rfl, htheme, (deliver_overlay site rfl htheme "dark or bright" .empty Helpers.standard "page.html" .empty
    Sink.memory .nothing).1⟩

end ThemedPages
