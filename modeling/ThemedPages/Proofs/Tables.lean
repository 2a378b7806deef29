import ThemedPages.Proofs.Ascents
import ThemedPages.Proofs.Flaws
import ThemedPages.Proofs.Places

/-!
# Tables of blocks

The table of a lineage has, under the name of a block, a definition for each template that defines the block anywhere,
in the order of the templates. One step up in the levels is one step towards the base among these.

* `Loaded.Gives` says that a definition is the one that a template gives of a block. There is only one, because a
  template in which a block is defined twice is not read.
* `Lineage.forall₂_definitions`: the definitions of a block are given by the templates that define it, in their order.
* `Lineage.table_of_wasRead` says this of the table, and that the definitions of a block are from different templates.

That the templates were read is used in one place: it makes the definitions that a template has of a block a list of one
or none. Then the definitions in a lineage and the templates that have one go side by side, and a level is a position in
both lists.
-/

namespace ThemedPages

/-! ## What a template defines

A block is defined at a spot, however deep in other blocks that is, and it is the same to say that its name is listed.
-/

namespace Template

variable {t : Template} {name : String}

/-- A block of this name is defined somewhere in the template: in other blocks, in loops or in conditions as well. -/
def Defines (t : Template) (name : String) : Prop := ∃ spot, t.DefinesAt spot name

theorem defines_iff : t.Defines name ↔ name ∈ t.blocks.map (·.1) := by
  rw [map_blocks_eq_filterMap, List.mem_filterMap]
  simp only [nameAt?_eq_some]
  exact ⟨fun ⟨spot, h⟩ => ⟨spot, mem_spotsIn_of_definesAt h, h⟩, fun ⟨spot, _, h⟩ => ⟨spot, h⟩⟩

instance (t : Template) (name : String) : Decidable (t.Defines name) := decidable_of_iff _ defines_iff.symm

/-- A template that was read is flawless. -/
theorem WasRead.flawless (h : t.WasRead) : t.Flawless := by
  obtain ⟨name, source, hread⟩ := h
  exact flaw?_eq_none.mp (flaw?_of_read hread)

end Template

/-- The definition is the one that a template gives of a block: it is written at a spot of the template, and the block
is defined nowhere else in it. -/
structure Loaded.Gives (t : Loaded) (name : String) (definition : Definition) : Prop where
  /-- it is marked with where the template is -/
  origin : definition.origin = t.origin
  /-- it is there once -/
  written : ∃ spot, t.template.nodeAt? spot = some (.block name definition.body) ∧
    ∀ spot', t.template.DefinesAt spot' name → spot' = spot

namespace Lineage

variable {name : String} {t : Loaded}

/-- A template that does not define a block gives no definition of it. -/
theorem definitionsIn_eq_nil (h : ¬ t.template.Defines name) : definitionsIn name t = [] := by
  rw [Template.defines_iff, ← List.count_eq_zero, ← length_definitionsIn] at h
  exact List.length_eq_zero_iff.mp h

/-- **A template that was read gives one definition of each block that it defines.** -/
theorem exists_definitionsIn_eq (hread : t.template.WasRead) (h : t.template.Defines name) :
    ∃ definition, definitionsIn name t = [definition] ∧ t.Gives name definition := by
  have hflawless := hread.flawless
  have hlength : (definitionsIn name t).length = 1 := by
    rw [length_definitionsIn]
    exact List.count_eq_one_of_mem ((Template.nodup_map_blocks _).mpr hflawless.blocks) (Template.defines_iff.mp h)
  obtain ⟨definition, hdefinition⟩ := List.length_eq_one_iff.mp hlength
  obtain ⟨horigin, hblock⟩ := mem_definitionsIn.mp (hdefinition ▸ List.mem_singleton_self definition)
  obtain ⟨spot, around, hspot⟩ := (definedIn_of_mem_blocksIn hblock).exists_nodeAt? none
  have hnode := Template.nodeAt?_eq_some.mpr ⟨around, hspot⟩
  exact ⟨definition, hdefinition, horigin, spot, hnode, fun spot' h' => hflawless.blocks spot' spot name h' ⟨_, hnode⟩⟩

theorem forall₂_flatMap_definitionsIn (name : String) {ts : List Loaded} (hread : ∀ t ∈ ts, t.template.WasRead) :
    List.Forall₂ (fun t definition => t.Gives name definition) (ts.filter fun t => t.template.Defines name)
      (ts.flatMap (definitionsIn name)) := by
  induction ts with
  | nil => exact .nil
  | cons t ts ih =>
    obtain ⟨ht, hts⟩ := List.forall_mem_cons.mp hread
    rw [List.flatMap_cons]
    by_cases h : t.template.Defines name
    · obtain ⟨definition, hdefinition, hgives⟩ := exists_definitionsIn_eq ht h
      rw [List.filter_cons_of_pos (by simpa using h), hdefinition]
      exact .cons hgives (ih hts)
    · rw [List.filter_cons_of_neg (by simpa using h), definitionsIn_eq_nil h]
      exact ih hts

/-- The templates that define a block, from the most derived to the base. -/
def defining (l : Lineage) (name : String) : List Loaded := l.templates.filter fun t => t.template.Defines name

variable {l : Lineage}

/-- The definitions of a block are given by the templates that define it, in the order of the templates. -/
theorem forall₂_definitions (hread : ∀ t ∈ l.templates, t.template.WasRead) (name : String) :
    List.Forall₂ (fun t definition => t.Gives name definition) (l.defining name) (l.definitions name) :=
  forall₂_flatMap_definitionsIn name hread

/-- A block has as many levels as there are templates that define it. -/
theorem depth_eq_length_defining (hread : ∀ t ∈ l.templates, t.template.WasRead) (name : String) :
    l.depth name = (l.defining name).length := (forall₂_definitions hread name).length_eq.symm

/-- At each level is the definition that is given by the template at this place among those that define the block. -/
theorem exists_definition?_of_defining (hread : ∀ t ∈ l.templates, t.template.WasRead) {level : Nat}
    (h : (l.defining name)[level]? = some t) :
    ∃ definition, l.definition? name level = some definition ∧ t.Gives name definition := by
  obtain ⟨hlength, hget⟩ := List.forall₂_iff_get.mp (forall₂_definitions hread name)
  obtain ⟨hlevel, rfl⟩ := List.getElem?_eq_some_iff.mp h
  exact ⟨_, List.getElem?_eq_getElem (hlength ▸ hlevel), hget level hlevel (hlength ▸ hlevel)⟩

/-- If the templates are different, no two definitions of a block are from the same one. -/
theorem level_eq_of_origin_eq (hread : ∀ t ∈ l.templates, t.template.WasRead)
    (hnodup : (l.templates.map (·.origin)).Nodup) {level level' : Nat} {definition definition' : Definition}
    (h : l.definition? name level = some definition) (h' : l.definition? name level' = some definition')
    (horigin : definition.origin = definition'.origin) : level = level' := by
  have horigins : (l.definitions name).map (·.origin) = (l.defining name).map (·.origin) := by
    rw [← List.forall₂_eq_eq_eq, List.forall₂_map_left_iff, List.forall₂_map_right_iff]
    exact (forall₂_definitions hread name).flip.imp fun _ _ hgives => hgives.origin
  have hdefinitions : ((l.definitions name).map (·.origin)).Nodup := by
    rw [horigins]
    exact hnodup.sublist (List.filter_sublist.map _)
  rw [definition?] at h h'
  refine (List.getElem?_inj ?_ hdefinitions).mp ?_
  · rw [List.length_map]
    exact (List.getElem?_eq_some_iff.mp h).1
  · rw [List.getElem?_map, List.getElem?_map, h, h', Option.map_some, Option.map_some, horigin]

/-- The blocks of a lineage are those that some template of it defines. -/
theorem mem_blockNames_iff : name ∈ l.blockNames ↔ ∃ t ∈ l.templates, t.template.Defines name := by
  rw [mem_blockNames, allNames, List.mem_flatMap]
  simp only [Template.defines_iff]

/-! ## The table

The table is looked at through `Lineage.definition?`, which finds the same. -/

/-- The table of a lineage of templates that were read. For every block, the table has as many definitions as templates
of the lineage define it, and at each level the definition that is given by the template at this place among them. Its
names are those of the blocks that are defined somewhere, each of them once. No two definitions of a block have the same
origin if no two templates have, which is so in every lineage that is found. -/
theorem table_of_wasRead (l : Lineage) (hread : ∀ t ∈ l.templates, t.template.WasRead) :
    (∀ name, l.table.depth name = (l.defining name).length ∧
      (∀ level t, (l.defining name)[level]? = some t →
        ∃ definition, l.table.definition? name level = some definition ∧ t.Gives name definition) ∧
      ∀ level, l.table.depth name ≤ level → l.table.definition? name level = none) ∧
    (l.table.names.Nodup ∧ ∀ name, name ∈ l.table.names ↔ ∃ t ∈ l.templates, t.template.Defines name) ∧
    (l.origins.Nodup → ∀ name level level' definition definition',
      l.table.definition? name level = some definition → l.table.definition? name level' = some definition' →
        definition.origin = definition'.origin → level = level') ∧
    ∀ (c : Catalog) (theme : Option String) (leaf : Loaded),
      (c.lineageOf theme leaf).outcome = .ok l → l.origins.Nodup := by
  simp only [depth_table, definition?_table, names_table]
  refine ⟨fun name => ⟨depth_eq_length_defining hread name, fun level t => ?_, fun level hlevel => ?_⟩, ?_, ?_, ?_⟩
  · exact exists_definition?_of_defining hread
  · exact List.getElem?_eq_none hlevel
  · exact ⟨nodup_eraseDups _, fun name => mem_blockNames_iff⟩
  · exact fun hnodup name level level' definition definition' => level_eq_of_origin_eq hread hnodup
  · exact fun c theme leaf hl => (Catalog.trail_of_lineageOf hl).nodup

/-- The block `x` is defined in a loop of the base and in the `else` of a condition of the leaf, and not in between. -/
theorem table_of_wasRead_skipped :
    let root := Root.inMemory Root.defaultName [
      ("base.html", .ok "@for i in items {@block x {base}}"),
      ("middle.html", .ok "@extends(\"base.html\")@block y {middle}"),
      ("leaf.html", .ok "@extends(\"middle.html\")@block y {@if a {} else {@block x {leaf}}}")]
    let site := Site.new root [] 8
    ∃ l, (site.catalog.lineage ⟨"leaf.html", none⟩).outcome = .ok l ∧ (∀ t ∈ l.templates, t.template.WasRead) ∧
      l.origins.map (·.path) = ["leaf.html", "middle.html", "base.html"] ∧ l.table.depth "x" = 2 ∧
      ∃ definition, l.table.definition? "x" 1 = some definition ∧ definition.origin.path = "base.html" := by
  intro root site
  have hfound : ((site.catalog.lineage ⟨"leaf.html", none⟩).outcome.map fun l =>
      (l.origins.map (·.path), (l.defining "x").map (·.origin.path))) =
      .ok (["leaf.html", "middle.html", "base.html"], ["leaf.html", "base.html"]) := by decide +kernel
  clear_value root
  rcases hlineage : (site.catalog.lineage ⟨"leaf.html", none⟩).outcome with stop | l
  · rw [hlineage] at hfound
    cases hfound
  · rw [hlineage] at hfound
    obtain ⟨hpaths, hdefining⟩ := Prod.mk.inj (Except.ok.inj hfound)
    have hread : ∀ t ∈ l.templates, t.template.WasRead :=
      fun t ht => (Site.onlyRead_run root [] 8 []).of_lineage hlineage ht
    obtain ⟨hx, -⟩ := table_of_wasRead l hread
    obtain ⟨hdepth, hlevel, -⟩ := hx "x"
    have hbase : ((l.defining "x").map (·.origin.path))[1]? = some "base.html" := by
      rw [hdefining]
      rfl
    rw [List.getElem?_map] at hbase
    obtain ⟨t, ht, hpath⟩ := Option.map_eq_some_iff.mp hbase
    obtain ⟨definition, hdefinition, hgives⟩ := hlevel 1 t ht
    refine ⟨l, rfl, hread, hpaths, ?_, definition, hdefinition, hgives.origin ▸ hpath⟩
    rw [hdepth, ← List.length_map, hdefining]
    rfl

end Lineage

end ThemedPages
