import Mathlib.Algebra.BigOperators.Group.List.Lemmas
import Mathlib.Data.List.Dedup
import ThemedPages.Lineage
import ThemedPages.Proofs.Likeness

/-!
# The blocks of a lineage

Which definitions of blocks there are in a lineage, and how many. `Lineage.definition?_table` takes the table of a
layout apart, `Lineage.exists_template_of_definition?` says where a definition is written, and
`Lineage.length_standpoints` counts the definitions.

A block has in a lineage as many levels as there are definitions of it, the most derived at level zero. The table of a
layout lists them by name. What there is to say of it is said of `Lineage.definition?` first, which looks for a
definition without any table, and the two are seen to be the same once.
-/

namespace ThemedPages

/-! ## Definitions in a template

`blocksIn` collects the definitions in some nodes. `DefinedIn` says of one of them where it is, so that what is known of
definitions can be shown by induction on the way to them, in place of all the nodes on both sides of it. -/

/-- The block is defined in some nodes, with a body. -/
inductive DefinedIn (name : String) (body : List Node) : List Node → Prop where
  /-- the definition is the first node -/
  | here (rest : List Node) : DefinedIn name body (.block name body :: rest)
  /-- it is in the nodes after the first one -/
  | past (node : Node) {rest : List Node} (h : DefinedIn name body rest) : DefinedIn name body (node :: rest)
  /-- it is in the body of a loop -/
  | loop (x : String) (list : Expr) {inner : List Node} (rest : List Node) (h : DefinedIn name body inner) :
    DefinedIn name body (.loop x list inner :: rest)
  /-- it is in the nodes for the case that a condition holds -/
  | cond (test : Expr) {inner : List Node} (otherwise : Option (List Node)) (rest : List Node)
    (h : DefinedIn name body inner) : DefinedIn name body (.cond test inner otherwise :: rest)
  /-- it is in the nodes for the other case -/
  | condElse (test : Expr) (inner : List Node) {otherwise : List Node} (rest : List Node)
    (h : DefinedIn name body otherwise) : DefinedIn name body (.cond test inner (some otherwise) :: rest)
  /-- it is in the definition of another block -/
  | block (x : String) {inner : List Node} (rest : List Node) (h : DefinedIn name body inner) :
    DefinedIn name body (.block x inner :: rest)

/-- What is collected is in the nodes. -/
theorem definedIn_of_mem_blocksIn {name : String} {body nodes : List Node} (h : (name, body) ∈ blocksIn nodes) :
    DefinedIn name body nodes := by
  induction nodes using Node.listInduction with
  | nil => exact absurd h List.not_mem_nil
  | comment rest ih | text s rest ih | output e rest ih | inherited rest ih | snippet path args rest ih =>
    exact .past _ (ih h)
  | loop x list inner rest hinner ih =>
    rcases List.mem_append.mp h with h | h
    · exact .loop x list rest (hinner h)
    · exact .past _ (ih h)
  | cond test inner rest hinner ih =>
    rcases List.mem_append.mp h with h | h
    · exact .cond test none rest (hinner h)
    · exact .past _ (ih h)
  | condElse test inner otherwise rest hinner hother ih =>
    rcases List.mem_append.mp h with h | h
    · rcases List.mem_append.mp h with h | h
      · exact .cond test (some otherwise) rest (hinner h)
      · exact .condElse test inner rest (hother h)
    · exact .past _ (ih h)
  | block x inner rest hinner ih =>
    rcases List.mem_append.mp h with h | h
    · rcases List.mem_cons.mp h with h | h
      · obtain ⟨rfl, rfl⟩ := Prod.mk.inj h
        exact .here rest
      · exact .block x rest (hinner h)
    · exact .past _ (ih h)

/-- The variables of loops in a block definition are among those of the template. -/
theorem DefinedIn.loopNamesIn_subset {name : String} {body nodes : List Node} (h : DefinedIn name body nodes) :
    loopNamesIn body ⊆ loopNamesIn nodes := by
  induction h with
  | here rest => exact List.subset_append_left _ _
  | past node _ ih => exact List.Subset.trans ih (List.subset_append_right _ _)
  | loop x list rest _ ih => exact fun y hy => List.mem_append_left _ (List.mem_cons_of_mem _ (ih hy))
  | cond test otherwise rest _ ih =>
    refine List.Subset.trans ih (List.Subset.trans ?_ (List.subset_append_left _ _))
    cases otherwise with
    | none => exact List.Subset.refl _
    | some nodes => exact List.subset_append_left _ _
  | condElse test inner rest _ ih => exact fun y hy => List.mem_append_left _ (List.mem_append_right _ (ih hy))
  | block x rest _ ih => exact List.Subset.trans ih (List.subset_append_left _ _)

namespace Lineage

variable {l : Lineage} {name : String} {level : Nat} {definition : Definition}

theorem base_mem_templates (l : Lineage) : l.base ∈ l.templates := by
  unfold base templates
  rcases h : l.ancestors.getLast? with _ | base
  · exact List.mem_cons_self
  · exact List.mem_cons_of_mem _ (List.mem_of_getLast? h)

/-! ## Definitions in a lineage

The levels of a block are counted through all templates of the lineage and within each of them. -/

/-- What the templates call their blocks, once for each definition. -/
def allNames (l : Lineage) : List String := l.templates.flatMap fun t => t.template.blocks.map (·.1)

theorem mem_blockNames : name ∈ l.blockNames ↔ name ∈ l.allNames := List.mem_eraseDups

/-- A template has as many definitions of a block as its name comes in it. -/
theorem length_definitionsIn (name : String) (t : Loaded) :
    (definitionsIn name t).length = (t.template.blocks.map (·.1)).count name := by
  unfold definitionsIn
  induction t.template.blocks with
  | nil => rfl
  | cons block rest ih =>
    rw [List.map_cons, List.count_cons, ← ih, List.filterMap_cons]
    by_cases h : block.1 = name <;> simp [h]

/-- The definitions that a template gives of a block are written in it. -/
theorem mem_definitionsIn {t : Loaded} :
    definition ∈ definitionsIn name t ↔ definition.origin = t.origin ∧ (name, definition.body) ∈ t.template.blocks := by
  rw [definitionsIn, List.mem_filterMap]
  constructor
  · rintro ⟨⟨x, body⟩, hblock, hsome⟩
    by_cases hx : x = name
    · rw [if_pos hx, Option.some.injEq] at hsome
      subst hx hsome
      exact ⟨rfl, hblock⟩
    · rw [if_neg hx] at hsome
      cases hsome
  · rintro ⟨horigin, hblock⟩
    exact ⟨_, hblock, by rw [if_pos rfl, ← horigin]⟩

/-- A block has as many definitions as templates define it. -/
theorem depth_eq_count (l : Lineage) (name : String) : l.depth name = l.allNames.count name := by
  rw [depth, definitions, allNames, List.length_flatMap, List.count_flatMap]
  congr 1
  exact List.map_congr_left fun t _ => length_definitionsIn name t

/-- There is a definition at each level below the depth, and at no other. -/
theorem definition?_isSome : (l.definition? name level).isSome ↔ level < l.depth name := by
  simp [definition?, depth]

/-- A block that no template defines has no definitions. -/
theorem definitions_eq_nil (h : name ∉ l.blockNames) : l.definitions name = [] := by
  have hdepth : l.depth name = 0 := by
    rw [depth_eq_count]
    exact List.count_eq_zero.mpr fun hmem => h (mem_blockNames.mpr hmem)
  exact List.length_eq_zero_iff.mp hdepth

/-- Looking a name up in a table of a function is applying the function, if the name is listed. -/
theorem lookup_map_graph {α : Type} (f : String → α) (names : List String) (name : String) :
    (names.map fun n => (n, f n)).lookup name = if name ∈ names then some (f name) else none := by
  induction names with
  | nil => rfl
  | cons n rest ih =>
    by_cases h : name = n
    · simp [h]
    · have hne : (name == n) = false := beq_eq_false_iff_ne.mpr h
      simp only [List.map_cons, List.lookup_cons, hne, ih, List.mem_cons, h, false_or]

/-- The table of a layout has the definitions of the lineage. -/
theorem definition?_table (l : Lineage) (name : String) (level : Nat) :
    l.table.definition? name level = l.definition? name level := by
  rw [BlockTable.definition?, table, lookup_map_graph]
  by_cases h : name ∈ l.blockNames
  · rw [if_pos h]
    rfl
  · rw [if_neg h, definition?, definitions_eq_nil h]
    rfl

/-- A block has as many levels in the table as in the lineage. -/
theorem depth_table (l : Lineage) (name : String) : l.table.depth name = l.depth name := by
  rw [BlockTable.depth, table, lookup_map_graph]
  by_cases h : name ∈ l.blockNames
  · rw [if_pos h]
    rfl
  · rw [if_neg h, depth, definitions_eq_nil h]
    rfl

theorem names_table (l : Lineage) : l.table.names = l.blockNames := by simp [BlockTable.names, table, Function.comp_def]

theorem definition?_layout (l : Lineage) (name : String) (level : Nat) :
    l.layout.table.definition? name level = l.definition? name level :=
  l.definition?_table name level

/-- A definition of a block is written in one of the templates. -/
theorem exists_template_of_definition? (h : l.definition? name level = some definition) :
    ∃ t ∈ l.templates, definition.origin = t.origin ∧ (name, definition.body) ∈ t.template.blocks := by
  obtain ⟨t, ht, hmem⟩ := List.mem_flatMap.mp (List.mem_of_getElem? h)
  exact ⟨t, ht, mem_definitionsIn.mp hmem⟩

/-! ## Counting definitions

A standpoint is a definition that a page can be in: a name and a level. There are as many as there are definitions,
since each name is listed once with all its levels. -/

theorem nodup_eraseDups {α : Type} [DecidableEq α] (as : List α) : as.eraseDups.Nodup := by
  match as with
  | [] => exact List.nodup_nil
  | a :: rest =>
    rw [List.eraseDups_cons, List.nodup_cons]
    exact ⟨by simp [List.mem_eraseDups], nodup_eraseDups _⟩
termination_by as.length
decreasing_by exact Nat.lt_succ_of_le (List.length_filter_le _ _)

/-- The names and levels of all definitions. -/
def standpoints (l : Lineage) : List (String × Nat) :=
  l.blockNames.flatMap fun name => (List.range (l.depth name)).map fun level => (name, level)

/-- A definition that there is, is counted. -/
theorem mem_standpoints (h : (l.definition? name level).isSome) : (name, level) ∈ l.standpoints := by
  have hlevel := definition?_isSome.mp h
  have hname : name ∈ l.blockNames := by
    rw [mem_blockNames, ← List.count_pos_iff, ← depth_eq_count]
    omega
  exact List.mem_flatMap.mpr ⟨name, hname, List.mem_map.mpr ⟨level, List.mem_range.mpr hlevel, rfl⟩⟩

/-- There are as many of them as definitions in the templates. -/
theorem length_standpoints (l : Lineage) : l.standpoints.length = l.layout.definitions := by
  -- each name once, and its definitions from the first level to the last
  have hperm : l.blockNames.Perm l.allNames.dedup :=
    (List.perm_ext_iff_of_nodup (nodup_eraseDups _) (List.nodup_dedup _)).mpr fun name => by
      exact mem_blockNames.trans List.mem_dedup.symm
  calc l.standpoints.length
      = (l.blockNames.map fun name => l.allNames.count name).sum := by
        simp [standpoints, List.length_flatMap, depth_eq_count]
    _ = (l.allNames.dedup.map fun name => l.allNames.count name).sum := (hperm.map _).sum_eq
    _ = l.allNames.length := List.sum_map_count_dedup_eq_length _
    _ = l.layout.definitions := by simp [allNames, layout, List.length_flatMap]

/-! ## The variables of loops

A name of a loop in a block definition is a name of a loop in the template that it is written in, so the names in a
lineage are those in its templates. -/

/-- The names of the variables of loops, once each. -/
def allLoopNames (l : Lineage) : List String := (l.templates.flatMap fun t => loopNamesIn t.template.body).eraseDups

theorem loopNamesIn_subset_allLoopNames {t : Loaded} (h : t ∈ l.templates) :
    loopNamesIn t.template.body ⊆ l.allLoopNames :=
  fun _ hname => List.mem_eraseDups.mpr (List.mem_flatMap.mpr ⟨t, h, hname⟩)

/-- The names of loops in a block definition are among those of the lineage. -/
theorem loopNamesIn_definition (h : l.definition? name level = some definition) :
    loopNamesIn definition.body ⊆ l.allLoopNames := by
  obtain ⟨t, ht, -, hblock⟩ := exists_template_of_definition? h
  exact List.Subset.trans (definedIn_of_mem_blocksIn hblock).loopNamesIn_subset (loopNamesIn_subset_allLoopNames ht)

end Lineage

/-- A layout that is found is that of a lineage. -/
theorem Catalog.exists_lineage_of_layout {c : Catalog} {key : Key} {l : Layout} (h : (c.layout key).outcome = .ok l) :
    ∃ lineage : Lineage, (c.lineage key).outcome = .ok lineage ∧ l = lineage.layout := by
  rw [layout, Transcript.outcome_map] at h
  rcases hlineage : (c.lineage key).outcome with stop | lineage <;> rw [hlineage] at h
  · cases h
  · cases h
    exact ⟨lineage, rfl, rfl⟩

end ThemedPages
