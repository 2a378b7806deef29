import ThemedPages.Catalog

/-!
# Lineages

A template with all its ancestors. Each parent is found on its own, so that a theme may have a page without the page's
layout, or the other way around. The lineage of a template that extends itself by a detour does not exist. For every
block the lineage has a list of definitions, the most derived first.
-/

namespace ThemedPages

/-- A template and its ancestors. -/
structure Lineage where
  /-- the template itself, the most derived -/
  leaf : Loaded
  /-- what it extends, what that extends, and so on -/
  ancestors : List Loaded

namespace Lineage

/-- The templates, from the most derived to the base. -/
def templates (l : Lineage) : List Loaded := l.leaf :: l.ancestors

/-- The template that extends nothing, whose body is the page. -/
def base (l : Lineage) : Loaded := l.ancestors.getLast?.getD l.leaf

/-- Where the templates were found, from the most derived to the base. -/
def origins (l : Lineage) : List Origin := l.templates.map (·.origin)

/-- The ancestors of a template, given how to find one, those between it and the leaf (the leaf first), and a bound on
their number. -/
def climb (find : String → Transcript Loaded) : Nat → List Loaded → Loaded → Transcript (List Loaded)
  | 0, _, _ => Transcript.endless
  | fuel + 1, below, current =>
    match current.template.parent with
    | none => pure []
    | some path => do
      let parent ← find path
      let below := below ++ [current]
      if below.any fun t => t.origin = parent.origin then
        Transcript.fail (.cyclic ((below ++ [parent]).map fun t => t.origin.text))
      else return parent :: (← climb find fuel below parent)

/-- The lineage of a template, given how to find others and how many can be found. -/
def ofLeaf (find : String → Transcript Loaded) (extent : Nat) (leaf : Loaded) : Transcript Lineage := do
  return ⟨leaf, ← climb find (extent + 2) [] leaf⟩

end Lineage

/-- The lineage of a template that was found, with its ancestors found under a theme. -/
def Catalog.lineageOf (c : Catalog) (theme : Option String) (leaf : Loaded) : Transcript Lineage :=
  Lineage.ofLeaf (fun path => c.find ⟨path, theme⟩) c.extent leaf

/-- The lineage of the template that is found for a key. -/
def Catalog.lineage (c : Catalog) (key : Key) : Transcript Lineage := do
  c.lineageOf key.theme (← c.find key)

/-! ## Blocks -/

/-- A definition of a block. -/
structure Definition where
  /-- the template that gives it -/
  origin : Origin
  /-- what the block is defined to be -/
  body : List Node

namespace Lineage

/-- The definitions that a template gives of a block. -/
def definitionsIn (name : String) (t : Loaded) : List Definition :=
  t.template.blocks.filterMap fun block => if block.1 = name then some ⟨t.origin, block.2⟩ else none

/-- The definitions of a block, the most derived first. -/
def definitions (l : Lineage) (name : String) : List Definition :=
  l.templates.flatMap (definitionsIn name)

/-- The definition of a block at a level; at level zero is the one that counts, and each one inherits from the next. -/
def definition? (l : Lineage) (name : String) (level : Nat) : Option Definition := (l.definitions name)[level]?

/-- How many definitions of a block there are. -/
def depth (l : Lineage) (name : String) : Nat := (l.definitions name).length

/-- The names of the blocks that are defined anywhere. -/
def blockNames (l : Lineage) : List String :=
  (l.templates.flatMap fun t => t.template.blocks.map (·.1)).eraseDups

end Lineage

/-- The definitions of blocks, by name, the most derived of each block first. -/
abbrev BlockTable := List (String × List Definition)

/-- The definition of a block at a level. -/
def BlockTable.definition? (table : BlockTable) (name : String) (level : Nat) : Option Definition :=
  table.lookup name >>= fun definitions => definitions[level]?

/-- How many definitions of a block there are. -/
def BlockTable.depth (table : BlockTable) (name : String) : Nat := (table.lookup name).elim 0 List.length

/-- The names of the blocks. -/
def BlockTable.names (table : BlockTable) : List String := table.map (·.1)

/-- The definitions of all blocks of a lineage. -/
def Lineage.table (l : Lineage) : BlockTable := l.blockNames.map fun name => (name, l.definitions name)

/-! ## Layouts -/

/-- What counts in a lineage when a page is rendered. -/
structure Layout where
  /-- the template whose body is the page -/
  base : Loaded
  /-- the definitions of the blocks -/
  table : BlockTable
  /-- how many definitions there are in all -/
  definitions : Nat
  /-- how many names the variables of loops have -/
  loopNames : Nat

/-- The layout of a lineage. -/
def Lineage.layout (l : Lineage) : Layout where
  base := l.base
  table := l.table
  definitions := (l.templates.flatMap fun t => t.template.blocks).length
  loopNames := (l.templates.flatMap fun t => loopNamesIn t.template.body).eraseDups.length

/-- The layout of the lineage that is found for a key. -/
def Catalog.layout (c : Catalog) (key : Key) : Transcript Layout := Lineage.layout <$> c.lineage key

end ThemedPages
