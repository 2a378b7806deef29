import Mathlib.Data.List.Perm.Subperm
import Mathlib.Logic.Relation
import ThemedPages.Proofs.Blocks
import ThemedPages.Proofs.Deliveries
import ThemedPages.Render

/-!
# Inheritance by substitution

Where no blocks enclose each other, inheritance is nothing but substitution: every block is replaced by the definition
of it that counts, and every inherited definition by the one at the next level. What comes of it is a single template
without blocks, and to render the lineage is to render this template.

* `Lineage.expansion?` is the substitution, in definitions nested at most so deep.
* `Lineage.expansion?_isSome`: it is finite, if no block encloses itself through the templates of the lineage.
* `renderAll_expandAll`: it does not matter whether blocks are replaced before or while nodes are rendered.
* `Lineage.deliver_expansion` puts this together.

Both conditions are needed. A block that encloses itself would have to be written out inside of its own definition, so
there is no depth that is enough for it. And an inherited definition that there is not remains in the expansion as it
is; in the lineage it is an error of the block that asks for it, and in a template without blocks nothing is inherited.

The errors of the two pages do not name the same template. What is rendered is therefore compared up to these names,
by the likeness `Likeness.anywhere`, and everything else about the two is equal.
-/

namespace ThemedPages

/-! ## Substitution -/

mutual

/-- The nodes that a node in a block definition stands for, given those of the definitions of blocks. -/
def Node.expand (definition : String → Nat → Option (List Node)) (enclosing : Option Enclosing) :
    Node → Option (List Node)
  | .block name _ => definition name 0
  | .inherited =>
    match enclosing with
    | some enclosing => definition enclosing.block (enclosing.level + 1)
    | none => some [.inherited]
  | .loop name list body => do
    let body ← expandAll definition enclosing body
    return [.loop name list body]
  | .cond test body none => do
    let body ← expandAll definition enclosing body
    return [.cond test body none]
  | .cond test body (some otherwise) => do
    let body ← expandAll definition enclosing body
    let otherwise ← expandAll definition enclosing otherwise
    return [.cond test body (some otherwise)]
  | node => some [node]

/-- The nodes that some nodes in a block definition stand for, given those of the definitions of blocks. -/
def expandAll (definition : String → Nat → Option (List Node)) (enclosing : Option Enclosing) :
    List Node → Option (List Node)
  | [] => some []
  | node :: rest => do
    let nodes ← node.expand definition enclosing
    return nodes ++ (← expandAll definition enclosing rest)

end

/-- The nodes that a definition of a block stands for, in definitions nested at most so deep; none if that is not
enough. For a definition that there is not, an inherited definition remains. -/
def BlockTable.expand (table : BlockTable) : Nat → String → Nat → Option (List Node)
  | 0, _, _ => none
  | depth + 1, name, level =>
    match table.definition? name level with
    | none => some [.inherited]
    | some definition => expandAll (table.expand depth) (some ⟨name, level⟩) definition.body

/-- The nodes that the page of a lineage stands for, in block definitions nested at most so deep. -/
def Lineage.expansion? (l : Lineage) (depth : Nat) : Option (List Node) :=
  expandAll (l.table.expand depth) none l.base.template.body

/-- A template that extends nothing, with nodes for its body. -/
def Lineage.single (origin : Origin) (nodes : List Node) : Lineage := ⟨⟨origin, ⟨none, nodes⟩⟩, []⟩

mutual

/-- An inherited definition is asked for in the node. -/
def Node.asksInherited : Node → Bool
  | .inherited => true
  | .loop _ _ body => asksInheritedIn body
  | .cond _ body none => asksInheritedIn body
  | .cond _ body (some otherwise) => asksInheritedIn body || asksInheritedIn otherwise
  | .block _ body => asksInheritedIn body
  | _ => false

/-- An inherited definition is asked for in some nodes. -/
def asksInheritedIn : List Node → Bool
  | [] => false
  | node :: rest => node.asksInherited || asksInheritedIn rest

end

/-! ## Which definitions are needed

What nodes are replaced by is asked for at each block, and at each `super` of the definition around it. An expansion
is found if all that is asked for is found. -/

mutual

/-- The definitions, by name and level, that take the place of what is in a node. -/
def Node.shown (enclosing : Option Enclosing) : Node → List (String × Nat)
  | .block name _ => [(name, 0)]
  | .inherited => (enclosing.map fun e => (e.block, e.level + 1)).toList
  | .loop _ _ body => shownIn enclosing body
  | .cond _ body none => shownIn enclosing body
  | .cond _ body (some otherwise) => shownIn enclosing body ++ shownIn enclosing otherwise
  | _ => []

/-- The definitions, by name and level, that take the place of what is in some nodes. -/
def shownIn (enclosing : Option Enclosing) : List Node → List (String × Nat)
  | [] => []
  | node :: rest => node.shown enclosing ++ shownIn enclosing rest

end

theorem expandAll_cons_isSome {definition : String → Nat → Option (List Node)} {enclosing : Option Enclosing}
    {node : Node} {rest : List Node} (hnode : (node.expand definition enclosing).isSome)
    (hrest : (expandAll definition enclosing rest).isSome) :
    (expandAll definition enclosing (node :: rest)).isSome := by
  obtain ⟨nodes, hnodes⟩ := Option.isSome_iff_exists.mp hnode
  obtain ⟨rest', hrest'⟩ := Option.isSome_iff_exists.mp hrest
  simp [expandAll, hnodes, hrest']

/-- Nodes can be expanded where the definitions can that take the place of what is in them. -/
theorem expandAll_isSome {definition : String → Nat → Option (List Node)} {enclosing : Option Enclosing}
    {nodes : List Node} (h : ∀ key ∈ shownIn enclosing nodes, (definition key.1 key.2).isSome) :
    (expandAll definition enclosing nodes).isSome := by
  induction nodes using Node.listInduction with
  | nil => rfl
  | comment rest ih => exact expandAll_cons_isSome rfl (ih h)
  | text s rest ih => exact expandAll_cons_isSome rfl (ih h)
  | output e rest ih => exact expandAll_cons_isSome rfl (ih h)
  | loop name list body rest hbody ih =>
    rw [shownIn, Node.shown] at h
    refine expandAll_cons_isSome ?_ (ih fun key hkey => h key (List.mem_append_right _ hkey))
    obtain ⟨body', hbody'⟩ := Option.isSome_iff_exists.mp (hbody fun key hkey => h key (List.mem_append_left _ hkey))
    simp [Node.expand, hbody']
  | cond test body rest hbody ih =>
    rw [shownIn, Node.shown] at h
    refine expandAll_cons_isSome ?_ (ih fun key hkey => h key (List.mem_append_right _ hkey))
    obtain ⟨body', hbody'⟩ := Option.isSome_iff_exists.mp (hbody fun key hkey => h key (List.mem_append_left _ hkey))
    simp [Node.expand, hbody']
  | condElse test body otherwise rest hbody hother ih =>
    rw [shownIn, Node.shown, List.append_assoc] at h
    refine expandAll_cons_isSome ?_
      (ih fun key hkey => h key (List.mem_append_right _ (List.mem_append_right _ hkey)))
    obtain ⟨body', hbody'⟩ := Option.isSome_iff_exists.mp (hbody fun key hkey => h key (List.mem_append_left _ hkey))
    obtain ⟨other', hother'⟩ := Option.isSome_iff_exists.mp
      (hother fun key hkey => h key (List.mem_append_right _ (List.mem_append_left _ hkey)))
    simp [Node.expand, hbody', hother']
  | block name body rest _ ih =>
    rw [shownIn, Node.shown] at h
    refine expandAll_cons_isSome ?_ (ih fun key hkey => h key (List.mem_append_right _ hkey))
    rw [Node.expand]
    -- what replaces a block is its first definition, whatever the body says
    exact h (name, 0) List.mem_cons_self
  | inherited rest ih =>
    rw [shownIn, Node.shown] at h
    refine expandAll_cons_isSome ?_ (ih fun key hkey => h key (List.mem_append_right _ hkey))
    cases enclosing with
    | none => rfl
    | some enclosing =>
      rw [Node.expand]
      -- what replaces `@super()` is the next definition of the block around it
      exact h (enclosing.block, enclosing.level + 1) List.mem_cons_self
  | snippet path args rest ih => exact expandAll_cons_isSome rfl (ih h)

/-- The definition is that of one of some blocks that counts, or the one that an enclosing definition inherits from. -/
def Replaces (enclosing : Option Enclosing) (blocks : List (String × List Node)) (key : String × Nat) : Prop :=
  (key.2 = 0 ∧ ∃ body, (key.1, body) ∈ blocks) ∨ ∃ e, enclosing = some e ∧ key = (e.block, e.level + 1)

theorem Replaces.mono {enclosing : Option Enclosing} {blocks blocks' : List (String × List Node)}
    {key : String × Nat} (h : Replaces enclosing blocks key) (hsubset : blocks ⊆ blocks') :
    Replaces enclosing blocks' key :=
  h.imp_left fun ⟨hlevel, body, hmem⟩ => ⟨hlevel, body, hsubset hmem⟩

/-- What takes the place of something in some nodes is a block in them, or inherited. -/
theorem replaces_of_mem_shownIn {enclosing : Option Enclosing} {nodes : List Node} {key : String × Nat}
    (h : key ∈ shownIn enclosing nodes) : Replaces enclosing (blocksIn nodes) key := by
  induction nodes using Node.listInduction with
  | nil => exact absurd h List.not_mem_nil
  | comment rest ih => exact ih h
  | text s rest ih => exact ih h
  | output e rest ih => exact ih h
  | loop name list body rest hbody ih =>
    rw [blocksIn, Node.blocks]
    rcases List.mem_append.mp h with h | h
    · exact (hbody h).mono (List.subset_append_left _ _)
    · exact (ih h).mono (List.subset_append_right _ _)
  | cond test body rest hbody ih =>
    rw [blocksIn, Node.blocks]
    rcases List.mem_append.mp h with h | h
    · exact (hbody h).mono (List.subset_append_left _ _)
    · exact (ih h).mono (List.subset_append_right _ _)
  | condElse test body otherwise rest hbody hother ih =>
    rw [blocksIn, Node.blocks]
    rcases List.mem_append.mp h with h | h
    · rcases List.mem_append.mp h with h | h
      · exact (hbody h).mono fun _ hx => List.mem_append_left _ (List.mem_append_left _ hx)
      · exact (hother h).mono fun _ hx => List.mem_append_left _ (List.mem_append_right _ hx)
    · exact (ih h).mono (List.subset_append_right _ _)
  | block name body rest _ ih =>
    rw [blocksIn, Node.blocks]
    rcases List.mem_append.mp h with h | h
    · obtain rfl := List.mem_singleton.mp h
      -- the body of the block is not shown, so nothing is asked of it
      exact .inl ⟨rfl, body, List.mem_append_left _ List.mem_cons_self⟩
    · exact (ih h).mono (List.subset_append_right _ _)
  | inherited rest ih =>
    rcases List.mem_append.mp h with h | h
    · rw [Node.shown, Option.mem_toList, Option.map_eq_some_iff] at h
      -- what `@super()` shows does not depend on the blocks of the nodes
      obtain ⟨e, henclosing, rfl⟩ := h
      exact .inr ⟨e, henclosing, rfl⟩
    · exact ih h
  | snippet path args rest ih => exact ih h

/-! ## The substitution is finite

Every step goes to a block that is enclosed or one level further up in the same block. Levels are finite, and blocks
do not enclose themselves, so no definition is come to again. The trail of definitions on the way is therefore no
longer than their number, which is enough of a depth. -/

namespace Lineage

variable {l : Lineage}

/-- Some template defines the second block inside of its definition of the first. -/
def Encloses (l : Lineage) (outer inner : String) : Prop :=
  ∃ t ∈ l.templates, ∃ body, (outer, body) ∈ t.template.blocks ∧ ∃ body', (inner, body') ∈ blocksIn body

/-- The second definition takes the place of something in the first. -/
def Leads (l : Lineage) (key key' : String × Nat) : Prop :=
  ∃ definition, l.definition? key.1 key.2 = some definition ∧
    key' ∈ shownIn (some ⟨key.1, key.2⟩) definition.body

/-- One step leads to a block that is enclosed, or to the next level of the same block. -/
theorem Leads.step {key key' : String × Nat} (h : l.Leads key key') :
    l.Encloses key.1 key'.1 ∨ key'.1 = key.1 ∧ key'.2 = key.2 + 1 := by
  obtain ⟨definition, hdefinition, hshown⟩ := h
  obtain ⟨t, ht, -, hblock⟩ := exists_template_of_definition? hdefinition
  rcases replaces_of_mem_shownIn hshown with ⟨-, body, hmem⟩ | ⟨e, he, rfl⟩
  · exact .inl ⟨t, ht, definition.body, hblock, body, hmem⟩
  · obtain rfl := Option.some.inj he
    exact .inr ⟨rfl, rfl⟩

/-- From a definition, those of enclosed blocks are come to, or else definitions of the same block further up. -/
theorem encloses_or_lt_of_transGen {key key' : String × Nat} (h : Relation.TransGen l.Leads key key') :
    Relation.TransGen l.Encloses key.1 key'.1 ∨ key'.1 = key.1 ∧ key.2 < key'.2 := by
  -- what is enclosed stays enclosed, however many definitions of one block come in between
  induction h with
  | single h =>
    rcases h.step with h | ⟨hname, hlevel⟩
    · exact .inl (.single h)
    · exact .inr ⟨hname, by omega⟩
  | tail _ h ih =>
    rcases ih, h.step with ⟨hencloses | ⟨hname, hlevel⟩, hstep | ⟨hname', hlevel'⟩⟩
    · exact .inl (hencloses.tail hstep)
    · exact .inl (hname' ▸ hencloses)
    · exact .inl (.single (hname ▸ hstep))
    · exact .inr ⟨hname'.trans hname, by omega⟩

/-- No definition is come to from itself. -/
theorem not_transGen_leads (h : ∀ block, ¬Relation.TransGen l.Encloses block block) (key : String × Nat) :
    ¬Relation.TransGen l.Leads key key := by
  intro hkey
  rcases encloses_or_lt_of_transGen hkey with hencloses | ⟨-, hlevel⟩
  · exact h key.1 hencloses
  · omega

/-- The definitions that are come to on the way to another one are all different, so that there are only so many. -/
theorem expand_isSome (h : ∀ block, ¬Relation.TransGen l.Encloses block block) (depth : Nat)
    {trail : List (String × Nat)} {key : String × Nat} (htrail : ∀ k ∈ trail, Relation.TransGen l.Leads k key)
    (hnodup : trail.Nodup) (hsubset : trail ⊆ l.standpoints) (hdepth : l.standpoints.length < depth + trail.length) :
    (l.table.expand depth key.1 key.2).isSome := by
  induction depth generalizing trail key with
  | zero =>
    -- there would have to be more definitions on the trail than there are
    have hlength := (List.subperm_of_subset hnodup hsubset).length_le
    omega
  | succ depth ih =>
    rw [BlockTable.expand]
    rcases hdefinition : l.table.definition? key.1 key.2 with _ | definition
    · rfl
    · rw [definition?_table] at hdefinition
      refine expandAll_isSome fun key' hkey' => ?_
      have hleads : l.Leads key key' := ⟨definition, hdefinition, hkey'⟩
      have htrail' : ∀ k ∈ key :: trail, Relation.TransGen l.Leads k key' := by
        intro k hk
        rcases List.mem_cons.mp hk with rfl | hk
        · exact .single hleads
        · exact (htrail k hk).tail hleads
      refine ih htrail' (List.nodup_cons.mpr ⟨fun hmem => ?_, hnodup⟩) ?_ ?_
      · exact not_transGen_leads h key (htrail key hmem)
      · exact List.cons_subset.mpr ⟨mem_standpoints (Option.isSome_of_eq_some hdefinition), hsubset⟩
      · rw [List.length_cons]
        omega

/-- Definitions nested as deep as there are definitions are enough. -/
theorem expansion?_isSome (h : ∀ block, ¬Relation.TransGen l.Encloses block block) {depth : Nat}
    (hdepth : l.layout.definitions < depth) : (l.expansion? depth).isSome := by
  refine expandAll_isSome fun key _ => ?_
  have hnone : ∀ k ∈ [], Relation.TransGen l.Leads k key := fun _ hk => absurd hk List.not_mem_nil
  apply expand_isSome h depth hnone List.nodup_nil (List.nil_subset _)
  rw [length_standpoints, List.length_nil]
  omega

end Lineage

/-! ## What is substituted does not depend on the depth

With more depth the same is substituted, so the expansion is one list of nodes, however it is come by. There are no
blocks left in it. -/

section

variable {f g : String → Nat → Option (List Node)} {enclosing : Option Enclosing} {nodes nodes' : List Node}

theorem expandAll_cons_eq_some {node : Node} {rest : List Node} :
    expandAll f enclosing (node :: rest) = some nodes ↔
      ∃ first, node.expand f enclosing = some first ∧
        ∃ others, expandAll f enclosing rest = some others ∧ first ++ others = nodes := by
  simp [expandAll, Option.bind_eq_some_iff]

theorem expand_loop_eq_some {name : String} {list : Expr} {body : List Node} :
    (Node.loop name list body).expand f enclosing = some nodes ↔
      ∃ body', expandAll f enclosing body = some body' ∧ [.loop name list body'] = nodes := by
  simp [Node.expand, Option.bind_eq_some_iff]

theorem expand_cond_eq_some {test : Expr} {body : List Node} :
    (Node.cond test body none).expand f enclosing = some nodes ↔
      ∃ body', expandAll f enclosing body = some body' ∧ [.cond test body' none] = nodes := by
  simp [Node.expand, Option.bind_eq_some_iff]

theorem expand_condElse_eq_some {test : Expr} {body otherwise : List Node} :
    (Node.cond test body (some otherwise)).expand f enclosing = some nodes ↔
      ∃ body', expandAll f enclosing body = some body' ∧
        ∃ otherwise', expandAll f enclosing otherwise = some otherwise' ∧
          [.cond test body' (some otherwise')] = nodes := by
  simp [Node.expand, Option.bind_eq_some_iff]

/-- What is found with one way to find definitions is found with a better one. -/
theorem expandAll_mono (h : ∀ name level nodes, f name level = some nodes → g name level = some nodes)
    (hnodes : expandAll f enclosing nodes = some nodes') : expandAll g enclosing nodes = some nodes' := by
  induction nodes using Node.listInduction generalizing nodes' with
  | nil => exact hnodes
  | comment rest ih | text _ rest ih | output _ rest ih | snippet _ _ rest ih =>
    obtain ⟨first, hfirst, others, hothers, rfl⟩ := expandAll_cons_eq_some.mp hnodes
    exact expandAll_cons_eq_some.mpr ⟨first, hfirst, others, ih hothers, rfl⟩
  | loop name list body rest hbody ih =>
    obtain ⟨first, hfirst, others, hothers, rfl⟩ := expandAll_cons_eq_some.mp hnodes
    obtain ⟨body', hbody', rfl⟩ := expand_loop_eq_some.mp hfirst
    exact expandAll_cons_eq_some.mpr
      ⟨_, expand_loop_eq_some.mpr ⟨body', hbody hbody', rfl⟩, others, ih hothers, rfl⟩
  | cond test body rest hbody ih =>
    obtain ⟨first, hfirst, others, hothers, rfl⟩ := expandAll_cons_eq_some.mp hnodes
    obtain ⟨body', hbody', rfl⟩ := expand_cond_eq_some.mp hfirst
    exact expandAll_cons_eq_some.mpr
      ⟨_, expand_cond_eq_some.mpr ⟨body', hbody hbody', rfl⟩, others, ih hothers, rfl⟩
  | condElse test body otherwise rest hbody hother ih =>
    obtain ⟨first, hfirst, others, hothers, rfl⟩ := expandAll_cons_eq_some.mp hnodes
    obtain ⟨body', hbody', other', hother', rfl⟩ := expand_condElse_eq_some.mp hfirst
    exact expandAll_cons_eq_some.mpr
      ⟨_, expand_condElse_eq_some.mpr ⟨body', hbody hbody', other', hother hother', rfl⟩, others, ih hothers, rfl⟩
  | block name body rest _ ih =>
    obtain ⟨first, hfirst, others, hothers, rfl⟩ := expandAll_cons_eq_some.mp hnodes
    -- here the definition is asked, and `g` has what `f` has
    rw [Node.expand] at hfirst
    exact expandAll_cons_eq_some.mpr ⟨first, by rw [Node.expand, h _ _ _ hfirst], others, ih hothers, rfl⟩
  | inherited rest ih =>
    obtain ⟨first, hfirst, others, hothers, rfl⟩ := expandAll_cons_eq_some.mp hnodes
    refine expandAll_cons_eq_some.mpr ⟨first, ?_, others, ih hothers, rfl⟩
    cases enclosing with
    | none => exact hfirst
    | some enclosing =>
      rw [Node.expand] at hfirst ⊢
      exact h _ _ _ hfirst

theorem blocksIn_append (nodes nodes' : List Node) :
    blocksIn (nodes ++ nodes') = blocksIn nodes ++ blocksIn nodes' := by
  induction nodes with
  | nil => rfl
  | cons node rest ih => rw [List.cons_append, blocksIn, blocksIn, ih, List.append_assoc]

/-- No blocks are left. -/
theorem blocksIn_expandAll (h : ∀ name level nodes, f name level = some nodes → blocksIn nodes = [])
    (hnodes : expandAll f enclosing nodes = some nodes') : blocksIn nodes' = [] := by
  induction nodes using Node.listInduction generalizing nodes' with
  | nil =>
    obtain rfl := Option.some.inj hnodes
    rfl
  | comment rest ih | text _ rest ih | output _ rest ih | snippet _ _ rest ih =>
    obtain ⟨first, hfirst, others, hothers, rfl⟩ := expandAll_cons_eq_some.mp hnodes
    -- these are kept as they are, and contain no block
    obtain rfl := Option.some.inj hfirst
    rw [blocksIn_append, ih hothers]
    rfl
  | loop name list body rest hbody ih =>
    obtain ⟨first, hfirst, others, hothers, rfl⟩ := expandAll_cons_eq_some.mp hnodes
    obtain ⟨body', hbody', rfl⟩ := expand_loop_eq_some.mp hfirst
    simp [blocksIn, Node.blocks, hbody hbody', ih hothers]
  | cond test body rest hbody ih =>
    obtain ⟨first, hfirst, others, hothers, rfl⟩ := expandAll_cons_eq_some.mp hnodes
    obtain ⟨body', hbody', rfl⟩ := expand_cond_eq_some.mp hfirst
    simp [blocksIn, Node.blocks, hbody hbody', ih hothers]
  | condElse test body otherwise rest hbody hother ih =>
    obtain ⟨first, hfirst, others, hothers, rfl⟩ := expandAll_cons_eq_some.mp hnodes
    obtain ⟨body', hbody', other', hother', rfl⟩ := expand_condElse_eq_some.mp hfirst
    simp [blocksIn, Node.blocks, hbody hbody', hother hother', ih hothers]
  | block name body rest _ ih =>
    obtain ⟨first, hfirst, others, hothers, rfl⟩ := expandAll_cons_eq_some.mp hnodes
    -- a block is gone, and what comes in its place contains none by `h`
    rw [Node.expand] at hfirst
    rw [blocksIn_append, h _ _ _ hfirst, ih hothers, List.append_nil]
  | inherited rest ih =>
    obtain ⟨first, hfirst, others, hothers, rfl⟩ := expandAll_cons_eq_some.mp hnodes
    rw [blocksIn_append, ih hothers, List.append_nil]
    cases enclosing with
    | none =>
      obtain rfl := Option.some.inj hfirst
      rfl
    | some enclosing =>
      rw [Node.expand] at hfirst
      exact h _ _ _ hfirst

end

theorem BlockTable.blocksIn_expand {table : BlockTable} {depth : Nat} {name : String} {level : Nat}
    {nodes : List Node} (hnodes : table.expand depth name level = some nodes) : blocksIn nodes = [] := by
  induction depth generalizing name level nodes with
  | zero => cases hnodes
  | succ depth ih =>
    rw [expand] at hnodes
    rcases hdefinition : table.definition? name level with _ | definition <;> rw [hdefinition] at hnodes
    · obtain rfl := Option.some.inj hnodes
      rfl
    · exact blocksIn_expandAll (fun _ _ _ => ih) hnodes

/-- In a greater depth a definition is expanded to the same nodes. -/
theorem BlockTable.expand_mono {table : BlockTable} {depth depth' : Nat} (h : depth ≤ depth') {name : String}
    {level : Nat} {nodes : List Node} (hnodes : table.expand depth name level = some nodes) :
    table.expand depth' name level = some nodes := by
  induction depth generalizing depth' name level nodes with
  | zero => cases hnodes
  | succ depth ih =>
    obtain ⟨depth', rfl⟩ : ∃ d, depth' = d + 1 := ⟨depth' - 1, by omega⟩
    rw [expand] at hnodes ⊢
    rcases hdefinition : table.definition? name level with _ | definition <;> rw [hdefinition] at hnodes
    · exact hnodes
    · exact expandAll_mono (fun _ _ _ => ih (Nat.le_of_succ_le_succ h)) hnodes

theorem Lineage.expansion?_mono {l : Lineage} {depth depth' : Nat} (h : depth ≤ depth') {nodes : List Node}
    (hnodes : l.expansion? depth = some nodes) : l.expansion? depth' = some nodes :=
  expandAll_mono (fun _ _ _ => BlockTable.expand_mono h) hnodes

/-! ## Rendering what is substituted

The expansion is rendered at a place of the page, and the lineage at the places of its definitions. The two differ in
the template that errors name and in the enclosing definition, so nothing in the expansion may ask for that any more. -/

/-- The error, with no template named. -/
def Error.anywhere : Error → Error
  | .malformed _ report => .malformed "" report
  | .duplicateBlock _ block => .duplicateBlock "" block
  | .superOutsideBlock _ => .superOutsideBlock ""
  | .duplicateParameter _ snippet parameter => .duplicateParameter "" snippet parameter
  | .noParentBlock _ block => .noParentBlock "" block
  | .undefined _ name => .undefined "" name
  | .notIterable _ expr => .notIterable "" expr
  | .notDisplayable _ expr => .notDisplayable "" expr
  | .helperArguments _ helper => .helperArguments "" helper
  | e => e

/-- The end, with no template named. -/
def Stop.anywhere : Stop → Stop
  | .error e => .error e.anywhere
  | .endless => .endless

theorem Stop.isUndefined_anywhere (s : Stop) : s.anywhere.isUndefined = s.isUndefined := by
  cases s with
  | error e => cases e <;> rfl
  | endless => rfl

/-- It ends in the same way, but for the template that an error names. -/
def EndLikeness.anywhere : EndLikeness where
  stop s s' := s.anywhere = s'.anywhere
  origin _ _ := True
  isUndefined {s s'} h := by rw [← s.isUndefined_anywhere, ← s'.isUndefined_anywhere, h]
  fault _ fault := by cases fault <;> rfl

/-- The likeness of what only differs in the template that an error names. -/
def Likeness.anywhere : Likeness := ⟨.same, .anywhere⟩

theorem Likeness.anywhere_refl {α : Type} (t : Transcript α) : Likeness.anywhere.Like Eq t t :=
  .refl (fun _ => rfl) (fun _ => rfl) (fun _ => rfl) t

/-- Nodes ask for what is inherited if some of them do. -/
theorem asksInheritedIn_append (nodes nodes' : List Node) :
    asksInheritedIn (nodes ++ nodes') = (asksInheritedIn nodes || asksInheritedIn nodes') := by
  induction nodes with
  | nil => rfl
  | cons node rest ih => rw [List.cons_append, asksInheritedIn, asksInheritedIn, ih, Bool.or_assoc]

theorem asksInheritedIn_singleton (node : Node) : asksInheritedIn [node] = node.asksInherited := by
  rw [asksInheritedIn, asksInheritedIn, Bool.or_false]

/-! ### One node after the other

A node is rendered like the nodes that it stands for, given that what it encloses is: there is a lemma for each kind of
node that encloses others or is replaced, and the induction on lists of nodes puts them together. All this is about
nodes whose expansion no longer asks for an inherited definition. -/

section

variable (c : Catalog) (request : Request) (definition : String → Nat → Option (List Node)) (exits exits' : Exits)

/-- Wherever the node stands for some nodes, it is rendered like them. -/
def Node.ExpandsAlike (node : Node) : Prop :=
  ∀ ⦃nodes' : List Node⦄ ⦃place place' : Place⦄, place.scope.Same place'.scope →
    node.expand definition place.enclosing = some nodes' → asksInheritedIn nodes' = false →
    Likeness.anywhere.Like Eq ((node.render request exits place).transcript c)
      ((renderAll request exits' nodes' place').transcript c)

/-- Wherever the nodes stand for other nodes, they are rendered like them. -/
def ExpandAlike (nodes : List Node) : Prop :=
  ∀ ⦃nodes' : List Node⦄ ⦃place place' : Place⦄, place.scope.Same place'.scope →
    expandAll definition place.enclosing nodes = some nodes' → asksInheritedIn nodes' = false →
    Likeness.anywhere.Like Eq ((renderAll request exits nodes place).transcript c)
      ((renderAll request exits' nodes' place').transcript c)

/-- Wherever a definition is given, the way out into it is taken like the nodes that are given. -/
def DefinesAlike : Prop :=
  ∀ ⦃name : String⦄ ⦃level : Nat⦄ ⦃nodes' : List Node⦄ ⦃place place' : Place⦄, place.scope.Same place'.scope →
    definition name level = some nodes' → asksInheritedIn nodes' = false →
    Likeness.anywhere.Like Eq ((exits.block name level place).transcript c)
      ((renderAll request exits' nodes' place').transcript c)

variable {c request definition exits exits'}

/-- What a node stands for takes its place, and then come the others. -/
theorem ExpandAlike.cons {node : Node} {rest : List Node}
    (hnode : node.ExpandsAlike c request definition exits exits')
    (hrest : ExpandAlike c request definition exits exits' rest) :
    ExpandAlike c request definition exits exits' (node :: rest) := by
  intro nodes' place place' hscope hnodes hasks
  obtain ⟨first, hfirst, others, hothers, rfl⟩ := expandAll_cons_eq_some.mp hnodes
  rw [asksInheritedIn_append, Bool.or_eq_false_iff] at hasks
  rw [renderAll_cons, renderAll_append]
  exact (hnode hscope hfirst hasks.1).bind_eq fun _ => hrest hscope hothers hasks.2

/-- A node that stands for itself is rendered like itself. -/
theorem Node.ExpandsAlike.of_kept {node : Node} (hexpand : ∀ enclosing, node.expand definition enclosing = some [node])
    (h : ∀ ⦃place place' : Place⦄, place.scope.Same place'.scope →
      Likeness.anywhere.Like Eq ((node.render request exits place).transcript c)
        ((node.render request exits' place').transcript c)) :
    node.ExpandsAlike c request definition exits exits' := by
  intro nodes' place place' hscope hnodes _
  obtain rfl := Option.some.inj ((hexpand _).symm.trans hnodes)
  rw [renderAll_singleton]
  exact h hscope

/-- A loop stands for the loop over what its body stands for. -/
theorem Node.ExpandsAlike.loop (name : String) (list : Expr) {body : List Node}
    (hbody : ExpandAlike c request definition exits exits' body) :
    (Node.loop name list body).ExpandsAlike c request definition exits exits' := by
  intro nodes' place place' hscope hnodes hasks
  obtain ⟨body', hbody', rfl⟩ := expand_loop_eq_some.mp hnodes
  rw [asksInheritedIn_singleton, Node.asksInherited] at hasks
  rw [renderAll_singleton]
  refine loop_like (.refl request) hscope trivial name list fun item => ?_
  exact hbody (hscope.bind name item) hbody' hasks

/-- A condition stands for the condition of what its nodes stand for. -/
theorem Node.ExpandsAlike.cond (test : Expr) {body : List Node}
    (hbody : ExpandAlike c request definition exits exits' body) :
    (Node.cond test body none).ExpandsAlike c request definition exits exits' := by
  intro nodes' place place' hscope hnodes hasks
  obtain ⟨body', hbody', rfl⟩ := expand_cond_eq_some.mp hnodes
  rw [asksInheritedIn_singleton, Node.asksInherited] at hasks
  rw [renderAll_singleton]
  exact cond_like (.refl request) hscope trivial test (hbody hscope hbody' hasks) .none

/-- With nodes for the other case, these are replaced as well. -/
theorem Node.ExpandsAlike.condElse (test : Expr) {body otherwise : List Node}
    (hbody : ExpandAlike c request definition exits exits' body)
    (hother : ExpandAlike c request definition exits exits' otherwise) :
    (Node.cond test body (some otherwise)).ExpandsAlike c request definition exits exits' := by
  intro nodes' place place' hscope hnodes hasks
  obtain ⟨body', hbody', other', hother', rfl⟩ := expand_condElse_eq_some.mp hnodes
  rw [asksInheritedIn_singleton, Node.asksInherited, Bool.or_eq_false_iff] at hasks
  rw [renderAll_singleton]
  exact cond_like (.refl request) hscope trivial test (hbody hscope hbody' hasks.1)
    (.some (hother hscope hother' hasks.2))

/-- A block stands for its definition that counts. -/
theorem Node.ExpandsAlike.block (h : DefinesAlike c request definition exits exits') (name : String)
    (body : List Node) : (Node.block name body).ExpandsAlike c request definition exits exits' := by
  intro nodes' place place' hscope hnodes hasks
  rw [Node.expand] at hnodes
  exact h hscope hnodes hasks

/-- What is inherited stands for the definition at the next level. -/
theorem Node.ExpandsAlike.inherited (h : DefinesAlike c request definition exits exits') :
    Node.inherited.ExpandsAlike c request definition exits exits' := by
  intro nodes' place place' hscope hnodes hasks
  rcases henclosing : place.enclosing with _ | enclosing <;> rw [henclosing] at hnodes
  · -- outside of blocks, what is inherited can not be replaced, and would still be asked for
    obtain rfl := Option.some.inj hnodes
    cases hasks
  · rw [Node.expand] at hnodes
    rw [Node.render, henclosing]
    exact h hscope hnodes hasks

/-- Nodes are rendered like what they stand for, where definitions are, and where snippets are the same. -/
theorem expandAlike (hsnippet : ∀ path context, exits.snippet path context = exits'.snippet path context)
    (hblock : DefinesAlike c request definition exits exits') (nodes : List Node) :
    ExpandAlike c request definition exits exits' nodes := by
  induction nodes using Node.listInduction with
  | nil =>
    intro nodes' place place' hscope hnodes hasks
    obtain rfl := Option.some.inj hnodes
    exact .pure rfl
  -- what is kept as it is needs only its own case, and what contains others has a lemma of its own
  | comment rest ih => exact .cons (.of_kept (fun _ => rfl) fun _ _ _ => .pure rfl) ih
  | text s rest ih => exact .cons (.of_kept (fun _ => rfl) fun _ _ _ => .wrote _) ih
  | output e rest ih =>
    exact .cons (.of_kept (fun _ => rfl) fun _ _ hscope => output_like (.refl request) hscope trivial e) ih
  | loop name list body rest hbody ih => exact .cons (.loop name list hbody) ih
  | cond test body rest hbody ih => exact .cons (.cond test hbody) ih
  | condElse test body otherwise rest hbody hother ih => exact .cons (.condElse test hbody hother) ih
  | block name body rest _ ih => exact .cons (.block hblock name body) ih
  | inherited rest ih => exact .cons (.inherited hblock) ih
  | snippet path args rest ih =>
    -- the arguments are alike because the scopes are, and the snippets are the same by `hsnippet`
    refine .cons (.of_kept (fun _ => rfl) fun place place' hscope => ?_) ih
    refine snippet_like (.refl request) hscope trivial path args fun context => ?_
    rw [hsnippet]
    exact Likeness.anywhere_refl _

/-- It does not matter whether definitions take the places of blocks before or while nodes are rendered. -/
theorem renderAll_expandAll (hsnippet : ∀ path context, exits.snippet path context = exits'.snippet path context)
    (hblock : DefinesAlike c request definition exits exits') {nodes nodes' : List Node} {place place' : Place}
    (hscope : place.scope.Same place'.scope) (hnodes : expandAll definition place.enclosing nodes = some nodes')
    (hasks : asksInheritedIn nodes' = false) :
    Likeness.anywhere.Like Eq ((renderAll request exits nodes place).transcript c)
      ((renderAll request exits' nodes' place').transcript c) :=
  expandAlike hsnippet hblock nodes hscope hnodes hasks

end

/-- To render a definition is to render what it stands for. -/
theorem BlockTable.render_expand {table : BlockTable} {request : Request} {snippet : String → Context → Run Unit}
    {c : Catalog} {exits' : Exits} (hsnippet : ∀ path context, snippet path context = exits'.snippet path context)
    (depth : Nat) {name : String} {level : Nat} {nodes : List Node}
    (hnodes : table.expand depth name level = some nodes) (hasks : asksInheritedIn nodes = false)
    {place place' : Place} (hscope : place.scope.Same place'.scope) :
    Likeness.anywhere.Like Eq ((table.render request snippet depth name level place).transcript c)
      ((renderAll request exits' nodes place').transcript c) := by
  induction depth generalizing name level nodes place place' with
  | zero => cases hnodes
  | succ depth ih =>
    rw [expand] at hnodes
    rw [render]
    rcases hdefinition : table.definition? name level with _ | definition <;> rw [hdefinition] at hnodes
    · -- for lack of a definition, what is inherited would still be asked for
      obtain rfl := Option.some.inj hnodes
      cases hasks
    · have hblock : DefinesAlike c request (table.expand depth) ⟨table.render request snippet depth, snippet⟩ exits' :=
        fun _ _ _ _ _ hscope hinner hasks => ih hinner hasks hscope
      exact renderAll_expandAll hsnippet hblock hscope hnodes hasks

namespace Lineage

/-- A page with definitions is followed at least as deep as there are definitions. -/
theorem definitions_lt_depth (l : Layout) (request : Request) (context : Context) {rounds : Nat}
    (hrounds : 0 < rounds) : l.definitions < l.standings request context * rounds + 1 := by
  have hstandings : l.definitions ≤ l.standings request context := by
    rw [Layout.standings]
    split
    · omega
    · exact Nat.le_mul_of_pos_right _ (Nat.pow_pos (Nat.succ_pos _))
  have hmul := Nat.le_mul_of_pos_right (l.standings request context) hrounds
  omega

/-- To render a layout is to render what its page stands for. -/
theorem render_expansion (l : Lineage) (h : ∀ block, ¬Relation.TransGen l.Encloses block block) {depth : Nat}
    {nodes : List Node} (hnodes : l.expansion? depth = some nodes) (hasks : asksInheritedIn nodes = false)
    (origin : Origin) (request : Request) (snippet : String → Context → Run Unit) {rounds : Nat}
    (hrounds : 0 < rounds) (context : Context) (c : Catalog) :
    Likeness.anywhere.Like Eq ((l.layout.render request snippet rounds context).transcript c)
      (((single origin nodes).layout.render request snippet rounds context).transcript c) := by
  have hdepth := definitions_lt_depth l.layout request context hrounds
  obtain ⟨nodes', hnodes'⟩ := Option.isSome_iff_exists.mp (expansion?_isSome h hdepth)
  -- more depth than is needed makes no difference
  have hsame : nodes = nodes' := by
    rcases Nat.le_total depth (l.layout.standings request context * rounds + 1) with hle | hle
    · exact Option.some.inj ((expansion?_mono hle hnodes).symm.trans hnodes')
    · exact Option.some.inj (hnodes.symm.trans (expansion?_mono hle hnodes'))
  subst hsame
  rw [Layout.render, Layout.render]
  refine renderAll_expandAll ?_ ?_ ?_ hnodes' hasks
  · exact fun _ _ => rfl
  · intro name level inner place place' hscope hinner hasks
    refine BlockTable.render_expand ?_ _ hinner hasks hscope
    exact fun _ _ => rfl
  · exact .refl _

/-- Inheritance is substitution, where no block encloses itself through the templates of the lineage. The substitution
is finite; and if whatever is inherited is defined, then with any variables, snippets and sink, rendering the lineage is
the same as rendering a single template without blocks, but for the templates that errors name. -/
theorem deliver_expansion (l : Lineage) (h : ∀ block, ¬Relation.TransGen l.Encloses block block) :
    ∃ nodes, (∀ depth, l.layout.definitions < depth → l.expansion? depth = some nodes) ∧ blocksIn nodes = [] ∧
      (asksInheritedIn nodes = false → ∀ (origin : Origin) (request : Request) (snippet : String → Context → Run Unit)
        (rounds : Nat) (context : Context) (c : Catalog) (σ : Type) (sink : Sink σ) (st : σ),
        ((l.layout.render request snippet (rounds + 1) context).deliver c sink st).Alike .anywhere
          (((single origin nodes).layout.render request snippet (rounds + 1) context).deliver c sink st)) := by
  obtain ⟨nodes, hnodes⟩ := Option.isSome_iff_exists.mp (expansion?_isSome h (Nat.lt_succ_self l.layout.definitions))
  refine ⟨nodes, fun depth hdepth => expansion?_mono hdepth hnodes,
    blocksIn_expandAll (fun _ _ _ => BlockTable.blocksIn_expand) hnodes, ?_⟩
  intro hasks origin request snippet rounds context c σ sink st
  have hlike := l.render_expansion h hnodes hasks origin request snippet rounds.succ_pos context c
  have hevents := congrArg effects hlike.events
  exact Run.deliver_alike hlike hevents (fun _ => rfl) sink st

/-- A page that adds to a block inside of another one. -/
def bordered : Lineage where
  leaf := ⟨⟨"default", "page.html"⟩, ⟨some "base.html", [.block "inner" [.inherited, .text "y"]]⟩⟩
  ancestors := [⟨⟨"default", "base.html"⟩,
    ⟨none, [.text "<", .block "outer" [.text "x", .block "inner" [.text "z"]], .text ">"]⟩⟩]

theorem bordered_encloses {outer inner : String} (h : bordered.Encloses outer inner) :
    outer = "outer" ∧ inner = "inner" := by
  obtain ⟨t, ht, body, hblock, body', hinner⟩ := h
  simp only [templates, bordered, List.mem_cons, List.not_mem_nil, or_false] at ht
  rcases ht with rfl | rfl
  · simp [Template.blocks, blocksIn, Node.blocks] at hblock
    simp [hblock, blocksIn, Node.blocks] at hinner
  · simp [Template.blocks, blocksIn, Node.blocks] at hblock
    rcases hblock with ⟨rfl, rfl⟩ | ⟨rfl, rfl⟩
    · simp [blocksIn, Node.blocks] at hinner
      exact ⟨rfl, hinner.1⟩
    · simp [blocksIn, Node.blocks] at hinner

theorem deliver_expansion_bordered :
    (∀ block, ¬Relation.TransGen bordered.Encloses block block) ∧
      ((bordered.layout.render ⟨none, .empty, Helpers.standard⟩ (fun _ _ => pure ()) 1 .empty).deliver
        (.ofRoot (.inMemory "default" [])) Sink.memory .nothing).Alike .anywhere
      (((single ⟨"default", "page.html"⟩ [.text "<", .text "x", .text "z", .text "y", .text ">"]).layout.render
        ⟨none, .empty, Helpers.standard⟩ (fun _ _ => pure ()) 1 .empty).deliver
        (.ofRoot (.inMemory "default" [])) Sink.memory .nothing) := by
  have hacyclic : ∀ block, ¬Relation.TransGen bordered.Encloses block block := by
    intro block h
    have hends : ∀ {outer inner}, Relation.TransGen bordered.Encloses outer inner →
        outer = "outer" ∧ inner = "inner" := by
      intro outer inner h
      induction h with
      | single h => exact bordered_encloses h
      | tail _ h ih => exact ⟨ih.1, (bordered_encloses h).2⟩
    obtain ⟨rfl, h⟩ := hends h
    exact absurd h (by decide)
  obtain ⟨nodes, hnodes, -, hsame⟩ := deliver_expansion bordered hacyclic
  have hexpanded : bordered.expansion? 4 = some [.text "<", .text "x", .text "z", .text "y", .text ">"] := rfl
  obtain rfl := Option.some.inj (hexpanded.symm.trans (hnodes 4 (by decide)))
  exact ⟨hacyclic, hsame rfl _ _ _ 0 _ _ _ _ _⟩

end Lineage

end ThemedPages
