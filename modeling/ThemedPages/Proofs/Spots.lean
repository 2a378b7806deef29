import ThemedPages.Proofs.Exits

/-!
# Spots in templates

A spot says where in a template a node is written, as the way to it from the beginning. A node may be written at many
spots, but at a spot there is a single node.

* `nodeAt?` is the node at a spot, together with the block that it is in most closely; `nodeAt?_append` composes spots.
* `Reaches` says which nodes are come to when nodes are rendered, and where these are. A render never goes into a block
  by itself, so that it does not change which block is around (`Reaches.nodeAt?`) and what it knows of it
  (`Reaches.origin`, `Reaches.enclosing`).
* `exists_reaches_of_comes`: the ways out that are taken are those of the nodes that are come to.

`Reaches` is to nodes what `Comes` is to ways out. It has a case for each way that a render goes on within some nodes,
and the spot grows by a step with each.
-/

namespace ThemedPages

/-! ## Spots -/

/-- A turn on the way to a node in a list of nodes. -/
inductive Turn where
  /-- past the first node -/
  | past
  /-- into the first node -/
  | into
  /-- into what the first node shows when its condition does not hold -/
  | other
  deriving DecidableEq, Repr

/-- The way to a node. -/
abbrev Spot := List Turn

/-- The node at a spot, and the name of the block that is around it most closely, given that of the block around all. -/
def nodeAt? (around : Option String) : Spot → List Node → Option (Option String × Node)
  | [], node :: _ => some (around, node)
  | .past :: spot, _ :: rest => nodeAt? around spot rest
  | .into :: spot, .loop _ _ body :: _ => nodeAt? around spot body
  | .into :: spot, .cond _ body _ :: _ => nodeAt? around spot body
  | .other :: spot, .cond _ _ (some otherwise) :: _ => nodeAt? around spot otherwise
  | .into :: spot, .block name body :: _ => nodeAt? (some name) spot body
  | _, _ => none

section

variable {around around' : Option String} {spot : Spot} {nodes : List Node} {node : Node}

/-- From a block on, a spot is one in the block. -/
theorem nodeAt?_append {outer : Spot} {name : String} {body : List Node}
    (h : nodeAt? around outer nodes = some (around', .block name body)) (spot : Spot) :
    nodeAt? around (outer ++ .into :: spot) nodes = nodeAt? (some name) spot body := by
  fun_induction nodeAt? around outer nodes with
  | case1 =>
    obtain ⟨-, rfl⟩ := Prod.mk.inj (Option.some.inj h)
    rfl
  | case2 _ _ _ _ ih | case3 _ _ _ _ _ _ ih | case4 _ _ _ _ _ _ ih | case5 _ _ _ _ _ _ ih | case6 _ _ _ _ _ ih =>
    exact ih h
  | case7 => cases h

/-- What is at a spot is in the nodes. -/
theorem mem_nodesIn_of_nodeAt? (h : nodeAt? around spot nodes = some (around', node)) : node ∈ nodesIn nodes := by
  fun_induction nodeAt? around spot nodes with
  | case1 =>
    obtain ⟨-, rfl⟩ := Prod.mk.inj (Option.some.inj h)
    exact mem_nodesIn_cons _ _
  | case2 _ _ _ _ ih => exact List.mem_append_right _ (ih h)
  | case3 _ _ _ _ _ _ ih => exact List.mem_append_left _ (List.mem_cons_of_mem _ (ih h))
  | case4 _ _ _ _ otherwise _ ih =>
    cases otherwise with
    | none => exact List.mem_append_left _ (List.mem_cons_of_mem _ (ih h))
    | some nodes => exact List.mem_append_left _ (List.mem_cons_of_mem _ (List.mem_append_left _ (ih h)))
  | case5 _ _ _ _ _ _ ih => exact List.mem_append_left _ (List.mem_cons_of_mem _ (List.mem_append_right _ (ih h)))
  | case6 _ _ _ _ _ ih => exact List.mem_append_left _ (List.mem_cons_of_mem _ (ih h))
  | case7 => cases h

/-- A definition at a spot is one of the definitions in the nodes. -/
theorem mem_blocksIn_of_nodeAt? {name : String} {body : List Node}
    (h : nodeAt? around spot nodes = some (around', .block name body)) : (name, body) ∈ blocksIn nodes := by
  fun_induction nodeAt? around spot nodes with
  | case1 =>
    obtain ⟨-, rfl⟩ := Prod.mk.inj (Option.some.inj h)
    simp [blocksIn, Node.blocks]
  | case2 _ _ _ _ ih => exact List.mem_append_right _ (ih h)
  | case3 _ _ _ _ _ _ ih => exact List.mem_append_left _ (ih h)
  | case4 _ _ _ _ otherwise _ ih =>
    cases otherwise with
    | none => exact List.mem_append_left _ (ih h)
    | some nodes => exact List.mem_append_left _ (List.mem_append_left _ (ih h))
  | case5 _ _ _ _ _ _ ih => exact List.mem_append_left _ (List.mem_append_right _ (ih h))
  | case6 _ _ _ _ _ ih => exact List.mem_append_left _ (List.mem_cons_of_mem _ (ih h))
  | case7 => cases h

/-- Every definition of a block is at a spot. -/
theorem DefinedIn.exists_nodeAt? {name : String} {body : List Node} (h : DefinedIn name body nodes)
    (around : Option String) : ∃ spot around', nodeAt? around spot nodes = some (around', .block name body) := by
  induction h generalizing around with
  | here rest => exact ⟨[], around, rfl⟩
  | past node _ ih =>
    obtain ⟨spot, around', hspot⟩ := ih around
    exact ⟨.past :: spot, around', by rw [nodeAt?, hspot]⟩
  | loop x list rest _ ih =>
    obtain ⟨spot, around', hspot⟩ := ih around
    exact ⟨.into :: spot, around', hspot⟩
  | cond test otherwise rest _ ih =>
    obtain ⟨spot, around', hspot⟩ := ih around
    exact ⟨.into :: spot, around', hspot⟩
  | condElse test inner rest _ ih =>
    obtain ⟨spot, around', hspot⟩ := ih around
    exact ⟨.other :: spot, around', hspot⟩
  | block x rest _ ih =>
    -- what is around the definition is the block, whatever is around that
    obtain ⟨spot, around', hspot⟩ := ih (some x)
    exact ⟨.into :: spot, around', hspot⟩

/-- Where nothing is misplaced, an inherited definition is asked for in a block only. -/
theorem isSome_of_nodeAt?_inherited (hflaw : flawIn around.isSome nodes = none)
    (h : nodeAt? around spot nodes = some (around', .inherited)) : around'.isSome := by
  fun_induction nodeAt? around spot nodes with
  -- the spot is the first node, which is `@super()` and has no flaw
  | case1 around node rest =>
    obtain ⟨rfl, rfl⟩ := Prod.mk.inj (Option.some.inj h)
    simp only [flawIn, Option.orElse_eq_none] at hflaw
    exact Option.isSome_iff_ne_none.mpr (by simpa [Node.flaw?] using hflaw.1)
  | case2 _ _ _ _ ih =>
    simp only [flawIn, Option.orElse_eq_none] at hflaw
    exact ih hflaw.2 h
  | case3 _ _ _ _ _ _ ih | case6 _ _ _ _ _ ih =>
    simp only [flawIn, Option.orElse_eq_none] at hflaw
    exact ih hflaw.1 h
  -- the body of a condition, whose flaws are searched with those of its else
  | case4 _ _ _ _ otherwise _ ih =>
    simp only [flawIn, Option.orElse_eq_none] at hflaw
    cases otherwise with
    | none => exact ih hflaw.1 h
    | some nodes =>
      simp only [Node.flaw?, Option.orElse_eq_none] at hflaw
      exact ih hflaw.1.1 h
  | case5 _ _ _ _ _ _ ih =>
    simp only [flawIn, Node.flaw?, Option.orElse_eq_none] at hflaw
    exact ih hflaw.1.2 h
  | case7 => cases h

/-! ## Nodes that are come to

What a render knows of its place besides the variables is the template and the enclosing definition, and neither
changes within a list of nodes. -/

variable {c : Catalog} {request : Request} {exits : Exits} {place place' : Place}

variable (c request exits) in
/-- The nodes, rendered at a place, come to the node at a spot, at a place of its own: whatever is before it is done. -/
inductive Reaches : List Node → Place → Spot → Node → Place → Prop where
  /-- to the first of them -/
  | first (node : Node) (rest : List Node) (place : Place) : Reaches (node :: rest) place [] node place
  /-- to one after the first -/
  | later {first : Node} {rest : List Node} {place : Place} {spot : Spot} {node : Node} {place' : Place}
    (hfirst : ((first.render request exits place).transcript c).outcome = .ok ())
    (h : Reaches rest place spot node place') : Reaches (first :: rest) place (.past :: spot) node place'
  /-- to one in a loop, for an item of the list -/
  | loop {name : String} {list : Expr} {body : List Node} (rest : List Node) {place : Place} {v : Value}
    {before : List Value} {item : Value} {after : List Value} {spot : Spot} {node : Node} {place' : Place}
    (hlist : ((list.eval request place.scope place.origin).transcript c).outcome = .ok v)
    (hitems : ((loopItems place.origin list v).transcript c).outcome = .ok (before ++ item :: after))
    (hbefore : ((renderEach request exits name body place before).transcript c).outcome = .ok ())
    (h : Reaches body { place with scope := place.scope.bind name item } spot node place') :
    Reaches (.loop name list body :: rest) place (.into :: spot) node place'
  /-- to one that is shown when a condition holds -/
  | holds {test : Expr} {body : List Node} (otherwise : Option (List Node)) (rest : List Node) {place : Place}
    {spot : Spot} {node : Node} {place' : Place}
    (htest : ((test.holds request place.scope place.origin).transcript c).outcome = .ok true)
    (h : Reaches body place spot node place') :
    Reaches (.cond test body otherwise :: rest) place (.into :: spot) node place'
  /-- to one that is shown when a condition does not hold -/
  | fails {test : Expr} (body : List Node) {otherwise : List Node} (rest : List Node) {place : Place}
    {spot : Spot} {node : Node} {place' : Place}
    (htest : ((test.holds request place.scope place.origin).transcript c).outcome = .ok false)
    (h : Reaches otherwise place spot node place') :
    Reaches (.cond test body (some otherwise) :: rest) place (.other :: spot) node place'

/-- On the way to a node no block is entered. -/
theorem Reaches.nodeAt? (h : Reaches c request exits nodes place spot node place') (around : Option String) :
    ThemedPages.nodeAt? around spot nodes = some (around, node) := by
  induction h with
  | first => rfl
  | later _ _ ih | loop _ _ _ _ _ ih | holds _ _ _ _ ih | fails _ _ _ _ ih => exact ih

/-- All nodes that are come to are written in the same template. -/
theorem Reaches.origin (h : Reaches c request exits nodes place spot node place') : place'.origin = place.origin := by
  induction h with
  | first => rfl
  | later _ _ ih | loop _ _ _ _ _ ih | holds _ _ _ _ ih | fails _ _ _ _ ih => exact ih

theorem Reaches.enclosing (h : Reaches c request exits nodes place spot node place') :
    place'.enclosing = place.enclosing := by
  induction h with
  | first => rfl
  | later _ _ ih | loop _ _ _ _ _ ih | holds _ _ _ _ ih | fails _ _ _ _ ih => exact ih

variable (c request) in
/-- The way out of a node at a place. -/
inductive Node.LeadsOut : Node → Place → Exit → Prop where
  /-- to the definition of the block that counts -/
  | block (name : String) (body : List Node) (place : Place) : LeadsOut (.block name body) place (.block name 0 place)
  /-- to the definition that the enclosing one inherits from -/
  | inherited {place : Place} {enclosing : Enclosing} (h : place.enclosing = some enclosing) :
    LeadsOut .inherited place (.block enclosing.block (enclosing.level + 1) place)
  /-- to the snippet with its parameters -/
  | snippet (path : String) {args : List (String × Expr)} {place : Place} {params : List (String × Value)}
    (h : ((Expr.arguments request place.scope place.origin args).transcript c).outcome = .ok params) :
    LeadsOut (.snippet path args) place (.snippet path (Context.ofPairs params))

/-- The ways out of nodes are those of the nodes that are come to. -/
theorem exists_reaches_of_comes {exit : Exit} (h : Comes c request exits nodes place exit) :
    ∃ spot node place', Reaches c request exits nodes place spot node place' ∧ node.LeadsOut c request place' exit := by
  induction h with
  | block name body rest place => exact ⟨_, _, _, .first _ rest place, .block name body place⟩
  | inherited rest henclosing => exact ⟨_, _, _, .first _ rest _, .inherited henclosing⟩
  | snippet path rest hparams => exact ⟨_, _, _, .first _ rest _, .snippet path hparams⟩
  | loop rest hlist hitems hbefore _ ih =>
    obtain ⟨spot, node, place', hreaches, hleads⟩ := ih
    exact ⟨_, _, _, .loop rest hlist hitems hbefore hreaches, hleads⟩
  | holds otherwise rest htest _ ih =>
    obtain ⟨spot, node, place', hreaches, hleads⟩ := ih
    exact ⟨_, _, _, .holds otherwise rest htest hreaches, hleads⟩
  | fails body rest htest _ ih =>
    obtain ⟨spot, node, place', hreaches, hleads⟩ := ih
    exact ⟨_, _, _, .fails body rest htest hreaches, hleads⟩
  | later hnode _ ih =>
    obtain ⟨spot, node, place', hreaches, hleads⟩ := ih
    exact ⟨_, _, _, .later hnode hreaches, hleads⟩

end

end ThemedPages
