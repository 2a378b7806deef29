import Mathlib.Data.List.Lex
import ThemedPages.Proofs.Spots

/-!
# The order of a document

Spots come in the order in which what is there is written: a node before all that is in it, and that before the nodes
after it.

* `spotsIn` lists the spots of some nodes in this order (`pairwise_spotsIn`) and leaves none out (`mem_spotsIn`).
* `gather` goes through the nodes in this order. `blocksIn_eq_gather` and `flawIn_eq_head?_gather` say that this is how
  the definitions of blocks are collected, and how flaws are looked for.
* `head?_gather_eq_some`: what is gathered first is at the first spot where there is something to gather.

A node has up to two lists of nodes in it, and most kinds have none. `Node.inner` and `Node.other` give both for every
kind, so that an induction has one case for a node in place of ten, and a spot says at each step which of the lists it
goes on in. The order of spots is that of the steps: into a node, then into its other list, then past it.
-/

namespace ThemedPages

/-! ## What is in a node

Blocks can be nested, and a node in one is in that block and in no other, so the name of the block is handed down. -/

namespace Node

/-- The nodes in a node that are come to by going into it. -/
def inner : Node → List Node
  | .loop _ _ body | .cond _ body _ | .block _ body => body
  | _ => []

/-- The nodes that are shown when the condition of a node does not hold. -/
def other : Node → List Node
  | .cond _ _ (some otherwise) => otherwise
  | _ => []

/-- The block that is around the nodes in a node, given the one around the node. -/
def aroundInner (around : Option String) : Node → Option String
  | .block name _ => some name
  | _ => around

/-- Induction on lists of nodes, with no difference between the kinds of nodes. -/
@[elab_as_elim]
theorem innerInduction {P : List Node → Prop} (nil : P [])
    (cons : ∀ node rest, P node.inner → P node.other → P rest → P (node :: rest)) (nodes : List Node) : P nodes := by
  induction nodes using listInduction with
  | nil => exact nil
  | comment rest ih | text s rest ih | output e rest ih | inherited rest ih | snippet path args rest ih =>
    exact cons _ rest nil nil ih
  | loop name list body rest hbody ih | cond test body rest hbody ih | block name body rest hbody ih =>
    exact cons _ rest hbody nil ih
  | condElse test body otherwise rest hbody hotherwise ih => exact cons _ rest hbody hotherwise ih

end Node

section

variable {around around' : Option String} {spot : Spot} {node : Node} {rest : List Node}

@[simp] theorem nodeAt?_nil (around : Option String) (spot : Spot) : nodeAt? around spot [] = none := by
  unfold nodeAt?
  split <;> first | rfl | simp_all

@[simp] theorem nodeAt?_first : nodeAt? around [] (node :: rest) = some (around, node) := by rw [nodeAt?]

@[simp] theorem nodeAt?_past : nodeAt? around (.past :: spot) (node :: rest) = nodeAt? around spot rest := by
  rw [nodeAt?]

@[simp] theorem nodeAt?_into :
    nodeAt? around (.into :: spot) (node :: rest) = nodeAt? (node.aroundInner around) spot node.inner := by
  cases node <;> first | rfl | exact (nodeAt?_nil _ _).symm

@[simp] theorem nodeAt?_other : nodeAt? around (.other :: spot) (node :: rest) = nodeAt? around spot node.other := by
  rcases node with _ | _ | _ | _ | ⟨test, body, _ | otherwise⟩ | _ | _ | _ <;>
    first | rfl | exact (nodeAt?_nil _ _).symm

end

/-! ## Spots in order

The order of spots is lexicographic, with the end of a spot before every step. So a node comes before what is in it. -/

/-- The place of a turn among those from the same node. -/
def Turn.rank : Turn → Nat
  | .into => 0
  | .other => 1
  | .past => 2

theorem Turn.rank_injective : Function.Injective rank := by
  rintro (_ | _ | _) (_ | _ | _) h <;> first | rfl | cases h

/-- Turns in the order in which what they lead to is written. With it, spots are in the order of the document. -/
instance : LinearOrder Turn := LinearOrder.lift' Turn.rank Turn.rank_injective

mutual

/-- The spots of a node and of what is in it, the node being the first one of a list. -/
def Node.spots : Node → List Spot
  | .loop _ _ body => [] :: (spotsIn body).map (.into :: ·)
  | .cond _ body none => [] :: (spotsIn body).map (.into :: ·)
  | .cond _ body (some otherwise) => [] :: ((spotsIn body).map (.into :: ·) ++ (spotsIn otherwise).map (.other :: ·))
  | .block _ body => [] :: (spotsIn body).map (.into :: ·)
  | _ => [[]]

/-- The spots in some nodes, in the order of the document. -/
def spotsIn : List Node → List Spot
  | [] => []
  | node :: rest => node.spots ++ (spotsIn rest).map (.past :: ·)

end

/-- The spots of some nodes: the first node, what is in it, and the nodes after it. -/
theorem spotsIn_cons (node : Node) (rest : List Node) :
    spotsIn (node :: rest) =
      [] :: ((spotsIn node.inner).map (.into :: ·) ++
        ((spotsIn node.other).map (.other :: ·) ++ (spotsIn rest).map (.past :: ·))) := by
  rcases node with _ | _ | _ | _ | ⟨test, body, _ | otherwise⟩ | _ | _ | _ <;>
    simp [spotsIn, Node.spots, Node.inner, Node.other]

/-- There is a node at each of them, and at no other spot. -/
theorem mem_spotsIn {nodes : List Node} {spot : Spot} (around : Option String) :
    spot ∈ spotsIn nodes ↔ (nodeAt? around spot nodes).isSome := by
  induction nodes using Node.innerInduction generalizing spot around with
  | nil => simp [spotsIn]
  | cons node rest hinner hother ih =>
    rw [spotsIn_cons]
    rcases spot with _ | ⟨_ | _ | _, spot⟩
    · simp
    · simpa using ih around
    · simpa using hinner (node.aroundInner around)
    · simpa using hother around

/-- A step in front of spots keeps their order. -/
theorem Spot.pairwise_map_cons {spots : List Spot} (turn : Turn) (h : spots.Pairwise (· < ·)) :
    (spots.map (turn :: ·)).Pairwise (· < ·) :=
  List.pairwise_map.mpr (h.imp fun hlt => List.cons_lt_cons_iff.mpr (.inr ⟨rfl, hlt⟩))

/-- If the steps in front are in order, so are the spots, whatever comes after. -/
theorem Spot.lt_of_mem_map_cons {turn turn' : Turn} (h : turn < turn') {spots spots' : List Spot} {spot spot' : Spot}
    (hspot : spot ∈ spots.map (turn :: ·)) (hspot' : spot' ∈ spots'.map (turn' :: ·)) : spot < spot' := by
  obtain ⟨s, -, rfl⟩ := List.mem_map.mp hspot
  obtain ⟨s', -, rfl⟩ := List.mem_map.mp hspot'
  exact List.cons_lt_cons_iff.mpr (.inl h)

/-- The spots are in order, each of them once. -/
theorem pairwise_spotsIn (nodes : List Node) : (spotsIn nodes).Pairwise (· < ·) := by
  induction nodes using Node.innerInduction with
  | nil => exact .nil
  | cons node rest hinner hother ih =>
    have hafter : ((spotsIn node.other).map (.other :: ·) ++ (spotsIn rest).map (.past :: ·)).Pairwise (· < ·) := by
      refine List.pairwise_append.mpr ⟨Spot.pairwise_map_cons _ hother, Spot.pairwise_map_cons _ ih, ?_⟩
      exact fun spot hspot spot' hspot' => Spot.lt_of_mem_map_cons Nat.one_lt_two hspot hspot'
    rw [spotsIn_cons]
    refine List.pairwise_cons.mpr ⟨fun spot hspot => ?_, ?_⟩
    · -- the node itself comes first, for no other spot is empty
      rcases spot with _ | ⟨turn, spot⟩
      · simp at hspot
      · exact List.nil_lt_cons turn spot
    · refine List.pairwise_append.mpr ⟨Spot.pairwise_map_cons _ hinner, hafter, fun spot hspot spot' hspot' => ?_⟩
      rcases List.mem_append.mp hspot' with hspot' | hspot'
      · exact Spot.lt_of_mem_map_cons Nat.zero_lt_one hspot hspot'
      · exact Spot.lt_of_mem_map_cons Nat.zero_lt_two hspot hspot'

/-- What is listed before a spot are the spots before it. -/
theorem mem_before_of_spotsIn {nodes : List Node} {before after : List Spot} {spot spot' : Spot}
    (h : spotsIn nodes = before ++ spot :: after) : spot' ∈ before ↔ spot' ∈ spotsIn nodes ∧ spot' < spot := by
  have hordered := pairwise_spotsIn nodes
  rw [h, List.pairwise_append, List.pairwise_cons] at hordered
  obtain ⟨-, ⟨hafter, -⟩, hbefore⟩ := hordered
  rw [h]
  constructor
  · exact fun hmem => ⟨List.mem_append_left _ hmem, hbefore spot' hmem spot List.mem_cons_self⟩
  · rintro ⟨hmem, hlt⟩
    rcases List.mem_append.mp hmem with hmem | hmem
    · exact hmem
    · rcases List.mem_cons.mp hmem with rfl | hmem
      · exact absurd hlt (lt_irrefl _)
      · exact absurd hlt (lt_asymm (hafter spot' hmem))

/-! ## Gathering

Something may be gathered at each node, depending on the node and on the block that it is in. -/

/-- What there is to gather at the spots of some nodes, in the order of the document. -/
def gather {β : Type} (f : Option String → Node → Option β) (around : Option String) (nodes : List Node) : List β :=
  (spotsIn nodes).filterMap fun spot => nodeAt? around spot nodes >>= fun found => f found.1 found.2

section

variable {β : Type} (f : Option String → Node → Option β) (around : Option String)

@[simp] theorem gather_nil : gather f around [] = [] := rfl

/-- Gathering goes through the nodes as the spots do. -/
theorem gather_cons (node : Node) (rest : List Node) :
    gather f around (node :: rest) =
      (f around node).toList ++ gather f (node.aroundInner around) node.inner ++ gather f around node.other ++
        gather f around rest := by
  rw [gather, spotsIn_cons]
  simp only [List.filterMap_cons, List.filterMap_append, List.filterMap_map, Function.comp_def]
  simp
  cases f around node <;> rfl

end

/-- The block that a node defines. -/
def Node.definition? : Node → Option (String × List Node)
  | .block name body => some (name, body)
  | _ => none

/-- The definitions of blocks are collected in the order of the document. -/
theorem blocksIn_eq_gather (around : Option String) (nodes : List Node) :
    blocksIn nodes = gather (fun _ node => node.definition?) around nodes := by
  induction nodes using Node.innerInduction generalizing around with
  | nil => rfl
  | cons node rest hinner hother ih =>
    have hnode : node.blocks = node.definition?.toList ++ blocksIn node.inner ++ blocksIn node.other := by
      rcases node with _ | _ | _ | _ | ⟨test, body, _ | otherwise⟩ | _ | _ | _ <;>
        simp [Node.blocks, Node.definition?, Node.inner, Node.other, blocksIn]
    rw [gather_cons, blocksIn, hnode, hinner (node.aroundInner around), hother around, ih around]

/-- What is wrong with a node itself, whatever is in it, given the block around it. -/
def Node.ownFlaw? (around : Option String) : Node → Option Flaw
  | .inherited => if around.isSome then none else some .inheritedOutsideBlock
  | .snippet path args => (firstRepeated [] (args.map (·.1))).map (.parameterTwice path)
  | _ => none

/-- The first flaw is the first one in the order of the document. -/
theorem flawIn_eq_head?_gather (around : Option String) (nodes : List Node) :
    flawIn around.isSome nodes = (gather Node.ownFlaw? around nodes).head? := by
  induction nodes using Node.innerInduction generalizing around with
  | nil => rfl
  | cons node rest hinner hother ih =>
    have hnode : node.flaw? around.isSome =
        ((node.ownFlaw? around).or (flawIn (node.aroundInner around).isSome node.inner)).or
          (flawIn around.isSome node.other) := by
      rcases node with _ | _ | _ | _ | ⟨test, body, _ | otherwise⟩ | _ | _ | _ <;>
        simp [Node.flaw?, Node.ownFlaw?, Node.inner, Node.other, Node.aroundInner, flawIn]
    rw [gather_cons, flawIn, hnode, hinner, hother, ih around]
    simp [Option.or_assoc]

/-- Nothing is gathered if there is nothing to gather at any spot. -/
theorem gather_eq_nil {β : Type} {f : Option String → Node → Option β} {around : Option String} {nodes : List Node} :
    gather f around nodes = [] ↔
      ∀ spot around' node, nodeAt? around spot nodes = some (around', node) → f around' node = none := by
  rw [gather, List.filterMap_eq_nil_iff]
  constructor
  · intro h spot around' node hnode
    have hmem : spot ∈ spotsIn nodes := by
      rw [mem_spotsIn around, hnode]
      rfl
    simpa [hnode] using h spot hmem
  · exact fun h spot _ => Option.bind_eq_none_iff.mpr fun found hfound => h spot found.1 found.2 hfound

/-- What is gathered first is at the first spot where there is something to gather. -/
theorem head?_gather_eq_some {β : Type} {f : Option String → Node → Option β} {around : Option String}
    {nodes : List Node} {b : β} :
    (gather f around nodes).head? = some b ↔
      ∃ spot around' node, nodeAt? around spot nodes = some (around', node) ∧ f around' node = some b ∧
        ∀ spot' < spot, ∀ around'' node', nodeAt? around spot' nodes = some (around'', node') →
          f around'' node' = none := by
  rw [gather, List.head?_filterMap, List.findSome?_eq_some_iff]
  constructor
  · rintro ⟨before, spot, after, hspots, hspot, hbefore⟩
    obtain ⟨⟨around', node⟩, hnode, hb⟩ := Option.bind_eq_some_iff.mp hspot
    refine ⟨spot, around', node, hnode, hb, fun spot' hlt around'' node' hnode' => ?_⟩
    -- a smaller spot is among those that were asked before
    have hmem : spot' ∈ spotsIn nodes := by
      rw [mem_spotsIn around, hnode']
      rfl
    simpa [hnode'] using hbefore spot' ((mem_before_of_spotsIn hspots).mpr ⟨hmem, hlt⟩)
  · rintro ⟨spot, around', node, hnode, hb, hfirst⟩
    have hmem : spot ∈ spotsIn nodes := by
      rw [mem_spotsIn around, hnode]
      rfl
    -- what stands before a spot in the list are the smaller ones
    obtain ⟨before, after, hspots⟩ := List.append_of_mem hmem
    refine ⟨before, spot, after, hspots, by simpa [hnode] using hb, fun spot' hspot' => ?_⟩
    refine Option.bind_eq_none_iff.mpr fun found hfound => ?_
    exact hfirst spot' ((mem_before_of_spotsIn hspots).mp hspot').2 _ _ hfound

end ThemedPages
