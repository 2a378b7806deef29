import ThemedPages.Proofs.Checks
import ThemedPages.Proofs.DocumentOrder
import ThemedPages.Proofs.Spelling

/-!
# What is wrong with a template

The grammar lets a template define a block twice, ask for an inherited definition outside of any block, and give a
snippet a parameter twice. Here this is said of the spots of the template, and not of how they are gone through.

* `Template.Flawless` says that there is nothing of this kind, `Template.FirstFlaw` which of it is reported: a block
  that is defined twice, the one whose second definition comes first, and if there is none, what comes first.
* `Template.flaw?_eq_none` and `Template.flaw?_eq_some` say that this is what is looked for.
* `Template.read_of_document`: a template that can be parsed is read just if it is flawless, and otherwise the error is
  its first flaw.

The two checks look for different things and in different ways. Blocks are collected from the whole template before
their names are compared, and the rest is looked for node by node. Both go through the template in the order of its
spots, so that what they find first is at the first spot of its kind. The names of blocks are therefore taken as a list
along the spots (`Template.map_blocks_eq_filterMap`), and that a name comes twice in it is that two spots have it.
-/

namespace ThemedPages

namespace Template

/-! ## Spots of a template

What is wrong is at a spot: of the second definition, of the question for what is inherited, or of the snippet. -/

/-- The node at a spot of the template. -/
def nodeAt? (t : Template) (spot : Spot) : Option Node := (ThemedPages.nodeAt? none spot t.body).map (·.2)

/-- A block of this name is defined at the spot. -/
def DefinesAt (t : Template) (spot : Spot) (name : String) : Prop := ∃ body, t.nodeAt? spot = some (.block name body)

/-- The spot is in a block, at any depth. -/
def InBlock (t : Template) (spot : Spot) : Prop :=
  ∃ outer inner name, spot = outer ++ .into :: inner ∧ t.DefinesAt outer name

/-- A block of this name is defined at the spot, and at an earlier one. -/
def RepeatsAt (t : Template) (spot : Spot) (name : String) : Prop :=
  t.DefinesAt spot name ∧ ∃ earlier < spot, t.DefinesAt earlier name

/-- What is wrong with the node at a spot. -/
inductive OffendsAt (t : Template) (spot : Spot) : Flaw → Prop where
  /-- an inherited definition, outside of any block -/
  | inherited (hnode : t.nodeAt? spot = some .inherited) (hblock : ¬ t.InBlock spot) :
    OffendsAt t spot .inheritedOutsideBlock
  /-- a snippet with a parameter that was given before, the first one of this kind -/
  | snippet {path : String} {args : List (String × Expr)} {before : List String} {parameter : String}
    {after : List String} (hnode : t.nodeAt? spot = some (.snippet path args))
    (hargs : args.map (·.1) = before ++ parameter :: after) (hmem : parameter ∈ before) (hbefore : before.Nodup) :
    OffendsAt t spot (.parameterTwice path parameter)

/-- Nothing is wrong with the template. -/
structure Flawless (t : Template) : Prop where
  /-- no block is defined at two spots -/
  blocks : ∀ spot spot' name, t.DefinesAt spot name → t.DefinesAt spot' name → spot = spot'
  /-- inherited definitions are asked for in blocks -/
  inherited : ∀ spot, t.nodeAt? spot = some .inherited → t.InBlock spot
  /-- no snippet is given a parameter twice -/
  parameters : ∀ spot path args, t.nodeAt? spot = some (.snippet path args) → (args.map (·.1)).Nodup

/-- What is reported of the template. -/
inductive FirstFlaw (t : Template) : Flaw → Prop where
  /-- the block that is defined for the second time before any other is -/
  | blockTwice {spot : Spot} {name : String} (h : t.RepeatsAt spot name)
    (hfirst : ∀ spot' < spot, ∀ name', ¬ t.RepeatsAt spot' name') : FirstFlaw t (.blockTwice name)
  /-- where no block is defined twice, what is wrong with the first node with which anything is -/
  | offends {spot : Spot} {flaw : Flaw} (hblocks : ∀ spot' name, ¬ t.RepeatsAt spot' name) (h : t.OffendsAt spot flaw)
    (hfirst : ∀ spot' < spot, ∀ flaw', ¬ t.OffendsAt spot' flaw') : FirstFlaw t flaw

variable {t : Template} {spot : Spot} {name : String} {flaw : Flaw}

theorem nodeAt?_eq_some {node : Node} :
    t.nodeAt? spot = some node ↔ ∃ around, ThemedPages.nodeAt? none spot t.body = some (around, node) := by
  simp [nodeAt?]

theorem mem_spotsIn_of_definesAt (h : t.DefinesAt spot name) : spot ∈ spotsIn t.body := by
  obtain ⟨body, hbody⟩ := h
  obtain ⟨around, hnode⟩ := nodeAt?_eq_some.mp hbody
  rw [mem_spotsIn none, hnode]
  rfl

end Template

/-- On a way, something is gone into at the first turn or later on. -/
theorem Spot.exists_into_cons {turn : Turn} {spot : Spot} {P : Spot → Prop} :
    (∃ outer inner, turn :: spot = outer ++ .into :: inner ∧ P outer) ↔
      (turn = .into ∧ P []) ∨ ∃ outer inner, spot = outer ++ .into :: inner ∧ P (turn :: outer) := by
  constructor
  · rintro ⟨outer, inner, hspot, h⟩
    rcases List.cons_eq_append_iff.mp hspot with ⟨rfl, hinner⟩ | ⟨outer, rfl, rfl⟩
    · exact .inl ⟨(List.cons.inj hinner).1.symm, h⟩
    · exact .inr ⟨outer, inner, rfl, h⟩
  · rintro (⟨rfl, h⟩ | ⟨outer, inner, rfl, h⟩)
    · exact ⟨[], spot, rfl, h⟩
    · exact ⟨turn :: outer, inner, rfl, h⟩

/-- There is a block around what is at a spot if there was one at the beginning or one was gone into on the way. -/
theorem isSome_of_nodeAt? {around around' : Option String} {spot : Spot} {nodes : List Node} {node : Node}
    (h : nodeAt? around spot nodes = some (around', node)) :
    around'.isSome ↔ around.isSome ∨ ∃ outer inner, spot = outer ++ .into :: inner ∧
      ∃ around'' name body, nodeAt? around outer nodes = some (around'', .block name body) := by
  induction spot generalizing around nodes with
  | nil =>
    cases nodes with
    | nil => simp at h
    | cons first rest =>
      obtain ⟨rfl, -⟩ := Prod.mk.inj (Option.some.inj (nodeAt?_first.symm.trans h))
      simp
  -- only the turn into a node can add a block around the spot
  | cons turn spot ih =>
    cases nodes with
    | nil => simp at h
    | cons first rest =>
      rw [Spot.exists_into_cons]
      cases turn with
      | past =>
        rw [nodeAt?_past] at h
        simpa using ih h
      | into =>
        rw [nodeAt?_into] at h
        rw [ih h]
        cases first <;> simp [Node.aroundInner]
      | other =>
        rw [nodeAt?_other] at h
        simpa using ih h

namespace Template

variable {t : Template} {spot : Spot} {name : String} {flaw : Flaw}

/-- That a spot is in a block is known from going there, as the block is handed down. -/
theorem inBlock_iff {around : Option String} {node : Node}
    (h : ThemedPages.nodeAt? none spot t.body = some (around, node)) : t.InBlock spot ↔ around.isSome := by
  rw [isSome_of_nodeAt? h]
  simp only [InBlock, DefinesAt, nodeAt?_eq_some]
  grind

/-! ## Blocks that are defined twice

A name that is repeated in the list of names is at a spot that has an earlier one with the same name, and conversely. -/

/-- The name of the block that is defined at a spot. -/
def nameAt? (t : Template) (spot : Spot) : Option String := t.nodeAt? spot >>= fun node => node.definition?.map (·.1)

theorem nameAt?_eq_some : t.nameAt? spot = some name ↔ t.DefinesAt spot name := by
  rw [nameAt?, DefinesAt]
  rcases t.nodeAt? spot with _ | (_ | _ | _ | _ | _ | _ | _ | _) <;> simp [Node.definition?]

/-- The names of blocks, in the order of the spots. -/
theorem map_blocks_eq_filterMap (t : Template) : t.blocks.map (·.1) = (spotsIn t.body).filterMap t.nameAt? := by
  rw [blocks, blocksIn_eq_gather none, gather, List.map_filterMap]
  refine List.filterMap_congr fun spot _ => ?_
  rw [nameAt?, nodeAt?]
  cases ThemedPages.nodeAt? none spot t.body <;> rfl

/-- Of some spots that are there once, each gives another value if all the values are there once. -/
theorem nodup_filterMap {f : Spot → Option String} {spots : List Spot} (h : spots.Nodup) :
    (spots.filterMap f).Nodup ↔
      ∀ spot ∈ spots, ∀ spot' ∈ spots, ∀ name, f spot = some name → f spot' = some name → spot = spot' := by
  induction spots with
  | nil => simp
  | cons first spots ih =>
    obtain ⟨hfirst, hspots⟩ := List.nodup_cons.mp h
    rw [List.filterMap_cons]
    split
    · next hnone =>
      rw [ih hspots]
      grind
    · next name hsome =>
      rw [List.nodup_cons, ih hspots, List.mem_filterMap]
      grind

theorem nodup_spotsIn (nodes : List Node) : (spotsIn nodes).Nodup := (pairwise_spotsIn nodes).imp ne_of_lt

/-- The names at some of the spots are there once if no block is defined at two of these. -/
theorem nodup_names {P : Spot → Prop} {spots : List Spot} (hnodup : spots.Nodup)
    (hmem : ∀ spot, spot ∈ spots ↔ spot ∈ spotsIn t.body ∧ P spot) :
    (spots.filterMap t.nameAt?).Nodup ↔
      ∀ spot, P spot → ∀ spot', P spot' → ∀ name, t.DefinesAt spot name → t.DefinesAt spot' name → spot = spot' := by
  rw [nodup_filterMap hnodup]
  simp only [hmem, nameAt?_eq_some]
  constructor
  · intro h spot hspot spot' hspot' name hname hname'
    have hmem := mem_spotsIn_of_definesAt hname
    have hmem' := mem_spotsIn_of_definesAt hname'
    exact h spot ⟨hmem, hspot⟩ spot' ⟨hmem', hspot'⟩ name hname hname'
  · exact fun h spot hspot spot' hspot' => h spot hspot.2 spot' hspot'.2

/-- The names of the blocks are there once if no block is defined at two spots. -/
theorem nodup_map_blocks (t : Template) :
    (t.blocks.map (·.1)).Nodup ↔
      ∀ spot spot' name, t.DefinesAt spot name → t.DefinesAt spot' name → spot = spot' := by
  rw [map_blocks_eq_filterMap, nodup_names (P := fun _ => True) (nodup_spotsIn t.body) (by simp)]
  simp

/-- Among spots that come one after the other, nothing is repeated if no block is defined at two of them. -/
theorem forall_not_repeatsAt {P : Spot → Prop} (hP : ∀ spot, P spot → ∀ earlier < spot, P earlier) :
    (∀ spot, P spot → ∀ name, ¬ t.RepeatsAt spot name) ↔
      ∀ spot, P spot → ∀ spot', P spot' → ∀ name, t.DefinesAt spot name → t.DefinesAt spot' name → spot = spot' := by
  constructor
  · intro h spot hspot spot' hspot' name hname hname'
    rcases lt_trichotomy spot spot' with hlt | heq | hlt
    · exact absurd ⟨hname', spot, hlt, hname⟩ (h spot' hspot' name)
    · exact heq
    · exact absurd ⟨hname, spot', hlt, hname'⟩ (h spot hspot name)
  · rintro h spot hspot name ⟨hname, earlier, hlt, hearlier⟩
    exact hlt.ne (h earlier (hP spot hspot earlier hlt) spot hspot name hearlier hname)

/-- No name comes twice exactly if no definition repeats one. -/
theorem firstRepeated_blocks_eq_none :
    firstRepeated [] (t.blocks.map (·.1)) = none ↔ ∀ spot name, ¬ t.RepeatsAt spot name := by
  have hall := forall_not_repeatsAt (t := t) (P := fun _ => True) fun _ _ _ _ => trivial
  simp only [true_imp_iff] at hall
  rw [hall, ← nodup_map_blocks, firstRepeated_eq_none]
  simp

section

variable {spots spots' : List Spot} (h : spotsIn t.body = spots ++ spot :: spots')

include h

/-- The names before a spot are those that are defined earlier. -/
theorem mem_names_before : name ∈ spots.filterMap t.nameAt? ↔ ∃ earlier < spot, t.DefinesAt earlier name := by
  rw [List.mem_filterMap]
  constructor
  · rintro ⟨earlier, hmem, hname⟩
    exact ⟨earlier, ((mem_before_of_spotsIn h).mp hmem).2, nameAt?_eq_some.mp hname⟩
  · rintro ⟨earlier, hlt, hname⟩
    have hname := nameAt?_eq_some.mpr hname
    exact ⟨earlier, (mem_before_of_spotsIn h).mpr ⟨mem_spotsIn_of_definesAt (nameAt?_eq_some.mp hname), hlt⟩, hname⟩

theorem firstRepeated_before_eq_none :
    firstRepeated [] (spots.filterMap t.nameAt?) = none ↔ ∀ spot' < spot, ∀ name', ¬ t.RepeatsAt spot' name' := by
  have hnodup : spots.Nodup := by
    have hall := nodup_spotsIn t.body
    rw [h] at hall
    exact (List.nodup_append.mp hall).1
  rw [firstRepeated_eq_none, nodup_names hnodup fun _ => mem_before_of_spotsIn h,
    ← forall_not_repeatsAt fun _ hlt _ hlt' => hlt'.trans hlt]
  simp

end

/-- The first name that is there again is that of the block whose second definition comes first. -/
theorem firstRepeated_blocks_eq_some :
    firstRepeated [] (t.blocks.map (·.1)) = some name ↔
      ∃ spot, t.RepeatsAt spot name ∧ ∀ spot' < spot, ∀ name', ¬ t.RepeatsAt spot' name' := by
  rw [map_blocks_eq_filterMap, firstRepeated_eq_some]
  constructor
  · rintro ⟨before, after, hnames, hname, hbefore⟩
    obtain ⟨spots, rest, hspots, rfl, hrest⟩ := List.filterMap_eq_append_iff.mp hnames
    obtain ⟨gap, spot, spots', rfl, hgap, hspot, -⟩ := List.filterMap_eq_cons_iff.mp hrest
    -- no block is defined in the gap
    have hgap : (spots ++ gap).filterMap t.nameAt? = spots.filterMap t.nameAt? := by
      rw [List.filterMap_append, List.filterMap_eq_nil_iff.mpr hgap, List.append_nil]
    rw [← List.append_assoc] at hspots
    rw [← hgap] at hname hbefore
    rw [mem_names_before hspots] at hname
    exact ⟨spot, ⟨nameAt?_eq_some.mp hspot, by simpa using hname⟩, (firstRepeated_before_eq_none hspots).mp hbefore⟩
  · rintro ⟨spot, ⟨hname, hearlier⟩, hfirst⟩
    obtain ⟨spots, spots', hspots⟩ := List.append_of_mem (mem_spotsIn_of_definesAt hname)
    refine ⟨spots.filterMap t.nameAt?, spots'.filterMap t.nameAt?, ?_, ?_, ?_⟩
    · rw [hspots, List.filterMap_append, List.filterMap_cons_some (nameAt?_eq_some.mpr hname)]
    · exact .inr ((mem_names_before hspots).mpr hearlier)
    · exact (firstRepeated_before_eq_none hspots).mpr hfirst

/-! ## Nodes with which something is wrong

What is wrong with a node by itself is known from the node and from whether it is in a block. -/

/-- What offends at a spot is what is wrong with the node there. -/
theorem offendsAt_iff :
    t.OffendsAt spot flaw ↔
      ∃ around node, ThemedPages.nodeAt? none spot t.body = some (around, node) ∧ node.ownFlaw? around = some flaw := by
  constructor
  · intro h
    cases h with
    | inherited hnode hblock =>
      -- being in a block is read off what is around the spot
      obtain ⟨around, hnode⟩ := nodeAt?_eq_some.mp hnode
      rw [inBlock_iff hnode] at hblock
      exact ⟨around, .inherited, hnode, if_neg hblock⟩
    | snippet hnode hargs hmem hbefore =>
      obtain ⟨around, hnode⟩ := nodeAt?_eq_some.mp hnode
      have hbefore := firstRepeated_eq_none.mpr ⟨hbefore, fun _ _ => List.not_mem_nil⟩
      refine ⟨around, _, hnode, Option.map_eq_some_iff.mpr ⟨_, ?_, rfl⟩⟩
      exact firstRepeated_eq_some.mpr ⟨_, _, hargs, .inr hmem, hbefore⟩
  · rintro ⟨around, node, hnode, hflaw⟩
    have hspot := nodeAt?_eq_some.mpr ⟨around, hnode⟩
    cases node with
    | inherited =>
      have hblock : ¬ t.InBlock spot := by
        rw [inBlock_iff hnode]
        intro haround
        simp [Node.ownFlaw?, haround] at hflaw
      obtain rfl : .inheritedOutsideBlock = flaw := by
        rw [inBlock_iff hnode] at hblock
        exact Option.some.inj ((if_neg hblock).symm.trans hflaw)
      exact .inherited hspot hblock
    | snippet path args =>
      obtain ⟨parameter, hparameter, rfl⟩ := Option.map_eq_some_iff.mp hflaw
      obtain ⟨before, after, hargs, hmem, hbefore⟩ := firstRepeated_eq_some.mp hparameter
      exact .snippet hspot hargs (by simpa using hmem) (firstRepeated_eq_none.mp hbefore).1
    -- the other nodes have no flaw of their own
    | comment | text | output | loop | cond | block => cases hflaw

theorem forall_not_offendsAt :
    (∀ flaw, ¬ t.OffendsAt spot flaw) ↔
      ∀ around node, ThemedPages.nodeAt? none spot t.body = some (around, node) → node.ownFlaw? around = none := by
  simp only [offendsAt_iff, not_exists, not_and, Option.eq_none_iff_forall_ne_some]
  exact ⟨fun h around node hnode flaw => h flaw around node hnode,
    fun h flaw around node hnode => h around node hnode flaw⟩

/-- The flaw that is found is the one at the first spot that has any. -/
theorem flawIn_eq_some :
    flawIn false t.body = some flaw ↔
      ∃ spot, t.OffendsAt spot flaw ∧ ∀ spot' < spot, ∀ flaw', ¬ t.OffendsAt spot' flaw' := by
  rw [show false = (none : Option String).isSome from rfl, flawIn_eq_head?_gather, head?_gather_eq_some]
  constructor
  · rintro ⟨spot, around, node, hnode, hflaw, hfirst⟩
    have hoffends := offendsAt_iff.mpr ⟨around, node, hnode, hflaw⟩
    exact ⟨spot, hoffends, fun spot' hlt => forall_not_offendsAt.mpr (hfirst spot' hlt)⟩
  · rintro ⟨spot, hoffends, hfirst⟩
    obtain ⟨around, node, hnode, hflaw⟩ := offendsAt_iff.mp hoffends
    exact ⟨spot, around, node, hnode, hflaw, fun spot' hlt => forall_not_offendsAt.mp (hfirst spot' hlt)⟩

theorem flawIn_eq_none : flawIn false t.body = none ↔ ∀ spot flaw, ¬ t.OffendsAt spot flaw := by
  rw [show false = (none : Option String).isSome from rfl, flawIn_eq_head?_gather, List.head?_eq_none_iff,
    gather_eq_nil]
  simp only [forall_not_offendsAt]

/-! ## What is reported

A block that is defined twice comes before everything else, wherever it is. -/

/-- What is looked for is the first flaw. -/
theorem flaw?_eq_some : t.flaw? = some flaw ↔ t.FirstFlaw flaw := by
  rw [flaw?, Option.orElse_eq_some, Option.map_eq_none_iff, firstRepeated_blocks_eq_none, flawIn_eq_some,
    Option.map_eq_some_iff]
  simp only [firstRepeated_blocks_eq_some]
  constructor
  · rintro (⟨name, ⟨spot, hspot, hfirst⟩, rfl⟩ | ⟨hblocks, spot, hspot, hfirst⟩)
    · exact .blockTwice hspot hfirst
    · exact .offends hblocks hspot hfirst
  · intro h
    cases h with
    | blockTwice hspot hfirst => exact .inl ⟨_, ⟨_, hspot, hfirst⟩, rfl⟩
    | offends hblocks hspot hfirst => exact .inr ⟨hblocks, _, hspot, hfirst⟩

/-- Nothing is found just if the template is flawless. -/
theorem flaw?_eq_none : t.flaw? = none ↔ t.Flawless := by
  rw [flaw?, Option.orElse_eq_none, Option.map_eq_none_iff, firstRepeated_eq_none, nodup_map_blocks, flawIn_eq_none]
  constructor
  · rintro ⟨⟨hblocks, -⟩, hnodes⟩
    refine ⟨hblocks, fun spot hnode => ?_, fun spot path args hnode => ?_⟩
    -- an `@super()` outside a block would be a flaw at its spot
    · by_contra hblock
      exact hnodes spot _ (.inherited hnode hblock)
    -- so would the first parameter that is repeated
    · rcases h : firstRepeated [] (args.map (·.1)) with _ | parameter
      · exact (firstRepeated_eq_none.mp h).1
      · obtain ⟨before, after, hargs, hmem, hbefore⟩ := firstRepeated_eq_some.mp h
        have hoffends := OffendsAt.snippet hnode hargs (by simpa using hmem) (firstRepeated_eq_none.mp hbefore).1
        exact absurd hoffends (hnodes spot _)
  · intro h
    refine ⟨⟨h.blocks, fun _ _ => List.not_mem_nil⟩, fun spot flaw hoffends => ?_⟩
    cases hoffends with
    | inherited hnode hblock => exact hblock (h.inherited spot hnode)
    | snippet hnode hargs hmem _ =>
      have hnodup := h.parameters spot _ _ hnode
      rw [hargs, List.nodup_append] at hnodup
      exact hnodup.2.2 _ hmem _ List.mem_cons_self rfl

/-- A template that can be parsed, whatever it is, is read if it is flawless. Otherwise the error is its first flaw: the
block whose second definition comes first, or, where no block is defined twice, what is wrong with the first node that
asks for an inherited definition outside of any block or that gives a snippet a parameter twice. -/
theorem read_of_document {source rest : Bytes} (h : Grammar.document source = .ok t rest) (name : String) :
    (∀ t', read name source = .ok t' ↔ t' = t ∧ t.Flawless) ∧
      ∀ e, read name source = .error e ↔ ∃ flaw, t.FirstFlaw flaw ∧ e = flaw.error name := by
  simp only [read, h, ← flaw?_eq_none, ← flaw?_eq_some]
  cases t.flaw? with
  | none => simp [eq_comm]
  | some flaw => simp [eq_comm]

/-- A block that is defined again in a condition is reported before the parameter that is given twice, though this is
written first. -/
theorem read_of_document_twice :
    let source := Utf8.bytes "@include(\"card\", p = 1, p = 2)@block a \x7b\x7d@if x \x7b@block a \x7b\x7d\x7d"
    ∃ t rest, Grammar.document source = .ok t rest ∧
      read "page.html" source = .error (.duplicateBlock "page.html" "a") ∧
      ¬ t.Flawless ∧ t.FirstFlaw (.blockTwice "a") := by
  intro source
  have hmap : (read "page.html" source).map (fun _ => ()) = .error (.duplicateBlock "page.html" "a") := by
    decide +kernel
  clear_value source
  have hread : read "page.html" source = .error (.duplicateBlock "page.html" "a") := by
    rcases h : read "page.html" source with e | t <;> rw [h] at hmap <;> cases hmap
    rfl
  rcases hdocument : Grammar.document source with ⟨t, rest⟩ | trace | trace
  · obtain ⟨hok, herror⟩ := read_of_document hdocument "page.html"
    obtain ⟨flaw, hflaw, he⟩ := (herror _).mp hread
    obtain rfl : flaw = .blockTwice "a" := by
      cases flaw <;> cases he
      rfl
    refine ⟨t, rest, rfl, hread, fun hflawless => ?_, hflaw⟩
    exact absurd (hread.symm.trans ((hok t).mpr ⟨rfl, hflawless⟩)) nofun
  · rw [read, hdocument] at hread
    cases hread
  · rw [read, hdocument] at hread
    cases hread

end Template

end ThemedPages
