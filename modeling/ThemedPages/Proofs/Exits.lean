import Mathlib.Order.Filter.AtTopBot.Basic
import ThemedPages.Proofs.Evaluation
import ThemedPages.Proofs.Markup

/-!
# Ways out

From a list of nodes there are ways out, into block definitions and into snippets. How far the nodes are rendered is
up to how far those go.

* `renderAll_nears`: the further the ways out go, the more of the nodes is rendered, and nothing of it changes.
* `Comes` says which ways out are taken. `Comes.ne_endless`: where the nodes end, these end.
* `Comes.outcome_of_error`: where one of these goes wrong, so do the nodes. `exists_comes_of_error` is the other way
  round, unless an expression is to blame; `exists_comes_of_endless`: where the nodes do not end, one of these does not.

With these the nodes are left behind. Whoever wants to know whether a page ends, or what it goes wrong by, follows the
ways out from one block definition or snippet to the next. For the way back from an error to a way out, the nodes are
gone through once: a node that goes wrong does so by an expression in it, by what it encloses, or by a way out of its
own. There is one lemma for each kind of node (`ComesToStop.of_loop` and so on), and `blamesExits` is the induction.
-/

namespace ThemedPages

open Filter

/-! ## Going further

How far something goes is indexed along a filter, for it is more than one number: rounds for block definitions and
snippets within each other. Far enough along, a transcript that ends is as it is without any bound. -/

namespace Transcript

variable {ι α β : Type} {l : Filter ι}

/-- Far enough along a filter, the transcript is as those along it, unless it was cut off. -/
def Nears (l : Filter ι) (t : Transcript α) (u : ι → Transcript α) : Prop := ∀ᶠ i in l, t.Below (u i)

theorem Nears.refl (t : Transcript α) : t.Nears l fun _ => t := .of_forall fun _ => .refl t

theorem Nears.of_endless {t : Transcript α} {u : ι → Transcript α} (h : t.outcome = .error .endless) : t.Nears l u :=
  .of_forall fun _ => .inl h

theorem nears_pure {t : Transcript α} {u : ι → Transcript α} {i : ι} : t.Nears (pure i) u ↔ t.Below (u i) :=
  eventually_pure

/-- What ends is there in full, far enough along. -/
theorem Nears.eq {t : Transcript α} {u : ι → Transcript α} (h : t.Nears l u) (ht : t.outcome ≠ .error .endless) :
    ∀ᶠ i in l, t = u i :=
  h.mono fun _ hi => hi.eq ht

/-- **Sequence.** Far enough for the first part and far enough for the second are both far enough, further on. -/
theorem Nears.bind {t : Transcript α} {u : ι → Transcript α} {f : α → Transcript β} {g : ι → α → Transcript β}
    (h : t.Nears l u) (hfg : ∀ a, t.outcome = .ok a → (f a).Nears l fun i => g i a) :
    (t >>= f).Nears l fun i => u i >>= g i := by
  rcases ht : t.outcome with stop | a
  · exact h.mono fun i hi => hi.bind fun a ha => absurd (ht.symm.trans ha) nofun
  · filter_upwards [h, hfg a ht] with i hi hrest
    refine hi.bind fun b hb => ?_
    obtain rfl := Except.ok.inj (ht.symm.trans hb)
    exact hrest

end Transcript

/-! ## Ending together

Two transcripts end together if neither is cut off or both are. This is a likeness, so nodes respect it. -/

/-- It ends, or does not end. -/
def EndLikeness.together : EndLikeness where
  stop s s' := s.isUndefined = s'.isUndefined ∧ (s = .endless ↔ s' = .endless)
  origin _ _ := True
  isUndefined h := h.1
  fault _ fault := by cases fault <;> exact ⟨rfl, ⟨Stop.noConfusion, Stop.noConfusion⟩⟩

/-- The likeness of what ends and what ends, and of what does not end and what does not. -/
def Likeness.together : Likeness := ⟨.any, .together⟩

theorem Likeness.together_refl {α : Type} (t : Transcript α) : Likeness.together.Like Eq t t :=
  .refl (L := together) (fun _ => trivial) (fun _ => ⟨rfl, Iff.rfl⟩) (fun _ => rfl) t

theorem Likeness.together_endless {α : Type} {t u : Transcript α} (h : Likeness.together.Like Eq t u) :
    t.outcome = .error .endless ↔ u.outcome = .error .endless := by
  have houtcome := h.outcome
  rcases ht : t.outcome with s | a <;> rcases hu : u.outcome with s' | b <;> rw [ht, hu] at houtcome
  · simpa using houtcome.2
  · exact houtcome.elim
  · exact houtcome.elim
  · simp

/-! ## Ways out that are taken

A way out is taken if all that is before it in the nodes is done. What is done before may itself go out, so `Comes`
depends on the ways out there are; further ways out are taken no less (`Comes.nears`, `Comes.of_below`). -/

/-- A way out of a list of nodes. -/
inductive Exit where
  /-- into a definition of a block -/
  | block (name : String) (level : Nat) (place : Place)
  /-- into a snippet -/
  | snippet (path : String) (context : Context)

/-- Takes a way out. -/
def Exits.take (exits : Exits) : Exit → Run Unit
  | .block name level place => exits.block name level place
  | .snippet path context => exits.snippet path context

section

variable {ι : Type} {l : Filter ι} {c : Catalog} {request : Request}

/-- A loop goes as far as its body does for each item. There are finitely many, so there is a place from which on it
is far enough for all. -/
theorem forEach_nears {body : Value → Run Unit} {body' : ι → Value → Run Unit}
    (h : ∀ item, ((body item).transcript c).Nears l fun i => (body' i item).transcript c) (items : List Value) :
    ((forEach items body).transcript c).Nears l fun i => (forEach items (body' i)).transcript c := by
  induction items with
  | nil => exact .refl _
  | cons item rest ih => exact (h item).bind fun _ _ => ih

/-- The further the ways out go, the further the nodes go. -/
theorem renderAll_nears {exits : Exits} {exits' : ι → Exits}
    (h : ∀ exit, ((exits.take exit).transcript c).Nears l fun i => ((exits' i).take exit).transcript c)
    (nodes : List Node) (place : Place) :
    ((renderAll request exits nodes place).transcript c).Nears l
      fun i => (renderAll request (exits' i) nodes place).transcript c := by
  induction nodes using Node.listInduction generalizing place with
  | nil => exact .refl _
  | comment rest ih => exact .bind (.refl _) fun _ _ => ih place
  | text s rest ih => exact .bind (.refl _) fun _ _ => ih place
  | output e rest ih => exact .bind (.refl _) fun _ _ => ih place
  | loop name list body rest hbody ih =>
    -- the list is evaluated without an exit, so only the rounds are compared
    refine .bind (.bind (.refl _) fun v _ => .bind (.refl _) fun items _ => ?_) fun _ _ => ih place
    exact forEach_nears (fun item => hbody _) items
  | cond test body rest hbody ih =>
    refine .bind (.bind (.refl _) fun holds _ => ?_) fun _ _ => ih place
    cases holds with
    | true => exact hbody place
    | false => exact .refl _
  | condElse test body otherwise rest hbody hother ih =>
    refine .bind (.bind (.refl _) fun holds _ => ?_) fun _ _ => ih place
    cases holds with
    | true => exact hbody place
    | false => exact hother place
  | block name body rest _ ih => exact .bind (h (.block name 0 place)) fun _ _ => ih place
  -- outside a block `@super()` shows nothing, and in one it is a way out
  | inherited rest ih =>
    refine .bind ?_ fun _ _ => ih place
    simp only [Node.render]
    cases place.enclosing with
    | none => exact .refl _
    | some enclosing => exact h (.block enclosing.block (enclosing.level + 1) place)
  | snippet path args rest ih =>
    exact .bind (.bind (.refl _) fun params _ => h (.snippet path (Context.ofPairs params))) fun _ _ => ih place

theorem renderEach_nears {exits : Exits} {exits' : ι → Exits}
    (h : ∀ exit, ((exits.take exit).transcript c).Nears l fun i => ((exits' i).take exit).transcript c)
    (name : String) (body : List Node) (place : Place) (items : List Value) :
    ((renderEach request exits name body place items).transcript c).Nears l
      fun i => (renderEach request (exits' i) name body place items).transcript c :=
  forEach_nears (fun _ => renderAll_nears h _ _) items

variable (c request) in
/-- The nodes, rendered at the place, come to the way out: whatever is before it is done. -/
inductive Comes (exits : Exits) : List Node → Place → Exit → Prop where
  /-- to the definition of a block that counts -/
  | block (name : String) (body rest : List Node) (place : Place) :
    Comes exits (.block name body :: rest) place (.block name 0 place)
  /-- to the definition that the enclosing one inherits from -/
  | inherited (rest : List Node) {place : Place} {enclosing : Enclosing} (h : place.enclosing = some enclosing) :
    Comes exits (.inherited :: rest) place (.block enclosing.block (enclosing.level + 1) place)
  /-- to a snippet -/
  | snippet (path : String) {args : List (String × Expr)} (rest : List Node) {place : Place}
    {params : List (String × Value)}
    (hparams : ((Expr.arguments request place.scope place.origin args).transcript c).outcome = .ok params) :
    Comes exits (.snippet path args :: rest) place (.snippet path (Context.ofPairs params))
  /-- in a loop, after the items before -/
  | loop {name : String} {list : Expr} {body : List Node} (rest : List Node) {place : Place} {v : Value}
    {before after : List Value} {item : Value} {exit : Exit}
    (hlist : ((list.eval request place.scope place.origin).transcript c).outcome = .ok v)
    (hitems : ((loopItems place.origin list v).transcript c).outcome = .ok (before ++ item :: after))
    (hbefore : ((renderEach request exits name body place before).transcript c).outcome = .ok ())
    (hbody : Comes exits body { place with scope := place.scope.bind name item } exit) :
    Comes exits (.loop name list body :: rest) place exit
  /-- where a condition holds -/
  | holds {test : Expr} {body : List Node} (otherwise : Option (List Node)) (rest : List Node) {place : Place}
    {exit : Exit} (htest : ((test.holds request place.scope place.origin).transcript c).outcome = .ok true)
    (hbody : Comes exits body place exit) : Comes exits (.cond test body otherwise :: rest) place exit
  /-- where a condition does not hold -/
  | fails {test : Expr} (body : List Node) {otherwise : List Node} (rest : List Node) {place : Place} {exit : Exit}
    (htest : ((test.holds request place.scope place.origin).transcript c).outcome = .ok false)
    (hother : Comes exits otherwise place exit) : Comes exits (.cond test body (some otherwise) :: rest) place exit
  /-- after the first node -/
  | later {node : Node} {rest : List Node} {place : Place} {exit : Exit}
    (hnode : ((node.render request exits place).transcript c).outcome = .ok ())
    (hrest : Comes exits rest place exit) : Comes exits (node :: rest) place exit

/-- As `renderAll_nears`, for two ways out instead of those along a filter. -/
theorem renderAll_below {exits exits' : Exits}
    (h : ∀ exit, ((exits.take exit).transcript c).Below ((exits'.take exit).transcript c)) (nodes : List Node)
    (place : Place) :
    ((renderAll request exits nodes place).transcript c).Below
      ((renderAll request exits' nodes place).transcript c) := by
  have hnears : ∀ exit, ((exits.take exit).transcript c).Nears (pure ()) fun _ => (exits'.take exit).transcript c :=
    fun exit => Transcript.nears_pure.mpr (h exit)
  exact Transcript.nears_pure.mp (renderAll_nears hnears nodes place)

theorem renderEach_below {exits exits' : Exits}
    (h : ∀ exit, ((exits.take exit).transcript c).Below ((exits'.take exit).transcript c)) (name : String)
    (body : List Node) (place : Place) (items : List Value) :
    ((renderEach request exits name body place items).transcript c).Below
      ((renderEach request exits' name body place items).transcript c) := by
  have hnears : ∀ exit, ((exits.take exit).transcript c).Nears (pure ()) fun _ => (exits'.take exit).transcript c :=
    fun exit => Transcript.nears_pure.mpr (h exit)
  exact Transcript.nears_pure.mp (renderEach_nears hnears name body place items)

/-- What nodes come to, they also come to when the ways out go further. -/
theorem Comes.nears {exits : Exits} {exits' : ι → Exits}
    (h : ∀ exit, ((exits.take exit).transcript c).Nears l fun i => ((exits' i).take exit).transcript c)
    {nodes : List Node} {place : Place} {exit : Exit} (hcomes : Comes c request exits nodes place exit) :
    ∀ᶠ i in l, Comes c request (exits' i) nodes place exit := by
  induction hcomes with
  | block name body rest place => exact .of_forall fun _ => .block name body rest place
  | inherited rest henclosing => exact .of_forall fun _ => .inherited rest henclosing
  | snippet path rest hparams => exact .of_forall fun _ => .snippet path rest hparams
  | loop rest hlist hitems hbefore _ ih =>
    -- whatever comes before is done, and is done in the same way far enough along
    filter_upwards [ih, (renderEach_nears h _ _ _ _).eq (Transcript.ne_endless_of_ok hbefore)] with i hi hsame
    exact .loop rest hlist hitems (hsame ▸ hbefore) hi
  | holds otherwise rest htest _ ih => exact ih.mono fun _ hi => .holds otherwise rest htest hi
  | fails body rest htest _ ih => exact ih.mono fun _ hi => .fails body rest htest hi
  | @later node rest place exit hnode _ ih =>
    have hnears : ((node.render request exits place).transcript c).Nears l
        fun i => (node.render request (exits' i) place).transcript c := by
      simpa only [renderAll_singleton] using renderAll_nears h [node] place
    filter_upwards [ih, hnears.eq (Transcript.ne_endless_of_ok hnode)] with i hi hsame
    exact .later (hsame ▸ hnode) hi

/-- A way out that is taken is taken if the others go further. -/
theorem Comes.of_below {exits exits' : Exits}
    (h : ∀ exit, ((exits.take exit).transcript c).Below ((exits'.take exit).transcript c)) {nodes : List Node}
    {place : Place} {exit : Exit} (hcomes : Comes c request exits nodes place exit) :
    Comes c request exits' nodes place exit := by
  have hnears : ∀ exit, ((exits.take exit).transcript c).Nears (pure ()) fun _ => (exits'.take exit).transcript c :=
    fun exit => Transcript.nears_pure.mpr (h exit)
  exact eventually_pure.mp (hcomes.nears hnears)

/-- Where nodes end, what they come to ends as well; they come to it even if the ways out go further. -/
theorem Comes.ne_endless {exits exits' : Exits}
    (h : ∀ exit, ((exits.take exit).transcript c).Below ((exits'.take exit).transcript c)) {nodes : List Node}
    {place : Place} {exit : Exit} (hcomes : Comes c request exits' nodes place exit)
    (hend : ((renderAll request exits nodes place).transcript c).outcome ≠ .error .endless) :
    ((exits.take exit).transcript c).outcome ≠ .error .endless := by
  induction hcomes with
  | block name body rest place =>
    rw [renderAll_cons] at hend
    exact (Transcript.ne_endless_of_bind hend).1
  | inherited rest henclosing =>
    rw [renderAll_cons, Node.render, henclosing] at hend
    exact (Transcript.ne_endless_of_bind hend).1
  | snippet path rest hparams =>
    rw [renderAll_cons] at hend
    exact (Transcript.ne_endless_of_bind (Transcript.ne_endless_of_bind hend).1).2 _ hparams
  | loop rest hlist hitems hbefore _ ih =>
    rw [renderAll_cons, render_loop] at hend
    have hloop := (Transcript.ne_endless_of_bind (Transcript.ne_endless_of_bind hend).1).2 _ hlist
    have heach := (Transcript.ne_endless_of_bind hloop).2 _ hitems
    rw [renderEach_append, renderEach_cons] at heach
    obtain ⟨hfirst, hothers⟩ := Transcript.ne_endless_of_bind heach
    -- the items before end, so that they do the same with either ways out
    exact ih (Transcript.ne_endless_of_bind (hothers () ((renderEach_below h _ _ _ _).eq hfirst ▸ hbefore))).1
  | holds otherwise rest htest _ ih =>
    rw [renderAll_cons, render_cond] at hend
    exact ih ((Transcript.ne_endless_of_bind (Transcript.ne_endless_of_bind hend).1).2 _ htest)
  | fails body rest htest _ ih =>
    rw [renderAll_cons, render_cond] at hend
    exact ih ((Transcript.ne_endless_of_bind (Transcript.ne_endless_of_bind hend).1).2 _ htest)
  | @later node rest place exit hnode _ ih =>
    rw [renderAll_cons] at hend
    obtain ⟨hfirst, hothers⟩ := Transcript.ne_endless_of_bind hend
    have hbelow : ((node.render request exits place).transcript c).Below
        ((node.render request exits' place).transcript c) := by
      simpa only [renderAll_singleton] using renderAll_below h [node] place
    exact ih (hothers () (hbelow.eq hfirst ▸ hnode))

/-- Where nodes come to a way out that goes wrong, they go wrong in the same way: nothing holds it up. -/
theorem Comes.outcome_of_error {exits : Exits} {nodes : List Node} {place : Place} {exit : Exit}
    (hcomes : Comes c request exits nodes place exit) {stop : Stop}
    (h : ((exits.take exit).transcript c).outcome = .error stop) :
    ((renderAll request exits nodes place).transcript c).outcome = .error stop := by
  -- what goes wrong in the first node goes wrong in all of them
  have hcons : ∀ {node rest place}, ((Node.render request exits node place).transcript c).outcome = .error stop →
      ((renderAll request exits (node :: rest) place).transcript c).outcome = .error stop := by
    intro node rest place hnode
    rw [renderAll_cons, Transcript.bind_of_error hnode]
  induction hcomes with
  | block name body rest place => exact hcons h
  | inherited rest henclosing =>
    apply hcons
    rw [Node.render, henclosing]
    exact h
  | snippet path rest hparams => exact hcons (Transcript.outcome_bind_eq_error.mpr (.inr ⟨_, hparams, h⟩))
  | loop rest hlist hitems hbefore _ ih =>
    apply hcons
    rw [render_loop, Transcript.bind_of_ok hlist]
    refine Transcript.outcome_bind_eq_error.mpr (.inr ⟨_, hitems, ?_⟩)
    rw [renderEach_append, renderEach_cons]
    exact Transcript.outcome_bind_eq_error.mpr (.inr ⟨(), hbefore, Transcript.outcome_bind_eq_error.mpr (.inl (ih h))⟩)
  | holds otherwise rest htest _ ih =>
    apply hcons
    rw [render_cond]
    exact Transcript.outcome_bind_eq_error.mpr (.inr ⟨true, htest, ih h⟩)
  | fails body rest htest _ ih =>
    apply hcons
    rw [render_cond]
    exact Transcript.outcome_bind_eq_error.mpr (.inr ⟨false, htest, ih h⟩)
  | later hnode _ ih =>
    rw [renderAll_cons]
    exact Transcript.outcome_bind_eq_error.mpr (.inr ⟨(), hnode, ih h⟩)

/-! ## What nodes go wrong by

An error is blamed on an expression if there is one in the nodes that could go wrong in that way (`Unspoilt`), whether
or not it did. This is coarser than it could be, and it is seen from the nodes alone. -/

theorem writePieces_outcome (pieces : List Piece) : ((writePieces pieces).transcript c).outcome = .ok () := by
  induction pieces with
  | nil => rfl
  | cons piece rest ih => exact Transcript.outcome_bind_eq_ok.mpr ⟨(), rfl, ih⟩

/-- What is shown goes wrong by its expression. -/
theorem spoils_of_output {exits : Exits} {e : Expr} {place : Place} {stop : Stop}
    (h : (((Node.output e).render request exits place).transcript c).outcome = .error stop) :
    e.Spoils place.origin stop := by
  rcases Transcript.outcome_bind_eq_error.mp h with h | ⟨v, -, h⟩
  · exact .lacks ((Expr.eval_quiet e).stop h)
  · by_cases hmap : v.isMap
    · simp only [hmap, if_true, Run.transcript_fail, Transcript.outcome_fail, Except.error.injEq] at h
      subst h
      exact .notDisplayable
    · simp [hmap, writePieces_outcome] at h

/-- A loop over what is no list is to blame on its expression. -/
theorem spoils_of_loopItems {e : Expr} {origin : Origin} {v : Value} {stop : Stop}
    (h : ((loopItems origin e v).transcript c).outcome = .error stop) : e.Spoils origin stop := by
  cases v with
  | list items => cases h
  | null => cases h
  | _ =>
    obtain rfl := Except.error.inj h
    exact .notIterable

/-- Where a loop goes wrong, it does so for an item, and not for those before. -/
theorem exists_item_of_error {exits : Exits} {name : String} {body : List Node} {place : Place} {items : List Value}
    {stop : Stop} (h : ((renderEach request exits name body place items).transcript c).outcome = .error stop) :
    ∃ before item after, items = before ++ item :: after ∧
      ((renderEach request exits name body place before).transcript c).outcome = .ok () ∧
      ((renderAll request exits body { place with scope := place.scope.bind name item }).transcript c).outcome =
        .error stop := by
  induction items with
  | nil => cases h
  | cons item rest ih =>
    rw [renderEach_cons, Transcript.outcome_bind_eq_error] at h
    rcases h with h | ⟨_, hitem, h⟩
    · exact ⟨[], item, rest, rfl, rfl, h⟩
    · obtain ⟨before, item', after, rfl, hbefore, hbody⟩ := ih h
      refine ⟨item :: before, item', after, rfl, ?_, hbody⟩
      rw [renderEach_cons, Transcript.bind_of_ok hitem]
      exact hbefore

/-- The nodes have no expressions by which they could go wrong in this way. -/
def Unspoilt (stop : Stop) (nodes : List Node) : Prop :=
  ∀ node ∈ nodesIn nodes, ∀ e ∈ node.exprs, ∀ origin : Origin, ¬e.Spoils origin stop

theorem Unspoilt.of_subset {stop : Stop} {nodes nodes' : List Node} (h : Unspoilt stop nodes)
    (hsubset : nodesIn nodes' ⊆ nodesIn nodes) : Unspoilt stop nodes' :=
  fun node hnode => h node (hsubset hnode)

/-- What is in the first node counts. -/
theorem Unspoilt.inner {stop : Stop} {node : Node} {rest nodes : List Node} (h : Unspoilt stop (node :: rest))
    (hsubset : nodesIn nodes ⊆ node.nodes) : Unspoilt stop nodes :=
  h.of_subset (List.Subset.trans hsubset (List.subset_append_left _ _))

/-- The expressions of the first node do not go wrong. -/
theorem Unspoilt.first {stop : Stop} {node : Node} {rest : List Node} (h : Unspoilt stop (node :: rest)) {e : Expr}
    (he : e ∈ node.exprs) (origin : Origin) : ¬e.Spoils origin stop :=
  h node (mem_nodesIn_cons node rest) e he origin

variable (c request) in
/-- The nodes come to a way out that goes wrong in this way. -/
def ComesToStop (exits : Exits) (nodes : List Node) (place : Place) (stop : Stop) : Prop :=
  ∃ exit, Comes c request exits nodes place exit ∧ ((exits.take exit).transcript c).outcome = .error stop

variable (c request) in
/-- If the nodes go wrong in this way and no expression in them is to blame, then they come to a way out that does. -/
def BlamesExits (exits : Exits) (nodes : List Node) (stop : Stop) : Prop :=
  Unspoilt stop nodes → ∀ ⦃place : Place⦄,
    ((renderAll request exits nodes place).transcript c).outcome = .error stop →
    ComesToStop c request exits nodes place stop

section

variable {exits : Exits} {stop : Stop} {place : Place} {rest : List Node}

/-- Nodes go wrong in the first one, or after it in the others. -/
theorem BlamesExits.cons {node : Node} (hrest : BlamesExits c request exits rest stop)
    (hnode : Unspoilt stop (node :: rest) → ∀ ⦃place : Place⦄,
      ((node.render request exits place).transcript c).outcome = .error stop →
      ComesToStop c request exits (node :: rest) place stop) : BlamesExits c request exits (node :: rest) stop := by
  intro hnodes place h
  rw [renderAll_cons, Transcript.outcome_bind_eq_error] at h
  rcases h with h | ⟨_, hdone, h⟩
  · exact hnode hnodes h
  · obtain ⟨exit, hcomes, hexit⟩ := hrest (hnodes.of_subset (List.subset_append_right _ _)) h
    exact ⟨exit, .later hdone hcomes, hexit⟩

/-- A loop goes wrong by its list, or else for one of the items. -/
theorem ComesToStop.of_loop {name : String} {list : Expr} {body : List Node}
    (hbody : BlamesExits c request exits body stop) (hnodes : Unspoilt stop (.loop name list body :: rest))
    (h : (((Node.loop name list body).render request exits place).transcript c).outcome = .error stop) :
    ComesToStop c request exits (.loop name list body :: rest) place stop := by
  have hlistOk : ¬list.Spoils place.origin stop := hnodes.first List.mem_cons_self _
  rw [render_loop, Transcript.outcome_bind_eq_error] at h
  rcases h with h | ⟨v, hlist, h⟩
  · exact absurd (.lacks ((Expr.eval_quiet _).stop h)) hlistOk
  rcases Transcript.outcome_bind_eq_error.mp h with h | ⟨items, hitems, h⟩
  · exact absurd (spoils_of_loopItems h) hlistOk
  obtain ⟨before, item, after, rfl, hbefore, hitem⟩ := exists_item_of_error h
  obtain ⟨exit, hcomes, hexit⟩ := hbody (hnodes.inner (List.subset_cons_self _ _)) hitem
  exact ⟨exit, .loop rest hlist hitems hbefore hcomes, hexit⟩

/-- A condition does not go wrong by its test, so it does by the nodes that are chosen. -/
theorem ComesToStop.of_cond {test : Expr} {body : List Node} {otherwise : Option (List Node)}
    (hbody : BlamesExits c request exits body stop)
    (hother : ∀ nodes, otherwise = some nodes → BlamesExits c request exits nodes stop)
    (hnodes : Unspoilt stop (.cond test body otherwise :: rest))
    (h : (((Node.cond test body otherwise).render request exits place).transcript c).outcome = .error stop) :
    ComesToStop c request exits (.cond test body otherwise :: rest) place stop := by
  rw [render_cond, Transcript.outcome_bind_eq_error] at h
  rcases h with h | ⟨_ | _, htest, h⟩
  · exact absurd (.lacks ((Expr.holds_quiet _).stop h).1) (hnodes.first List.mem_cons_self _)
  · cases otherwise with
    | none => cases h
    | some nodes =>
      obtain ⟨exit, hcomes, hexit⟩ := hother nodes rfl (hnodes.inner (nodesIn_subset_otherwise test body nodes)) h
      exact ⟨exit, .fails body rest htest hcomes, hexit⟩
  · obtain ⟨exit, hcomes, hexit⟩ := hbody (hnodes.inner (nodesIn_subset_cond test body otherwise)) h
    exact ⟨exit, .holds otherwise rest htest hcomes, hexit⟩

/-- What is inherited goes wrong only by the way out into its definition. -/
theorem ComesToStop.of_inherited
    (h : ((Node.inherited.render request exits place).transcript c).outcome = .error stop) :
    ComesToStop c request exits (.inherited :: rest) place stop := by
  rw [Node.render] at h
  rcases henclosing : place.enclosing with _ | enclosing <;> rw [henclosing] at h
  · cases h
  · exact ⟨_, .inherited rest henclosing, h⟩

/-- A snippet goes wrong by an argument, or else by the way out to it. -/
theorem ComesToStop.of_snippet {path : String} {args : List (String × Expr)}
    (hnodes : Unspoilt stop (.snippet path args :: rest))
    (h : (((Node.snippet path args).render request exits place).transcript c).outcome = .error stop) :
    ComesToStop c request exits (.snippet path args :: rest) place stop := by
  rcases Transcript.outcome_bind_eq_error.mp h with h | ⟨params, hparams, h⟩
  · obtain ⟨arg, hmem, hlacks, -⟩ := (Expr.arguments_quiet args).stop h
    exact absurd (.lacks hlacks) (hnodes.first (List.mem_map_of_mem hmem) _)
  · exact ⟨_, .snippet path rest hparams, h⟩

end

/-- Whatever nodes go wrong by, it is an expression in them or a way out that they come to. -/
theorem blamesExits (exits : Exits) (nodes : List Node) (stop : Stop) : BlamesExits c request exits nodes stop := by
  induction nodes using Node.listInduction with
  | nil => exact fun _ _ h => by cases h
  | comment rest ih => exact ih.cons fun _ _ h => by cases h
  | text s rest ih => exact ih.cons fun _ _ h => by cases h
  | output e rest ih =>
    exact ih.cons fun hnodes _ h => absurd (spoils_of_output h) (hnodes.first List.mem_cons_self _)
  | loop name list body rest hbody ih => exact ih.cons fun hnodes _ h => .of_loop hbody hnodes h
  | cond test body rest hbody ih => exact ih.cons fun hnodes _ h => .of_cond hbody nofun hnodes h
  | condElse test body otherwise rest hbody hother ih =>
    have hother' : ∀ nodes, some otherwise = some nodes → BlamesExits c request exits nodes stop := by
      rintro _ ⟨⟩
      exact hother
    exact ih.cons fun hnodes _ h => .of_cond hbody hother' hnodes h
  | block name body rest _ ih => exact ih.cons fun _ place h => ⟨_, .block name body rest place, h⟩
  | inherited rest ih => exact ih.cons fun _ _ h => .of_inherited h
  | snippet path args rest ih => exact ih.cons fun hnodes _ h => .of_snippet hnodes h

/-- Where nodes go wrong, but not by an expression, they come to a way out that goes wrong in the same way. -/
theorem exists_comes_of_error {exits : Exits} {nodes : List Node} {place : Place} {stop : Stop}
    (hnodes : Unspoilt stop nodes)
    (h : ((renderAll request exits nodes place).transcript c).outcome = .error stop) :
    ∃ exit, Comes c request exits nodes place exit ∧ ((exits.take exit).transcript c).outcome = .error stop :=
  blamesExits exits nodes stop hnodes h

/-- Where nodes do not end, they come to a way out that does not end. -/
theorem exists_comes_of_endless {exits : Exits} {nodes : List Node} {place : Place}
    (h : ((renderAll request exits nodes place).transcript c).outcome = .error .endless) :
    ∃ exit, Comes c request exits nodes place exit ∧ ((exits.take exit).transcript c).outcome = .error .endless :=
  exists_comes_of_error (fun _ _ _ _ _ hspoils => by obtain ⟨⟨⟩⟩ := hspoils) h

end

end ThemedPages
