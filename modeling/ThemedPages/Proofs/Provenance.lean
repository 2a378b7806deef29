import ThemedPages.Proofs.LookUps
import ThemedPages.Proofs.Markup
import ThemedPages.Proofs.Pages

/-!
# Where pages come from

Whatever is written to a page is written by a template, or it is html that was made elsewhere and handed to the page as
such, or else it is escaped. Which of these it is can be told from what has happened before it is written.

* `Source` is where html in a page can come from.
* `Transcript.Sound` says of a transcript that each part of the page is accounted for by what happened before it.
  `Expr.eval_sound` and `renderAll_sound` say that expressions and nodes are sound at places whose variables hold no
  html but such as is accounted for.
* `Site.deliver_accounted` puts this together for pages that are written to sinks of any kind.

All of these are relative to what has happened before, and only grow with it: what is accounted for by some past is so
by a longer one (`Source.mono` and the lemmas after it). So a sequence is sound if each part is, given the past of the
parts before. The invariant has two halves. The variables at a place hold no html but such as comes from somewhere,
which loops, conditions and blocks keep, as none of them makes a value; and the nodes are in a template that was
opened, which is why their texts are accounted for and why a call of `markdown` can be traced to a template.
-/

namespace ThemedPages

/-! ## Sources of html

What is html in a value is what is embedded in it as such, at any depth (`Value.Embeds`). A string is never html,
whatever is in it. -/

section

variable (request : Request) (context : Context)

/-- Where html in a page that is rendered with some variables can come from, after what has happened before. -/
inductive Source (past : List Event) : String → Prop where
  /-- it is a text in a template that was found -/
  | text {key : Key} {t : Loaded} {s : String} (hopened : .opened key t ∈ past)
    (h : .text s ∈ nodesIn t.template.body) : Source past s
  /-- it is in a variable of the page -/
  | context {s : String} (h : (Value.map context.vars).Embeds s) : Source past s
  /-- it is in a global -/
  | globals {s : String} (h : (Value.map request.globals.vars).Embeds s) : Source past s
  /-- it was made from markdown, for a template that was found -/
  | markdown {key : Key} {t : Loaded} {text : String} (hopened : .opened key t ∈ past)
    (hcalls : t.template.Calls .markdown) (hcalled : .called (.markdown text) ∈ past) :
    Source past (request.helpers.markdown text)

/-- All html in the value comes from somewhere. -/
def Value.Sourced (past : List Event) (v : Value) : Prop := ∀ html, v.Embeds html → Source request context past html

/-- All html in the variables comes from somewhere. -/
def Scope.Sourced (past : List Event) (scope : Scope) : Prop :=
  ∀ name v, scope.get? name = some v → v.Sourced request context past

/-- The nodes are in a template that was found. -/
def Shown (past : List Event) (nodes : List Node) : Prop :=
  ∃ key t, .opened key t ∈ past ∧ nodesIn nodes ⊆ nodesIn t.template.body

/-- An event is accounted for by what has happened before: what it writes as html comes from somewhere, or is inert. -/
def Event.Accounted (past : List Event) : Event → Prop
  | .wrote (.markup html) => Source request context past html ∨ Html.Inert (Utf8.bytes html)
  | _ => True

/-- Each of some events is accounted for by those before it, and by what has happened before all of them. -/
def AllAccounted (past : List Event) : List Event → Prop
  | [] => True
  | e :: es => e.Accounted request context past ∧ AllAccounted (past ++ [e]) es

/-- What happens is accounted for, after what has happened before, and what holds of the value, given all that. -/
structure Transcript.Sound {α : Type} (V : List Event → α → Prop) (past : List Event) (t : Transcript α) : Prop where
  /-- what happens -/
  events : AllAccounted request context past t.events
  /-- the value -/
  value (a : α) (h : t.outcome = .ok a) : V (past ++ t.events) a

end

section

variable {request : Request} {context : Context} {past past' : List Event}

/-- What comes from somewhere still does when more has happened. -/
theorem Source.mono (h : past ⊆ past') {s : String} (hs : Source request context past s) :
    Source request context past' s := by
  cases hs with
  | text hopened hs => exact .text (h hopened) hs
  | context hs => exact .context hs
  | globals hs => exact .globals hs
  | markdown hopened hcalls hcalled => exact .markdown (h hopened) hcalls (h hcalled)

theorem Value.Sourced.mono (h : past ⊆ past') {v : Value} (hv : v.Sourced request context past) :
    v.Sourced request context past' :=
  fun html hhtml => (hv html hhtml).mono h

theorem Scope.Sourced.mono (h : past ⊆ past') {scope : Scope} (hscope : scope.Sourced request context past) :
    scope.Sourced request context past' :=
  fun name v hv => (hscope name v hv).mono h

theorem Shown.mono (h : past ⊆ past') {nodes : List Node} (hnodes : Shown past nodes) : Shown past' nodes :=
  let ⟨key, t, hopened, hsubset⟩ := hnodes
  ⟨key, t, h hopened, hsubset⟩

/-- Nodes inside of nodes that are shown are shown. -/
theorem Shown.of_subset {nodes nodes' : List Node} (hnodes : Shown past nodes)
    (h : nodesIn nodes' ⊆ nodesIn nodes) : Shown past nodes' :=
  let ⟨key, t, hopened, hsubset⟩ := hnodes
  ⟨key, t, hopened, List.Subset.trans h hsubset⟩

theorem Shown.rest {node : Node} {rest : List Node} (h : Shown past (node :: rest)) : Shown past rest :=
  h.of_subset (List.subset_append_right _ _)

theorem Shown.body {node : Node} {rest body : List Node} (h : Shown past (node :: rest))
    (hbody : nodesIn body ⊆ node.nodes) : Shown past body :=
  h.of_subset (List.Subset.trans hbody (List.subset_append_left _ _))

/-- Of two rows of events the second is accounted for by what happened before, the first row included. -/
theorem allAccounted_append {es es' : List Event} : AllAccounted request context past (es ++ es') ↔
    AllAccounted request context past es ∧ AllAccounted request context (past ++ es) es' := by
  induction es generalizing past with
  | nil => simp [AllAccounted]
  | cons e es ih => simp [AllAccounted, ih, and_assoc]

/-! ## Sound transcripts

Sequencing hands on the past. Whatever was known before the first part is known after it, for a longer past, and what
the first part says of its value is known there too. -/

namespace Transcript.Sound

variable {α β : Type} {V : List Event → α → Prop} {W : List Event → β → Prop} {t : Transcript α}

theorem pure {a : α} (h : V past a) : (Pure.pure a : Transcript α).Sound request context V past :=
  ⟨trivial, by
    rintro _ ⟨⟩
    rwa [events_pure, List.append_nil]⟩

theorem fail (e : Error) : (Transcript.fail e : Transcript α).Sound request context V past :=
  ⟨trivial, nofun⟩

/-- An event that is accounted for is sound, and is past afterwards. -/
theorem emit {e : Event} (h : e.Accounted request context past) {V : List Event → Unit → Prop}
    (hV : V (past ++ [e]) ()) : (Transcript.emit e).Sound request context V past :=
  ⟨⟨h, trivial⟩, fun _ _ => hV⟩

/-- **Sequence.** The second part may rely on what the first one says of its value, and on all that happened. -/
theorem bind (h : t.Sound request context V past) {f : α → Transcript β}
    (hf : ∀ {past'} a, past ⊆ past' → V past' a → (f a).Sound request context W past') :
    (t >>= f).Sound request context W past := by
  rcases ht : t.outcome with stop | a
  · rw [bind_of_error ht]
    exact ⟨h.events, nofun⟩
  · have hrest := hf a (List.subset_append_left _ _) (h.value a ht)
    rw [bind_of_ok ht]
    exact ⟨allAccounted_append.mpr ⟨h.events, hrest.events⟩,
      fun b hb => by
        rw [← List.append_assoc]
        exact hrest.value b hb⟩

theorem map (h : t.Sound request context V past) {f : α → β}
    (hf : ∀ {past'} a, past ⊆ past' → V past' a → W past' (f a)) : (f <$> t).Sound request context W past := by
  rw [map_eq_pure_bind]
  exact h.bind fun a hpast ha => .pure (hf a hpast ha)

theorem orIfUndefined (h : t.Sound request context V past) {instead : α}
    (hinstead : ∀ {past'}, past ⊆ past' → V past' instead) :
    (t.orIfUndefined instead).Sound request context V past := by
  refine ⟨by rw [events_orIfUndefined]; exact h.events, fun a ha => ?_⟩
  rw [events_orIfUndefined]
  rcases ht : t.outcome with stop | b
  · rcases hstop : stop.isUndefined
    · rw [orIfUndefined_of_not_isUndefined ht hstop, ht] at ha
      cases ha
    · rw [orIfUndefined_of_isUndefined ht hstop] at ha
      cases ha
      exact hinstead (List.subset_append_left _ _)
  · rw [orIfUndefined_of_ok ht] at ha
    exact h.value a ha

end Transcript.Sound

/-! ## Variables -/

theorem Value.Sourced.of_get? {name : String} {v w : Value} (hv : v.Sourced request context past)
    (h : v.get? name = some w) : w.Sourced request context past :=
  fun html hhtml => hv html (.of_get? h hhtml)

/-- What a path leads to has no html in it but what is in the value where it begins. -/
theorem Value.Sourced.of_follow {path : List String} {v w : Value} (hv : v.Sourced request context past)
    (h : v.follow path = some w) : w.Sourced request context past :=
  fun html hhtml => hv html (.of_follow h hhtml)

theorem Scope.Sourced.ofContext {vars : Context} (h : (Value.map vars.vars).Sourced request context past) :
    (Scope.ofContext vars).Sourced request context past :=
  fun _ _ hget => h.of_get? hget

/-- **A loop keeps it,** for the items of a list that comes from somewhere. -/
theorem Scope.Sourced.bind {scope : Scope} (h : scope.Sourced request context past) {v : Value}
    (hv : v.Sourced request context past) (name : String) : (scope.bind name v).Sourced request context past := by
  intro x w hw
  rw [get?_bind] at hw
  split_ifs at hw
  · exact Option.some.inj hw ▸ hv
  · exact h x w hw

/-- So the end of a path from a variable comes from somewhere. -/
theorem Scope.Sourced.of_follow {scope : Scope} (h : scope.Sourced request context past) {path : List String}
    {v : Value} (hfollow : scope.follow path = some v) : v.Sourced request context past := by
  cases path with
  | nil => cases hfollow
  | cons name path =>
    obtain ⟨u, hget, hpath⟩ := Option.bind_eq_some_iff.mp hfollow
    exact (h name u hget).of_follow hpath

/-- The variables of a snippet come from somewhere if its arguments do. -/
theorem Value.Sourced.ofPairs {pairs : List (String × Value)}
    (h : ∀ pair ∈ pairs, pair.2.Sourced request context past) :
    (Value.map (Context.ofPairs pairs).vars).Sourced request context past := by
  intro html hhtml
  cases hhtml with
  | field hmem hv =>
    have hpair := h _ (ByName.mem_of_mem_ofPairs hmem)
    exact hpair html hv

/-! ## Expressions

The one helper that makes html is `markdown`. Its answer comes from somewhere as the call has happened by then, and
since the call is in a template that was opened. The other answers have no html in them. -/

variable {c : Catalog} {scope : Scope} {origin : Origin}

/-- In a template that was found, the helpers are called. -/
def Called (past : List Event) (helpers : List Helper) : Prop :=
  ∃ key t, .opened key t ∈ past ∧ ∀ helper ∈ helpers, t.template.Calls helper

theorem Called.mono (h : past ⊆ past') {helpers : List Helper} (hcalled : Called past helpers) :
    Called past' helpers :=
  let ⟨key, t, hopened, hcalls⟩ := hcalled
  ⟨key, t, h hopened, hcalls⟩

theorem Called.of_subset {helpers helpers' : List Helper} (hcalled : Called past helpers)
    (h : helpers' ⊆ helpers) : Called past helpers' :=
  let ⟨key, t, hopened, hcalls⟩ := hcalled
  ⟨key, t, hopened, fun helper hhelper => hcalls helper (h hhelper)⟩

/-- The expressions of a node that is shown call helpers in the template that it is in. -/
theorem Shown.called {node : Node} {rest : List Node} (h : Shown past (node :: rest)) {e : Expr}
    (he : e ∈ node.exprs) : Called past e.helpers :=
  let ⟨key, t, hopened, hsubset⟩ := h
  ⟨key, t, hopened, fun _ hhelper => ⟨node, hsubset (mem_nodesIn_cons node rest), e, he, hhelper⟩⟩

theorem Value.sourced_of_not_embeds {v : Value} (h : ∀ html, ¬v.Embeds html) : v.Sourced request context past :=
  fun html hhtml => (h html hhtml).elim

theorem Expr.orUndefined_sound {e : Expr} {found : Option Value}
    (h : ∀ v, found = some v → v.Sourced request context past) :
    ((orUndefined origin e found).transcript c).Sound request context (Value.Sourced request context) past := by
  cases found with
  | none => exact .fail _
  | some v => exact .pure (h v rfl)

/-- What a helper answers has no html in it but what is made from markdown. -/
theorem Expr.callHelper_sound {helper : Helper} (hcalled : Called past [helper]) (args : List Value) :
    ((callHelper request origin helper args).transcript c).Sound request context (Value.Sourced request context)
      past := by
  rw [callHelper]
  rcases hcall : helper.call? args with _ | made
  · exact .fail _
  · have hanswer : ∀ {past'}, past ⊆ past' → .called made ∈ past' →
        (request.helpers.answer made).Sourced request context past' := by
      intro past' hpast hmade html hhtml
      obtain ⟨text, rfl, rfl⟩ := Helpers.eq_of_embeds_answer hhtml
      obtain ⟨key, t, hopened, hcalls⟩ := hcalled
      obtain rfl := Helper.eq_markdown_of_call? hcall
      exact .markdown (hpast hopened) (hcalls _ List.mem_cons_self) hmade
    have hemit : (Transcript.emit (.called made)).Sound request context
        (fun past' _ => past ⊆ past' ∧ .called made ∈ past') past :=
      .emit (by trivial) ⟨List.subset_append_left _ _, by simp⟩
    exact hemit.bind fun _ _ h => .pure (hanswer h.1 h.2)

mutual

/-- The value of an expression has no html in it but what comes from somewhere, if the variables have none. -/
theorem Expr.eval_sound : ∀ {e : Expr} {past : List Event}, scope.Sourced request context past →
    Called past e.helpers →
    ((e.eval request scope origin).transcript c).Sound request context (Value.Sourced request context) past
  | .var path, _, hscope, _ => by
    rw [eval]
    exact orUndefined_sound fun v hv => hscope.of_follow hv
  | .global path, _, _, _ => by
    rw [eval]
    exact orUndefined_sound fun v hv html hhtml => .globals (.of_follow hv hhtml)
  -- the value is not markup, so there is nothing to account for
  | .str s, _, _, _ => by
    rw [eval]
    exact .pure (Value.sourced_of_not_embeds nofun)
  | .int n, _, _, _ => by
    rw [eval]
    exact .pure (Value.sourced_of_not_embeds nofun)
  -- only the truth of the value goes on
  | .not e, _, hscope, hcalled => by
    rw [eval]
    refine Transcript.Sound.bind (V := fun _ _ => True) (.orIfUndefined ?_ fun _ => trivial)
      fun _ _ _ => .pure (Value.sourced_of_not_embeds nofun)
    exact (eval_sound hscope (by rwa [helpers] at hcalled)).map fun _ _ _ => trivial
  -- the calls in the arguments come before, and may have brought values
  | .call helper args, _, hscope, hcalled => by
    rw [eval]
    rw [helpers] at hcalled
    refine (evalAll_sound hscope (hcalled.of_subset (List.subset_cons_self _ _))).bind fun values hpast _ => ?_
    exact callHelper_sound ((hcalled.of_subset (by simp)).mono hpast) values

theorem Expr.evalAll_sound : ∀ {es : List Expr} {past : List Event}, scope.Sourced request context past →
    Called past (helpersOf es) →
    ((evalAll request scope origin es).transcript c).Sound request context (fun _ _ => True) past
  | [], _, _, _ => by
    rw [evalAll]
    exact .pure trivial
  | e :: es, _, hscope, hcalled => by
    rw [evalAll]
    rw [helpersOf] at hcalled
    refine (eval_sound hscope (hcalled.of_subset (List.subset_append_left _ _))).bind fun _ hpast _ => ?_
    refine (evalAll_sound (hscope.mono hpast) ?_).bind fun _ _ _ => .pure trivial
    exact (hcalled.of_subset (List.subset_append_right _ _)).mono hpast

end

theorem Expr.holds_sound {e : Expr} (hscope : scope.Sourced request context past) (hcalled : Called past e.helpers) :
    ((e.holds request scope origin).transcript c).Sound request context (fun _ _ => True) past :=
  ((eval_sound hscope hcalled).map fun _ _ _ => trivial).orIfUndefined fun _ => trivial

/-- The arguments of a snippet have no html in them but what comes from somewhere. -/
theorem Expr.arguments_sound {args : List (String × Expr)} (hscope : scope.Sourced request context past)
    (hcalled : ∀ arg ∈ args, Called past arg.2.helpers) :
    ((arguments request scope origin args).transcript c).Sound request context
      (fun past params => ∀ param ∈ params, param.2.Sourced request context past) past := by
  induction args generalizing past with
  | nil => exact .pure fun _ h => absurd h List.not_mem_nil
  | cons arg rest ih =>
    have hfirst : ((arg.2.argument request scope origin).transcript c).Sound request context
        (Value.Sourced request context) past :=
      (eval_sound hscope (hcalled arg List.mem_cons_self)).orIfUndefined fun _ => Value.sourced_of_not_embeds nofun
    refine hfirst.bind fun v hpast hv => ?_
    have hrest := ih (hscope.mono hpast) fun arg harg => (hcalled arg (List.mem_cons_of_mem _ harg)).mono hpast
    refine hrest.bind fun params hpast' hparams => .pure fun param hparam => ?_
    rcases List.mem_cons.mp hparam with rfl | hparam
    · exact hv.mono hpast'
    · exact hparams param hparam

/-- Nor do the items of a list. -/
theorem loopItems_sound {e : Expr} {v : Value} (hv : v.Sourced request context past) :
    ((loopItems origin e v).transcript c).Sound request context
      (fun past items => ∀ item ∈ items, item.Sourced request context past) past := by
  cases v with
  | list items => exact .pure fun item hitem html hhtml => hv html (.item hitem hhtml)
  | null => exact .pure fun _ h => absurd h List.not_mem_nil
  | _ => exact .fail _

theorem Event.Accounted.mono (h : past ⊆ past') {e : Event} (he : e.Accounted request context past) :
    e.Accounted request context past' := by
  cases e with
  | wrote piece =>
    cases piece with
    | markup html => exact Or.imp_left (Source.mono h) he
    | plain s => trivial
  | _ => trivial

/-- What is written is accounted for, and the rest of the transcript too. -/
theorem writePieces_sound {pieces : List Piece}
    (h : ∀ piece ∈ pieces, (Event.wrote piece).Accounted request context past) :
    ((writePieces pieces).transcript c).Sound request context (fun _ _ => True) past := by
  induction pieces generalizing past with
  | nil => exact .pure trivial
  | cons piece rest ih =>
    have hfirst : (Transcript.emit (.wrote piece)).Sound request context (fun _ _ => True) past :=
      .emit (h piece List.mem_cons_self) trivial
    exact hfirst.bind fun _ hpast _ => ih fun piece hpiece => (h piece (List.mem_cons_of_mem _ hpiece)).mono hpast

/-- **What is shown of a value is accounted for:** its html comes from somewhere, and all else is escaped and so
inert. -/
theorem Value.Sourced.accounted {v : Value} (hv : v.Sourced request context past) {piece : Piece}
    (h : piece ∈ v.pieces) : (Event.wrote piece).Accounted request context past := by
  have hcomma : Html.Inert (Utf8.bytes ", ") := Html.inert_of_plain (Html.plain_of_all (by decide))
  cases piece with
  | plain s => trivial
  | markup html =>
    rcases Value.embeds_of_mem_pieces h with hhtml | rfl
    · exact .inl (hv html hhtml)
    · exact .inr hcomma

/-! ## Nodes

What goes out of the nodes has to be sound as well, after any longer past, for it may be reached when more has
happened. -/

/-- The ways out are sound at places whose variables have no html in them but what comes from somewhere, after what has
happened before. -/
structure Exits.Sound (request : Request) (context : Context) (c : Catalog) (past : List Event) (exits : Exits) :
    Prop where
  /-- into the definitions of blocks -/
  block {past' : List Event} (name : String) (level : Nat) {place : Place} (hpast : past ⊆ past')
    (hplace : place.scope.Sourced request context past') :
    ((exits.block name level place).transcript c).Sound request context (fun _ _ => True) past'
  /-- into snippets -/
  snippet {past' : List Event} (path : String) {vars : Context} (hpast : past ⊆ past')
    (hvars : (Value.map vars.vars).Sourced request context past') :
    ((exits.snippet path vars).transcript c).Sound request context (fun _ _ => True) past'

theorem Exits.Sound.mono {exits : Exits} (hexits : exits.Sound request context c past) (h : past ⊆ past') :
    exits.Sound request context c past' where
  block name level _ hpast hplace := hexits.block name level (List.Subset.trans h hpast) hplace
  snippet path _ hpast hvars := hexits.snippet path (List.Subset.trans h hpast) hvars

/-- A loop is sound if its body is for each item, after whatever happened for the items before. -/
theorem forEach_sound {body : Value → Run Unit} {items : List Value}
    (h : ∀ {past'} item, past ⊆ past' → item ∈ items →
      ((body item).transcript c).Sound request context (fun _ _ => True) past') :
    ((forEach items body).transcript c).Sound request context (fun _ _ => True) past := by
  induction items generalizing past with
  | nil => exact .pure trivial
  | cons item rest ih =>
    refine (h item (List.Subset.refl _) List.mem_cons_self).bind fun _ hpast _ => ?_
    exact ih fun item hpast' hitem => h item (List.Subset.trans hpast hpast') (List.mem_cons_of_mem _ hitem)

/-- What is shown is sound, as its value comes from somewhere. -/
theorem output_sound {exits : Exits} {e : Expr} {place : Place} (hplace : place.scope.Sourced request context past)
    (hcalled : Called past e.helpers) :
    (((Node.output e).render request exits place).transcript c).Sound request context (fun _ _ => True) past := by
  refine Transcript.Sound.bind (Expr.eval_sound hplace hcalled) fun v _ hv => ?_
  by_cases hmap : v.isMap
  · simp only [hmap, if_true]
    exact .fail _
  · simp only [hmap]
    exact writePieces_sound fun piece hpiece => hv.accounted hpiece

section

variable (request context c) in
/-- Wherever the nodes are in a template that was found, to render them is sound, if the ways out are. -/
def NodesSound (exits : Exits) (nodes : List Node) : Prop :=
  ∀ ⦃past : List Event⦄ ⦃place : Place⦄, exits.Sound request context c past →
    place.scope.Sourced request context past → Shown past nodes →
    ((renderAll request exits nodes place).transcript c).Sound request context (fun _ _ => True) past

variable {exits : Exits} {rest : List Node} {place : Place}

/-- A node is followed by those after it. -/
theorem NodesSound.cons {node : Node} (hrest : NodesSound request context c exits rest)
    (hnode : ∀ ⦃past : List Event⦄ ⦃place : Place⦄, exits.Sound request context c past →
      place.scope.Sourced request context past → Shown past (node :: rest) →
      ((node.render request exits place).transcript c).Sound request context (fun _ _ => True) past) :
    NodesSound request context c exits (node :: rest) := fun _ _ hexits hplace hnodes =>
  (hnode hexits hplace hnodes).bind fun _ hpast _ =>
    hrest (hexits.mono hpast) (hplace.mono hpast) (hnodes.rest.mono hpast)

/-- A loop is sound if its body is, since the items have no html in them but what the list has. -/
theorem loop_sound {name : String} {list : Expr} {body : List Node} (hbody : NodesSound request context c exits body)
    (hexits : exits.Sound request context c past) (hplace : place.scope.Sourced request context past)
    (hnodes : Shown past (.loop name list body :: rest)) :
    (((Node.loop name list body).render request exits place).transcript c).Sound request context
      (fun _ _ => True) past := by
  have hcalled := hnodes.called List.mem_cons_self
  have hshown : Shown past body := hnodes.body (List.subset_cons_self _ _)
  rw [render_loop]
  refine (Expr.eval_sound hplace hcalled).bind fun v hpast hv => ?_
  refine (loopItems_sound hv).bind fun items hpast' hitems => forEach_sound fun item hpast'' hitem => ?_
  -- what happened before the list was evaluated has happened before each item
  have hall := List.Subset.trans hpast (List.Subset.trans hpast' hpast'')
  exact hbody (hexits.mono hall) ((hplace.mono hall).bind ((hitems item hitem).mono hpast'') name) (hshown.mono hall)

/-- A condition is sound if what it chooses between is. -/
theorem cond_sound {test : Expr} {body : List Node} {otherwise : Option (List Node)}
    (hbody : NodesSound request context c exits body)
    (hother : ∀ nodes, otherwise = some nodes → NodesSound request context c exits nodes)
    (hexits : exits.Sound request context c past) (hplace : place.scope.Sourced request context past)
    (hnodes : Shown past (.cond test body otherwise :: rest)) :
    (((Node.cond test body otherwise).render request exits place).transcript c).Sound request context
      (fun _ _ => True) past := by
  have hcalled := hnodes.called List.mem_cons_self
  rw [render_cond]
  refine (Expr.holds_sound hplace hcalled).bind fun holds hpast _ => ?_
  cases holds with
  -- whatever the test asked is in the past by now, and what was shown before still is
  | true =>
    have hshown : Shown past body := hnodes.body (nodesIn_subset_cond test body otherwise)
    exact hbody (hexits.mono hpast) (hplace.mono hpast) (hshown.mono hpast)
  | false =>
    cases otherwise with
    | none => exact .pure trivial
    | some nodes =>
      have hshown : Shown past nodes := hnodes.body (nodesIn_subset_otherwise test body nodes)
      exact hother nodes rfl (hexits.mono hpast) (hplace.mono hpast) (hshown.mono hpast)

/-- What is inherited is sound, since the way out into its definition is. -/
theorem inherited_sound (hexits : exits.Sound request context c past)
    (hplace : place.scope.Sourced request context past) :
    ((Node.inherited.render request exits place).transcript c).Sound request context (fun _ _ => True) past := by
  rw [Node.render]
  cases place.enclosing with
  | none => exact .pure trivial
  | some enclosing => exact hexits.block _ _ (List.Subset.refl _) hplace

/-- A snippet is sound, since its parameters have no html in them but what the arguments have. -/
theorem snippet_sound {path : String} {args : List (String × Expr)} (hexits : exits.Sound request context c past)
    (hplace : place.scope.Sourced request context past) (hnodes : Shown past (.snippet path args :: rest)) :
    (((Node.snippet path args).render request exits place).transcript c).Sound request context
      (fun _ _ => True) past := by
  have hcalled : ∀ arg ∈ args, Called past arg.2.helpers := fun arg harg =>
    hnodes.called (List.mem_map_of_mem harg)
  exact (Expr.arguments_sound hplace hcalled).bind fun params hpast hparams =>
    hexits.snippet path hpast (.ofPairs hparams)

/-- Text that is shown is a text of the template that it is in. -/
theorem text_sound {text : String} (hnodes : Shown past (.text text :: rest)) :
    (((Node.text text).render request exits place).transcript c).Sound request context (fun _ _ => True) past := by
  obtain ⟨key, t, hopened, hsubset⟩ := hnodes
  have haccounted : (Event.wrote (.markup text)).Accounted request context past :=
    Or.inl (.text hopened (hsubset (mem_nodesIn_cons _ rest)))
  exact .emit haccounted trivial

/-- To render nodes is sound, whatever they are: whoever shows them has to say where they come from. -/
theorem nodesSound (exits : Exits) (nodes : List Node) : NodesSound request context c exits nodes := by
  induction nodes using Node.listInduction with
  | nil => exact fun _ _ _ _ _ => .pure trivial
  | comment rest ih => exact ih.cons fun _ _ _ _ _ => .pure trivial
  | text s rest ih => exact ih.cons fun _ _ _ _ hnodes => text_sound hnodes
  | output e rest ih =>
    exact ih.cons fun _ _ _ hplace hnodes => output_sound hplace (hnodes.called List.mem_cons_self)
  | loop name list body rest hbody ih =>
    exact ih.cons fun _ _ hexits hplace hnodes => loop_sound hbody hexits hplace hnodes
  | cond test body rest hbody ih =>
    exact ih.cons fun _ _ hexits hplace hnodes => cond_sound hbody nofun hexits hplace hnodes
  | condElse test body otherwise rest hbody hother ih =>
    have hother' : ∀ nodes, some otherwise = some nodes → NodesSound request context c exits nodes := by
      rintro _ ⟨⟩
      exact hother
    exact ih.cons fun _ _ hexits hplace hnodes => cond_sound hbody hother' hexits hplace hnodes
  | block name body rest _ ih =>
    exact ih.cons fun _ _ hexits hplace _ => hexits.block name 0 (List.Subset.refl _) hplace
  | inherited rest ih => exact ih.cons fun _ _ hexits hplace _ => inherited_sound hexits hplace
  | snippet path args rest ih => exact ih.cons fun _ _ hexits hplace hnodes => snippet_sound hexits hplace hnodes

/-- Nodes in a template that was found are sound, if the ways out of them are. -/
theorem renderAll_sound {nodes : List Node} (hexits : exits.Sound request context c past)
    (hplace : place.scope.Sourced request context past) (hnodes : Shown past nodes) :
    ((renderAll request exits nodes place).transcript c).Sound request context (fun _ _ => True) past :=
  nodesSound exits nodes hexits hplace hnodes

end

/-! ## Templates that were found

To say that a template was opened, the event of its opening has to be found in the past. Finding a template ends with
that event, and a lineage is found by finding one template after the other. -/

/-- A template that is found was opened. -/
theorem Catalog.opened_mem_find {key : Key} {t : Loaded} (h : (c.find key).outcome = .ok t) :
    .opened key t ∈ (c.find key).events := by
  obtain ⟨hpath, hshelved | ⟨hnone, hload⟩⟩ := find_eq_ok_iff.mp h
  · obtain ⟨shelved, hlookup, rfl⟩ := Option.map_eq_some_iff.mp hshelved
    rw [find_of_shelved hpath hlookup]
    exact List.mem_singleton.mpr rfl
  · rw [find_of_not_shelved hpath hnone, Transcript.bind_of_ok hload]
    exact List.mem_append_right _ (List.mem_singleton.mpr rfl)

/-- Each ancestor was opened on the way up. By induction on the way, whose last part was climbed from the parent. -/
theorem Catalog.opened_mem_climb {theme : Option String} {fuel : Nat} {below : List Loaded} {current : Loaded}
    {ancestors : List Loaded}
    (h : (Lineage.climb (fun path => c.find ⟨path, theme⟩) fuel below current).outcome = .ok ancestors) {t : Loaded}
    (ht : t ∈ ancestors) :
    ∃ key, .opened key t ∈ (Lineage.climb (fun path => c.find ⟨path, theme⟩) fuel below current).events := by
  induction fuel generalizing below current ancestors with
  | zero => cases h
  | succ fuel ih =>
    rw [Lineage.climb] at h ⊢
    cases hparent : current.template.parent with
    | none =>
      rw [hparent] at h
      cases h
      exact absurd ht List.not_mem_nil
    | some path =>
      rw [hparent] at h
      obtain ⟨parent, hfind, h⟩ := Transcript.outcome_bind_eq_ok.mp h
      simp only [Transcript.bind_of_ok hfind]
      dsimp only at h
      split at h
      · cases h
      · next hnew =>
        obtain ⟨rest, hrest, h⟩ := Transcript.outcome_bind_eq_ok.mp h
        rw [if_neg hnew, Transcript.bind_of_ok hrest]
        cases h
        -- the parent was opened, and the ancestors of the parent after it
        rcases List.mem_cons.mp ht with rfl | ht
        · exact ⟨_, List.mem_append_left _ (opened_mem_find hfind)⟩
        · obtain ⟨key, hkey⟩ := ih hrest ht
          exact ⟨key, List.mem_append_right _ (List.mem_append_left _ hkey)⟩

/-- The templates of the lineage were found. -/
def Lineage.Opened (past : List Event) (l : Lineage) : Prop := ∀ t ∈ l.templates, ∃ key, .opened key t ∈ past

theorem Lineage.Opened.mono {l : Lineage} (h : past ⊆ past') (hl : l.Opened past) : l.Opened past' := fun t ht =>
  let ⟨key, hkey⟩ := hl t ht
  ⟨key, h hkey⟩

/-- So each template of a lineage was opened, the leaf before all others. -/
theorem Catalog.opened_of_lineage {key : Key} {l : Lineage} (h : (c.lineage key).outcome = .ok l) :
    l.Opened (c.lineage key).events := by
  rw [lineage] at h ⊢
  obtain ⟨leaf, hleaf, h⟩ := Transcript.outcome_bind_eq_ok.mp h
  rw [Transcript.bind_of_ok hleaf]
  rw [lineageOf, Lineage.ofLeaf] at h ⊢
  obtain ⟨ancestors, hancestors, h⟩ := Transcript.outcome_bind_eq_ok.mp h
  rw [Transcript.bind_of_ok hancestors]
  cases h
  intro t ht
  rcases List.mem_cons.mp ht with rfl | ht
  · exact ⟨_, List.mem_append_left _ (opened_mem_find hleaf)⟩
  · obtain ⟨key', hkey⟩ := opened_mem_climb hancestors ht
    exact ⟨key', List.mem_append_right _ (List.mem_append_left _ hkey)⟩

/-- What is looked up is no part of the page. -/
theorem Catalog.allAccounted_of_isLookUp {es : List Event} (h : ∀ e ∈ es, c.IsLookUp e) :
    AllAccounted request context past es := by
  induction es generalizing past with
  | nil => trivial
  | cons e es ih =>
    refine ⟨?_, ih fun e he => h e (List.mem_cons_of_mem _ he)⟩
    have he := h e List.mem_cons_self
    cases e with
    | wrote piece => exact he.elim
    | _ => trivial

/-- A layout that is found is that of a lineage of templates that were found. -/
theorem Catalog.layout_sound (key : Key) :
    (c.layout key).Sound request context (fun past layout => ∃ l : Lineage, layout = l.layout ∧ l.Opened past)
      past where
  events := allAccounted_of_isLookUp (onlyLooksUp_layout key)
  value layout h := by
    obtain ⟨l, hl, rfl⟩ := exists_lineage_of_layout h
    refine ⟨l, rfl, (opened_of_lineage hl).mono ?_⟩
    rw [Catalog.layout, Transcript.events_map]
    exact List.subset_append_right _ _

/-- What is in a template of a lineage that was opened is shown. -/
theorem Lineage.Opened.shown {l : Lineage} (hl : l.Opened past) {t : Loaded} (ht : t ∈ l.templates)
    {nodes : List Node} (h : nodesIn nodes ⊆ nodesIn t.template.body) : Shown past nodes :=
  let ⟨key, hkey⟩ := hl t ht
  ⟨key, t, hkey, h⟩

/-! ## Pages

A snippet is a page of its own, and a block definition is in a template of the lineage. The induction is on how deep
snippets go, and within a page on how often block definitions are entered. -/

/-- What is to be done for a snippet is sound, whenever its variables have no html but what comes from somewhere. -/
def SnippetsSound (request : Request) (context : Context) (c : Catalog) (snippet : String → Context → Run Unit) :
    Prop :=
  ∀ {past : List Event} (path : String) {vars : Context}, (Value.map vars.vars).Sourced request context past →
    ((snippet path vars).transcript c).Sound request context (fun _ _ => True) past

/-- Block definitions are sound, however often they are entered. -/
theorem BlockTable.render_sound {snippet : String → Context → Run Unit}
    (hsnippet : SnippetsSound request context c snippet) {l : Lineage} (hl : l.Opened past) (fuel : Nat)
    (name : String) (level : Nat) {place : Place} (hplace : place.scope.Sourced request context past) :
    ((l.table.render request snippet fuel name level place).transcript c).Sound request context (fun _ _ => True)
      past := by
  induction fuel generalizing past name level place with
  | zero => exact ⟨trivial, nofun⟩
  | succ fuel ih =>
    rw [render, l.definition?_table]
    cases hdefinition : l.definition? name level with
    | none => exact .fail _
    | some definition =>
      obtain ⟨t, ht, -, hblock⟩ := Lineage.exists_template_of_definition? hdefinition
      refine renderAll_sound ⟨fun name level _ hpast hplace => ?_, fun path _ _ hvars => ?_⟩ hplace
        (hl.shown ht (definedIn_of_mem_blocksIn hblock).nodesIn_subset)
      · exact ih (hl.mono hpast) name level hplace
      · exact hsnippet path hvars

/-- A page is sound, if the snippets in it are. -/
theorem Request.render_sound {snippet : String → Context → Run Unit}
    (hsnippet : SnippetsSound request context c snippet) (rounds : Nat) (path : String) {vars : Context}
    (hvars : (Value.map vars.vars).Sourced request context past) :
    ((request.render snippet rounds path vars).transcript c).Sound request context (fun _ _ => True) past := by
  refine (Catalog.layout_sound ⟨path, request.theme⟩).bind fun layout hpast hlayout => ?_
  obtain ⟨l, rfl, hl⟩ := hlayout
  have hshown := hl.shown l.base_mem_templates (List.Subset.refl _)
  refine renderAll_sound ⟨fun name level _ hpast hplace => ?_, fun path _ _ hvars => ?_⟩
    (.ofContext (hvars.mono hpast)) hshown
  · exact BlockTable.render_sound hsnippet (hl.mono hpast) _ name level hplace
  · exact hsnippet path hvars

/-- Snippets are sound, however deep they go. In place of one snippet too many there is an error, which writes
nothing. -/
theorem Site.snippetAt_sound (site : Site) (rounds left : Nat) :
    SnippetsSound request context site.catalog (site.snippetAt request rounds left) := by
  induction left with
  | zero => exact fun _ _ _ => .fail _
  | succ left ih =>
    intro past path vars hvars
    rw [snippetAt_succ]
    exact Request.render_sound ih rounds path hvars

/-! ## Pages that are delivered

A sink gets the parts of a page as bytes. Each of them is a passage, and so what the sink was given is made of
passages, the last of which may be cut short. -/

/-- A passage of a page: html that comes from somewhere, or inert bytes. -/
def Passage (request : Request) (context : Context) (past : List Event) (bs : Bytes) : Prop :=
  (∃ html, Source request context past html ∧ bs = Utf8.bytes html) ∨ Html.Inert bs

/-- What an event that is accounted for writes is a passage. -/
theorem Event.Accounted.passage {e : Event} (h : e.Accounted request context past) :
    Passage request context past e.bytes := by
  cases e with
  | wrote piece =>
    cases piece with
    | markup html =>
      rcases h with hsource | hinert
      · exact .inl ⟨html, hsource, rfl⟩
      · exact .inr hinert
    | plain s => exact .inr (Html.inert_escapeBytes _)
  | _ => exact .inr Html.inert_nil

/-- What is accounted for by what happened before is accounted for by all that happened. -/
theorem passage_of_mem {es : List Event} (h : AllAccounted request context [] es) {e : Event} (he : e ∈ es) :
    Passage request context es e.bytes := by
  obtain ⟨before, after, rfl⟩ := List.append_of_mem he
  have haccounted := (allAccounted_append.mp h).2.1
  exact (haccounted.mono (List.subset_append_left _ _)).passage

/-- Without html in templates, variables and globals, and without markdown, there are only inert passages. -/
theorem Passage.inert {bs : Bytes} (h : Passage request context past bs)
    (htemplates : ∀ key t, .opened key t ∈ past →
      (∀ s, .text s ∈ nodesIn t.template.body → ∀ b ∈ Utf8.bytes s, Html.entity b = none) ∧
        ¬t.template.Calls .markdown)
    (hcontext : ∀ html, ¬(Value.map context.vars).Embeds html)
    (hglobals : ∀ html, ¬(Value.map request.globals.vars).Embeds html) : Html.Inert bs := by
  rcases h with ⟨html, hsource, rfl⟩ | hinert
  · cases hsource with
    | text hopened hs => exact Html.inert_of_plain ((htemplates _ _ hopened).1 html hs)
    | context hhtml => exact (hcontext html hhtml).elim
    | globals hhtml => exact (hglobals html hhtml).elim
    | markdown hopened hcalls _ => exact ((htemplates _ _ hopened).2 hcalls).elim
  · exact hinert

/-- **All that happens in a page is accounted for,** from the beginning on. -/
theorem Site.transcript_accounted (site : Site) (request : Request) (rounds : Nat) (path : String)
    (context : Context) : AllAccounted request context []
      ((site.renderRounds request rounds path context).transcript site.catalog).events :=
  (site.snippetAt_sound rounds (site.snippetLimit + 1) path fun _ hhtml => .context hhtml).events

/-- Where all that happens is accounted for, what is written is a sequence of passages; where the sink failed, the last
one may be cut off. -/
theorem Delivery.Logged.passages {σ : Type} {sink : Sink σ} {log : σ → Bytes} {before : Bytes}
    {t : Transcript Unit} {d : Delivery σ}
    (h : d.Logged (fun bytes st => log st = bytes) (fun reason bytes st => log st = bytes ∧ sink.Fails reason) before t)
    (ht : AllAccounted request context [] t.events) :
    ∃ page rest, log d.sink = before ++ page ∧
      (rest = [] ∨ ∃ reason, sink.Fails reason ∧ d.outcome = .error (.error (.io reason))) ∧
      ∃ passages : List Bytes, page ++ rest = passages.flatten ∧
        (∀ bs ∈ passages, Passage request context d.events bs) ∧
        (rest = [] ∨ ∃ last ∈ passages.getLast?, rest <:+ last) := by
  cases h with
  -- every event is a passage
  | all h =>
    refine ⟨t.bytes, [], h, .inl rfl, t.events.map Event.bytes, ?_, fun bs hbs => ?_, .inl rfl⟩
    · rw [List.append_nil, Transcript.bytes_eq, bytesOf, List.flatMap_def]
    · obtain ⟨e, he, rfl⟩ := List.mem_map.mp hbs
      exact passage_of_mem ht he
  -- the events before the one that failed are passages, and of that one a part is missing
  | @part taken after e cut rest reason st hevents hcut hrest h =>
    rw [hevents] at ht
    have htaken := (allAccounted_append.mp ht).1
    have hlast := (allAccounted_append.mp ht).2.1
    refine ⟨bytesOf taken ++ cut, rest, by rw [h.1, List.append_assoc], .inr ⟨reason, h.2, rfl⟩,
      taken.map Event.bytes ++ [e.bytes], ?_, fun bs hbs => ?_, .inr ⟨e.bytes, by simp, ⟨cut, hcut.symm⟩⟩⟩
    · rw [hcut, List.flatten_append, bytesOf, List.flatMap_def, List.append_assoc, List.flatten_singleton]
    · rcases List.mem_append.mp hbs with hbs | hbs
      · obtain ⟨e', he', rfl⟩ := List.mem_map.mp hbs
        exact passage_of_mem htaken he'
      · obtain rfl := List.mem_singleton.mp hbs
        exact hlast.passage

/-- What a page is made of. Wherever it is written, it is a sequence of passages, the last of which may be cut off where
the sink fails. Each passage is html from a text in a template that was found, from a variable of the page or of the
request, or from markdown, or else it is inert.

So where there is no such html, the page is inert. -/
theorem Site.deliver_accounted {σ : Type} {sink : Sink σ} {log : σ → Bytes} (hsink : sink.Records log) (st : σ)
    (site : Site) (request : Request) (path : String) (context : Context) :
    let d := site.deliver request path context sink st
    let fails := ∃ reason, sink.Fails reason ∧ d.outcome = .error (.error (.io reason))
    ∃ page rest, log d.sink = log st ++ page ∧ (rest = [] ∨ fails) ∧
      (∃ passages : List Bytes, page ++ rest = passages.flatten ∧
        (∀ bs ∈ passages, Passage request context d.events bs) ∧
        (rest = [] ∨ ∃ last ∈ passages.getLast?, rest <:+ last)) ∧
      ((∀ key t, .opened key t ∈ d.events →
          (∀ s, .text s ∈ nodesIn t.template.body → ∀ b ∈ Utf8.bytes s, Html.entity b = none) ∧
            ¬t.template.Calls .markdown) →
        (∀ html, ¬(Value.map context.vars).Embeds html) →
        (∀ html, ¬(Value.map request.globals.vars).Embeds html) →
        Html.Inert (page ++ rest)) := by
  intro d fails
  have haccounted := site.transcript_accounted request ((sink.room st).getD 0 + 1) path context
  -- the sink has a prefix of the bytes that the transcript accounts for
  have hlogged : d.Logged _ _ (log st) _ := Run.deliver_logged hsink.logs rfl
    (site.renderRounds request ((sink.room st).getD 0 + 1) path context) site.catalog
  obtain ⟨page, rest, hlog, hrest, hpassages⟩ := hlogged.passages haccounted
  refine ⟨page, rest, hlog, hrest, hpassages, fun htemplates hcontext hglobals => ?_⟩
  obtain ⟨passages, hflatten, hpassages, -⟩ := hpassages
  rw [hflatten]
  exact Html.inert_flatten fun bs hbs => (hpassages bs hbs).inert htemplates hcontext hglobals

/-- The default template `page.html`, which shows a variable. -/
def Site.showing : Site := .ofCatalog (.ofRoot (.inMemory Root.defaultName [("page.html", .ok "a@x")]))

theorem Site.deliver_accounted_escaped :
    let context := Context.ofPairs [("x", .list [.string "<b>", .null, .string "&"])]
    let sink := Sink.bounded (some 3) none "full"
    let d := showing.deliver ⟨none, .empty, Helpers.standard⟩ "page.html" context sink .nothing
    sink.Records Sink.Kept.bytes ∧ d.sink.bytes = Utf8.bytes "a&l" ∧ ∃ rest, Html.Inert (d.sink.bytes ++ rest) := by
  intro context sink d
  have hsink : sink.Records Sink.Kept.bytes := Sink.records_bounded (some 3) none "full"
  have hevents : d.events = [.asked "default" "page.html",
      .opened ⟨"page.html", none⟩ ⟨⟨"default", "page.html"⟩, ⟨none, [.text "a", .output (.var ["x"])]⟩⟩,
      .wrote (.markup "a")] := rfl
  obtain ⟨page, rest, hpage, -, -, hinert⟩ :=
    deliver_accounted hsink .nothing showing ⟨none, .empty, Helpers.standard⟩ "page.html" context
  change d.sink.bytes = [] ++ page at hpage
  refine ⟨hsink, by decide +kernel, rest, ?_⟩
  rw [hpage, List.nil_append]
  refine hinert (fun key t ht => ?_) ?_ ?_
  · change _ ∈ d.events at ht
    simp only [hevents, List.mem_cons, List.not_mem_nil, reduceCtorEq, Event.opened.injEq, false_or, or_false] at ht
    obtain ⟨-, rfl⟩ := ht
    refine ⟨fun s hs => ?_, ?_⟩
    · simp only [nodesIn, Node.nodes, List.singleton_append, List.mem_cons, List.not_mem_nil, reduceCtorEq,
        Node.text.injEq, or_false] at hs
      subst hs
      exact Html.plain_of_all (by decide)
    · rintro ⟨node, hnode, e, he, hcalls⟩
      simp only [nodesIn, Node.nodes, List.singleton_append, List.mem_cons, List.not_mem_nil, or_false] at hnode
      rcases hnode with rfl | rfl
      · simp [Node.exprs] at he
      · simp only [Node.exprs, List.mem_singleton] at he
        simp [he, Expr.helpers] at hcalls
  · rintro html (_ | _ | ⟨hfield, hlist⟩)
    obtain ⟨rfl, rfl⟩ := Prod.mk.inj (List.mem_singleton.mp hfield)
    obtain ⟨⟩ | ⟨hitem, hv⟩ := hlist
    simp only [List.mem_cons, List.not_mem_nil, or_false] at hitem
    rcases hitem with rfl | rfl | rfl <;> cases hv
  · rintro html (_ | _ | ⟨hfield, -⟩)
    cases hfield

end

end ThemedPages
