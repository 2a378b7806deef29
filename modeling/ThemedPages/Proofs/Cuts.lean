import ThemedPages.Proofs.Deliveries

/-!
# Renders that are cut short

A render that is cut short, for whatever reason, does the same up to that point as one that is not.

* `Transcript.UpTo` says this of transcripts; it goes through sequencing (`Transcript.UpTo.bind`).
* `renderAll_upTo`: where the ways out of some nodes are cut short, so are the nodes, and nothing else about them
  changes. Nothing in the nodes depends on the level of the block definition that they stand in, but the way into the
  next one.
* `Layout.render_upTo`: where snippets are cut short, so are the pages that they are in.
* `Run.deliver_upTo` says what a sink is left with of a page that is cut short.

The reasons are a parameter: rounds that are used up, or a snippet too many. Whatever they are, one of two things is so.
Either the two transcripts are equal, or the first one ended for such a reason, and its events are the first of those of
the second. An expression can not be cut short, so only the ways out of nodes have to be looked at.
-/

namespace ThemedPages

/-! ## Transcripts that are cut short

Of two transcripts in a row the first may be cut short, and then nothing of the second happens. -/

/-- The first transcript is the second one, or a beginning of it that is cut short in one of some ways. -/
inductive Transcript.UpTo {α : Type} (cut : Stop → Prop) (t u : Transcript α) : Prop where
  /-- it is all of it -/
  | whole (h : t = u)
  /-- it is cut short -/
  | short {stop : Stop} (hstop : cut stop) (h : t.outcome = .error stop) (hevents : t.events <+: u.events)

namespace Transcript

variable {α β : Type} {cut : Stop → Prop} {t u : Transcript α}

/-- What happens in the first part happens first. -/
theorem events_prefix_bind (t : Transcript α) (f : α → Transcript β) : t.events <+: (t >>= f).events := by
  rcases h : t.outcome with stop | a
  · have hsame : (t >>= f).events = t.events := by rw [bind_of_error h]
    exact hsame ▸ List.prefix_refl _
  · rw [bind_of_ok h]
    exact List.prefix_append _ _

theorem UpTo.refl (t : Transcript α) : t.UpTo cut t := .whole rfl

theorem UpTo.endless (h : cut .endless) (u : Transcript α) : Transcript.endless.UpTo cut u :=
  .short h rfl List.nil_prefix

theorem UpTo.fail {e : Error} (h : cut (.error e)) (u : Transcript α) : (Transcript.fail e).UpTo cut u :=
  .short h rfl List.nil_prefix

/-- What happens up to the cut happens in the other as well, and first. -/
theorem UpTo.events_prefix (h : t.UpTo cut u) : t.events <+: u.events := by
  cases h with
  | whole h => exact h ▸ List.prefix_refl _
  | short _ _ hevents => exact hevents

/-- What did not end for such a reason is all of it. -/
theorem UpTo.eq (h : t.UpTo cut u) (ht : ∀ stop, cut stop → t.outcome ≠ .error stop) : t = u := by
  cases h with
  | whole h => exact h
  | short hstop hcut _ => exact absurd hcut (ht _ hstop)

/-- What is cut short of something that is cut short is so of the whole. -/
theorem UpTo.trans {v : Transcript α} (h : t.UpTo cut u) (h' : u.UpTo cut v) : t.UpTo cut v := by
  cases h with
  | whole h => exact h ▸ h'
  | short hstop hcut hevents => exact .short hstop hcut (hevents.trans h'.events_prefix)

/-- What is cut short ends what it begins. -/
theorem UpTo.bind {f g : α → Transcript β} (h : t.UpTo cut u) (hfg : ∀ a, (f a).UpTo cut (g a)) :
    (t >>= f).UpTo cut (u >>= g) := by
  cases h with
  | short hstop hcut hevents =>
    rw [bind_of_error hcut]
    exact .short hstop rfl (hevents.trans (events_prefix_bind u g))
  | whole h =>
    obtain rfl := h
    rcases ht : t.outcome with stop | a
    · rw [bind_of_error ht, bind_of_error ht]
      exact .refl _
    · rw [bind_of_ok ht, bind_of_ok ht]
      cases hfg a with
      | whole h =>
        rw [h]
        exact .refl _
      | short hstop hcut hevents => exact .short hstop hcut ((List.prefix_append_right_inj _).mpr hevents)

end Transcript

/-! ## Nodes that are cut short

The places on the two sides may be in block definitions at different levels, which is so where one lineage has a
template more than the other. They are related by the enclosing definitions, and only `super` asks for these. -/

/-- The places differ at most in the levels of the block definitions that they are in. -/
structure Place.Beside (R : Enclosing → Enclosing → Prop) (place place' : Place) : Prop where
  /-- the variables are the same -/
  scope : place.scope = place'.scope
  /-- and the template -/
  origin : place.origin = place'.origin
  /-- the block definitions are related -/
  enclosing : Option.Rel R place.enclosing place'.enclosing

theorem Place.Beside.refl (place : Place) : place.Beside Eq place := by
  refine ⟨rfl, rfl, ?_⟩
  cases place.enclosing with
  | none => exact .none
  | some enclosing => exact .some rfl

theorem Place.Beside.eq {place place' : Place} (h : place.Beside Eq place') : place = place' := by
  obtain ⟨scope, origin, enclosing⟩ := place
  obtain ⟨scope', origin', enclosing'⟩ := place'
  obtain ⟨rfl, rfl, henclosing⟩ := h
  cases henclosing with
  | none => rfl
  | some h => rw [h]

/-- The first ways out are the second ones, cut short, also from block definitions that are related. -/
structure Exits.UpTo (c : Catalog) (cut : Stop → Prop) (R : Enclosing → Enclosing → Prop) (exits exits' : Exits) :
    Prop where
  /-- into the definition of a block that counts -/
  block (name : String) {place place' : Place} (h : place.Beside R place') :
    ((exits.block name 0 place).transcript c).UpTo cut ((exits'.block name 0 place').transcript c)
  /-- into the definition that another one inherits from -/
  inherited {enclosing enclosing' : Enclosing} (henclosing : R enclosing enclosing') {place place' : Place}
    (h : place.Beside R place') :
    ((exits.block enclosing.block (enclosing.level + 1) place).transcript c).UpTo cut
      ((exits'.block enclosing'.block (enclosing'.level + 1) place').transcript c)
  /-- into a snippet -/
  snippet (path : String) (context : Context) :
    ((exits.snippet path context).transcript c).UpTo cut ((exits'.snippet path context).transcript c)

/-- The case where nothing is moved: the same way out, cut short. -/
theorem Exits.UpTo.of_eq {c : Catalog} {cut : Stop → Prop} {exits exits' : Exits}
    (hblock : ∀ name level place,
      ((exits.block name level place).transcript c).UpTo cut ((exits'.block name level place).transcript c))
    (hsnippet : ∀ path context,
      ((exits.snippet path context).transcript c).UpTo cut ((exits'.snippet path context).transcript c)) :
    exits.UpTo c cut Eq exits' where
  block name place _ h := h.eq ▸ hblock name 0 place
  inherited henclosing place _ h := h.eq ▸ henclosing ▸ hblock _ _ place
  snippet := hsnippet

section

variable {c : Catalog} {request : Request} {cut : Stop → Prop} {R : Enclosing → Enclosing → Prop}

/-- A loop is cut short where its body is for some item. -/
theorem forEach_upTo {body body' : Value → Run Unit}
    (h : ∀ item, ((body item).transcript c).UpTo cut ((body' item).transcript c)) (items : List Value) :
    ((forEach items body).transcript c).UpTo cut ((forEach items body').transcript c) := by
  induction items with
  | nil => exact .refl _
  | cons item rest ih => exact (h item).bind fun _ => ih

/-- Where their ways out are cut short, the nodes are. -/
theorem renderAll_upTo {exits exits' : Exits} (h : exits.UpTo c cut R exits') (nodes : List Node)
    {place place' : Place} (hplace : place.Beside R place') :
    ((renderAll request exits nodes place).transcript c).UpTo cut
      ((renderAll request exits' nodes place').transcript c) := by
  obtain ⟨scope, origin, enclosing⟩ := place
  obtain ⟨scope', origin', enclosing'⟩ := place'
  obtain ⟨rfl, rfl, henclosing⟩ := hplace
  change Option.Rel R enclosing enclosing' at henclosing
  -- a loop changes the scope, which both places have alike
  have hbeside : ∀ scope, Place.Beside R ⟨scope, origin, enclosing⟩ ⟨scope, origin, enclosing'⟩ :=
    fun _ => ⟨rfl, rfl, henclosing⟩
  induction nodes using Node.listInduction generalizing scope with
  | nil => exact .refl _
  | comment rest ih | text s rest ih | output e rest ih => exact .bind (.refl _) fun _ => ih scope
  | loop name list body rest hbody ih =>
    refine .bind (.bind (.refl _) fun v => .bind (.refl _) fun items => ?_) fun _ => ih scope
    exact forEach_upTo (fun item => hbody _) items
  | cond test body rest hbody ih =>
    refine .bind (.bind (.refl _) fun holds => ?_) fun _ => ih scope
    cases holds with
    | true => exact hbody scope
    | false => exact .refl _
  | condElse test body otherwise rest hbody hother ih =>
    refine .bind (.bind (.refl _) fun holds => ?_) fun _ => ih scope
    cases holds with
    | true => exact hbody scope
    | false => exact hother scope
  -- blocks and `@super()` are ways out, and these are compared in `h`
  | block name body rest _ ih => exact .bind (h.block name (hbeside scope)) fun _ => ih scope
  | inherited rest ih =>
    refine .bind ?_ fun _ => ih scope
    -- both places are in a block, or neither is
    have hplace := hbeside scope
    cases henclosing with
    | none => exact .refl _
    | some henclosing => exact h.inherited henclosing hplace
  | snippet path args rest ih =>
    exact .bind (.bind (.refl _) fun params => h.snippet path (Context.ofPairs params)) fun _ => ih scope

variable {snippet snippet' : String → Context → Run Unit}

/-- Where snippets are cut short, so are the definitions of blocks. -/
theorem BlockTable.render_upTo
    (h : ∀ path context, ((snippet path context).transcript c).UpTo cut ((snippet' path context).transcript c))
    (table : BlockTable) (fuel : Nat) (name : String) (level : Nat) (place : Place) :
    ((table.render request snippet fuel name level place).transcript c).UpTo cut
      ((table.render request snippet' fuel name level place).transcript c) := by
  induction fuel generalizing name level place with
  | zero => exact .refl _
  | succ fuel ih =>
    rw [render, render]
    cases table.definition? name level with
    | none => exact .refl _
    | some definition => exact renderAll_upTo (.of_eq ih h) _ (.refl _)

/-- Where snippets are cut short, so are pages. -/
theorem Layout.render_upTo
    (h : ∀ path context, ((snippet path context).transcript c).UpTo cut ((snippet' path context).transcript c))
    (l : Layout) (rounds : Nat) (context : Context) :
    ((l.render request snippet rounds context).transcript c).UpTo cut
      ((l.render request snippet' rounds context).transcript c) :=
  renderAll_upTo (.of_eq (BlockTable.render_upTo h l.table _) h) _ (.refl _)

end

/-! ## Pages that are cut short

A sink is given the parts of a page one after the other, so of a page that is cut short it is given the first of them.
It may fail before the cut, and then it makes no difference. -/

section

variable {σ : Type} {sink : Sink σ} {cut : Stop → Prop}

/-- What a sink keeps is never taken back. -/
theorem Sink.Records.prefix_feed {log : σ → Bytes} (h : sink.Records log) (es : List Event) (st : σ) :
    log st <+: log (sink.feed es st).sink := by
  have hfed := h.logs.feed (rfl : log st = log st) es
  generalize sink.feed es st = fed at hfed
  cases hfed with
  | all hlog =>
    rw [hlog]
    exact List.prefix_append _ _
  | part _ _ _ hlog =>
    rw [hlog.1, List.append_assoc]
    exact List.prefix_append _ _

/-- The first delivery is the second one, or a beginning of it that is cut short in one of some ways. -/
inductive Delivery.UpTo (sink : Sink σ) (cut : Stop → Prop) (d d' : Delivery σ) : Prop where
  /-- it is all of it -/
  | whole (h : d = d')
  /-- it is cut short: the second one goes on from there -/
  | short {stop : Stop} (hstop : cut stop) (h : d.outcome = .error stop) (more : List Event)
    (hevents : d'.events = d.events ++ (sink.feed more d.sink).taken) (hsink : d'.sink = (sink.feed more d.sink).sink)

/-- A page that is cut short is delivered as far as it goes. -/
theorem Run.deliver_upTo {r r' : Run Unit} {c : Catalog} (h : (r.transcript c).UpTo cut (r'.transcript c))
    (sink : Sink σ) (st : σ) : (r.deliver c sink st).UpTo sink cut (r'.deliver c sink st) := by
  rw [Run.deliver_eq, Run.deliver_eq]
  cases h with
  | whole h =>
    rw [h]
    exact .whole rfl
  | short hstop hcut hevents =>
    obtain ⟨more, hmore⟩ := hevents
    rw [hcut, ← hmore]
    rcases hfed : (sink.feed (r.transcript c).events st).outcome with reason | ⟨⟩
    · -- the sink does not come to where the page is cut short
      rw [Sink.feed_append_of_error hfed]
      refine .whole ?_
      simp only [Fed.outcomeOr, hfed]
    · refine .short hstop ?_ more ?_ ?_
      · simp only [Fed.outcomeOr, hfed]
      · rw [Sink.feed_append_of_ok hfed]
      · rw [Sink.feed_append_of_ok hfed]

variable {d d' : Delivery σ}

theorem Delivery.UpTo.eq (h : d.UpTo sink cut d') (hd : ∀ stop, cut stop → d.outcome ≠ .error stop) : d' = d := by
  cases h with
  | whole h => exact h.symm
  | short hstop hcut => exact absurd hcut (hd _ hstop)

/-- What happens until the page is cut short happens first in the other. -/
theorem Delivery.UpTo.events_prefix (h : d.UpTo sink cut d') : d.events <+: d'.events := by
  cases h with
  | whole h => exact h ▸ List.prefix_refl _
  | short _ _ more hevents =>
    rw [hevents]
    exact List.prefix_append _ _

/-- What the sink was given is the beginning of what it is given in full. -/
theorem Delivery.UpTo.log_prefix (h : d.UpTo sink cut d') {log : σ → Bytes} (hlog : sink.Records log) :
    log d.sink <+: log d'.sink := by
  cases h with
  | whole h => exact h ▸ List.prefix_refl _
  | short _ _ more _ hsink =>
    rw [hsink]
    exact hlog.prefix_feed _ _

end

end ThemedPages
