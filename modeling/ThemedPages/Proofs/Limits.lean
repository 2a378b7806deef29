import ThemedPages.Proofs.Checks
import ThemedPages.Proofs.Cuts
import ThemedPages.Proofs.ReadingTemplates
import ThemedPages.Proofs.Truncation

/-!
# Snippets within snippets

A snippet is a page of its own, with its arguments as the variables, of a site that allows for as many snippets less as
the snippet is nested in. The limit on them does nothing but cut pages off.

* `Site.renderAt` renders what is nested in so many snippets, and `Site.renderAt_of_le` and `Site.renderAt_of_lt` are
  its equations.
* `Site.snippetAt_limitedBy`: what is left of a limit is what counts, but for the number that the error names.
  `Site.render_snippet` says from this what comes of a snippet, wherever it stands.
* `Site.deliver_limit`: with a higher limit there may be more of a page, and nothing else changes.
-/

namespace ThemedPages

namespace Site

/-! ## Snippets and what they are nested in

Counting what a snippet is nested in goes up, and counting what is left of the limit goes down. The two are the same
render, and the first one is what can be said of a node without knowing how it was come to. -/

/-- What is to be done for the page at a path, or for a snippet, that is nested in so many snippets. -/
def renderAt (site : Site) (request : Request) (rounds depth : Nat) : String → Context → Run Unit :=
  site.snippetAt request rounds (site.snippetLimit + 1 - depth)

section

variable {site : Site} {request : Request} {rounds depth : Nat}

/-- Within the limit, the snippets in it are nested in one more. -/
theorem renderAt_of_le (h : depth ≤ site.snippetLimit) (path : String) (context : Context) :
    site.renderAt request rounds depth path context =
      request.render (site.renderAt request rounds (depth + 1)) rounds path context := by
  have hleft : site.snippetLimit + 1 - depth = (site.snippetLimit + 1 - (depth + 1)) + 1 := by omega
  rw [renderAt, hleft, snippetAt_succ]
  rfl

/-- Beyond the limit a snippet is an error, whatever it is and whatever its arguments are. -/
theorem renderAt_of_lt (h : site.snippetLimit < depth) (path : String) (context : Context) :
    site.renderAt request rounds depth path context = Run.fail (.includeDepth path site.snippetLimit) := by
  have hleft : site.snippetLimit + 1 - depth = 0 := by omega
  rw [renderAt, hleft]
  rfl

/-- A page is nested in nothing. -/
theorem renderAt_zero (path : String) (context : Context) :
    site.renderAt request rounds 0 path context = site.renderRounds request rounds path context := rfl

end

end Site

/-! ## Another limit in the errors

The error of a snippet too many names the limit of the site. With what is left of the limit as a limit, the same error
names another number, and that is all that is different. -/

/-- The same end, but for the limit that it names if there are too many snippets. -/
def Stop.withLimit (limit : Nat) : Stop → Stop
  | .error (.includeDepth path _) => .error (.includeDepth path limit)
  | stop => stop

/-- There are no snippets where it ends. -/
theorem Stop.withLimit_of_not_isRendering {limit : Nat} {stop : Stop} (h : stop.isRendering = false) :
    stop.withLimit limit = stop := by
  unfold Stop.withLimit
  split
  · cases h
  · rfl

/-- The first end names a limit where the second one names any. -/
def EndLikeness.limitedBy (limit : Nat) : EndLikeness where
  stop s s' := s = s'.withLimit limit
  origin := Eq
  isUndefined := by
    rintro _ (e | _) rfl
    · cases e <;> rfl
    · rfl
  fault := by
    rintro o _ rfl fault
    cases fault <;> rfl

/-- The likeness of what is the same, but for the limit that is named. -/
def Likeness.limitedBy (limit : Nat) : Likeness := ⟨.same, .limitedBy limit⟩

/-- What comes of it is the same but for that number. -/
theorem Likeness.outcome_of_limitedBy {limit : Nat} {t u : Transcript Unit}
    (h : (Likeness.limitedBy limit).Like Eq t u) : t.outcome = u.outcome.mapError (Stop.withLimit limit) := by
  have houtcome := h.outcome
  rcases ht : t.outcome with s | a <;> rcases hu : u.outcome with s' | b <;> rw [ht, hu] at houtcome
  · exact congrArg Except.error houtcome
  · exact houtcome.elim
  · exact houtcome.elim
  · rfl

/-- No limit is named when a layout is looked up. -/
theorem Catalog.layout_limitedBy (c : Catalog) (key : Key) (limit : Nat) :
    (Likeness.limitedBy limit).Like (Likeness.limitedBy limit).Layouts (c.layout key) (c.layout key) := by
  refine ⟨rfl, ?_⟩
  rcases h : (c.layout key).outcome with stop | l
  · exact (Stop.withLimit_of_not_isRendering (c.layout_rendersNothing key stop h)).symm
  · exact .refl (fun _ => rfl) l

namespace Site

variable {site : Site} {request : Request} {rounds depth : Nat}

/-- With as many snippets left, a site does the same whatever its limit is, but for the limit that it names. -/
theorem snippetAt_limitedBy (limit : Nat) (left : Nat) (path : String) (context : Context) :
    (Likeness.limitedBy site.snippetLimit).Like Eq
      ((site.snippetAt request rounds left path context).transcript site.catalog)
      (({ site with snippetLimit := limit }.snippetAt request rounds left path context).transcript site.catalog) := by
  induction left generalizing path context with
  | zero => exact .fail rfl
  | succ left ih =>
    rw [snippetAt_succ, snippetAt_succ]
    refine (Catalog.layout_limitedBy _ _ _).bind fun l l' hl => ?_
    exact Layout.render_like (.refl request) ih rfl hl rounds context

/-! ## Isolated snippets

A snippet sees its arguments and nothing else, so it is a page of a site with a smaller limit. -/

/-- A snippet on its own: with nothing but its parameters, on a site with what is left of the limit. -/
def renderAlone (site : Site) (request : Request) (rounds depth : Nat) (path : String)
    (params : List (String × Value)) : Run Unit :=
  { site with snippetLimit := site.snippetLimit - depth - 1 }.renderRounds request rounds path (Context.ofPairs params)

/-- A snippet in the midst of a page is rendered as it is alone. -/
theorem renderAt_limitedBy (h : depth + 1 ≤ site.snippetLimit) (path : String) (params : List (String × Value)) :
    (Likeness.limitedBy site.snippetLimit).Like Eq
      ((site.renderAt request rounds (depth + 1) path (Context.ofPairs params)).transcript site.catalog)
      ((site.renderAlone request rounds depth path params).transcript site.catalog) := by
  have hleft : site.snippetLimit + 1 - (depth + 1) = (site.snippetLimit - depth - 1) + 1 := by omega
  rw [renderAt, hleft]
  exact snippetAt_limitedBy (site.snippetLimit - depth - 1) _ path _

/-- A snippet comes after the evaluation of its arguments. -/
theorem render_snippet_of_ok (exits : Exits) {path : String} {args : List (String × Expr)} {place : Place}
    {params : List (String × Value)}
    (h : ((Expr.arguments request place.scope place.origin args).transcript site.catalog).outcome = .ok params) :
    ((Node.snippet path args).render request exits place).transcript site.catalog =
      ⟨((Expr.arguments request place.scope place.origin args).transcript site.catalog).events ++
          ((exits.snippet path (Context.ofPairs params)).transcript site.catalog).events,
        ((exits.snippet path (Context.ofPairs params)).transcript site.catalog).outcome⟩ :=
  Transcript.bind_of_ok h _

/-- What comes of a snippet in a page or snippet that is itself nested in so many snippets, wherever it stands there.

Its arguments are evaluated, which calls helpers and does nothing else; each has a value, for one that leads nowhere is
nothing. Then all happens that happens when the snippet is rendered on its own with these arguments, on a site with
what is left of the limit, and it ends in the same way, but for the limit that is named. Nothing else about the place
matters. Where nothing is left of the limit, nothing happens any more. -/
theorem render_snippet (site : Site) (request : Request) (rounds depth : Nat) (l : Layout) (fuel : Nat)
    {name : String} {source : Bytes} {t : Template} (hread : Template.read name source = .ok t) {path : String}
    {args : List (String × Expr)} (hnode : .snippet path args ∈ nodesIn t.body) (place : Place) :
    let within := site.renderAt request rounds (depth + 1)
    let shown := ((Node.snippet path args).render request ⟨l.table.render request within fuel, within⟩ place).transcript
      site.catalog
    let asked := (Expr.arguments request place.scope place.origin args).transcript site.catalog
    let params := args.map fun arg => (arg.1, arg.2.valueOrNull site.catalog request place.scope place.origin)
    let alone := (site.renderAlone request rounds depth path params).transcript site.catalog
    (∀ e ∈ asked.events, e.isCall = true) ∧ asked.outcome = .ok params ∧
    (depth + 1 ≤ site.snippetLimit →
      shown.bytes = alone.bytes ∧ shown.events = asked.events ++ alone.events ∧
        shown.outcome = alone.outcome.mapError (Stop.withLimit site.snippetLimit)) ∧
    (site.snippetLimit < depth + 1 →
      shown.bytes = [] ∧ shown.events = asked.events ∧
        shown.outcome = .error (.error (.includeDepth path site.snippetLimit))) := by
  intro within shown asked params alone
  have hquiet : asked.Quiet _ := Expr.arguments_quiet args
  have hproper : ∀ arg ∈ args, arg.2.Proper := fun arg harg =>
    Template.proper_of_read hread _ hnode _ (List.mem_map_of_mem harg)
  have hparams : asked.outcome = .ok params := Expr.arguments_outcome hproper
  have hshown : shown = ⟨asked.events ++ ((within path (Context.ofPairs params)).transcript site.catalog).events,
      ((within path (Context.ofPairs params)).transcript site.catalog).outcome⟩ :=
    render_snippet_of_ok _ hparams
  -- nothing is written but by the snippet
  have hbytes : shown.bytes = bytesOf ((within path (Context.ofPairs params)).transcript site.catalog).events := by
    rw [hshown, Transcript.bytes_eq, bytesOf_append, ← Transcript.bytes_eq asked, Transcript.bytes, hquiet.pieces]
    rfl
  refine ⟨hquiet.events, hparams, fun h => ?_, fun h => ?_⟩
  · have hlike : (Likeness.limitedBy site.snippetLimit).Like Eq
        ((within path (Context.ofPairs params)).transcript site.catalog) alone := renderAt_limitedBy h path params
    have hevents : ((within path (Context.ofPairs params)).transcript site.catalog).events = alone.events := hlike.events
    have houtcome := Likeness.outcome_of_limitedBy hlike
    rw [hbytes, hshown, hevents]
    exact ⟨(Transcript.bytes_eq alone).symm, rfl, houtcome⟩
  · have hfail : within path (Context.ofPairs params) = Run.fail (.includeDepth path site.snippetLimit) :=
      renderAt_of_lt h path _
    rw [hbytes, hshown, hfail]
    exact ⟨rfl, List.append_nil _, rfl⟩

/-- A template that is a snippet in itself. -/
def cardSource : String := "<@t@if x \x7b@include(\"card.html\", t = h.translate(x), x = y)\x7d"

/-- The default template `card.html`, which is a snippet in itself for as long as there is something to show. -/
def cards (limit : Nat) : Site where
  catalog := .ofRoot (.inMemory Root.defaultName [("card.html", .ok cardSource)])
  snippetLimit := limit

theorem render_snippet_card :
    let request : Request := ⟨none, .empty, Helpers.standard⟩
    let args := [("t", .call .translate [.var ["x"]]), ("x", .var ["y"])]
    let t : Template := ⟨none, [.text "<", .output (.var ["t"]), .cond (.var ["x"]) [.snippet "card.html" args] none]⟩
    let origin : Origin := ⟨Root.defaultName, "card.html"⟩
    let place : Place := ⟨⟨[("x", .string "a&b"), ("y", .string "c")], .empty⟩, origin, none⟩
    let within := (cards 1).renderAt request 1 1
    let exits : Exits := ⟨BlockTable.render [] request within 1, within⟩
    let shown := ((Node.snippet "card.html" args).render request exits place).transcript (cards 1).catalog
    Template.read "card.html" (Utf8.bytes cardSource) = .ok t ∧ .snippet "card.html" args ∈ nodesIn t.body ∧
      0 + 1 ≤ (cards 1).snippetLimit ∧ shown.bytes = Utf8.bytes "<a&amp;b" ∧
      shown.outcome = .error (.error (.includeDepth "card.html" 1)) := by
  intro request args t origin place within exits shown
  have hwell : t.WellFormed := by decide
  have hsource : t.source true = cardSource := by decide +kernel
  have hread : Template.read "card.html" (Utf8.bytes cardSource) = .ok t := by
    rw [← hsource]
    exact Template.read_eq_ok.mpr ⟨⟨[], Grammar.document_source hwell⟩, hwell.flaw?_eq_none⟩
  have hnode : .snippet "card.html" args ∈ nodesIn t.body := by simp [t, nodesIn, Node.nodes]
  have hshown := render_snippet (cards 1) request 1 0 ⟨⟨origin, t⟩, [], 0, 1⟩ 1 hread hnode place
  obtain ⟨hbytes, -, houtcome⟩ := hshown.2.2.1 (Nat.le_refl 1)
  refine ⟨hread, hnode, Nat.le_refl 1, hbytes.trans ?_, houtcome.trans ?_⟩
  · decide +kernel
  · -- on its own, the limit that it exceeds is zero
    have halone : (((cards 1).renderAlone request 1 0 "card.html"
        [("t", .string "a&b"), ("x", .string "c")]).transcript (cards 1).catalog).outcome =
        .error (.error (.includeDepth "card.html" 0)) := by decide +kernel
    exact congrArg (Except.mapError (Stop.withLimit 1)) halone

/-! ## Higher limits

With a higher limit the render goes on where it would have ended with a snippet too many, and up to there it is the
same. -/

/-- There are too many snippets within snippets. -/
def TooDeep (stop : Stop) : Prop := ∃ path limit, stop = .error (.includeDepth path limit)

/-- With less snippets left, less of a page or a snippet is rendered. -/
theorem snippetAt_upTo (site : Site) (request : Request) (rounds limit : Nat) {left left' : Nat} (h : left ≤ left')
    (path : String) (context : Context) :
    ((site.snippetAt request rounds left path context).transcript site.catalog).UpTo TooDeep
      (({ site with snippetLimit := limit }.snippetAt request rounds left' path context).transcript site.catalog) := by
  induction left generalizing left' path context with
  | zero => exact .fail ⟨path, site.snippetLimit, rfl⟩ _
  | succ left ih =>
    obtain ⟨left', rfl⟩ : ∃ n, left' = n + 1 := ⟨left' - 1, by omega⟩
    rw [snippetAt_succ, snippetAt_succ]
    exact .bind (.refl _) fun l => l.render_upTo (ih (Nat.le_of_succ_le_succ h)) rounds context

/-- Of all visits, only those to snippets that nothing is left for fail for too many snippets. -/
theorem fails_includeDepth_iff {v : Visit} {path : String} {limit : Nat} :
    v.Fails site request (.error (.includeDepth path limit)) ↔
      limit = site.snippetLimit ∧ ∃ context, v = .page 0 path context := by
  constructor
  · rintro (⟨-, context⟩ | ⟨left, context, hlayout⟩)
    · exact ⟨rfl, context, rfl⟩
    · have hlookUp := site.catalog.layout_rendersNothing _ _ hlayout
      cases hlookUp
  · rintro ⟨rfl, context, rfl⟩
    exact .tooDeep path context

/-- A page ends for too many snippets exactly if one is come to that nothing is left for. -/
theorem transcript_includeDepth_iff {path name : String} {context : Context} {limit : Nat} :
    (site.transcript request path context).outcome = .error (.error (.includeDepth name limit)) ↔
      limit = site.snippetLimit ∧ ∃ params, Relation.ReflTransGen (Visit.Enters site request)
        (.page (site.snippetLimit + 1) path context) (.page 0 name params) := by
  -- no expression is to blame
  have hunspoilt : (Visit.page (site.snippetLimit + 1) path context).Unspoilt site request
      (.error (.includeDepth name limit)) := by
    intro w _ left l nodes place _ node _ e _ origin hspoils
    cases hspoils with
    | lacks h => cases h
  refine (renderRounds_eq_error_iff Nat.one_pos Stop.noConfusion hunspoilt).trans ⟨?_, ?_⟩
  · rintro ⟨w, hreach, hfails⟩
    obtain ⟨rfl, params, rfl⟩ := fails_includeDepth_iff.mp hfails
    exact ⟨rfl, params, hreach⟩
  · rintro ⟨rfl, params, hreach⟩
    exact ⟨_, hreach, .tooDeep name params⟩

/-- A limit on snippets within snippets only cuts pages off.

Where the page does not end for too many snippets, a higher limit makes no difference at all; where it does, with a
higher limit there is more of it after the same beginning. And it ends so exactly if a snippet is come to that is nested
in too many: nothing around that snippet holds it up, and nothing else ends so. -/
theorem deliver_limit (site : Site) (request : Request) (path : String) (context : Context) {limit : Nat}
    (h : site.snippetLimit ≤ limit) {σ : Type} (sink : Sink σ) (st : σ) :
    let d := site.deliver request path context sink st
    let d' := { site with snippetLimit := limit }.deliver request path context sink st
    ((∀ name n, d.outcome ≠ .error (.error (.includeDepth name n))) → d' = d) ∧
    (d.events <+: d'.events ∧ d.calls <+: d'.calls ∧
      ∀ log : σ → Bytes, sink.Records log → log d.sink <+: log d'.sink) ∧
    ∀ name n, (site.keep request path context).outcome = .error (.error (.includeDepth name n)) ↔
      n = site.snippetLimit ∧ ∃ params, Relation.ReflTransGen (Visit.Enters site request)
        (.page (site.snippetLimit + 1) path context) (.page 0 name params) := by
  intro d d'
  have hupTo : d.UpTo sink TooDeep d' :=
    Run.deliver_upTo (site.snippetAt_upTo request _ limit (Nat.succ_le_succ h) path context) sink st
  refine ⟨fun hend => hupTo.eq ?_, ⟨hupTo.events_prefix, hupTo.events_prefix.filterMap _,
    fun log => hupTo.log_prefix⟩, fun name n => ?_⟩
  · rintro _ ⟨name, n, rfl⟩
    exact hend name n
  · rw [keep_outcome]
    exact transcript_includeDepth_iff

theorem deliver_limit_cards :
    let request : Request := ⟨none, .empty, Helpers.standard⟩
    let context := Context.ofPairs [("x", .string "a"), ("y", .string "b"), ("t", .null)]
    let d := (cards 1).keep request "card.html" context
    let d' := (cards 2).keep request "card.html" context
    (cards 1).snippetLimit ≤ 2 ∧ d.outcome = .error (.error (.includeDepth "card.html" 1)) ∧
      d'.sink.bytes = Utf8.bytes "<<a<b" ∧ d.sink.bytes <+: d'.sink.bytes ∧
      ∃ params, Relation.ReflTransGen (Visit.Enters (cards 1) request) (.page 2 "card.html" context)
        (.page 0 "card.html" params) := by
  intro request context d d'
  have hd : d.outcome = .error (.error (.includeDepth "card.html" 1)) := by decide +kernel
  obtain ⟨-, ⟨-, -, hlog⟩, hreach⟩ :=
    deliver_limit (cards 1) request "card.html" context (Nat.le_succ 1) Sink.memory .nothing
  have hbytes := hlog Sink.Kept.bytes Sink.records_memory
  exact ⟨Nat.le_succ 1, hd, by decide +kernel, hbytes, ((hreach "card.html" 1).mp hd).2⟩

end Site

end ThemedPages
