import ThemedPages.Proofs.Pages
import ThemedPages.Proofs.Shelves

/-!
# Histories

What a site has become after a history of operations on it: templates are found, lineages are built, pages are
delivered, themes are added, what was found is forgotten, and sources change behind the site's back.

* `Site.firstFound?` says what was found first for a key since the site was last told to forget, and when.
* `Site.shelf_run`: that is what is remembered, under a number that it had since.
* `Site.Faithful.find_like` and what follows: as long as no source has changed meanwhile, a site answers as if it were
  new.
* `Site.remembers` puts this together.

A history is a list with the last operation first, so an induction on it ends with a step. What one step does to the
shelf is said for each key, by three cases: the operation makes the site forget, or something is there for the key
already, or nothing is and the operation may find it. `Site.firstFound?` has the same three cases, and `Site.shelf_run`
is the induction that holds them together.
-/

namespace ThemedPages

/-! ## Operations -/

/-- Something that is done with a site. -/
inductive Operation : Type 1 where
  /-- a template is looked for -/
  | find (key : Key)
  /-- so is its lineage -/
  | lineage (key : Key)
  /-- so is the lineage of a template that was found, with its ancestors under any theme -/
  | lineageOf (theme : Option String) (leaf : Loaded)
  /-- a page is written to a sink -/
  | deliver {σ : Type} (request : Request) (path : String) (context : Context) (sink : Sink σ) (st : σ)
  /-- a theme is added, or given another root -/
  | addTheme (theme : String) (root : Root)
  /-- what was found is forgotten -/
  | forget
  /-- sources change -/
  | change (change : String → Root → Root)

namespace Operation

/-- What happens when the operation is done. -/
def events (site : Site) : Operation → List Event
  | find key => (site.catalog.find key).events
  | lineage key => (site.catalog.lineage key).events
  | lineageOf theme leaf => (site.catalog.lineageOf theme leaf).events
  | deliver request path context sink st => (site.deliver request path context sink st).events
  | addTheme _ _ | forget | change _ => []

/-- The operation makes the site forget what was found. -/
def forgets : Operation → Bool
  | forget => true
  | addTheme theme _ => theme ≠ Root.defaultName
  | _ => false

/-- The operation changes sources. -/
def changes : Operation → Bool
  | change _ => true
  | _ => false

end Operation

/-- Why there is no value, if there is none. -/
def failure? {α : Type} : Except Stop α → Option Stop
  | .ok _ => none
  | .error stop => some stop

/-- Why the operation fails, if it does. -/
def Operation.failure? (site : Site) : Operation → Option Stop
  | find key => ThemedPages.failure? (site.catalog.find key).outcome
  | lineage key => ThemedPages.failure? (site.catalog.lineage key).outcome
  | lineageOf theme leaf => ThemedPages.failure? (site.catalog.lineageOf theme leaf).outcome
  | deliver request path context sink st => ThemedPages.failure? (site.deliver request path context sink st).outcome
  | addTheme theme root =>
    match site.catalog.addTheme theme root with
    | .ok _ => none
    | .error e => some (.error e)
  | forget | change _ => none

namespace Site

/-- The site after an operation. -/
def step (site : Site) : Operation → Site
  | .addTheme theme root =>
    match site.catalog.addTheme theme root with
    | .ok catalog => { site with catalog }
    | .error _ => site
  | .forget => { site with catalog := site.catalog.forget }
  | .change change => { site with catalog := site.catalog.withRoots change }
  | op => site.after (op.events site)

/-- The site after some operations, the last one first. -/
def run (start : Site) : List Operation → Site
  | [] => start
  | op :: past => (start.run past).step op

/-- A site that nothing was done with yet. -/
def new (base : Root) (themes : ByName Root) (snippetLimit : Nat) : Site := ⟨⟨base, themes, [], 0⟩, snippetLimit⟩

/-- A new site with the same roots. -/
def renewed (site : Site) : Site := new site.catalog.base site.catalog.themes site.snippetLimit

end Site

/-- The first finding of something. -/
structure FirstFound where
  /-- by which operation -/
  op : Operation
  /-- after which ones, the last one first -/
  past : List Operation
  /-- what was found -/
  found : Loaded

/-- The first finding for a key since the site was last made to forget, if there was one. -/
def Site.firstFound? (start : Site) (key : Key) : List Operation → Option FirstFound
  | [] => none
  | op :: past =>
    if op.forgets then none
    else
      match start.firstFound? key past with
      | some first => some first
      | none => (opened? key (op.events (start.run past))).map fun found => ⟨op, past, found⟩

/-- No source has changed since the site was last made to forget. -/
def unchanged : List Operation → Bool
  | [] => true
  | op :: past => op.forgets || !op.changes && unchanged past

/-! ## What happens is looking up, calling and writing

An event of an operation is a look-up of the catalog or something that a page does. What is on the shelf afterwards
depends on the first kind alone. -/

/-- Templates are looked up in a catalog, helpers are called, and parts of the page are written. -/
def EventLikeness.lookingUp (c : Catalog) : EventLikeness where
  events es _ := ∀ e ∈ es, c.IsLookUp e ∨ e.isEffect = true
  nil e he := absurd he List.not_mem_nil
  append h h' e he := (List.mem_append.mp he).elim (h e) (h' e)
  called call e he := by
    obtain rfl := List.mem_singleton.mp he
    exact .inr rfl
  wrote piece e he := by
    obtain rfl := List.mem_singleton.mp he
    exact .inr rfl

/-- The likeness of what only looks up in a catalog, calls and writes. -/
def Likeness.lookingUp (c : Catalog) : Likeness := ⟨.lookingUp c, .same⟩

theorem Likeness.lookingUp_of_onlyLooksUp {α : Type} {V : α → α → Prop} (hV : ∀ a, V a a) {c : Catalog}
    {t : Transcript α} (h : c.OnlyLooksUp t) : (Likeness.lookingUp c).Like V t t := by
  refine ⟨fun e he => .inl (h e he), ?_⟩
  rcases t.outcome with s | a
  · exact rfl
  · exact hV a

namespace Operation

variable {site : Site} {op : Operation}

theorem isLookUp_of_mem_deliver {σ : Type} {request : Request} {path : String} {context : Context} {sink : Sink σ}
    {st : σ} {e : Event} (he : e ∈ (site.deliver request path context sink st).events) :
    site.catalog.IsLookUp e ∨ e.isEffect = true := by
  have hfinds : Site.Finds (.lookingUp site.catalog) site site request request :=
    ⟨.refl request, rfl, fun path => Likeness.lookingUp_of_onlyLooksUp (fun l => .refl (fun _ => rfl) l)
      (Catalog.onlyLooksUp_layout _), fun _ => rfl⟩
  have hlike := hfinds.snippetAt_like ((sink.room st).getD 0 + 1) (site.snippetLimit + 1) path context
  rw [Site.deliver, Run.deliver_eq] at he
  exact hlike.events e ((Sink.taken_feed_prefix _ _).subset he)

/-- What happens in an operation is a look-up or an effect of a page. -/
theorem isLookUp_of_mem_events {e : Event} (he : e ∈ op.events site) :
    site.catalog.IsLookUp e ∨ e.isEffect = true := by
  cases op with
  | find key => exact .inl (Catalog.onlyLooksUp_find key e he)
  | lineage key => exact .inl (Catalog.onlyLooksUp_lineage key e he)
  | lineageOf theme leaf => exact .inl (Catalog.onlyLooksUp_lineageOf theme leaf e he)
  | deliver request path context sink st => exact isLookUp_of_mem_deliver he
  | addTheme | forget | change => exact absurd he List.not_mem_nil

/-- What is found in an operation is what the catalog finds. -/
theorem find_of_opened? {key : Key} {found : Loaded} (h : opened? key (op.events site) = some found) :
    (site.catalog.find key).outcome = .ok found :=
  (isLookUp_of_mem_events (mem_of_opened? h)).resolve_right Bool.noConfusion

end Operation

/-! ## Steps

What is on the shelf for a key after one operation. -/

namespace Site

variable {site : Site} {op : Operation} {key : Key}

/-- An operation that neither forgets nor changes anything adds what it found. -/
theorem step_eq_after (hforgets : op.forgets = false) (hchanges : op.changes = false) :
    site.step op = site.after (op.events site) := by
  cases op with
  | addTheme theme root =>
    have htheme : theme = Root.defaultName := by simpa [Operation.forgets] using hforgets
    rw [step, Catalog.addTheme, if_pos htheme]
    rfl
  | forget => cases hforgets
  | change => cases hchanges
  | _ => rfl

/-- An operation that makes the site forget leaves nothing on the shelf. -/
theorem shelf_step_of_forgets (h : op.forgets = true) : (site.step op).catalog.shelf = [] := by
  cases op with
  | addTheme theme root =>
    have htheme : theme ≠ Root.defaultName := by simpa [Operation.forgets] using h
    rw [step, Catalog.addTheme, if_neg htheme]
    rfl
  | forget => rfl
  | _ => cases h

/-- When sources change, nothing happens to the shelf: the site does not know of it. -/
theorem shelf_step_of_changes (h : op.changes = true) :
    (site.step op).catalog.shelf = site.catalog.shelf ∧ op.events site = [] := by
  cases op with
  | change => exact ⟨rfl, rfl⟩
  | _ => cases h

/-- What is remembered stays remembered until the site forgets. -/
theorem lookup_step_of_some (hforgets : op.forgets = false) {shelved : Shelved}
    (h : site.catalog.shelf.lookup key = some shelved) : (site.step op).catalog.shelf.lookup key = some shelved := by
  rcases hchanges : op.changes
  · rw [step_eq_after hforgets hchanges]
    exact Catalog.lookup_remember_of_some h _
  · rw [(shelf_step_of_changes hchanges).1]
    exact h

theorem lookup_step_of_none (hforgets : op.forgets = false) (h : site.catalog.shelf.lookup key = none)
    (hop : opened? key (op.events site) = none) : (site.step op).catalog.shelf.lookup key = none := by
  rcases hchanges : op.changes
  · rw [step_eq_after hforgets hchanges]
    exact Catalog.lookup_remember_of_none h hop
  · rw [(shelf_step_of_changes hchanges).1]
    exact h

/-- What is found first is put on the shelf, with a number that was not given before. -/
theorem lookup_step_of_opened? (hforgets : op.forgets = false) (h : site.catalog.shelf.lookup key = none)
    {found : Loaded} (hop : opened? key (op.events site) = some found) :
    ∃ serial, site.catalog.findings ≤ serial ∧
      (site.step op).catalog.shelf.lookup key = some ⟨serial, found⟩ := by
  rcases hchanges : op.changes
  · rw [step_eq_after hforgets hchanges]
    exact Catalog.lookup_remember_of_opened? h hop
  · rw [(shelf_step_of_changes hchanges).2] at hop
    cases hop

/-- Numbers only grow, also when a site forgets. -/
theorem findings_le_step (site : Site) (op : Operation) : site.catalog.findings ≤ (site.step op).catalog.findings := by
  cases op with
  | addTheme theme root =>
    rw [step, Catalog.addTheme]
    split
    · next h =>
      split at h
      · cases h
      · obtain rfl := Except.ok.inj h
        exact Nat.le_refl _
    · exact Nat.le_refl _
  | forget | change => exact Nat.le_refl _
  | _ => exact Catalog.findings_le_remember _ _

theorem numbered_step (h : site.catalog.Numbered) (op : Operation) : (site.step op).catalog.Numbered := by
  rcases hforgets : op.forgets
  · rcases hchanges : op.changes
    · rw [step_eq_after hforgets hchanges]
      exact h.remember _
    · cases op with
      | change => exact ⟨h.lt, h.inj⟩
      | _ => cases hchanges
  · exact .of_nil (shelf_step_of_forgets hforgets)

variable (site) in
/-- Operations that neither forget nor change anything leave the roots as they are. -/
theorem roots_step (hforgets : op.forgets = false) (hchanges : op.changes = false) :
    (site.step op).catalog.base = site.catalog.base ∧ (site.step op).catalog.themes = site.catalog.themes := by
  rw [step_eq_after hforgets hchanges]
  exact ⟨Catalog.base_remember _ _, Catalog.themes_remember _ _⟩

/-! ## Runs

The same along a history, by induction on it. -/

variable {start : Site}

variable (start) in
theorem findings_le_run {earlier history : List Operation} (h : earlier <:+ history) :
    (start.run earlier).catalog.findings ≤ (start.run history).catalog.findings := by
  induction history with
  | nil =>
    obtain rfl := List.suffix_nil.mp h
    exact Nat.le_refl _
  | cons op past ih =>
    rcases List.suffix_cons_iff.mp h with rfl | h
    · exact Nat.le_refl _
    · exact Nat.le_trans (ih h) (findings_le_step _ op)

/-- No two findings of a site have the same number. -/
theorem numbered_run (h : start.catalog.shelf = []) (history : List Operation) :
    (start.run history).catalog.Numbered := by
  induction history with
  | nil => exact .of_nil h
  | cons op past ih => exact numbered_step ih op

/-- After a history, what was found first for a key is remembered under a number. -/
structure Recalls (start : Site) (history : List Operation) (key : Key) (first : FirstFound) (serial : Nat) : Prop where
  /-- the key has a valid path -/
  path : isTemplatePath key.path = true
  /-- it was loaded from the sources at the time -/
  load : ((start.run first.past).catalog.load key).outcome = .ok first.found
  /-- it was given the number then -/
  then' : (start.run (first.op :: first.past)).catalog.shelf.lookup key = some ⟨serial, first.found⟩
  /-- and has it now -/
  now : (start.run history).catalog.shelf.lookup key = some ⟨serial, first.found⟩
  /-- the number was not given before -/
  fresh : (start.run first.past).catalog.findings ≤ serial

theorem firstFound?_of_forgets {past : List Operation} (h : op.forgets = true) :
    start.firstFound? key (op :: past) = none := by
  rw [firstFound?, if_pos h]

theorem firstFound?_of_some {past : List Operation} (hforgets : op.forgets = false) {first : FirstFound}
    (h : start.firstFound? key past = some first) : start.firstFound? key (op :: past) = some first := by
  rw [firstFound?, hforgets, h]
  rfl

theorem firstFound?_of_none {past : List Operation} (hforgets : op.forgets = false)
    (h : start.firstFound? key past = none) :
    start.firstFound? key (op :: past) =
      (opened? key (op.events (start.run past))).map fun found => ⟨op, past, found⟩ := by
  rw [firstFound?, hforgets, h]
  rfl

/-- What is remembered after a history is what was found first since the site was last made to forget. -/
theorem shelf_run (hstart : start.catalog.shelf = []) (history : List Operation) (key : Key) :
    (start.firstFound? key history = none → (start.run history).catalog.shelf.lookup key = none) ∧
      ∀ first, start.firstFound? key history = some first → ∃ serial, Recalls start history key first serial := by
  induction history with
  | nil =>
    refine ⟨fun _ => ?_, nofun⟩
    rw [run, hstart]
    rfl
  | cons op past ih =>
    rcases hforgets : op.forgets
    · rcases hpast : start.firstFound? key past with _ | before
      · have hnone := ih.1 hpast
        rw [firstFound?_of_none hforgets hpast]
        rcases hop : opened? key (op.events (start.run past)) with _ | found
        · refine ⟨fun _ => ?_, nofun⟩
          exact lookup_step_of_none hforgets hnone hop
        · -- it is found in this operation for the first time
          refine ⟨nofun, fun first h => ?_⟩
          obtain rfl := Option.some.inj h
          obtain ⟨serial, hserial, hlookup⟩ := lookup_step_of_opened? hforgets hnone hop
          obtain ⟨hpath, hshelved | ⟨-, hload⟩⟩ := Catalog.find_eq_ok_iff.mp (Operation.find_of_opened? hop)
          · rw [hnone] at hshelved
            cases hshelved
          · exact ⟨serial, hpath, hload, hlookup, hlookup, hserial⟩
      · rw [firstFound?_of_some hforgets hpast]
        refine ⟨nofun, fun first h => ?_⟩
        obtain rfl := Option.some.inj h
        obtain ⟨serial, hrecalls⟩ := ih.2 _ hpast
        exact ⟨serial, hrecalls.path, hrecalls.load, hrecalls.then', lookup_step_of_some hforgets hrecalls.now,
          hrecalls.fresh⟩
    · rw [firstFound?_of_forgets hforgets]
      refine ⟨fun _ => ?_, nofun⟩
      rw [run, shelf_step_of_forgets hforgets]
      rfl

/-- No object had the number before. -/
theorem Recalls.serial_ne (hstart : start.catalog.shelf = []) {history : List Operation} {first : FirstFound}
    {serial : Nat} (h : Recalls start history key first serial) {earlier : List Operation}
    (hearlier : earlier <:+ first.past) (key' : Key) : (start.run earlier).catalog.serial? key' ≠ some serial := by
  intro hserial
  obtain ⟨shelved, hlookup, rfl⟩ := Option.map_eq_some_iff.mp hserial
  have hlt := (numbered_run hstart earlier).lt hlookup
  have hle := findings_le_run start hearlier
  have hfresh := h.fresh
  omega

/-! ## Answers of a site that remembers

A site is faithful if whatever is on its shelf would be found again. Then looking something up on the shelf and
loading it come to the same, but for the questions to the roots. -/

/-- What is remembered is what would be loaded from the sources as they are now. -/
def Faithful (site : Site) : Prop :=
  ∀ key shelved, site.catalog.shelf.lookup key = some shelved →
    isTemplatePath key.path = true ∧ (site.catalog.load key).outcome = .ok shelved.found

/-- **A site is faithful as long as no source has changed.** What is on the shelf was found by an operation on a site
that had the same roots. -/
theorem faithful_run (hstart : start.catalog.shelf = []) {history : List Operation} (h : unchanged history = true) :
    (start.run history).Faithful := by
  induction history with
  | nil =>
    intro key shelved hlookup
    rw [run, hstart] at hlookup
    cases hlookup
  | cons op past ih =>
    intro key shelved hlookup
    rw [run] at hlookup ⊢
    rcases hforgets : op.forgets
    · rw [unchanged, hforgets, Bool.false_or, Bool.and_eq_true, Bool.not_eq_true'] at h
      -- the sources are as before, and so is what would be loaded from them
      obtain ⟨hbase, hthemes⟩ := roots_step (start.run past) hforgets h.1
      rw [Catalog.load_congr hbase hthemes]
      rcases hpast : (start.run past).catalog.shelf.lookup key with _ | before
      · rcases hop : opened? key (op.events (start.run past)) with _ | found
        · rw [lookup_step_of_none hforgets hpast hop] at hlookup
          cases hlookup
        · obtain ⟨serial, -, hstep⟩ := lookup_step_of_opened? hforgets hpast hop
          obtain rfl := Option.some.inj (hstep.symm.trans hlookup)
          obtain ⟨hpath, hshelved | ⟨-, hload⟩⟩ := Catalog.find_eq_ok_iff.mp (Operation.find_of_opened? hop)
          · rw [hpast] at hshelved
            cases hshelved
          · exact ⟨hpath, hload⟩
      · obtain rfl := Option.some.inj ((lookup_step_of_some hforgets hpast).symm.trans hlookup)
        exact ih h.2 key _ hpast
    · rw [shelf_step_of_forgets hforgets] at hlookup
      cases hlookup

end Site

/-- The likeness of what only differs in how templates are looked up. -/
def Likeness.butLookUps : Likeness := ⟨.effects, .same⟩

theorem Likeness.butLookUps_refl {α : Type} (t : Transcript α) : Likeness.butLookUps.Like Eq t t :=
  .refl (fun _ => rfl) (fun _ => rfl) (fun _ => rfl) t

/-- Nobody sees a look-up from outside. -/
theorem Catalog.OnlyLooksUp.effects {α : Type} {c : Catalog} {t : Transcript α} (h : c.OnlyLooksUp t) :
    effects t.events = [] := by
  refine List.filter_eq_nil_iff.mpr fun e he => ?_
  have hlook := h e he
  cases e <;> first | exact Bool.false_ne_true | exact hlook.elim

/-- With the same templates on both sides there is nothing to compare on the way up. -/
theorem Likeness.pairs_eq : Likeness.butLookUps.Pairs Eq where
  parent h := by rw [h]
  origin ht hu := by rw [ht, hu]
  cyclic h := by
    obtain rfl := List.forall₂_eq_eq_eq ▸ h
    rfl

namespace Site

variable {start site : Site} {op : Operation} {key : Key}

/-- A faithful site finds what a new one finds. -/
theorem Faithful.find_like (h : site.Faithful) (key : Key) :
    Likeness.butLookUps.Like Eq (site.catalog.find key) (site.renewed.catalog.find key) := by
  rcases hpath : isTemplatePath key.path
  · rw [Catalog.find_of_invalid hpath, Catalog.find_of_invalid hpath]
    exact Likeness.butLookUps_refl _
  · have hload : site.renewed.catalog.load key = site.catalog.load key := Catalog.load_congr rfl rfl
    have hnew : site.renewed.catalog.shelf.lookup key = none := rfl
    rw [Catalog.find_of_not_shelved hpath hnew, hload]
    rcases hlookup : site.catalog.shelf.lookup key with _ | shelved
    · rw [Catalog.find_of_not_shelved hpath hlookup]
      exact Likeness.butLookUps_refl _
    · -- the new site asks its roots, which nobody sees, and finds the same
      rw [Catalog.find_of_shelved hpath hlookup, Transcript.bind_of_ok (h key shelved hlookup).2]
      refine ⟨?_, rfl⟩
      change effects _ = effects _
      rw [effects_append, (Catalog.onlyLooksUp_load key).effects]
      rfl

/-- A lineage is found as if nothing were remembered, since each parent is. -/
theorem Faithful.lineageOf_like (h : site.Faithful) (theme : Option String) (leaf : Loaded) :
    Likeness.butLookUps.Like Eq (site.catalog.lineageOf theme leaf) (site.renewed.catalog.lineageOf theme leaf) := by
  have hlike := Catalog.lineageOf_like Likeness.pairs_eq rfl (fun path => h.find_like ⟨path, theme⟩) (Eq.refl leaf)
  refine hlike.imp fun l l' htemplates => ?_
  obtain ⟨hleaf, hancestors⟩ := List.cons.inj (List.forall₂_eq_eq_eq ▸ htemplates)
  cases l
  cases l'
  exact congrArg₂ Lineage.mk hleaf hancestors

theorem Faithful.lineage_like (h : site.Faithful) (key : Key) :
    Likeness.butLookUps.Like Eq (site.catalog.lineage key) (site.renewed.catalog.lineage key) :=
  (h.find_like key).bind_eq fun leaf => h.lineageOf_like key.theme leaf

/-- So is a page, with its layouts and those of its snippets. -/
theorem Faithful.deliver_alike (h : site.Faithful) (request : Request) (path : String) (context : Context) {σ : Type}
    (sink : Sink σ) (st : σ) :
    (site.deliver request path context sink st).Alike .butLookUps
      (site.renewed.deliver request path context sink st) := by
  have hlayout : ∀ key, Likeness.butLookUps.Like Likeness.butLookUps.Layouts (site.catalog.layout key)
      (site.renewed.catalog.layout key) := by
    intro key
    refine (h.lineage_like key).map fun l l' hl => ?_
    subst hl
    exact .refl (fun _ => rfl) _
  have hfinds : Finds .butLookUps site site.renewed request request :=
    ⟨.refl request, rfl, fun path => hlayout ⟨path, request.theme⟩, fun _ => rfl⟩
  exact hfinds.deliver_alike (fun h => h) path context sink st

/-- The first answers as the second does, from outside. -/
structure AnswersAs (site site' : Site) : Prop where
  /-- templates are found -/
  find (key : Key) : (site.catalog.find key).outcome = (site'.catalog.find key).outcome
  /-- so are lineages -/
  lineage (key : Key) : (site.catalog.lineage key).outcome = (site'.catalog.lineage key).outcome
  /-- so are those of templates that were found -/
  lineageOf (theme : Option String) (leaf : Loaded) :
    (site.catalog.lineageOf theme leaf).outcome = (site'.catalog.lineageOf theme leaf).outcome
  /-- pages are written to any sink, with the same helper calls -/
  deliver (request : Request) (path : String) (context : Context) {σ : Type} (sink : Sink σ) (st : σ) :
    let delivery := site.deliver request path context sink st
    let delivery' := site'.deliver request path context sink st
    delivery.sink = delivery'.sink ∧ delivery.outcome = delivery'.outcome ∧
      effects delivery.events = effects delivery'.events

/-- A faithful site answers as a new one does. -/
theorem Faithful.answersAs (h : site.Faithful) : site.AnswersAs site.renewed where
  find key := (h.find_like key).outcome.eq id
  lineage key := (h.lineage_like key).outcome.eq id
  lineageOf theme leaf := (h.lineageOf_like theme leaf).outcome.eq id
  deliver request path context _ sink st :=
    have halike := h.deliver_alike request path context sink st
    ⟨halike.sink, halike.outcome.eq id, halike.effects⟩

/-! ## Operations that fail

An operation that fails may have found templates before it did. Those are remembered, and nothing else has changed. -/

/-- Nothing is lost from the first to the second, and nothing is there that could not be found. -/
structure Keeps (site site' : Site) : Prop where
  themes : site'.catalog.themes = site.catalog.themes
  base : site'.catalog.base = site.catalog.base
  /-- what is remembered stays remembered -/
  shelf {key : Key} {shelved : Shelved} (h : site.catalog.shelf.lookup key = some shelved) :
    site'.catalog.shelf.lookup key = some shelved
  /-- nothing is remembered for a key that can not be found -/
  missing {key : Key} {stop : Stop} (h : (site.catalog.find key).outcome = .error stop) :
    site'.catalog.shelf.lookup key = none

theorem not_forgets_of_failure? {stop : Stop} (h : op.failure? site = some stop) :
    op.forgets = false ∧ op.changes = false := by
  cases op with
  | addTheme theme root =>
    rw [Operation.failure?, Catalog.addTheme] at h
    by_cases htheme : theme = Root.defaultName
    · simp [Operation.forgets, Operation.changes, htheme]
    · rw [if_neg htheme] at h
      cases h
  | forget => cases h
  | change => cases h
  | _ => exact ⟨rfl, rfl⟩

/-- Nothing is remembered for a key that can not be found. -/
theorem lookup_run_of_error (hstart : start.catalog.shelf = []) (history : List Operation) {stop : Stop}
    (h : ((start.run history).catalog.find key).outcome = .error stop) :
    (start.run history).catalog.shelf.lookup key = none := by
  obtain ⟨hnone, hsome⟩ := shelf_run hstart history key
  rcases hfirst : start.firstFound? key history with _ | first
  · exact hnone hfirst
  · obtain ⟨serial, hrecalls⟩ := hsome first hfirst
    rw [Catalog.find_of_shelved hrecalls.path hrecalls.now] at h
    cases h

/-- A site loses nothing by an operation that fails. -/
theorem keeps_of_failure? (hstart : start.catalog.shelf = []) (history : List Operation) {stop : Stop}
    (h : op.failure? (start.run history) = some stop) :
    (start.run history).Keeps ((start.run history).step op) := by
  obtain ⟨hforgets, hchanges⟩ := not_forgets_of_failure? h
  obtain ⟨hbase, hthemes⟩ := roots_step (start.run history) hforgets hchanges
  refine ⟨hthemes, hbase, lookup_step_of_some hforgets, fun {key stop'} hfind => ?_⟩
  apply lookup_step_of_none hforgets (lookup_run_of_error hstart history hfind)
  -- an operation that found the template would contradict that it can not be found
  rcases hop : opened? key (op.events (start.run history)) with _ | found
  · rfl
  · rw [Operation.find_of_opened? hop] at hfind
    cases hfind

/-! ## The law

What was found first is found again by its number, until the site is told to forget, and a number is never used twice.
-/

/-- After a history, looking for a template gives the very object that was found first. -/
structure FindsAgain (start : Site) (history : List Operation) (key : Key) (first : FirstFound) (serial : Nat) :
    Prop where
  /-- it was loaded from the sources at the time -/
  load : ((start.run first.past).catalog.load key).outcome = .ok first.found
  /-- it had the number then -/
  then' : (start.run (first.op :: first.past)).catalog.serial? key = some serial
  /-- and has it now -/
  now : (start.run history).catalog.serial? key = some serial
  /-- nothing else has the number -/
  only {key' : Key} (h : (start.run history).catalog.serial? key' = some serial) : key' = key
  /-- nothing had it before -/
  fresh {earlier : List Operation} (h : earlier <:+ first.past) (key' : Key) :
    (start.run earlier).catalog.serial? key' ≠ some serial
  /-- it is what is given, and nothing is loaded -/
  find : (start.run history).catalog.find key = ⟨[.opened key first.found], .ok first.found⟩

/-- **What is remembered is found again,** under the same number, whatever has become of its source. -/
theorem Recalls.findsAgain (hstart : start.catalog.shelf = []) {history : List Operation} {first : FirstFound}
    {serial : Nat} (h : Recalls start history key first serial) : FindsAgain start history key first serial where
  load := h.load
  then' := by rw [Catalog.serial?, h.then']; rfl
  now := by rw [Catalog.serial?, h.now]; rfl
  only hserial := by
    obtain ⟨shelved, hlookup, hsame⟩ := Option.map_eq_some_iff.mp hserial
    exact (numbered_run hstart history).inj hlookup h.now hsame
  fresh hearlier key' := h.serial_ne hstart hearlier key'
  find := Catalog.find_of_shelved h.path h.now

/-- What a site remembers after any history that begins with a new site.

Looking for a template gives the very object that was found first for its key since the site was last made to forget,
which was loaded from the sources at the time; and if there is none, what is loaded from the sources as they are now. An
operation that fails leaves the themes alone and what is remembered, and adds nothing for a key that can not be found.
As long as no source has changed since the site was last made to forget, it answers like a new one. -/
theorem remembers (base : Root) (themes : ByName Root) (snippetLimit : Nat) (history : List Operation) :
    let start := new base themes snippetLimit
    let site := start.run history
    (∀ key,
      match start.firstFound? key history with
      | some first => ∃ serial, FindsAgain start history key first serial
      | none =>
        site.catalog.serial? key = none ∧
          site.catalog.find key =
            if isTemplatePath key.path then
              site.catalog.load key >>= fun found => ⟨[.opened key found], .ok found⟩
            else Transcript.fail (.invalidPath key.path)) ∧
    (∀ op stop, op.failure? site = some stop → site.Keeps (site.step op)) ∧
    (unchanged history = true → site.AnswersAs site.renewed) := by
  intro start site
  have hstart : start.catalog.shelf = [] := rfl
  refine ⟨fun key => ?_, fun op stop => keeps_of_failure? hstart history, fun h => (faithful_run hstart h).answersAs⟩
  -- what is on the shelf after the history is what was first found since it was last cleared
  obtain ⟨hnone, hsome⟩ := shelf_run hstart history key
  rcases hfirst : start.firstFound? key history with _ | first
  -- nothing of that key is on the shelf, so the path is checked and the template loaded
  · have hlookup := hnone hfirst
    refine ⟨by rw [Catalog.serial?, hlookup]; rfl, ?_⟩
    rcases hpath : isTemplatePath key.path
    · exact Catalog.find_of_invalid hpath
    · exact Catalog.find_of_not_shelved hpath hlookup
  · obtain ⟨serial, hrecalls⟩ := hsome first hfirst
    exact ⟨serial, hrecalls.findsAgain hstart⟩

/-- Default templates that are a single page. -/
def onePage (source : String) : Root := .inMemory Root.defaultName [("page.html", .ok source)]

/-- The page is found, and then it is written anew. -/
def rewritten : List Operation := [.change fun _ _ => onePage "new", .find ⟨"page.html", none⟩]

theorem remembers_rewritten :
    let site := (new (onePage "old") [] 8).run rewritten
    (site.catalog.find ⟨"page.html", none⟩).outcome = .ok ⟨⟨"default", "page.html"⟩, ⟨none, [.text "old"]⟩⟩ ∧
      (site.renewed.catalog.find ⟨"page.html", none⟩).outcome =
        .ok ⟨⟨"default", "page.html"⟩, ⟨none, [.text "new"]⟩⟩ := by
  have hfirst : (new (onePage "old") [] 8).firstFound? ⟨"page.html", none⟩ rewritten =
      some ⟨.find ⟨"page.html", none⟩, [], ⟨⟨"default", "page.html"⟩, ⟨none, [.text "old"]⟩⟩⟩ := rfl
  have hkey := (remembers (onePage "old") [] 8 rewritten).1 ⟨"page.html", none⟩
  rw [hfirst] at hkey
  obtain ⟨serial, hagain⟩ := hkey
  exact ⟨congrArg Transcript.outcome hagain.find, rfl⟩

end Site

end ThemedPages
