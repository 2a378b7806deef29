import Mathlib.Data.List.Nodup
import Mathlib.Data.List.Perm.Subperm
import ThemedPages.Proofs.Transcripts

/-!
# Looking up

What a catalog does when it is asked for a template, a lineage or a layout.

* `Catalog.find_eq_ok_iff` says when a template is found, and which.
* `Catalog.onlyLooksUp_layout` says what happens meanwhile: roots are asked and templates are found, nothing else.
* `Catalog.layout_rendersNothing` says what does not go wrong meanwhile: what only the rendering of templates can.
* `Catalog.lineageOf_ne_endless`: every lineage has an end. Each parent on the way up is a template that was not met
  before, and a catalog has no more templates than its `Catalog.extent`.

A layout is made from a lineage, a lineage is found by finding one template after the other, and a template is found on
the shelf or by asking one root after the other. Each property goes along this: there is a lemma for the search in the
roots, for loading, for finding, for the way up, and for what is made of it.
-/

namespace ThemedPages

/-- It ends as only the rendering of templates can: by something that is in one, or by too many snippets. -/
def Stop.isRendering : Stop → Bool
  | .error (.noParentBlock _ _) | .error (.undefined _ _) | .error (.notIterable _ _) | .error (.notDisplayable _ _)
  | .error (.helperArguments _ _) | .error (.includeDepth _ _) => true
  | _ => false

namespace Catalog

variable {c : Catalog} {key : Key} {found : Loaded}

/-! ## Finding a template

By where it is found: nowhere, if the path does not stay in its root; on the shelf; or in a root. -/

/-- A path that does not stay in its root is refused before anything is looked at. -/
theorem find_of_invalid (h : isTemplatePath key.path = false) :
    c.find key = Transcript.fail (.invalidPath key.path) := by
  simp [find, h]

/-- What is on the shelf is found there, and no root is asked. -/
theorem find_of_shelved (hpath : isTemplatePath key.path = true) {shelved : Shelved}
    (h : c.shelf.lookup key = some shelved) :
    c.find key = ⟨[.opened key shelved.found], .ok shelved.found⟩ := by
  rw [find, if_pos hpath, h]
  rfl

/-- What is not remembered is loaded. -/
theorem find_of_not_shelved (hpath : isTemplatePath key.path = true) (h : c.shelf.lookup key = none) :
    c.find key = c.load key >>= fun found => ⟨[.opened key found], .ok found⟩ := by
  rw [find, if_pos hpath, h]
  rfl

/-- A template is found for a valid path when it is remembered, or else when it can be loaded. -/
theorem find_eq_ok_iff : (c.find key).outcome = .ok found ↔ isTemplatePath key.path = true ∧
    ((c.shelf.lookup key).map Shelved.found = some found ∨
      c.shelf.lookup key = none ∧ (c.load key).outcome = .ok found) := by
  rcases hpath : isTemplatePath key.path
  · simp [find_of_invalid hpath]
  · rcases h : c.shelf.lookup key with _ | shelved
    · rw [find_of_not_shelved hpath h, Transcript.outcome_bind_eq_ok]
      simp
    · simp [find_of_shelved hpath h]

/-- Only the roots decide about what is loaded. -/
theorem load_congr {c' : Catalog} (hbase : c.base = c'.base) (hthemes : c.themes = c'.themes) :
    c.load key = c'.load key := by
  have hroots : c.roots? key.theme = c'.roots? key.theme := by
    cases key.theme with
    | none => rw [roots?, roots?, hbase]
    | some theme => rw [roots?, roots?, hbase, hthemes]
  rw [load, load, hroots]

/-! ## What happens meanwhile

`Catalog.IsLookUp` are the events of looking up. What is said here makes it possible to leave the look-ups of a page
aside: nothing is written and no helper is called by them. -/

/-- The event is part of a look-up: a root is asked, or a template is found that the catalog finds. -/
def IsLookUp (c : Catalog) : Event → Prop
  | .asked _ _ => True
  | .opened key found => (c.find key).outcome = .ok found
  | _ => False

/-- Of a transcript, all the events are part of look-ups. -/
def OnlyLooksUp {α : Type} (c : Catalog) (t : Transcript α) : Prop := ∀ e ∈ t.events, c.IsLookUp e

/-- In a sequence both parts only look up. -/
theorem OnlyLooksUp.bind {α β : Type} {t : Transcript α} {f : α → Transcript β} (h : c.OnlyLooksUp t)
    (hf : ∀ a, t.outcome = .ok a → c.OnlyLooksUp (f a)) : c.OnlyLooksUp (t >>= f) := by
  intro e he
  rcases Transcript.mem_events_bind he with he | ⟨a, ht, he⟩
  · exact h e he
  · exact hf a ht e he

theorem OnlyLooksUp.nil {α : Type} (outcome : Except Stop α) : c.OnlyLooksUp ⟨[], outcome⟩ :=
  fun _ he => absurd he List.not_mem_nil

/-- A look-up writes nothing and calls no helper. -/
theorem IsLookUp.piece?_call? {e : Event} (h : c.IsLookUp e) : e.piece? = none ∧ e.call? = none := by
  cases e with
  | asked | opened => exact ⟨rfl, rfl⟩
  | called | wrote => exact h.elim

/-- Nothing is written by looking up. -/
theorem OnlyLooksUp.pieces {α : Type} {t : Transcript α} (h : c.OnlyLooksUp t) : t.pieces = [] :=
  List.filterMap_eq_nil_iff.mpr fun e he => (h e he).piece?_call?.1

theorem OnlyLooksUp.calls {α : Type} {t : Transcript α} (h : c.OnlyLooksUp t) : t.calls = [] :=
  List.filterMap_eq_nil_iff.mpr fun e he => (h e he).piece?_call?.2

/-- Roots are asked one after the other, until one has an answer. -/
theorem onlyLooksUp_search (path : String) (roots : List (String × Root)) : c.OnlyLooksUp (search path roots) := by
  induction roots with
  | nil => exact .nil _
  | cons root rest ih =>
    have hasked : c.OnlyLooksUp (Transcript.emit (.asked root.1 path)) := by
      intro e he
      obtain rfl := List.mem_singleton.mp he
      trivial
    refine hasked.bind fun _ _ => ?_
    split
    · exact .nil _
    · exact ih
    · split <;> exact .nil _

theorem onlyLooksUp_load (key : Key) : c.OnlyLooksUp (c.load key) := by
  unfold load
  split
  · exact .nil _
  · refine (onlyLooksUp_search _ _).bind fun found _ => ?_
    cases found <;> exact .nil _

/-- A template that is found has been opened, also if it was on the shelf. -/
theorem onlyLooksUp_find (key : Key) : c.OnlyLooksUp (c.find key) := by
  have hopened : ∀ {found}, (c.find key).outcome = .ok found →
      c.OnlyLooksUp ⟨[.opened key found], Except.ok found⟩ := by
    intro found h e he
    obtain rfl := List.mem_singleton.mp he
    exact h
  rcases hpath : isTemplatePath key.path
  · rw [find_of_invalid hpath]
    exact .nil _
  · rcases h : c.shelf.lookup key with _ | shelved
    · rw [find_of_not_shelved hpath h]
      refine (onlyLooksUp_load key).bind fun found hfound => hopened ?_
      exact find_eq_ok_iff.mpr ⟨hpath, .inr ⟨h, hfound⟩⟩
    · rw [find_of_shelved hpath h]
      exact hopened (by rw [find_of_shelved hpath h])

/-- On the way up templates are found, by induction on how many more there can be. -/
theorem onlyLooksUp_climb (theme : Option String) (fuel : Nat) (below : List Loaded) (current : Loaded) :
    c.OnlyLooksUp (Lineage.climb (fun path => c.find ⟨path, theme⟩) fuel below current) := by
  induction fuel generalizing below current with
  | zero => exact .nil _
  | succ fuel ih =>
    rw [Lineage.climb]
    split
    · exact .nil _
    · refine (onlyLooksUp_find _).bind fun parent _ => ?_
      dsimp only
      split
      · exact .nil _
      · exact (ih _ _).bind fun _ _ => .nil _

theorem onlyLooksUp_lineageOf (theme : Option String) (leaf : Loaded) :
    c.OnlyLooksUp (c.lineageOf theme leaf) :=
  (onlyLooksUp_climb theme _ _ _).bind fun _ _ => .nil _

theorem onlyLooksUp_lineage (key : Key) : c.OnlyLooksUp (c.lineage key) :=
  (onlyLooksUp_find key).bind fun leaf _ => onlyLooksUp_lineageOf _ leaf

theorem onlyLooksUp_layout (key : Key) : c.OnlyLooksUp (c.layout key) := by
  intro e he
  rw [layout, Transcript.events_map] at he
  exact onlyLooksUp_lineage key e he

/-! ## What does not go wrong

An error that only rendering can come to has not to do with any root, so it can be told from those of looking up. -/

/-- The transcript does not end as only the rendering of templates can. -/
def RendersNothing {α : Type} (t : Transcript α) : Prop :=
  ∀ stop, t.outcome = .error stop → stop.isRendering = false

theorem RendersNothing.ok {α : Type} (events : List Event) (a : α) :
    RendersNothing (⟨events, .ok a⟩ : Transcript α) := fun _ h => by cases h

theorem RendersNothing.fail {α : Type} {e : Error} (h : (Stop.error e).isRendering = false) :
    RendersNothing (Transcript.fail e : Transcript α) := by
  rintro _ ⟨⟩
  exact h

/-- In a sequence nothing is rendered if it is not in either part. -/
theorem RendersNothing.bind {α β : Type} {t : Transcript α} {f : α → Transcript β} (h : RendersNothing t)
    (hf : ∀ a, RendersNothing (f a)) : RendersNothing (t >>= f) := by
  intro stop hstop
  rcases Transcript.outcome_bind_eq_error.mp hstop with hstop | ⟨a, -, hstop⟩
  · exact h stop hstop
  · exact hf a stop hstop

/-- A source that can not be read is an error of its own kind. -/
theorem isRendering_of_read {name : String} {source : Bytes} {e : Error} (h : Template.read name source = .error e) :
    (Stop.error e).isRendering = false := by
  unfold Template.read at h
  split at h
  · split at h
    · cases h
    · next flaw _ =>
      obtain rfl := Except.error.inj h
      cases flaw <;> rfl
  all_goals
    obtain rfl := Except.error.inj h
    rfl

theorem search_rendersNothing (path : String) (roots : List (String × Root)) :
    RendersNothing (search path roots) := by
  induction roots with
  | nil => exact .ok _ _
  | cons root rest ih =>
    refine .bind (.ok _ _) fun _ => ?_
    split
    · exact .fail rfl
    · exact ih
    · split
      · exact .ok _ _
      · next h => exact .fail (isRendering_of_read h)

theorem load_rendersNothing (key : Key) : RendersNothing (c.load key) := by
  unfold load
  split
  · exact .fail rfl
  · refine .bind (search_rendersNothing _ _) fun found => ?_
    cases found with
    | none => exact .fail rfl
    | some found => exact .ok _ _

theorem find_rendersNothing (key : Key) : RendersNothing (c.find key) := by
  rcases hpath : isTemplatePath key.path
  · rw [find_of_invalid hpath]
    exact .fail rfl
  · rcases h : c.shelf.lookup key with _ | shelved
    · rw [find_of_not_shelved hpath h]
      exact .bind (load_rendersNothing key) fun _ => .ok _ _
    · rw [find_of_shelved hpath h]
      exact .ok _ _

/-- What goes wrong on the way up is that a parent is not found, or was met before. -/
theorem climb_rendersNothing (theme : Option String) (fuel : Nat) (below : List Loaded) (current : Loaded) :
    RendersNothing (Lineage.climb (fun path => c.find ⟨path, theme⟩) fuel below current) := by
  induction fuel generalizing below current with
  | zero =>
    rintro _ ⟨⟩
    rfl
  | succ fuel ih =>
    rw [Lineage.climb]
    split
    · exact .ok _ _
    · refine .bind (find_rendersNothing _) fun parent => ?_
      dsimp only
      split
      · exact .fail rfl
      · exact .bind (ih _ _) fun _ => .ok _ _

/-- Looking up a layout never ends as only the rendering of templates can. -/
theorem layout_rendersNothing (key : Key) : RendersNothing (c.layout key) := by
  rw [layout, map_eq_pure_bind]
  refine .bind (.bind (find_rendersNothing key) fun leaf => ?_) fun _ => .ok _ _
  exact .bind (climb_rendersNothing key.theme _ _ _) fun _ => .ok _ _

/-! ## Every lineage has an end

The way up is bounded, and the bound is never reached. For this the templates that were met are counted: they are
different, for otherwise there would have been an error, and all of them can be found, of which there are only so
many. -/

theorem search_ne_endless (path : String) (roots : List (String × Root)) :
    (search path roots).outcome ≠ .error .endless := by
  induction roots with
  | nil => simp [search]
  | cons root rest ih =>
    rw [search, Transcript.bind_of_ok rfl]
    dsimp only
    split
    · simp
    · exact ih
    · split <;> simp

theorem load_ne_endless (key : Key) : (c.load key).outcome ≠ .error .endless := by
  unfold load
  split
  · simp
  · rw [Ne, Transcript.outcome_bind_eq_error]
    rintro (h | ⟨found, -, h⟩)
    · exact search_ne_endless _ _ h
    · cases found <;> simp at h

/-- Finding a single template ends. -/
theorem find_ne_endless (key : Key) : (c.find key).outcome ≠ .error .endless := by
  rcases hpath : isTemplatePath key.path
  · simp [find_of_invalid hpath]
  · rcases h : c.shelf.lookup key with _ | shelved
    · rw [find_of_not_shelved hpath h, Ne, Transcript.outcome_bind_eq_error]
      rintro (h | ⟨found, -, h⟩)
      · exact load_ne_endless key h
      · cases h
    · simp [find_of_shelved hpath h]

/-- What a search finds is read from one of the roots, under the path that was searched for. -/
theorem exists_root_of_search {path : String} {roots : List (String × Root)}
    (h : (search path roots).outcome = .ok (some found)) :
    ∃ root ∈ roots, found.origin = ⟨root.1, path⟩ ∧
      ∃ source, root.2.load path = .ok (some source) ∧ Template.read path (Utf8.bytes source) = .ok found.template := by
  induction roots with
  | nil => simp [search] at h
  | cons root rest ih =>
    rw [search, Transcript.bind_of_ok rfl] at h
    dsimp only at h
    split at h
    · simp at h
    · obtain ⟨root', hmem, hfound⟩ := ih h
      exact ⟨root', List.mem_cons_of_mem _ hmem, hfound⟩
    · next source hload =>
      split at h
      · next hread =>
        obtain rfl : _ = found := by simpa using h
        exact ⟨root, List.mem_cons_self, rfl, source, hload, hread⟩
      · simp at h

/-- What is loaded is read from one of the roots to look in, under its path. -/
theorem exists_root_of_load (h : (c.load key).outcome = .ok found) :
    ∃ roots, c.roots? key.theme = some roots ∧
      ∃ root ∈ roots, found.origin = ⟨root.1, key.path⟩ ∧
        ∃ source, root.2.load key.path = .ok (some source) ∧
          Template.read key.path (Utf8.bytes source) = .ok found.template := by
  unfold load at h
  split at h
  · simp at h
  · next roots hroots =>
    obtain ⟨found?, hsearch, hfound⟩ := Transcript.outcome_bind_eq_ok.mp h
    cases found? with
    | none => simp at hfound
    | some found' =>
      obtain rfl : found' = found := by simpa using hfound
      exact ⟨roots, hroots, exists_root_of_search hsearch⟩

/-- A template that extends nothing has no ancestors. -/
theorem lineage_of_parentless (h : (c.find key).outcome = .ok found) (hparent : found.template.parent = none) :
    (c.lineage key).outcome = .ok ⟨found, []⟩ := by
  rw [lineage, Transcript.bind_of_ok h, lineageOf, Lineage.ofLeaf, Lineage.climb, hparent]
  rfl

theorem extents_append (roots roots' : List (String × Root)) :
    Root.extents (roots ++ roots') = Root.extents roots + Root.extents roots' := by
  induction roots with
  | nil => exact (Nat.zero_add _).symm
  | cons root rest ih => rw [List.cons_append, Root.extents, Root.extents, ih, Nat.add_assoc]

/-- The extents of the roots to look in are part of the extent of the catalog. -/
theorem extents_roots_le {theme : Option String} {roots : List (String × Root)}
    (h : c.roots? theme = some roots) : Root.extents roots + c.shelf.length ≤ c.extent := by
  cases theme with
  | none =>
    obtain rfl : [(Root.defaultName, c.base)] = roots := by simpa [roots?] using h
    simp [extent, Root.extents]
  | some theme =>
    rcases hget : c.themes.get? theme with _ | root
    · simp [roots?, hget] at h
    · obtain rfl : [(theme, root), (Root.defaultName, c.base)] = roots := by simpa [roots?, hget] using h
      obtain ⟨before, after, hthemes, -⟩ := List.lookup_eq_some_iff.mp hget
      simp only [extent, hthemes, extents_append, Root.extents]
      omega

/-- In some roots, no more templates can be found than their extents say. -/
theorem exists_origins_of_roots (roots : List (String × Root)) :
    ∃ origins : List Origin, origins.length ≤ Root.extents roots ∧
      ∀ root ∈ roots, ∀ path, isTemplatePath path = true → root.2.load path ≠ .ok none →
        ⟨root.1, path⟩ ∈ origins := by
  induction roots with
  | nil => exact ⟨[], by simp, by simp⟩
  | cons root rest ih =>
    obtain ⟨origins, hlength, horigins⟩ := ih
    obtain ⟨paths, hpaths, hmem⟩ := root.2.bounded
    refine ⟨paths.map (Origin.mk root.1) ++ origins, ?_, ?_⟩
    · rw [List.length_append, List.length_map, Root.extents]
      omega
    · intro root' hroot path hpath hload
      rcases List.mem_cons.mp hroot with rfl | hroot
      · exact List.mem_append_left _ (List.mem_map.mpr ⟨path, hmem path hpath hload, rfl⟩)
      · exact List.mem_append_right _ (horigins root' hroot path hpath hload)

/-- Under a theme, no more templates can be found than the extent of the catalog says. -/
theorem exists_origins (c : Catalog) (theme : Option String) :
    ∃ origins : List Origin, origins.length ≤ c.extent ∧
      ∀ path found, (c.find ⟨path, theme⟩).outcome = .ok found → found.origin ∈ origins := by
  -- what was found before comes from the shelf, and only finitely much is there
  have hshelved : ∀ {key : Key} {found : Loaded}, (c.shelf.lookup key).map Shelved.found = some found →
      found.origin ∈ c.shelf.map (·.2.found.origin) := by
    intro key found h
    obtain ⟨shelved, hlookup, rfl⟩ := Option.map_eq_some_iff.mp h
    obtain ⟨before, after, hshelf, -⟩ := List.lookup_eq_some_iff.mp hlookup
    simp [hshelf]
  rcases hroots : c.roots? theme with _ | roots
  · refine ⟨c.shelf.map (·.2.found.origin), by simp [extent], fun path found h => ?_⟩
    -- without such a theme nothing can be loaded
    obtain ⟨-, h | ⟨-, h⟩⟩ := find_eq_ok_iff.mp h
    · exact hshelved h
    · obtain ⟨roots, hsome, -⟩ := exists_root_of_load h
      rw [hroots] at hsome
      cases hsome
  · obtain ⟨origins, hlength, horigins⟩ := exists_origins_of_roots roots
    refine ⟨origins ++ c.shelf.map (·.2.found.origin), ?_, fun path found h => ?_⟩
    · have := extents_roots_le hroots
      simp only [List.length_append, List.length_map]
      omega
    · obtain ⟨hpath, h | ⟨-, h⟩⟩ := find_eq_ok_iff.mp h
      · exact List.mem_append_right _ (hshelved h)
      · obtain ⟨roots', hsome, root, hroot, horigin, source, hload, -⟩ := exists_root_of_load h
        obtain rfl : roots = roots' := Option.some.inj (hroots.symm.trans hsome)
        rw [horigin]
        exact List.mem_append_left _ (horigins root hroot path hpath (by simp [hload]))

/-- The templates are all different, and each is among those that can be found. -/
structure Met (origins : List Origin) (ts : List Loaded) : Prop where
  nodup : (ts.map (·.origin)).Nodup
  mem : ∀ t ∈ ts, t.origin ∈ origins

theorem Met.nil (origins : List Origin) : Met origins [] := ⟨List.nodup_nil, fun _ h => absurd h List.not_mem_nil⟩

theorem Met.length_le {origins : List Origin} {ts : List Loaded} (h : Met origins ts) : ts.length ≤ origins.length := by
  have hsubset : ts.map (·.origin) ⊆ origins := by
    intro origin horigin
    obtain ⟨t, ht, rfl⟩ := List.mem_map.mp horigin
    exact h.mem t ht
  simpa using (List.subperm_of_subset h.nodup hsubset).length_le

/-- A template that was not met before is one more. -/
theorem Met.concat {origins : List Origin} {ts : List Loaded} (h : Met origins ts) {t : Loaded}
    (hnew : ∀ t' ∈ ts, t'.origin ≠ t.origin) (ht : t.origin ∈ origins) : Met origins (ts ++ [t]) where
  nodup := by
    have hnotin : t.origin ∉ ts.map (·.origin) := fun hold =>
      have ⟨t', ht', horigin⟩ := List.mem_map.mp hold
      hnew t' ht' horigin
    rw [List.map_append, List.nodup_append']
    exact ⟨h.nodup, List.nodup_singleton _, by simpa using hnotin⟩
  mem t' ht' := by
    rcases List.mem_append.mp ht' with ht' | ht'
    · exact h.mem t' ht'
    · obtain rfl := List.mem_singleton.mp ht'
      exact ht

/-- The way up ends: with each parent there is one template more below, and all of those but the leaf are among the
templates that can be found. -/
theorem climb_ne_endless {theme : Option String} {origins : List Origin}
    (horigins : ∀ path found, (c.find ⟨path, theme⟩).outcome = .ok found → found.origin ∈ origins)
    (fuel : Nat) {leaf current : Loaded} {below between : List Loaded} (hbelow : below ++ [current] = leaf :: between)
    (hfuel : origins.length + 2 ≤ fuel + below.length) (hmet : Met origins between) :
    (Lineage.climb (fun path => c.find ⟨path, theme⟩) fuel below current).outcome ≠ .error .endless := by
  have hsame : below.length = between.length := by simpa using congrArg List.length hbelow
  induction fuel generalizing below between current with
  | zero =>
    have hlength := hmet.length_le
    omega
  | succ fuel ih =>
    rw [Lineage.climb]
    split
    · simp
    · next path _ =>
      rw [Ne, Transcript.outcome_bind_eq_error]
      rintro (h | ⟨parent, hfind, h⟩)
      · exact find_ne_endless _ h
      · dsimp only at h
        rw [hbelow] at h
        split at h
        · simp at h
        · next hnew =>
          -- the parent was not met before, or else there would have been an error
          have hparent : ∀ t ∈ between, t.origin ≠ parent.origin := fun t ht horigin =>
            hnew (List.any_eq_true.mpr ⟨t, List.mem_cons_of_mem _ ht, by simpa using horigin⟩)
          have hmet' := hmet.concat hparent (horigins path parent hfind)
          rcases Transcript.outcome_bind_eq_error.mp h with h | ⟨_, -, h⟩
          · refine ih rfl ?_ hmet' ?_ h
            · rw [List.length_cons]
              omega
            · rw [List.length_cons, List.length_append, List.length_singleton]
          · cases h

/-- **Every lineage has an end:** the bound is greater than the number of all templates. -/
theorem lineageOf_ne_endless (c : Catalog) (theme : Option String) (leaf : Loaded) :
    (c.lineageOf theme leaf).outcome ≠ .error .endless := by
  obtain ⟨origins, hlength, horigins⟩ := c.exists_origins theme
  rw [lineageOf, Lineage.ofLeaf, Ne, Transcript.outcome_bind_eq_error]
  rintro (h | ⟨_, -, h⟩)
  · have hleaf : [] ++ [leaf] = leaf :: [] := rfl
    exact climb_ne_endless horigins (c.extent + 2) hleaf (by rw [List.length_nil]; omega) (.nil _) h
  · cases h

/-- The way up is the same whatever the bound on it, if it is long enough. -/
theorem climb_below (find : String → Transcript Loaded) {fuel fuel' : Nat} (h : fuel ≤ fuel') (below : List Loaded)
    (current : Loaded) : (Lineage.climb find fuel below current).Below (Lineage.climb find fuel' below current) := by
  induction fuel generalizing fuel' below current with
  | zero => exact .inl rfl
  | succ fuel ih =>
    obtain ⟨fuel', rfl⟩ : ∃ f, fuel' = f + 1 := ⟨fuel' - 1, by omega⟩
    rw [Lineage.climb, Lineage.climb]
    cases current.template.parent with
    | none => exact .refl _
    | some path =>
      refine .bind (.refl _) fun parent _ => ?_
      dsimp only
      split
      · exact .refl _
      · exact (ih (Nat.le_of_succ_le_succ h) _ _).bind fun _ _ => .refl _

/-- So the bound may be greater than it is, and nothing changes. -/
theorem lineageOf_eq (c : Catalog) (theme : Option String) (leaf : Loaded) {fuel : Nat} (h : c.extent + 2 ≤ fuel) :
    c.lineageOf theme leaf =
      Lineage.mk leaf <$> Lineage.climb (fun path => c.find ⟨path, theme⟩) fuel [] leaf := by
  have hbelow := (climb_below (fun path => c.find ⟨path, theme⟩) h [] leaf).bind
    (f := fun ancestors => pure (Lineage.mk leaf ancestors)) fun _ _ => .refl _
  rw [map_eq_pure_bind]
  exact hbelow.eq (lineageOf_ne_endless c theme leaf)

section

variable {c' : Catalog} {theme : Option String}

/-- What is found under a theme decides about lineages. -/
theorem lineageOf_congr (h : ∀ path, c.find ⟨path, theme⟩ = c'.find ⟨path, theme⟩) (leaf : Loaded) :
    c.lineageOf theme leaf = c'.lineageOf theme leaf := by
  have hfind : (fun path => c.find ⟨path, theme⟩) = fun path => c'.find ⟨path, theme⟩ := funext h
  rw [lineageOf_eq c theme leaf (Nat.le_max_left _ (c'.extent + 2)),
    lineageOf_eq c' theme leaf (Nat.le_max_right (c.extent + 2) _), hfind]

/-- If the same templates are found, the same lineages are. -/
theorem lineage_congr (h : ∀ path, c.find ⟨path, theme⟩ = c'.find ⟨path, theme⟩) (path : String) :
    c.lineage ⟨path, theme⟩ = c'.lineage ⟨path, theme⟩ := by
  rw [lineage, lineage, h path]
  exact bind_congr (lineageOf_congr h)

/-- It decides about layouts, too. -/
theorem layout_congr (h : ∀ path, c.find ⟨path, theme⟩ = c'.find ⟨path, theme⟩) (path : String) :
    c.layout ⟨path, theme⟩ = c'.layout ⟨path, theme⟩ :=
  congrArg (Lineage.layout <$> ·) (lineage_congr h path)

end

/-- Finding a lineage ends, from the leaf on. -/
theorem lineage_ne_endless (c : Catalog) (key : Key) : (c.lineage key).outcome ≠ .error .endless := by
  rw [lineage, Ne, Transcript.outcome_bind_eq_error]
  rintro (h | ⟨leaf, -, h⟩)
  · exact find_ne_endless key h
  · exact lineageOf_ne_endless c _ leaf h

theorem layout_ne_endless (c : Catalog) (key : Key) : (c.layout key).outcome ≠ .error .endless := by
  rw [layout, Transcript.outcome_map]
  intro h
  rcases hlineage : (c.lineage key).outcome with stop | l
  · rw [hlineage] at h
    cases h
    exact lineage_ne_endless c key hlineage
  · rw [hlineage] at h
    cases h

end Catalog

end ThemedPages
