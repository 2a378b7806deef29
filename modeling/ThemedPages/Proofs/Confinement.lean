import ThemedPages.Disk.Tree
import ThemedPages.Proofs.Ascents
import ThemedPages.Proofs.Endings
import ThemedPages.Proofs.Histories

/-!
# Templates stay in their roots

Templates name other templates by paths that are written in them, and so does whoever asks for a page. A root is only
ever asked for paths that lead down from where it is.

* `LeadsDown` says which paths these are, and `Disk.LiesBelow` where the files are that they lead to.
* `Operation.leadsDown_of_asked`: whatever is done with a site, roots are asked for such paths only.
* `Catalog.LooksFor` says which paths are looked for on the way to a layout, and `Site.LooksFor` which on the way to a
  page. `Site.refuses_of_not_leadsDown`: if one of them does not lead down, that is the error.
* `Site.sameWork_change`: what roots have elsewhere makes no difference.
* `Site.confined` puts this together.

There is one place where a path is checked, and it comes before the shelf and the roots are looked at. So what a root is
asked for has passed the check, and this is seen in the search alone; all that is done with a site besides is carried
along by a likeness that looks at nothing but what is asked for.
-/

namespace ThemedPages

/-! ## Paths that lead down

The check is a computation on the characters of a path. `LeadsDown` says in words what it comes to: there is no
backslash, and each part between slashes is a name. -/

/-- The path leads down from where it begins: it is not empty, it has no backslash, and all its parts are names. -/
structure LeadsDown (path : String) : Prop where
  /-- it is not empty -/
  ne_empty : path ≠ ""
  /-- there is no backslash in it -/
  backslash : '\\' ∉ path.toList
  /-- no part is empty, or a point, or two points -/
  parts : ∀ part ∈ splitAtChar '/' path.toList, part ≠ [] ∧ part ≠ ['.'] ∧ part ≠ ['.', '.']

/-- A path is accepted exactly if it leads down. -/
theorem isTemplatePath_iff {path : String} : isTemplatePath path = true ↔ LeadsDown path := by
  have hparts : (splitAtChar '/' path.toList).all isStep = true ↔
      ∀ part ∈ splitAtChar '/' path.toList, part ≠ [] ∧ part ≠ ['.'] ∧ part ≠ ['.', '.'] := by
    simp [isStep, and_assoc]
  rw [isTemplatePath, Bool.and_eq_true, hparts]
  constructor
  · rintro ⟨hbackslash, hparts⟩
    refine ⟨?_, by simpa using hbackslash, hparts⟩
    rintro rfl
    exact (hparts [] List.mem_cons_self).1 rfl
  · exact fun h => ⟨by simpa using h.backslash, h.parts⟩

theorem isTemplatePath_eq_false {path : String} (h : ¬LeadsDown path) : isTemplatePath path = false :=
  Bool.eq_false_iff.mpr fun hpath => h (isTemplatePath_iff.mp hpath)

/-! ## Files in a directory

The file of a template is the directory with the path behind it. Since each part of the path is a name, no part of it
leads up again or is skipped, so different paths are different files and all of them are below. -/

namespace Disk

variable {path : String}

/-- The file of a template has the path of the template after that of the directory, and a slash between the two unless
there is one, or nothing before it. -/
theorem ofTemplate_eq (h : LeadsDown path) (dir : String) :
    Path.ofTemplate dir path = (if dir = "" ∨ dir.toList.getLast? = some '/' then dir else dir ++ "/") ++ path := by
  refine String.toList_injective ?_
  rw [toList_ofTemplate (isTemplatePath_iff.mpr h), Path.lead]
  split <;> simp

/-- Different templates have different files. -/
theorem ofTemplate_injective {path' : String} (h : LeadsDown path) (h' : LeadsDown path') {dir : String}
    (heq : Path.ofTemplate dir path = Path.ofTemplate dir path') : path = path' := by
  rw [← ofList_drop_ofTemplate (isTemplatePath_iff.mpr h) dir, heq,
    ofList_drop_ofTemplate (isTemplatePath_iff.mpr h') dir]

theorem not_staysPut (h : LeadsDown path) : ∀ part ∈ splitAtChar '/' path.toList, Path.staysPut part = false := by
  intro part hpart
  obtain ⟨hempty, hpoint, -⟩ := h.parts part hpart
  simp [Path.staysPut, hempty, hpoint]

/-- The file of a template is below the directory: the names on the way to it are those on the way to the directory, and
then the parts of the path. -/
theorem names_ofTemplate (h : LeadsDown path) (dir : String) :
    FileTree.names (Path.ofTemplate dir path) =
      FileTree.names dir ++ (splitAtChar '/' path.toList).map String.ofList := by
  have hpath : ((splitAtChar '/' path.toList).filter fun part => !Path.staysPut part) = splitAtChar '/' path.toList :=
    List.filter_eq_self.mpr fun part hpart => by rw [not_staysPut h part hpart]; rfl
  rw [FileTree.names, FileTree.names, toList_ofTemplate (isTemplatePath_iff.mpr h), ← List.map_append]
  refine congrArg _ ?_
  by_cases hdir : dir = ""
  · rw [hdir, Path.lead, if_pos (.inl rfl)]
    exact hpath
  · by_cases hlast : dir.toList.getLast? = some '/'
    · -- what the directory ends in makes no part that leads anywhere
      obtain ⟨chars, hchars⟩ := List.getLast?_eq_some_iff.mp hlast
      rw [Path.lead, if_pos (.inr hlast), hchars, List.append_assoc, List.singleton_append, splitAtChar_append_cons,
        splitAtChar_append_cons, List.filter_append, List.filter_append, hpath]
      exact congrArg (· ++ _) (List.append_nil _).symm
    · rw [Path.lead, if_neg (not_or.mpr ⟨hdir, hlast⟩), List.append_assoc, List.singleton_append,
        splitAtChar_append_cons, List.filter_append, hpath]

/-- The file of the template at a path is below the directory that the templates are in. -/
structure LiesBelow (dir path : String) : Prop where
  /-- its path is that of the template after that of the directory, with a slash between the two unless there is one or
  nothing before it -/
  file : Path.ofTemplate dir path = (if dir = "" ∨ dir.toList.getLast? = some '/' then dir else dir ++ "/") ++ path
  /-- it begins where the directory's path does -/
  absolute : Path.isAbsolute (Path.ofTemplate dir path) = Path.isAbsolute dir
  /-- it leads through the directory and then down, for the parts of the path are names -/
  names : FileTree.names (Path.ofTemplate dir path) =
    FileTree.names dir ++ (splitAtChar '/' path.toList).map String.ofList
  /-- it is not the file of another template -/
  only {path' : String} (h : LeadsDown path') (heq : Path.ofTemplate dir path' = Path.ofTemplate dir path) :
    path' = path
  /-- no other file is read -/
  reads {disk disk' : Disk} (h : disk.read (Path.ofTemplate dir path) = disk'.read (Path.ofTemplate dir path)) :
    (disk.root dir).load path = (disk'.root dir).load path

end Disk

/-- **The file of a path that leads down is below the directory.** -/
theorem LeadsDown.liesBelow {path : String} (h : LeadsDown path) (dir : String) : Disk.LiesBelow dir path where
  file := Disk.ofTemplate_eq h dir
  absolute := Disk.isAbsolute_ofTemplate (isTemplatePath_iff.mpr h) dir
  names := Disk.names_ofTemplate h dir
  only h' heq := Disk.ofTemplate_injective h' h heq
  reads hread := by
    simp only [Disk.root]
    rw [hread]

/-! ## What roots are asked for

From the search in roots to everything that is done with a site. -/

namespace Catalog

variable {c : Catalog} {e : Event}

/-- A search asks for the one path. -/
theorem eq_of_asked_of_search {root path path' : String} {roots : List (String × Root)}
    (h : .asked root path' ∈ (search path roots).events) : path' = path := by
  induction roots with
  | nil => cases h
  | cons first rest ih =>
    rw [search] at h
    rcases Transcript.mem_events_bind h with h | ⟨-, -, h⟩
    · cases List.mem_singleton.mp h
      rfl
    · split at h
      · cases h
      · exact ih h
      · split at h <;> cases h

theorem eq_of_asked_of_load {key : Key} {root path : String} (h : .asked root path ∈ (c.load key).events) :
    path = key.path := by
  rw [load] at h
  split at h
  · cases h
  · rcases Transcript.mem_events_bind h with h | ⟨found, -, h⟩
    · exact eq_of_asked_of_search h
    · cases found <;> cases h

/-- What is not on the shelf is searched for, after the check of its path. -/
theorem leadsDown_of_asked_of_find {key : Key} {root path : String} (h : .asked root path ∈ (c.find key).events) :
    LeadsDown path := by
  rcases hpath : isTemplatePath key.path
  · rw [find_of_invalid hpath] at h
    cases h
  · rcases hshelf : c.shelf.lookup key with _ | shelved
    · rw [find_of_not_shelved hpath hshelf] at h
      rcases Transcript.mem_events_bind h with h | ⟨found, -, h⟩
      · obtain rfl := eq_of_asked_of_load h
        exact isTemplatePath_iff.mp hpath
      · cases List.mem_singleton.mp h
    · rw [find_of_shelved hpath hshelf] at h
      cases List.mem_singleton.mp h

/-- What happens when a lineage is looked up is part of finding its templates. -/
theorem exists_find_of_mem_lineageOf {theme : Option String} {leaf : Loaded}
    (h : e ∈ (c.lineageOf theme leaf).events) : ∃ key, e ∈ (c.find key).events := by
  obtain ⟨a, -, heq⟩ := c.exists_describes_lineageOf theme leaf
  rw [heq] at h
  obtain ⟨t, -, ht⟩ := List.mem_flatMap.mp h
  cases hparent : t.template.parent with
  | none =>
    rw [hparent] at ht
    cases ht
  | some path =>
    rw [hparent] at ht
    exact ⟨_, ht⟩

/-- What happens on the way to a lineage happens when one of its templates is looked for. -/
theorem exists_find_of_mem_lineage {key : Key} (h : e ∈ (c.lineage key).events) : ∃ key, e ∈ (c.find key).events := by
  rcases Transcript.mem_events_bind h with h | ⟨leaf, -, h⟩
  · exact ⟨key, h⟩
  · exact exists_find_of_mem_lineageOf h

end Catalog

/-- Roots are asked only for paths that lead down. -/
def EventLikeness.leadingDown : EventLikeness where
  events es _ := ∀ root path, .asked root path ∈ es → LeadsDown path
  nil _ _ he := absurd he List.not_mem_nil
  append h h' root path he := (List.mem_append.mp he).elim (h root path) (h' root path)
  called _ _ _ he := by cases List.mem_singleton.mp he
  wrote _ _ _ he := by cases List.mem_singleton.mp he

/-- The likeness of what asks only for paths that lead down. -/
def Likeness.leadingDown : Likeness := ⟨.leadingDown, .same⟩

/-- A layout asks for paths that lead down. -/
theorem Catalog.layout_leadingDown (c : Catalog) (key : Key) :
    Likeness.leadingDown.Like Likeness.leadingDown.Layouts (c.layout key) (c.layout key) := by
  refine ⟨fun root path he => ?_, ?_⟩
  · rw [layout, Transcript.events_map] at he
    obtain ⟨_, he⟩ := exists_find_of_mem_lineage he
    exact leadsDown_of_asked_of_find he
  · rcases (c.layout key).outcome with stop | l
    · exact rfl
    · exact .refl (fun _ => rfl) l

namespace Operation

variable {site : Site} {op : Operation} {root path : String}

/-- So does a page, since the rest of a page asks for nothing. -/
theorem leadsDown_of_asked_of_deliver {σ : Type} {request : Request} {page : String} {context : Context}
    {sink : Sink σ} {st : σ} (h : .asked root path ∈ (site.deliver request page context sink st).events) :
    LeadsDown path := by
  have hfinds : Site.Finds .leadingDown site site request request :=
    ⟨.refl request, rfl, fun _ => site.catalog.layout_leadingDown _, fun _ => rfl⟩
  have hlike := hfinds.snippetAt_like ((sink.room st).getD 0 + 1) (site.snippetLimit + 1) page context
  rw [Site.deliver, Run.deliver_eq] at h
  exact hlike.events root path ((Sink.taken_feed_prefix _ _).subset h)

/-- Whatever is done, roots are asked only for paths that lead down. -/
theorem leadsDown_of_asked (h : .asked root path ∈ op.events site) : LeadsDown path := by
  cases op with
  | find key => exact Catalog.leadsDown_of_asked_of_find h
  | lineage key =>
    obtain ⟨_, h⟩ := Catalog.exists_find_of_mem_lineage h
    exact Catalog.leadsDown_of_asked_of_find h
  | lineageOf theme leaf =>
    obtain ⟨_, h⟩ := Catalog.exists_find_of_mem_lineageOf h
    exact Catalog.leadsDown_of_asked_of_find h
  | deliver request page context sink st => exact leadsDown_of_asked_of_deliver h
  | addTheme | forget | change => exact absurd h List.not_mem_nil

end Operation

/-- What happens in the course of a history, which begins with a site. -/
def Site.eventsOf (start : Site) : List Operation → List Event
  | [] => []
  | op :: past => start.eventsOf past ++ op.events (start.run past)

theorem Site.leadsDown_of_asked {start : Site} {history : List Operation} {root path : String}
    (h : .asked root path ∈ start.eventsOf history) : LeadsDown path := by
  induction history with
  | nil => cases h
  | cons op past ih =>
    rcases List.mem_append.mp h with h | h
    · exact ih h
    · exact Operation.leadsDown_of_asked h

/-! ## What comes of other paths

A path that does not lead down is an error in itself. It is that error of everything that comes to it, as nothing on
the way takes its place. -/

namespace Catalog

variable {c : Catalog} {key : Key} {path : String}

/-- Nothing is asked for such a path, and nothing is found. -/
theorem find_of_not_leadsDown (h : ¬LeadsDown path) (theme : Option String) :
    c.find ⟨path, theme⟩ = Transcript.fail (.invalidPath path) :=
  find_of_invalid (isTemplatePath_eq_false h)

theorem lineage_of_not_leadsDown (h : ¬LeadsDown path) (theme : Option String) :
    c.lineage ⟨path, theme⟩ = Transcript.fail (.invalidPath path) := by
  rw [lineage, find_of_not_leadsDown h, Transcript.fail_bind]

/-- That error has nothing to do with what is in a source. -/
theorem ne_invalidPath_of_read {name : String} {source : Bytes} {e : Error} (h : Template.read name source = .error e)
    (path : String) : e ≠ .invalidPath path := by
  unfold Template.read at h
  split at h
  · split at h
    · cases h
    · next flaw _ =>
      obtain rfl := Except.error.inj h
      cases flaw <;> exact Error.noConfusion
  all_goals
    obtain rfl := Except.error.inj h
    exact Error.noConfusion

theorem search_ne_invalidPath (name : String) (roots : List (String × Root)) (path : String) :
    (search name roots).outcome ≠ .error (.error (.invalidPath path)) := by
  induction roots with
  | nil => simp [search]
  | cons root rest ih =>
    rw [search, Transcript.bind_of_ok rfl]
    dsimp only
    split
    · simp
    · exact ih
    · split
      · simp
      · next h => simpa using ne_invalidPath_of_read h path

theorem load_ne_invalidPath (key : Key) (path : String) :
    (c.load key).outcome ≠ .error (.error (.invalidPath path)) := by
  unfold load
  split
  · simp
  · rw [Ne, Transcript.outcome_bind_eq_error]
    rintro (h | ⟨found, -, h⟩)
    · exact search_ne_invalidPath _ _ _ h
    · cases found <;> simp at h

/-- Only a path that does not lead down is not valid. -/
theorem find_eq_invalidPath_iff :
    (c.find key).outcome = .error (.error (.invalidPath path)) ↔ path = key.path ∧ ¬LeadsDown key.path := by
  by_cases hpath : LeadsDown key.path
  · have hvalid := isTemplatePath_iff.mpr hpath
    refine ⟨fun h => ?_, fun h => absurd hpath h.2⟩
    rcases hshelf : c.shelf.lookup key with _ | shelved
    · rw [find_of_not_shelved hvalid hshelf, Transcript.outcome_bind_eq_error] at h
      rcases h with h | ⟨found, -, h⟩
      · exact absurd h (load_ne_invalidPath key path)
      · cases h
    · rw [find_of_shelved hvalid hshelf] at h
      cases h
  · have hfind := congrArg Transcript.outcome (find_of_not_leadsDown (c := c) hpath key.theme)
    rw [hfind]
    simp [hpath, eq_comm]

/-- The way up breaks at a parent whose path does not lead down. -/
theorem lineageOf_of_not_leadsDown (h : ¬LeadsDown path) {theme : Option String} {leaf t : Loaded} {below : List Loaded}
    (htrail : Trail (fun path => c.find ⟨path, theme⟩) leaf (below ++ [t])) (hparent : t.template.parent = some path) :
    (c.lineageOf theme leaf).outcome = .error (.error (.invalidPath path)) := by
  have hbroken : t.parentIn (fun path => c.find ⟨path, theme⟩) = some (.error (.error (.invalidPath path))) :=
    parentIn_eq_some.mpr ⟨path, hparent, congrArg Transcript.outcome (find_of_not_leadsDown h theme)⟩
  obtain ⟨a, ha, heq⟩ := c.exists_describes_lineageOf theme leaf
  obtain rfl := ha.unique (.breaks htrail (by rw [List.getLast?_concat]; exact hbroken))
  rw [heq]
  rfl

/-- On the way to the layout for a key, a template is looked for at a path. -/
inductive LooksFor (c : Catalog) (key : Key) : String → Prop where
  /-- its own -/
  | own : LooksFor c key key.path
  /-- the parent of a template that was met on the way up -/
  | parent {leaf t : Loaded} {below : List Loaded} {path : String} (found : (c.find key).outcome = .ok leaf)
    (trail : Trail (fun path => c.find ⟨path, key.theme⟩) leaf (below ++ [t]))
    (extends' : t.template.parent = some path) : LooksFor c key path

/-- If such a path is looked for on the way to a layout, it is the error of the layout. -/
theorem LooksFor.layout_outcome (h : c.LooksFor key path) (hpath : ¬LeadsDown path) :
    (c.layout key).outcome = .error (.error (.invalidPath path)) := by
  have hlineage : (c.lineage key).outcome = .error (.error (.invalidPath path)) := by
    cases h with
    | own => exact congrArg Transcript.outcome (lineage_of_not_leadsDown hpath key.theme)
    | parent found trail extends' =>
      rw [lineage, Transcript.bind_of_ok found]
      exact lineageOf_of_not_leadsDown hpath trail extends'
  rw [layout, Transcript.outcome_map, hlineage]
  rfl

end Catalog

namespace Site

variable {site : Site} {request : Request} {path : String}

/-- For a page whose path does not lead down, nothing happens. -/
theorem deliver_of_not_leadsDown (h : ¬LeadsDown path) (context : Context) {σ : Type} (sink : Sink σ) (st : σ) :
    site.deliver request path context sink st = ⟨[], .error (.error (.invalidPath path)), st⟩ := by
  have hlayout : site.catalog.layout ⟨path, request.theme⟩ = Transcript.fail (.invalidPath path) := by
    rw [Catalog.layout, Catalog.lineage_of_not_leadsDown h]
    rfl
  have htranscript : (site.renderRounds request ((sink.room st).getD 0 + 1) path context).transcript site.catalog =
      Transcript.fail (.invalidPath path) := by
    change (site.snippetAt request _ (site.snippetLimit + 1) path context).transcript site.catalog = _
    rw [snippetAt_succ, Request.render, Run.transcript_bind, Run.transcript_layout, hlayout, Transcript.fail_bind]
  rw [deliver, Run.deliver_eq, htranscript]
  rfl

/-- A page comes to a page or snippet, itself included, on the way to whose layout a template is looked for at a
path. -/
def LooksFor (site : Site) (request : Request) (page : String) (context : Context) (path : String) : Prop :=
  ∃ left name params,
    Relation.ReflTransGen (Visit.Enters site request) (.page (site.snippetLimit + 1) page context)
      (.page (left + 1) name params) ∧
    site.catalog.LooksFor ⟨name, request.theme⟩ path

/-- Nothing on the way holds up that a path does not lead down. -/
theorem LooksFor.renderRounds_outcome {page : String} {context : Context} (h : site.LooksFor request page context path)
    (hpath : ¬LeadsDown path) {rounds : Nat} (hrounds : 0 < rounds) :
    ((site.renderRounds request rounds page context).transcript site.catalog).outcome =
      .error (.error (.invalidPath path)) := by
  obtain ⟨left, name, params, hreach, hlooks⟩ := h
  -- no expression is to blame
  have hunspoilt : (Visit.page (site.snippetLimit + 1) page context).Unspoilt site request
      (.error (.invalidPath path)) := by
    intro w _ left l nodes place _ node _ e _ origin hspoils
    cases hspoils with
    | lacks h => cases h
  exact (renderRounds_eq_error_iff hrounds Stop.noConfusion hunspoilt).mpr
    ⟨_, hreach, .lookUp left params (hlooks.layout_outcome hpath)⟩

/-- A site refuses a path: looking for a template there is that error, and whatever depends on it. -/
structure Refuses (site : Site) (path : String) : Prop where
  /-- nothing happens when a template is looked for there -/
  find (theme : Option String) : site.catalog.find ⟨path, theme⟩ = Transcript.fail (.invalidPath path)
  /-- nor for its lineage -/
  lineage (theme : Option String) : site.catalog.lineage ⟨path, theme⟩ = Transcript.fail (.invalidPath path)
  /-- nor for a page -/
  deliver (request : Request) (context : Context) {σ : Type} (sink : Sink σ) (st : σ) :
    site.deliver request path context sink st = ⟨[], .error (.error (.invalidPath path)), st⟩
  /-- no template has a lineage if it extends what is there, or if one of its ancestors does -/
  lineageOf {theme : Option String} {leaf t : Loaded} {below : List Loaded}
    (trail : Trail (fun path => site.catalog.find ⟨path, theme⟩) leaf (below ++ [t]))
    (extends' : t.template.parent = some path) :
    (site.catalog.lineageOf theme leaf).outcome = .error (.error (.invalidPath path))
  /-- no page is rendered that comes to what needs it -/
  page {request : Request} {page : String} {context : Context} (h : site.LooksFor request page context path) :
    (site.keep request page context).outcome = .error (.error (.invalidPath path)) ∧
      ∀ {σ : Type} (sink : Sink σ) (st : σ),
        (site.deliver request page context sink st).outcome = .error (.error (.invalidPath path)) ∨
          ∃ reason, (site.deliver request page context sink st).outcome = .error (.error (.io reason))

/-- **A site refuses every path that does not lead down,** whatever comes to it. -/
theorem refuses_of_not_leadsDown (site : Site) (h : ¬LeadsDown path) : site.Refuses path where
  find theme := Catalog.find_of_not_leadsDown h theme
  lineage theme := Catalog.lineage_of_not_leadsDown h theme
  deliver request context _ sink st := deliver_of_not_leadsDown h context sink st
  lineageOf trail extends' := Catalog.lineageOf_of_not_leadsDown h trail extends'
  page {request page context} hlooks := by
    refine ⟨?_, fun sink st => ?_⟩
    · rw [keep_outcome]
      exact hlooks.renderRounds_outcome h Nat.one_pos
    · rw [Site.deliver, Run.deliver_eq]
      dsimp only [Fed.outcomeOr]
      rcases (sink.feed _ st).outcome with reason | ⟨⟩
      · exact .inr ⟨reason, rfl⟩
      · exact .inl (hlooks.renderRounds_outcome h (Nat.succ_pos _))

end Site

/-! ## What roots have elsewhere

Two roots that have the same templates below them are the same for everything that is asked of them. The change may be
a different one for each root. -/

/-- The two roots have the same templates at all paths that lead down. -/
structure Root.SameBelow (root root' : Root) : Prop where
  /-- messages name them alike -/
  description : root.description = root'.description
  /-- they have the same templates, and the same reasons where one can not be read -/
  load {path : String} (h : LeadsDown path) : root.load path = root'.load path

theorem ByName.get?_map {α : Type} (f : String → α → α) (name : String) (things : ByName α) :
    get? name (things.map fun thing => (thing.1, f thing.1 thing.2)) = (get? name things).map (f name) := by
  induction things with
  | nil => rfl
  | cons first rest ih =>
    rw [get?, get?, List.map_cons, List.lookup_cons, List.lookup_cons]
    by_cases hname : name = first.1
    · rw [← hname, beq_self_eq_true]
      rfl
    · rw [beq_eq_false_iff_ne.mpr hname]
      exact ih

namespace Catalog

variable {c : Catalog} {change : String → Root → Root}

theorem roots?_withRoots (theme : Option String) :
    (c.withRoots change).roots? theme =
      (c.roots? theme).map fun roots => roots.map fun root => (root.1, change root.1 root.2) := by
  cases theme with
  | none => rfl
  | some theme =>
    rw [roots?, roots?, withRoots, ByName.get?_map]
    cases ByName.get? theme c.themes <;> rfl

variable (hchange : ∀ name root, (change name root).SameBelow root)
include hchange

/-- A search finds the same, as the path leads down. -/
theorem search_map_change {path : String} (h : LeadsDown path) (roots : List (String × Root)) :
    search path (roots.map fun root => (root.1, change root.1 root.2)) = search path roots := by
  induction roots with
  | nil => rfl
  | cons first rest ih =>
    obtain ⟨hdescription, hload⟩ := hchange first.1 first.2
    rw [List.map_cons, search, search, ih, hdescription, hload h]

theorem load_withRoots {key : Key} (h : LeadsDown key.path) : (c.withRoots change).load key = c.load key := by
  rw [load, load, roots?_withRoots]
  cases c.roots? key.theme with
  | none => rfl
  | some roots =>
    have hdescriptions : (roots.map fun root => (root.1, change root.1 root.2)).map (·.2.description) =
        roots.map (·.2.description) := by
      rw [List.map_map]
      exact List.map_congr_left fun root _ => (hchange root.1 root.2).description
    simp only [Option.map_some, search_map_change hchange h, hdescriptions]

/-- So the same is found, whatever the path is: if it does not lead down, nothing is. -/
theorem find_withRoots (key : Key) : (c.withRoots change).find key = c.find key := by
  by_cases hpath : LeadsDown key.path
  · rw [find, find, load_withRoots hchange hpath]
    rfl
  · exact (find_of_not_leadsDown hpath key.theme).trans (find_of_not_leadsDown hpath key.theme).symm

end Catalog

namespace Site

/-- The two sites do the same, and the same comes of it. -/
structure SameWork (site site' : Site) : Prop where
  /-- to find templates -/
  find (key : Key) : site.catalog.find key = site'.catalog.find key
  /-- or lineages -/
  lineage (key : Key) : site.catalog.lineage key = site'.catalog.lineage key
  /-- also those of templates that were found -/
  lineageOf (theme : Option String) (leaf : Loaded) :
    site.catalog.lineageOf theme leaf = site'.catalog.lineageOf theme leaf
  /-- to deliver pages -/
  deliver (request : Request) (path : String) (context : Context) {σ : Type} (sink : Sink σ) (st : σ) :
    site.deliver request path context sink st = site'.deliver request path context sink st

/-- What roots have at paths that do not lead down makes no difference. -/
theorem sameWork_change (site : Site) {change : String → Root → Root}
    (hchange : ∀ name root, (change name root).SameBelow root) : (site.step (.change change)).SameWork site where
  find key := Catalog.find_withRoots hchange key
  lineage key := Catalog.lineage_congr (fun _ => Catalog.find_withRoots hchange _) key.path
  lineageOf _ leaf := Catalog.lineageOf_congr (fun _ => Catalog.find_withRoots hchange _) leaf
  deliver request path context _ sink st := by
    have hlayout : ∀ path, (site.step (.change change)).catalog.layout ⟨path, request.theme⟩ =
        site.catalog.layout ⟨path, request.theme⟩ := Catalog.layout_congr fun _ => Catalog.find_withRoots hchange _
    have hlimit : (site.step (.change change)).snippetLimit = site.snippetLimit := rfl
    exact deliver_congr hlimit hlayout path context sink st

/-! ## The law -/

/-- Templates stay in their roots, in any history of operations.

Roots are only ever asked for paths that lead down, whoever names them: those who ask for pages, and templates that
extend others or show them as snippets. Any other path is refused wherever it is come to, and what a root would have had
there makes no difference; a path that leads down is never refused. And where a root is a directory, what leads down is
in the directory: the path of the file is that of the template after that of the directory, so that it leads through the
directory and down from there, and different templates are different files. -/
theorem confined (start : Site) (history : List Operation) :
    let site := start.run history
    (∀ root path, .asked root path ∈ start.eventsOf history → LeadsDown path) ∧
    (∀ path, ¬LeadsDown path → site.Refuses path) ∧
    (∀ key path, (site.catalog.find key).outcome = .error (.error (.invalidPath path)) ↔
      path = key.path ∧ ¬LeadsDown key.path) ∧
    (∀ change, (∀ name root, (change name root).SameBelow root) → (site.step (.change change)).SameWork site) ∧
    ∀ dir path, LeadsDown path → Disk.LiesBelow dir path :=
  ⟨fun _ _ => leadsDown_of_asked, fun _ => refuses_of_not_leadsDown _, fun _ _ => Catalog.find_eq_invalidPath_iff,
    fun _ => sameWork_change _, fun dir _ h => h.liesBelow dir⟩

/-- A default template `page.html`, which extends a template outside. -/
def reachingOut : Site := new (.inMemory Root.defaultName [("page.html", .ok "@extends(\"../base.html\")")]) [] 8

theorem confined_reachingOut :
    let request : Request := ⟨none, .empty, Helpers.standard⟩
    ¬LeadsDown "../base.html" ∧
      (reachingOut.keep request "page.html" .empty).outcome = .error (.error (.invalidPath "../base.html")) := by
  intro request
  have hpath : ¬LeadsDown "../base.html" := by
    rw [← isTemplatePath_iff]
    decide +kernel
  have hfound : (reachingOut.catalog.find ⟨"page.html", none⟩).outcome.map (·.template.parent) =
      .ok (some "../base.html") := by decide +kernel
  have hlooks : reachingOut.LooksFor request "page.html" .empty "../base.html" := by
    refine ⟨8, "page.html", .empty, .refl, ?_⟩
    rcases hleaf : (reachingOut.catalog.find ⟨"page.html", none⟩).outcome with stop | leaf <;> rw [hleaf] at hfound
    · cases hfound
    · have htrail : Trail (fun path => reachingOut.catalog.find ⟨path, none⟩) leaf ([] ++ [leaf]) := .singleton
      exact .parent hleaf htrail (Except.ok.inj hfound)
  exact ⟨hpath, (((confined reachingOut []).2.1 _ hpath).page hlooks).1⟩

end Site

end ThemedPages
