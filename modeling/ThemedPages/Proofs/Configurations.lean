import Mathlib.Data.List.Nodup
import Mathlib.Data.List.Perm.Basic
import Mathlib.Data.String.Basic
import ThemedPages.Disk.Tree
import ThemedPages.Program
import ThemedPages.Proofs.CommandWords
import ThemedPages.Proofs.Directories
import ThemedPages.Proofs.Mending

/-!
# Configurations and command lines

A configuration in a file and its directories said one by one are two ways to come to a site, and they come to the same:
`Config.agree_or_fault`. The one adds the themes in the order of their names, the other in the order of the words, which
makes no difference as long as no name comes twice (`ByName.foldl_insert_perm`). In a file none does, whatever it says
(`Config.nodup_names_of_ofLines?`).

* `Config.Sound` says when a configuration makes sense, and `Config.Tellable` when its directories can be named on a
  command line.
* `Program.Agree` says that two ways to name directories come to the same.
* `Disk.catalog` is the catalog that both ways come to. A site is a function of it and of the limit on snippets, and the
  answers of the program are functions of the site, so nothing else has to be compared (`Program.Agree.of_site`).

A configuration that makes no sense has a first fault, in the order in which it is looked at, and this is the error
whatever directory the configuration is relative to, since no fault depends on where a directory is.
-/

namespace ThemedPages

/-! ## Things that are put under names

The things are kept in the order of their names, so where one is put does not depend on which came first. The case of
two different names is settled once, for the smaller before the greater one. -/

namespace ByName

variable {α : Type}

theorem insert_of_lt {m n : String} (h : m < n) (a b : α) (rest : ByName α) :
    insert m a ((n, b) :: rest) = (m, a) :: (n, b) :: rest := if_pos h

/-- Under a name that is there already the new thing takes the place of the old one. -/
theorem insert_self (n : String) (a b : α) (rest : ByName α) : insert n a ((n, b) :: rest) = (n, a) :: rest := by
  rw [insert, if_neg (lt_irrefl n), if_pos rfl]

theorem insert_of_gt {m n : String} (h : n < m) (a b : α) (rest : ByName α) :
    insert m a ((n, b) :: rest) = (n, b) :: insert m a rest := by
  rw [insert, if_neg h.asymm, if_neg h.ne']

/-- **Two things under different names can be put in either order.** By induction on what is there already: at each
name it is clear which of the two goes before it. -/
theorem insert_comm_of_lt {m n : String} (h : m < n) (a b : α) (things : ByName α) :
    insert m a (insert n b things) = insert n b (insert m a things) := by
  induction things with
  | nil =>
    change insert m a [(n, b)] = insert n b [(m, a)]
    rw [insert_of_lt h, insert_of_gt h]
    rfl
  | cons first rest ih =>
    obtain ⟨k, c⟩ := first
    rcases lt_trichotomy m k with hm | rfl | hm
    · rw [insert_of_lt hm, insert_of_gt h]
      rcases lt_trichotomy n k with hn | rfl | hn
      · rw [insert_of_lt hn, insert_of_lt h]
      · rw [insert_self, insert_of_lt h]
      · rw [insert_of_gt hn, insert_of_lt hm]
    · rw [insert_self, insert_of_gt h, insert_of_gt h, insert_self]
    · rw [insert_of_gt hm, insert_of_gt (hm.trans h), insert_of_gt (hm.trans h), insert_of_gt hm, ih]

/-- As `insert_comm_of_lt`, whichever name is the smaller one. -/
theorem insert_comm {m n : String} (h : m ≠ n) (a b : α) (things : ByName α) :
    insert m a (insert n b things) = insert n b (insert m a things) := by
  rcases lt_or_gt_of_ne h with hlt | hgt
  · exact insert_comm_of_lt hlt a b things
  · exact (insert_comm_of_lt hgt b a things).symm

/-- In which order things are put under different names makes no difference. -/
theorem foldl_insert_perm {β : Type} {f : β → α} {pairs pairs' : List (String × β)} (h : pairs.Perm pairs')
    (hnodup : (names pairs).Nodup) (things : ByName α) :
    pairs.foldl (fun things pair => insert pair.1 (f pair.2) things) things =
      pairs'.foldl (fun things pair => insert pair.1 (f pair.2) things) things := by
  refine h.foldl_eq' (fun x hx y hy things => ?_) things
  by_cases hxy : x.1 = y.1
  · rw [List.inj_on_of_nodup_map hnodup hx hy hxy]
  · exact (insert_comm hxy _ _ things).symm

/-- Something is found under a name exactly if the name is there. -/
theorem isSome_get?_iff {name : String} {things : ByName α} : (get? name things).isSome ↔ name ∈ names things := by
  rw [get?, List.lookup_isSome_iff, names, List.mem_map]
  simp only [beq_iff_eq, eq_comm (a := name)]

/-- A new name is put among the others. -/
theorem names_insert_perm {name : String} {things : ByName α} (h : name ∉ names things) (thing : α) :
    (names (insert name thing things)).Perm (name :: names things) := by
  induction things with
  | nil => rfl
  | cons first rest ih =>
    obtain ⟨k, c⟩ := first
    have hk : name ≠ k := fun hk => h (hk ▸ List.mem_cons_self)
    rcases lt_or_gt_of_ne hk with hlt | hgt
    · rw [insert_of_lt hlt]
      rfl
    · rw [insert_of_gt hgt]
      have hrest := ih fun hmem => h (List.mem_cons_of_mem k hmem)
      exact (hrest.cons k).trans (.swap name k _)

end ByName

/-! ## Configurations that are read

A file names themes in a table, in a table within a line, or one by one, and these may be mixed up in ways that are
refused. `Draft.Distinct` is kept by everything that a line can say, so how the themes were named does not matter. -/

namespace Config

namespace Draft

/-- No theme has been named twice. -/
def Distinct (d : Draft) : Prop := ∀ themes ∈ d.themes, themes.names.Nodup

theorem distinct_empty : empty.Distinct := by
  rintro _ ⟨⟩

/-- A theme is added only if no theme has its name. -/
theorem Distinct.addTheme {d d' : Draft} (h : d.Distinct) {theme : String} {value : Toml}
    (hadd : d.addTheme theme value = some d') : d'.Distinct := by
  cases value with
  | string dir =>
    have hnodup : (d.themes.getD []).names.Nodup := by
      cases hthemes : d.themes with
      | none => exact List.nodup_nil
      | some themes => exact h themes hthemes
    simp only [Draft.addTheme] at hadd
    split at hadd
    · cases hadd
    · next hnew =>
      cases hadd
      rintro _ ⟨⟩
      have hfresh : theme ∉ (d.themes.getD []).names := fun hmem => hnew (ByName.isSome_get?_iff.mpr hmem)
      exact (ByName.names_insert_perm hfresh dir).nodup_iff.mpr (List.nodup_cons.mpr ⟨hfresh, hnodup⟩)
  | _ => cases hadd

/-- So it is with themes that are added one after the other. -/
theorem Distinct.addThemes {d d' : Draft} (h : d.Distinct) {entries : List (List String × Toml)}
    (hadd : d.addThemes entries = some d') : d'.Distinct := by
  induction entries generalizing d with
  | nil =>
    cases hadd
    exact h
  | cons entry rest ih =>
    rcases entry with ⟨_ | ⟨theme, _ | ⟨part, parts⟩⟩, value⟩
    · cases hadd
    · obtain ⟨mid, hmid, hrest⟩ := Option.bind_eq_some_iff.mp hadd
      exact ih (h.addTheme hmid) hrest
    · cases hadd

theorem distinct_of_themes {d : Draft} {themes : ByName String} (h : d.themes = some themes)
    (hnodup : themes.names.Nodup) : d.Distinct := by
  intro themes' hthemes'
  cases h.symm.trans hthemes'
  exact hnodup

theorem Distinct.addMoment {d d' : Draft} {m : Moment} (hadd : d.addMoment m = some d') : d'.Distinct := by
  unfold Draft.addMoment at hadd
  split at hadd
  · cases hadd
    exact distinct_of_themes rfl (List.nodup_singleton _)
  · cases hadd

/-- **A line keeps it,** whatever it says: it adds no theme, or adds some as above, or all of them to none. -/
theorem Distinct.add {d d' : Draft} (h : d.Distinct) {line : Toml.Line} (hadd : d.add line = some d') :
    d'.Distinct := by
  have hnone (inThemes : Bool) : Draft.Distinct { d with themes := some [], themesOpen := false, inThemes } :=
    distinct_of_themes rfl List.nodup_nil
  unfold Draft.add at hadd
  split at hadd
  · -- the table of themes, which is empty so far
    split at hadd <;> cases hadd
    exact hnone true
  · cases hadd
  · split at hadd
    · -- a line in the table
      split at hadd
      · exact h.addTheme hadd
      · cases hadd
    · split at hadd
      · -- what is no theme
        split at hadd <;> cases hadd
        exact h
      · split at hadd <;> cases hadd
        exact h
      · split at hadd <;> cases hadd
        exact h
      · -- all themes at once
        split at hadd
        · exact (hnone d.inThemes).addThemes hadd
        · cases hadd
      · exact .addMoment hadd
      · -- a theme by itself
        split at hadd
        · exact h.addTheme hadd
        · cases hadd
      · cases hadd

theorem Distinct.foldlM_add {d d' : Draft} (h : d.Distinct) {lines : List Toml.Line}
    (hadd : lines.foldlM Draft.add d = some d') : d'.Distinct := by
  induction lines generalizing d with
  | nil =>
    cases hadd
    exact h
  | cons line rest ih =>
    rw [List.foldlM_cons] at hadd
    obtain ⟨mid, hmid, hrest⟩ := Option.bind_eq_some_iff.mp hadd
    exact ih (h.add hmid) hrest

end Draft

/-- No configuration that is read names a theme twice. -/
theorem nodup_names_of_ofLines? {lines : List Toml.Line} {c : Config} (h : ofLines? lines = some c) :
    c.themes.names.Nodup := by
  obtain ⟨d, hd, hc⟩ := Option.bind_eq_some_iff.mp h
  have hdistinct : d.Distinct := Draft.distinct_empty.foldlM_add hd
  obtain ⟨root, -, hconfig⟩ := Option.bind_eq_some_iff.mp hc
  cases hconfig
  change (d.themes.getD []).names.Nodup
  cases hthemes : d.themes with
  | none => exact List.nodup_nil
  | some themes => exact hdistinct themes hthemes

/-- The configuration is the one that is written in a file. -/
def IsWritten (c : Config) (disk : Disk) (file : String) : Prop :=
  ∃ text, disk.readText file = .ok text ∧ Toml.read? text >>= ofLines? = some c

/-- So what is written in a file names no theme twice. -/
theorem IsWritten.nodup_names {c : Config} {disk : Disk} {file : String} (h : c.IsWritten disk file) :
    c.themes.names.Nodup := by
  obtain ⟨text, -, hread⟩ := h
  obtain ⟨lines, -, hlines⟩ := Option.bind_eq_some_iff.mp hread
  exact nodup_names_of_ofLines? hlines

/-! ## Configurations that make sense

What is wrong with a configuration depends on the names of its themes, and not on directories. So it is the same
wherever the file is. -/

/-- The configuration makes sense. -/
structure Sound (c : Config) : Prop where
  /-- no theme has the name of the default templates -/
  unreserved : Root.defaultName ∉ c.themes.names
  /-- its own default theme is among its themes -/
  known : ∀ theme ∈ c.defaultTheme, theme ∈ c.themes.names

/-- A configuration makes sense if nothing is found to be wrong with it. -/
theorem fault?_eq_none_iff {c : Config} : c.fault? = none ↔ c.Sound := by
  rw [fault?]
  by_cases hreserved : Root.defaultName ∈ c.themes.names
  · rw [if_pos (ByName.isSome_get?_iff.mpr hreserved)]
    exact iff_of_false nofun fun h => h.unreserved hreserved
  · rw [if_neg (ByName.isSome_get?_iff.not.mpr hreserved)]
    cases htheme : c.defaultTheme with
    | none => exact iff_of_true rfl ⟨hreserved, by simp [htheme]⟩
    | some theme =>
      by_cases hknown : theme ∈ c.themes.names
      · exact iff_of_true (if_pos (ByName.isSome_get?_iff.mpr hknown)) ⟨hreserved, by simpa [htheme] using hknown⟩
      · dsimp only
        rw [if_neg (ByName.isSome_get?_iff.not.mpr hknown)]
        exact iff_of_false nofun fun h => hknown (h.known theme htheme)

theorem names_relativeTo (c : Config) (base : String) : (c.relativeTo base).themes.names = c.themes.names := by
  simp [relativeTo, ByName.names]

/-- What is wrong with a configuration is wrong with it in every directory. -/
theorem fault?_relativeTo (c : Config) (base : String) : (c.relativeTo base).fault? = c.fault? := by
  have hget (name : String) : ((c.relativeTo base).themes.get? name).isSome = (c.themes.get? name).isSome := by
    rw [Bool.eq_iff_iff, ByName.isSome_get?_iff, ByName.isSome_get?_iff, names_relativeTo]
  simp only [fault?, hget]
  rfl

/-- The directories of the configuration and its themes can be named on a command line. -/
structure Tellable (c : Config) : Prop where
  /-- the directory of the default templates is not empty -/
  defaultRoot : c.defaultRoot ≠ ""
  /-- nor is that of a theme or its name, which has no equals sign in it -/
  themes : ∀ theme ∈ c.themes, theme.1 ≠ "" ∧ '=' ∉ theme.1.toList ∧ theme.2 ≠ ""

/-- Joining directories makes none of them empty, so what could be said before can be said after. -/
theorem Tellable.relativeTo {c : Config} (h : c.Tellable) (base : String) : (c.relativeTo base).Tellable where
  defaultRoot := Path.join_ne_empty h.defaultRoot base
  themes := by
    rintro _ hjoined
    obtain ⟨theme, htheme, rfl⟩ := List.mem_map.mp hjoined
    obtain ⟨hname, hequals, hdir⟩ := h.themes theme htheme
    exact ⟨hname, hequals, Path.join_ne_empty hdir base⟩

end Config

/-! ## Sites of directories

A site is made of the roots of directories. The themes are put under their names, so it is one catalog for all orders
in which they are said. -/

/-- The catalog of the templates in a directory and of those of themes in theirs. -/
def Disk.catalog (disk : Disk) (root : String) (themes : List (String × String)) : Catalog :=
  { Catalog.ofRoot (disk.root root) with
    themes := themes.foldl (fun roots theme => ByName.insert theme.1 (disk.root theme.2) roots) [] }

/-- The order of themes makes no difference, if no name comes twice. -/
theorem Disk.catalog_perm {themes themes' : List (String × String)} (h : themes.Perm themes')
    (hnodup : (ByName.names themes).Nodup) (disk : Disk) (root : String) :
    disk.catalog root themes = disk.catalog root themes' := by
  rw [catalog, catalog, ByName.foldl_insert_perm h hnodup]

/-- Themes are added one after the other, unless one has the name of the default templates. -/
theorem Disk.addThemes_eq {disk : Disk} {themes : List (String × String)}
    (h : Root.defaultName ∉ ByName.names themes) {catalog : Catalog} (hshelf : catalog.shelf = []) :
    disk.addThemes catalog themes = .ok { catalog with
      themes := themes.foldl (fun roots theme => ByName.insert theme.1 (disk.root theme.2) roots) catalog.themes } := by
  induction themes generalizing catalog with
  | nil => rfl
  | cons theme rest ih =>
    have hname : theme.1 ≠ Root.defaultName := fun hname => h (hname ▸ List.mem_cons_self)
    have hadd : catalog.addTheme theme.1 (disk.root theme.2) =
        .ok { catalog with themes := catalog.themes.insert theme.1 (disk.root theme.2) } := by
      rw [Catalog.addTheme, if_neg hname, Catalog.forget, hshelf]
    rw [Disk.addThemes, hadd]
    exact ih (fun hmem => h (List.mem_cons_of_mem _ hmem)) hshelf

theorem Disk.addThemes_ofRoot {themes : List (String × String)} (h : Root.defaultName ∉ ByName.names themes)
    (disk : Disk) (root : String) :
    disk.addThemes (.ofRoot (disk.root root)) themes = .ok (disk.catalog root themes) :=
  Disk.addThemes_eq h rfl

namespace Config

variable {c : Config} {disk : Disk} {file : String}

/-- A configuration that makes sense is a site. -/
theorem Sound.site (h : c.Sound) (disk : Disk) :
    c.site disk = .ok ⟨disk.catalog c.defaultRoot c.themes, c.snippetLimit⟩ := by
  simp only [Config.site, fault?_eq_none_iff.mpr h, Disk.addThemes_ofRoot h.unreserved]
  rfl

/-- One that does not is none, and what is wrong is said. -/
theorem site_of_fault? {e : Error} (h : c.fault? = some e) (disk : Disk) : c.site disk = .error e := by
  simp only [site, h]

theorem Sound.relativeTo (h : c.Sound) (base : String) : (c.relativeTo base).Sound :=
  fault?_eq_none_iff.mp ((c.fault?_relativeTo base).trans (fault?_eq_none_iff.mpr h))

/-- What is written in a file is loaded with its directories joined to that of the file. -/
theorem IsWritten.load (h : c.IsWritten disk file) (hsound : c.Sound) :
    Config.load disk file = .ok (c.relativeTo ((Path.parent? file).getD ".")) := by
  obtain ⟨text, htext, hread⟩ := h
  simp only [Config.load, htext, Config.read, hread, fault?_eq_none_iff.mpr hsound]
  rfl

/-- What is wrong with what is written is said instead. -/
theorem IsWritten.load_of_fault? (h : c.IsWritten disk file) {e : Error} (hfault : c.fault? = some e) :
    Config.load disk file = .error e := by
  obtain ⟨text, htext, hread⟩ := h
  simp only [Config.load, htext, Config.read, hread, hfault]
  rfl

/-- What is loaded from a file is what is written in it, if it makes sense. -/
theorem exists_isWritten_of_load {loaded : Config} (h : Config.load disk file = .ok loaded) :
    ∃ c : Config, c.IsWritten disk file ∧ c.Sound ∧ loaded = c.relativeTo ((Path.parent? file).getD ".") := by
  unfold Config.load at h
  cases htext : disk.readText file with
  | error reason => simp [htext] at h
  | ok text =>
    cases hread : Toml.read? text >>= ofLines? with
    | none => simp [htext, Config.read, hread, Except.map] at h
    | some c =>
      cases hfault : c.fault? with
      | some e => simp [htext, Config.read, hread, hfault, Except.map] at h
      | none =>
        simp only [htext, Config.read, hread, hfault] at h
        exact ⟨c, ⟨text, htext, hread⟩, fault?_eq_none_iff.mp hfault, (Except.ok.inj h).symm⟩

end Config

/-! ## Answers

What the program answers is made from the site and the theme, and from what was read on the way there: a configuration
is a file that was read. -/

namespace Program

open CommandLine

variable {disk : Disk} {roots roots' : Roots}

/-- Directories that are said one by one come to the site of their catalog. -/
theorem siteOf_directories {themeRoots : List (String × String)} (h : Root.defaultName ∉ ByName.names themeRoots)
    (disk : Disk) (root : String) (theme : Option String) :
    siteOf disk ⟨none, some root, themeRoots, theme⟩ = .ok (.ofCatalog (disk.catalog root themeRoots), theme) := by
  rw [siteOf, Option.getD_some, Disk.addThemes_ofRoot h]
  rfl

/-- Two ways to name directories, the one of them a file: they are the same site with the same theme, and each command
line with the one has the same answer as that with the other, for which the file is not looked for. -/
structure Agree (disk : Disk) (file : String) (theme : Option String) (roots roots' : Roots) : Prop where
  site : ∃ site, siteOf disk roots = .ok (site, theme) ∧ siteOf disk roots' = .ok (site, theme)
  answer (task : Task) {words words' : List String} (h : CommandLine.read words = .ok (task.invocation roots))
    (h' : CommandLine.read words' = .ok (task.invocation roots')) :
    Program.answer disk words = { Program.answer disk words' with reads := file :: (Program.answer disk words').reads }

/-- A render answers alike where the same site is found, but for the file that the directories are in. -/
theorem render_of_siteOf (h : siteOf disk roots = siteOf disk roots') {file : String}
    (hconfig : roots.config = some file) (hconfig' : roots'.config = none) (path : String)
    (context globals : Option String) (etag : Bool) :
    render disk path roots context globals etag = { render disk path roots' context globals etag with
      reads := file :: (render disk path roots' context globals etag).reads } := by
  simp only [render, h, hconfig, hconfig']
  split
  · rfl
  · split <;> rfl

/-- Looking up a path reads the configuration first, and goes on in the same way on the same site. -/
theorem resolve_of_siteOf (h : siteOf disk roots = siteOf disk roots') {file : String}
    (hconfig : roots.config = some file) (hconfig' : roots'.config = none) (path : String) (chain : Bool) :
    resolve disk path roots chain = { resolve disk path roots' chain with
      reads := file :: (resolve disk path roots' chain).reads } := by
  simp only [resolve, h, hconfig, hconfig']
  split
  · rfl
  · split <;> rfl

/-- Two ways to the same site agree. -/
theorem Agree.of_site {file : String} {theme : Option String} {site : Site} (h : siteOf disk roots = .ok (site, theme))
    (h' : siteOf disk roots' = .ok (site, theme)) (hconfig : roots.config = some file)
    (hconfig' : roots'.config = none) : Agree disk file theme roots roots' where
  site := ⟨site, h, h'⟩
  answer := by
    intro task words words' hwords hwords'
    have hsame : siteOf disk roots = siteOf disk roots' := h.trans h'.symm
    rw [Program.answer, Program.answer, hwords, hwords']
    cases task with
    | render path context globals etag => exact render_of_siteOf hsame hconfig hconfig' path context globals etag
    | resolve path chain => exact resolve_of_siteOf hsame hconfig hconfig' path chain

end Program

namespace Config

variable {c : Config} {disk : Disk} {file : String}

theorem Sound.not_mem_of_perm (h : c.Sound) {base : String} {themeRoots : List (String × String)}
    (hthemes : themeRoots.Perm (c.relativeTo base).themes) : Root.defaultName ∉ ByName.names themeRoots := fun hmem =>
  (h.relativeTo base).unreserved ((hthemes.map _).mem_iff.mp hmem)

/-- The directories of a configuration come to the same where they are said one by one. -/
theorem IsWritten.agree (h : c.IsWritten disk file) (hsound : c.Sound)
    (hlimit : c.snippetLimit = Site.defaultSnippetLimit) {base : String} (hbase : base = (Path.parent? file).getD ".")
    {themeRoots : List (String × String)} (hthemes : themeRoots.Perm (c.relativeTo base).themes)
    (theme : Option String) :
    Program.Agree disk file (theme <|> c.defaultTheme) ⟨some file, none, [], theme⟩
      ⟨none, some (Path.join base c.defaultRoot), themeRoots, theme <|> c.defaultTheme⟩ := by
  have hnodup : (c.relativeTo base).themes.names.Nodup := by
    rw [c.names_relativeTo]
    exact h.nodup_names
  have hcatalog : disk.catalog (Path.join base c.defaultRoot) (c.relativeTo base).themes =
      disk.catalog (Path.join base c.defaultRoot) themeRoots := Disk.catalog_perm hthemes.symm hnodup disk _
  have hload : Config.load disk file = .ok (c.relativeTo base) := hbase ▸ h.load hsound
  have hsite : (c.relativeTo base).site disk =
      .ok (.ofCatalog (disk.catalog (Path.join base c.defaultRoot) themeRoots)) := by
    rw [(hsound.relativeTo base).site disk, ← hcatalog, Site.ofCatalog, ← hlimit]
    rfl
  refine .of_site ?_ (Program.siteOf_directories (hsound.not_mem_of_perm hthemes) disk _ _) rfl rfl
  simp only [Program.siteOf, hload]
  exact congrArg (· >>= fun site => Except.ok (site, theme <|> c.defaultTheme)) hsite

/-- The directories of a configuration that can be named on a command line, as they are joined to another one. -/
theorem Tellable.sayable (h : c.Tellable) {base : String} {themeRoots : List (String × String)}
    (hthemes : themeRoots.Perm (c.relativeTo base).themes) (theme : Option String) :
    CommandLine.Roots.Sayable ⟨none, some (Path.join base c.defaultRoot), themeRoots, theme⟩ := by
  have hjoined := h.relativeTo base
  refine ⟨nofun, ?_, fun theme htheme => hjoined.themes theme (hthemes.mem_iff.mp htheme), nofun⟩
  rintro _ ⟨⟩
  exact hjoined.defaultRoot

/-- A file comes to the same as its directories and themes said one by one in any order, each joined to the directory
of the file; and there is no site of a file that makes no sense. -/
theorem agree_or_fault {disk : Disk} {file base : String} (hbase : base = (Path.parent? file).getD ".") :
    (∀ loaded, Config.load disk file = .ok loaded →
      ∃ c : Config, c.IsWritten disk file ∧ c.Sound ∧ loaded = c.relativeTo base) ∧
    (∀ c : Config, c.IsWritten disk file → c.Sound → Config.load disk file = .ok (c.relativeTo base) ∧
      (c.snippetLimit = Site.defaultSnippetLimit →
        ∀ (theme : Option String) (themeRoots : List (String × String)), themeRoots.Perm (c.relativeTo base).themes →
          let roots : CommandLine.Roots := ⟨some file, none, [], theme⟩
          let roots' : CommandLine.Roots :=
            ⟨none, some (Path.join base c.defaultRoot), themeRoots, theme <|> c.defaultTheme⟩
          Program.Agree disk file (theme <|> c.defaultTheme) roots roots' ∧
          (c.Tellable → file ≠ "" → ∀ task : CommandLine.Task, task.Sayable →
            CommandLine.read (task.line roots) = .ok (task.invocation roots) ∧
            CommandLine.read (task.line roots') = .ok (task.invocation roots')))) ∧
    ∀ c : Config, ¬c.Sound → ∃ e, c.fault? = some e ∧ c.site disk = .error e ∧
      (∀ dir, (c.relativeTo dir).site disk = .error e) ∧
      (c.IsWritten disk file → Config.load disk file = .error e ∧
        ∀ roots : CommandLine.Roots, roots.config = some file → Program.siteOf disk roots = .error e) := by
  refine ⟨fun _ => hbase ▸ exists_isWritten_of_load, fun c hwritten hsound => ?_, fun c hunsound => ?_⟩
  · refine ⟨hbase ▸ hwritten.load hsound, fun hlimit theme themeRoots hthemes => ⟨?_, ?_⟩⟩
    -- the two ways to say the roots open the same site
    · exact hwritten.agree hsound hlimit hbase hthemes theme
    -- both can be said on a command line, and are read back as they were said
    · intro htellable hfile task htask
      have hroots : CommandLine.Roots.Sayable ⟨some file, none, [], theme⟩ :=
        ⟨by simpa using hfile, nofun, nofun, fun _ => ⟨rfl, rfl⟩⟩
      exact ⟨CommandLine.read_line hroots htask, CommandLine.read_line (htellable.sayable hthemes _) htask⟩
  -- the fault does not depend on the directory, nor on whether the file is read first
  · obtain ⟨e, hfault⟩ := Option.ne_none_iff_exists'.mp (mt fault?_eq_none_iff.mp hunsound)
    refine ⟨e, hfault, site_of_fault? hfault disk, fun dir => ?_, fun hwritten => ?_⟩
    · exact site_of_fault? ((c.fault?_relativeTo dir).trans hfault) disk
    · have hload : Config.load disk file = .error e := hwritten.load_of_fault? hfault
      refine ⟨hload, fun roots hconfig => ?_⟩
      simp only [Program.siteOf, hconfig, hload]
      rfl

/-- Two themes, one of them on its own. -/
def twoThemes : Config :=
  ⟨"templates", [("dark", "/srv/dark"), ("plain", "plain")], some "dark", Site.defaultSnippetLimit⟩

/-- What is written in a file for them. -/
def twoThemesText : String :=
  "default_root = \"templates\"\ndefault_theme = \"dark\"\n\n[themes]\ndark = \"/srv/dark\"\nplain = \"plain\"\n"

/-- A theme is asked for and there is none. -/
def lostTheme : Config := ⟨"templates", [], some "dark", Site.defaultSnippetLimit⟩

/-- What is written in a file for that. -/
def lostThemeText : String := "default_root = \"templates\"\ndefault_theme = \"dark\"\n"

/-- A file system with a single file. -/
def fileSystem (text : String) : Disk :=
  ((FileTree.ofCurrent ["work"]).writeFile "site/pages.toml" (Utf8.bytes text)).disk

theorem readText_fileSystem (text : String) : (fileSystem text).readText "site/pages.toml" = .ok text := by
  have hread : (fileSystem text).read "site/pages.toml" = .ok (Utf8.bytes text) := rfl
  simp only [Disk.readText, hread, Utf8.read?_bytes]

theorem agree_or_fault_themes :
    let roots : CommandLine.Roots := ⟨some "site/pages.toml", none, [], none⟩
    let roots' : CommandLine.Roots :=
      ⟨none, some "site/templates", [("plain", "site/plain"), ("dark", "/srv/dark")], some "dark"⟩
    let task : CommandLine.Task := .resolve "index.html" true
    (twoThemes.IsWritten (fileSystem twoThemesText) "site/pages.toml" ∧ twoThemes.Sound ∧ twoThemes.Tellable ∧
      Program.Agree (fileSystem twoThemesText) "site/pages.toml" (some "dark") roots roots' ∧
      CommandLine.read (task.line roots') = .ok (task.invocation roots')) ∧
    lostTheme.IsWritten (fileSystem lostThemeText) "site/pages.toml" ∧ ¬lostTheme.Sound ∧
      ∃ e, lostTheme.fault? = some e ∧ Program.siteOf (fileSystem lostThemeText) roots = .error e := by
  intro roots roots' task
  have hbase : "site" = (Path.parent? "site/pages.toml").getD "." := by decide +kernel
  constructor
  · have hwritten : twoThemes.IsWritten (fileSystem twoThemesText) "site/pages.toml" :=
      ⟨twoThemesText, readText_fileSystem twoThemesText, by decide +kernel⟩
    have hsound : twoThemes.Sound := fault?_eq_none_iff.mp (by decide +kernel)
    have htellable : twoThemes.Tellable := ⟨by decide, by decide⟩
    have hthemes : roots'.themeRoots.Perm (twoThemes.relativeTo "site").themes := by decide +kernel
    obtain ⟨-, hsame⟩ := (agree_or_fault hbase).2.1 twoThemes hwritten hsound
    obtain ⟨hagree, hread⟩ := hsame rfl none roots'.themeRoots hthemes
    exact ⟨hwritten, hsound, htellable, hagree, (hread htellable (by decide) task trivial).2⟩
  · have hwritten : lostTheme.IsWritten (fileSystem lostThemeText) "site/pages.toml" :=
      ⟨lostThemeText, readText_fileSystem lostThemeText, by decide +kernel⟩
    have hunsound : ¬lostTheme.Sound := fault?_eq_none_iff.not.mp (by decide +kernel)
    obtain ⟨e, hfault, -, -, hfile⟩ := (agree_or_fault hbase).2.2 lostTheme hunsound
    exact ⟨hwritten, hunsound, e, hfault, (hfile hwritten).2 roots rfl⟩

end Config

end ThemedPages
