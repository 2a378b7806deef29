import ThemedPages.Source
import ThemedPages.Text.Split
import ThemedPages.Transcript

/-!
# Catalogs

A catalog finds templates by path. It has a root of default templates and a root for each theme; under a theme a
template is looked for in the theme's root and then in the default one. What was found is remembered by path and
theme until the catalog is told to forget, and so is which finding it was: two look-ups give the same object when their
serial numbers agree.

Looking something up changes nothing. It is a `Transcript` with the questions to the roots and the finding as its
events, and `Catalog.remember` puts the findings on the shelf afterwards.
-/

namespace ThemedPages

/-! ## Paths -/

/-- Whether a part of a path leads down: it is a name, and neither `.` nor `..`. -/
def isStep (part : List Char) : Bool := part ≠ [] && part ≠ ['.'] && part ≠ ['.', '.']

/-- Whether a path stays in its root: it has no backslash, and each of its parts between slashes leads down. -/
def isTemplatePath (path : String) : Bool :=
  !path.toList.contains '\\' && (splitAtChar '/' path.toList).all isStep

theorem isStep_of_mem {path : String} (h : isTemplatePath path = true) {part : List Char}
    (hpart : part ∈ splitAtChar '/' path.toList) : isStep part = true := by
  simp only [isTemplatePath, Bool.and_eq_true, List.all_eq_true] at h
  exact h.2 part hpart

/-! ## Roots -/

/-- Somewhere to load templates from: a directory, or a table in memory. It has an answer other than that there is no
template, be it a source or a reason why there is none to read, at finitely many paths only. So a source that makes up a
template for whatever path it is asked for, or that fails on infinitely many of them, is not a root: nothing about
catalogs and sites speaks of those. Directories and tables in memory are roots. What needs the bound is the way up a
lineage: the templates met on it are at different paths of some root, so there are only so many of them. -/
structure Root where
  /-- how messages name it -/
  description : String
  /-- the source of the template at a path, none if there is no such template, or why it can not be read -/
  load : String → Except String (Option String)
  /-- how many templates it can have -/
  extent : Nat
  /-- it has no more: nothing is found at any other path -/
  bounded : ∃ paths : List String, paths.length ≤ extent ∧
    ∀ path, isTemplatePath path = true → load path ≠ .ok none → path ∈ paths

/-- A root that holds sources by path; in place of a source there may be the reason why it can not be read. -/
def Root.inMemory (name : String) (templates : List (String × Except String String)) : Root where
  description := "<" ++ name ++ ">"
  load path :=
    match templates.lookup path with
    | none => .ok none
    | some (.ok source) => .ok (some source)
    | some (.error reason) => .error reason
  extent := templates.length
  bounded := by
    refine ⟨templates.map (·.1), by simp, fun path _ hload => ?_⟩
    rcases h : templates.lookup path with _ | source
    · simp [h] at hload
    · obtain ⟨before, after, rfl, -⟩ := List.lookup_eq_some_iff.mp h
      simp

/-- The name of the root of default templates, which no theme can have. -/
def Root.defaultName : String := "default"

/-- How many templates some roots can have at all. -/
def Root.extents : List (String × Root) → Nat
  | [] => 0
  | (_, root) :: rest => root.extent + extents rest

/-! ## Catalogs -/

/-- A finding that is remembered. -/
structure Shelved where
  /-- the number of the finding -/
  serial : Nat
  /-- what was found -/
  found : Loaded

/-- Where templates are found, and what was found so far. -/
structure Catalog where
  /-- the default templates -/
  base : Root
  /-- the roots of the themes, in increasing order of their names -/
  themes : ByName Root
  /-- what is remembered -/
  shelf : List (Key × Shelved)
  /-- how many findings there were -/
  findings : Nat

namespace Catalog

/-- A catalog of default templates alone. -/
def ofRoot (base : Root) : Catalog := ⟨base, [], [], 0⟩

/-- The names of the themes, in increasing order. -/
def themeNames (c : Catalog) : List String := c.themes.names

/-- There is a theme of this name. -/
def hasTheme (c : Catalog) (theme : String) : Bool := c.themeNames.contains theme

/-- Forgets what was found. -/
def forget (c : Catalog) : Catalog := { c with shelf := [] }

/-- Adds a theme, or gives it another root, and forgets what was found. -/
def addTheme (c : Catalog) (theme : String) (root : Root) : Except Error Catalog :=
  if theme = Root.defaultName then .error (.reservedTheme theme)
  else .ok { c with themes := c.themes.insert theme root }.forget

/-- The roots as they have become in the meantime, with what was found remembered as it was. -/
def withRoots (c : Catalog) (change : String → Root → Root) : Catalog :=
  { c with
    base := change Root.defaultName c.base
    themes := c.themes.map fun theme => (theme.1, change theme.1 theme.2) }

/-- The roots to look in under a theme, by name, in order; none if there is no such theme. -/
def roots? (c : Catalog) : Option String → Option (List (String × Root))
  | none => some [(Root.defaultName, c.base)]
  | some theme => (c.themes.get? theme).map fun root => [(theme, root), (Root.defaultName, c.base)]

/-- Asks roots for a template until one has it. -/
def search (path : String) : List (String × Root) → Transcript (Option Loaded)
  | [] => pure none
  | (name, root) :: rest => do
    Transcript.emit (.asked name path)
    match root.load path with
    | .error reason => Transcript.fail (.unreadable root.description path reason)
    | .ok none => search path rest
    | .ok (some source) =>
      match Template.read path (Utf8.bytes source) with
      | .ok template => return some ⟨⟨name, path⟩, template⟩
      | .error e => Transcript.fail e

/-- Loads a template from the roots. -/
def load (c : Catalog) (key : Key) : Transcript Loaded :=
  match c.roots? key.theme with
  | none => Transcript.fail (.unknownTheme (key.theme.getD ""))
  | some roots => do
    match ← search key.path roots with
    | some found => return found
    | none => Transcript.fail (.notFound key.path (roots.map (·.2.description)))

/-- Finds a template: it is remembered, or else loaded. -/
def find (c : Catalog) (key : Key) : Transcript Loaded :=
  if isTemplatePath key.path then do
    let found ← match c.shelf.lookup key with
      | some shelved => pure shelved.found
      | none => c.load key
    Transcript.emit (.opened key found)
    return found
  else Transcript.fail (.invalidPath key.path)

/-- Remembers a finding, unless something is remembered for its key. -/
def shelve (c : Catalog) (key : Key) (found : Loaded) : Catalog :=
  match c.shelf.lookup key with
  | some _ => c
  | none => { c with shelf := (key, ⟨c.findings, found⟩) :: c.shelf, findings := c.findings + 1 }

/-- Remembers the findings among some events. -/
def remember (c : Catalog) (events : List Event) : Catalog :=
  events.foldl (fun c e =>
    match e with
    | .opened key found => c.shelve key found
    | _ => c) c

/-- Which finding is remembered for a key. -/
def serial? (c : Catalog) (key : Key) : Option Nat := (c.shelf.lookup key).map (·.serial)

/-- How many templates can be found at all, now or from what is remembered. -/
def extent (c : Catalog) : Nat :=
  c.base.extent + Root.extents c.themes + c.shelf.length

end Catalog

end ThemedPages
