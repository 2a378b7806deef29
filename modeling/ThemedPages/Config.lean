import ThemedPages.Config.Toml
import ThemedPages.Disk
import ThemedPages.Site

/-!
# Configurations

A configuration names the directories of the default templates and of the themes. It is usually read from a toml
file, and then directories that are relative are so to the directory of that file. It makes sense when no theme has
the name of the default templates and its own default theme is among its themes.
-/

namespace ThemedPages

/-- Where the templates of a site are, and how it is used. -/
structure Config where
  /-- the directory of the default templates -/
  defaultRoot : String
  /-- the directories of the themes -/
  themes : ByName String
  /-- the theme to use where none is asked for -/
  defaultTheme : Option String
  /-- how many snippets may be nested in each other -/
  snippetLimit : Nat
  deriving DecidableEq, Repr

namespace Config

/-- The configuration with default templates alone. -/
def ofRoot (root : String) : Config := ⟨root, [], none, Site.defaultSnippetLimit⟩

/-! ## From toml -/

/-- What a document has said so far. -/
structure Draft where
  /-- the directory of the default templates -/
  defaultRoot : Option String
  /-- the directories of the themes -/
  themes : Option (ByName String)
  /-- single themes can still be added from outside of their table -/
  themesOpen : Bool
  /-- the lines that follow belong to the table of themes -/
  inThemes : Bool
  /-- the theme to use where none is asked for -/
  defaultTheme : Option String
  /-- how many snippets may be nested in each other -/
  snippetLimit : Option Nat

namespace Draft

/-- Nothing has been said. -/
def empty : Draft := ⟨none, none, true, false, none, none⟩

/-- A theme is named. None may be named twice, and its directory is a string. -/
def addTheme (d : Draft) (theme : String) : Toml → Option Draft
  | .string dir =>
    let themes := d.themes.getD []
    if (themes.get? theme).isSome then none else some { d with themes := some (themes.insert theme dir) }
  | _ => none

/-- Themes are named all at once, by keys of a single part. -/
def addThemes (d : Draft) : List (List String × Toml) → Option Draft
  | [] => some d
  | ([theme], value) :: rest => do (← d.addTheme theme value).addThemes rest
  | _ => none

/-- The name of the one theme that a date or a time in place of the themes stands for. -/
def momentTheme : String := "$__toml_private_datetime"

/-- A date or a time stands in place of the themes: they are one theme, with the moment as its directory. -/
def addMoment (d : Draft) (m : Moment) : Option Draft :=
  if d.themes.isNone then some { d with themes := some [(momentTheme, m.text)], themesOpen := false } else none

/-- A line says something. Nothing may be said twice, and nothing else may be said at all. -/
def add (d : Draft) : Toml.Line → Option Draft
  | .table ["themes"] =>
    if d.themes.isNone then some { d with themes := some [], themesOpen := false, inThemes := true } else none
  | .table _ => none
  | .entry key value =>
    if d.inThemes then
      match key with
      | [theme] => d.addTheme theme value
      | _ => none
    else
      match key, value with
      | ["default_root"], .string dir => if d.defaultRoot.isNone then some { d with defaultRoot := some dir } else none
      | ["default_theme"], .string theme =>
        if d.defaultTheme.isNone then some { d with defaultTheme := some theme } else none
      | ["max_include_depth"], .integer n =>
        if d.snippetLimit.isNone ∧ 0 ≤ n then some { d with snippetLimit := some n.toNat } else none
      | ["themes"], .table entries =>
        if d.themes.isNone then { d with themes := some [], themesOpen := false }.addThemes entries else none
      | ["themes"], .moment m => d.addMoment m
      | ["themes", theme], value => if d.themesOpen then d.addTheme theme value else none
      | _, _ => none

/-- The configuration, if the directory of the default templates was named. -/
def config? (d : Draft) : Option Config := do
  return {
    defaultRoot := ← d.defaultRoot
    themes := d.themes.getD []
    defaultTheme := d.defaultTheme
    snippetLimit := d.snippetLimit.getD Site.defaultSnippetLimit }

end Draft

/-- The configuration that a document says. -/
def ofLines? (lines : List Toml.Line) : Option Config := do
  (← lines.foldlM Draft.add Draft.empty).config?

/-! ## Whether it makes sense -/

/-- What is wrong with the configuration. -/
def fault? (c : Config) : Option Error :=
  if (c.themes.get? Root.defaultName).isSome then some (.reservedTheme Root.defaultName)
  else
    match c.defaultTheme with
    | none => none
    | some theme =>
      if (c.themes.get? theme).isSome then none
      else some (.badConfig ("default_theme " ++ quoted theme ++ " is not among the themes"))

/-- The configuration that a toml text is, if it makes sense. -/
def read (text : String) : Except Error Config :=
  match Toml.read? text >>= ofLines? with
  | none => .error (.toml "not a configuration")
  | some c =>
    match c.fault? with
    | some e => .error e
    | none => .ok c

/-! ## Directories -/

/-- The configuration with its directories joined to another one. -/
def relativeTo (base : String) (c : Config) : Config :=
  { c with
    defaultRoot := Path.join base c.defaultRoot
    themes := c.themes.map fun theme => (theme.1, Path.join base theme.2) }

/-- The configuration in a file, its directories joined to that of the file. -/
def load (disk : Disk) (path : String) : Except Error Config :=
  match disk.readText path with
  | .error reason => .error (.badConfig ("Failed to read " ++ path ++ ": " ++ reason))
  | .ok text => (Config.read text).map (relativeTo ((Path.parent? path).getD "."))

end Config

/-! ## Sites on a disk -/

/-- The catalog with themes added in turn, each from a directory. -/
def Disk.addThemes (disk : Disk) : Catalog → List (String × String) → Except Error Catalog
  | catalog, [] => .ok catalog
  | catalog, (theme, dir) :: rest => do disk.addThemes (← catalog.addTheme theme (disk.root dir)) rest

/-- The site of the directories of a configuration that makes sense. -/
def Config.site (c : Config) (disk : Disk) : Except Error Site :=
  match c.fault? with
  | some e => .error e
  | none => do
    let catalog ← disk.addThemes (.ofRoot (disk.root c.defaultRoot)) c.themes
    return { Site.ofCatalog catalog with snippetLimit := c.snippetLimit }

end ThemedPages
