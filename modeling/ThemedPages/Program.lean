import ThemedPages.CommandLine
import ThemedPages.Config

/-!
# The program

What the program answers to a command line, as a function of the files that it finds. It reads the directories first,
then the variables of the page, then those of the request; the first thing that goes wrong is its answer.

`Program.Answer.reads` lists the files that the answer depends on. Whoever only has some of the files can thereby
find out which others are needed: with all of them at hand, the answer does not depend on what else is there.
-/

namespace ThemedPages

open CommandLine

/-- What the program answers. -/
structure Program.Answer where
  /-- its exit code -/
  exit : Nat
  /-- what it prints -/
  stdout : String
  /-- what it has to say about it -/
  stderr : String
  /-- the files it looked for -/
  reads : List String
  deriving DecidableEq, Repr

namespace Program

/-- The directory of the default templates where none is named. -/
def usualRoot : String := "templates"

/-- The site of the directories that a command line names, and the theme to use. -/
def siteOf (disk : Disk) (roots : Roots) : Except Error (Site × Option String) :=
  match roots.config with
  | some file => do
    let config ← Config.load disk file
    return (← config.site disk, roots.theme <|> config.defaultTheme)
  | none => do
    let catalog ← disk.addThemes (.ofRoot (disk.root (roots.root.getD usualRoot))) roots.themeRoots
    return (.ofCatalog catalog, roots.theme)

/-- The variables in a json file; none without a file. -/
def contextOf (disk : Disk) : Option String → Except Error Context
  | none => .ok .empty
  | some file =>
    match disk.readText file with
    | .error reason => .error (.io reason)
    | .ok text =>
      match Context.ofJson? text with
      | some context => .ok context
      | none => .error (.json "not a json object")

/-- What is said about the end of a run. -/
def stopMessage : Stop → String
  | .error e => e.message
  | .endless => "Blocks enclose each other without end"

/-- The answer when something goes wrong. -/
def failure (reads : List String) (message : String) : Answer :=
  { exit := 1, stdout := "", stderr := "Error: " ++ message ++ "\n", reads }

/-- The files that the events of a run on a site have looked for. -/
def filesAsked (site : Site) (events : List Event) : List String :=
  events.filterMap fun e =>
    match e with
    | .asked root path =>
      let dir := if root = Root.defaultName then site.catalog.base.description
        else (site.catalog.themes.get? root).elim "" Root.description
      some (Path.ofTemplate dir path)
    | _ => none

/-- Renders a page. -/
def render (disk : Disk) (path : String) (roots : Roots) (context globals : Option String) (etag : Bool) : Answer :=
  let files := roots.config.toList ++ context.toList ++ globals.toList
  let inputs : Except Error _ := do
    let (site, theme) ← siteOf disk roots
    let vars ← contextOf disk context
    return (site, theme, vars, ← contextOf disk globals)
  match inputs with
  | .error e => failure files e.message
  | .ok (site, theme, vars, globals) =>
    let delivery := site.keep { theme, globals, helpers := Helpers.standard } path vars
    let reads := files ++ filesAsked site delivery.events
    match delivery.page with
    | .error stop => failure reads (stopMessage stop)
    | .ok page => { exit := 0, stdout := page.html, stderr := if etag then page.etag ++ "\n" else "", reads }

/-- Shows where a template is found, alone or with its ancestors. -/
def resolve (disk : Disk) (path : String) (roots : Roots) (chain : Bool) : Answer :=
  let files := roots.config.toList
  match siteOf disk roots with
  | .error e => failure files e.message
  | .ok (site, theme) =>
    let key : Key := ⟨path, theme⟩
    let found : Transcript (List Origin) :=
      if chain then Lineage.origins <$> site.catalog.lineage key
      else (fun leaf => [leaf.origin]) <$> site.catalog.find key
    let reads := files ++ filesAsked site found.events
    match found.outcome with
    | .error stop => failure reads (stopMessage stop)
    | .ok origins =>
      { exit := 0, stdout := String.join (origins.map fun o => o.text ++ "\n"), stderr := "", reads }

/-- What the program answers to the words of a command line. -/
def answer (disk : Disk) (words : List String) : Answer :=
  match CommandLine.read words with
  | .error misuse =>
    { exit := 2
      stdout := ""
      stderr := "error: " ++ misuse ++ "\n\nFor more information, try '--help'.\n"
      reads := [] }
  | .ok (.tell text) => { exit := 0, stdout := text, stderr := "", reads := [] }
  | .ok (.render path roots context globals etag) => render disk path roots context globals etag
  | .ok (.resolve path roots chain) => resolve disk path roots chain

end Program

end ThemedPages
