import ThemedPages.Text.Split

/-!
# Command lines

What the words of a command line ask for. There are two commands, one that renders a page and one that shows which
template a path leads to. Options may stand before and after the path; a value follows its option as the next word,
after an equals sign, or in the case of a single letter without anything between. After a word of two hyphens nothing
is an option. A request for help or for the version counts as soon as it is read, unless something before it is wrong.
-/

namespace ThemedPages.CommandLine

/-! ## Commands and their options -/

/-- A command. -/
inductive Command where
  /-- render a page -/
  | render
  /-- show where a template is found -/
  | resolve
  deriving DecidableEq, Repr

/-- An option of a command. -/
inductive Opt where
  /-- the file that names the directories -/
  | config
  /-- the directory of the default templates -/
  | root
  /-- a theme and its directory -/
  | themeRoot
  /-- the theme to use -/
  | theme
  /-- the file with the variables of the page -/
  | context
  /-- the file with the variables of the request -/
  | globals
  /-- show the entity tag of the page -/
  | etag
  /-- show all the ancestors -/
  | chain
  /-- show how the command is used -/
  | help
  deriving DecidableEq, Repr

/-- The option is followed by a value. -/
def Opt.takesValue : Opt → Bool
  | .config | .root | .themeRoot | .theme | .context | .globals => true
  | .etag | .chain | .help => false

/-- The option of a command with a long name. -/
def Command.long? : Command → String → Option Opt
  | _, "config" => some .config
  | _, "root" => some .root
  | _, "theme-root" => some .themeRoot
  | _, "theme" => some .theme
  | _, "help" => some .help
  | .render, "context" => some .context
  | .render, "globals" => some .globals
  | .render, "etag" => some .etag
  | .resolve, "chain" => some .chain
  | _, _ => none

/-- The option of a command with a single letter. -/
def Command.short? : Command → Char → Option Opt
  | _, 'r' => some .root
  | _, 't' => some .theme
  | _, 'h' => some .help
  | .render, 'c' => some .context
  | .render, 'g' => some .globals
  | _, _ => none

/-! ## What is asked for -/

/-- The directories that a command line names. -/
structure Roots where
  /-- the file that names them -/
  config : Option String
  /-- the directory of the default templates -/
  root : Option String
  /-- the themes and their directories -/
  themeRoots : List (String × String)
  /-- the theme to use -/
  theme : Option String
  deriving DecidableEq, Repr

/-- What a command line asks for. -/
inductive Invocation where
  /-- to render a page, with the files of its variables -/
  | render (path : String) (roots : Roots) (context globals : Option String) (etag : Bool)
  /-- to show where a template is found -/
  | resolve (path : String) (roots : Roots) (chain : Bool)
  /-- to show a text -/
  | tell (text : String)
  deriving DecidableEq, Repr

/-- What a command line has said so far. -/
structure Draft where
  /-- the path of the template -/
  path : Option String
  /-- the directories -/
  roots : Roots
  /-- the file with the variables of the page -/
  context : Option String
  /-- the file with the variables of the request -/
  globals : Option String
  /-- show the entity tag of the page -/
  etag : Bool
  /-- show all the ancestors -/
  chain : Bool
  deriving DecidableEq, Repr

/-- Nothing has been said. -/
def Draft.empty : Draft := ⟨none, ⟨none, none, [], none⟩, none, none, false, false⟩

/-! ## Texts -/

/-- What the version is. -/
def versionText : String := "templayer 0.1.0\n"

/-- How the program is used. -/
def helpText : String :=
  "Render themed html templates\n\nUsage: templayer <COMMAND>\n\nCommands:\n" ++
  "  render   Render a page to stdout\n" ++
  "  resolve  Show which template a logical path resolves to\n" ++
  "  help     Print this message or the help of the given subcommand(s)\n\nOptions:\n" ++
  "  -h, --help     Print help\n  -V, --version  Print version\n"

/-- The options that name the directories. -/
def rootsText : String :=
  "      --config <CONFIG>          Toml config naming the template roots\n" ++
  "  -r, --root <ROOT>              Directory of the default templates\n" ++
  "      --theme-root <THEME_ROOT>  A theme directory (NAME=DIR)\n" ++
  "  -t, --theme <THEME>            Theme to render with\n"

/-- How a command is used. -/
def Command.helpText : Command → String
  | .render =>
    "Render a page to stdout\n\nUsage: templayer render [OPTIONS] <PATH>\n\nArguments:\n" ++
    "  <PATH>  Logical path of the template, e.g. user/read.html\n\nOptions:\n" ++ rootsText ++
    "  -c, --context <CONTEXT>        Json file with the render context\n" ++
    "  -g, --globals <GLOBALS>        Json file with the request scoped globals, reached as g.*\n" ++
    "      --etag                     Print the entity tag of the result to stderr\n" ++
    "  -h, --help                     Print help\n"
  | .resolve =>
    "Show which template a logical path resolves to\n\nUsage: templayer resolve [OPTIONS] <PATH>\n\nArguments:\n" ++
    "  <PATH>  \n\nOptions:\n" ++ rootsText ++
    "      --chain                    Show the whole inheritance chain\n" ++
    "  -h, --help                     Print help\n"

/-- How the help is asked for. -/
def helpHelpText : String :=
  "Print this message or the help of the given subcommand(s)\n\nUsage: templayer help [COMMAND]...\n\n" ++
  "Arguments:\n  [COMMAND]...  Print help for the subcommand(s)\n"

/-! ## Reading the words -/

/-- Why a command line can not be followed. -/
abbrev Misuse := String

/-- The name and the directory of a theme: what is before and what is after the first equals sign, neither empty. -/
def themeRoot? (value : String) : Option (String × String) :=
  match splitAtChar '=' value.toList with
  | name :: dir :: rest =>
    let dir := ['='].intercalate (dir :: rest)
    if name = [] ∨ dir = [] then none else some (String.ofList name, String.ofList dir)
  | _ => none

/-- Puts the value of an option that may be given once. Of the files and directories none is empty. -/
def once (name : String) (mayBeEmpty : Bool) (value : String) : Option String → Except Misuse (Option String)
  | some _ => .error ("the argument '--" ++ name ++ "' cannot be used multiple times")
  | none =>
    if value = "" ∧ !mayBeEmpty then .error ("a value is required for '--" ++ name ++ "' but none was supplied")
    else .ok (some value)

/-- An option and its value are said. -/
def Draft.put (d : Draft) (opt : Opt) (value : String) : Except Misuse Draft :=
  match opt with
  | .config => do return { d with roots.config := ← once "config" false value d.roots.config }
  | .root => do return { d with roots.root := ← once "root" false value d.roots.root }
  | .theme => do return { d with roots.theme := ← once "theme" true value d.roots.theme }
  | .context => do return { d with context := ← once "context" false value d.context }
  | .globals => do return { d with globals := ← once "globals" false value d.globals }
  | .themeRoot =>
    match themeRoot? value with
    | some pair => .ok { d with roots.themeRoots := d.roots.themeRoots ++ [pair] }
    | none => .error ("invalid value '" ++ value ++ "' for '--theme-root': expected NAME=DIR")
  | .etag =>
    if d.etag then .error "the argument '--etag' cannot be used multiple times" else .ok { d with etag := true }
  | .chain =>
    if d.chain then .error "the argument '--chain' cannot be used multiple times" else .ok { d with chain := true }
  | .help => .ok d

/-- A path is said. -/
def Draft.putPath (d : Draft) (path : String) : Except Misuse Draft :=
  match d.path with
  | none => .ok { d with path := some path }
  | some _ => .error ("unexpected argument '" ++ path ++ "' found")

/-- The word could be an option: it begins with a hyphen and is more than that. -/
def looksLikeOption (w : String) : Bool := w.toList.head? = some '-' && w ≠ "-"

/-- What a word says that begins with a hyphen: an option, and its value if that is in the same word. -/
def optionOf (command : Command) (w : String) : Except Misuse (Opt × Option String) :=
  let unexpected : Misuse := "unexpected argument '" ++ w ++ "' found"
  match w.toList with
  | '-' :: '-' :: rest =>
    let parts := splitAtChar '=' rest
    let value := match parts.drop 1 with
      | [] => none
      | more => some (String.ofList (['='].intercalate more))
    match command.long? (String.ofList (parts.headD [])) with
    | none => .error unexpected
    | some opt =>
      if value.isSome && !opt.takesValue then .error unexpected else .ok (opt, value)
  | '-' :: letter :: rest =>
    match command.short? letter with
    | none => .error unexpected
    | some opt =>
      if !opt.takesValue then .ok (opt, none)
      else
        match rest with
        | [] => .ok (opt, none)
        | '=' :: value => .ok (opt, some (String.ofList value))
        | value => .ok (opt, some (String.ofList value))
  | _ => .error unexpected

/-- Reads the words after a command: what they say, or none if they ask for help. -/
def scan (command : Command) : List String → Draft → Except Misuse (Option Draft)
  | [], d => .ok (some d)
  | w :: rest, d =>
    if w = "--" then some <$> rest.foldlM Draft.putPath d
    else if looksLikeOption w then
      match optionOf command w with
      | .error misuse => .error misuse
      | .ok (.help, _) => .ok none
      | .ok (opt, some value) => do scan command rest (← d.put opt value)
      | .ok (opt, none) =>
        if !opt.takesValue then do scan command rest (← d.put opt "")
        else
          match rest with
          | value :: rest =>
            if looksLikeOption value then .error ("a value is required for '" ++ w ++ "' but none was supplied")
            else do scan command rest (← d.put opt value)
          | [] => .error ("a value is required for '" ++ w ++ "' but none was supplied")
    else do scan command rest (← d.putPath w)

/-- What the words after a command ask for. There must be a path, and a file that names directories excludes other
directories. -/
def Draft.invocation (command : Command) (d : Draft) : Except Misuse Invocation :=
  if d.roots.config.isSome ∧ (d.roots.root.isSome ∨ d.roots.themeRoots ≠ []) then
    .error "the argument '--config <CONFIG>' cannot be used with other directories"
  else
    match d.path, command with
    | none, _ => .error "the following required arguments were not provided: <PATH>"
    | some path, .render => .ok (.render path d.roots d.context d.globals d.etag)
    | some path, .resolve => .ok (.resolve path d.roots d.chain)

/-- What the words after a command ask for. -/
def commandOf (command : Command) (words : List String) : Except Misuse Invocation := do
  match ← scan command words .empty with
  | none => return .tell command.helpText
  | some d => d.invocation command

/-- What is to be shown when help is asked for about something. -/
def helpOn : List String → Except Misuse Invocation
  | [] => .ok (.tell helpText)
  | ["render"] => .ok (.tell Command.render.helpText)
  | ["resolve"] => .ok (.tell Command.resolve.helpText)
  | ["help"] => .ok (.tell helpHelpText)
  | w :: _ => .error ("unrecognized subcommand '" ++ w ++ "'")

/-- What a command line asks for. -/
def read : List String → Except Misuse Invocation
  | [] => .error "a subcommand is required"
  | "render" :: words => commandOf .render words
  | "resolve" :: words => commandOf .resolve words
  | "help" :: words => helpOn words
  | w :: _ =>
    if w = "--version" then .ok (.tell versionText)
    else if w = "--help" then .ok (.tell helpText)
    else if ['-', 'V'] <+: w.toList then .ok (.tell versionText)
    else if ['-', 'h'] <+: w.toList then .ok (.tell helpText)
    else .error ("unrecognized subcommand '" ++ w ++ "'")

end ThemedPages.CommandLine
