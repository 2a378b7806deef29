import Mathlib.Tactic.SplitIfs
import ThemedPages.CommandLine

/-!
# Command lines that are read back

Whatever can be asked of the program about directories can be said in words, each option with its value after an equals
sign and the path after a word of two hyphens, and these words are read as what was asked: `CommandLine.read_line`.

The words are gone through from left to right, and what is asked so far is kept in a draft. So for each part of what is
said there is a lemma on how the draft grows by it, with the words that follow as a variable. The theme directories are
the only option that may come more than once, and they are kept in the order in which they are said.
-/

namespace ThemedPages

/-- What has no separator in it is one part. -/
theorem splitAtChar_of_not_mem {c : Char} {text : List Char} (h : c ∉ text) : splitAtChar c text = [text] := by
  induction text with
  | nil => rfl
  | cons d rest ih =>
    have hd : d ≠ c := fun hsame => h (hsame ▸ List.mem_cons_self)
    have hrest := ih fun hmem => h (List.mem_cons_of_mem d hmem)
    rw [splitAtChar, if_neg hd, hrest]

namespace CommandLine

/-! ## What can be said

A name with an equals sign in it could not be told from its directory, and an empty name or directory is refused. -/

/-- The word of an option with its value. -/
def optionWord (name value : String) : String := "--" ++ name ++ "=" ++ value

/-- The words that name directories and a theme. -/
def Roots.words (roots : Roots) : List String :=
  roots.config.toList.map (optionWord "config") ++ roots.root.toList.map (optionWord "root") ++
    roots.themeRoots.map (fun theme => optionWord "theme-root" (theme.1 ++ "=" ++ theme.2)) ++
    roots.theme.toList.map (optionWord "theme")

/-- The directories can be said on a command line. -/
structure Roots.Sayable (roots : Roots) : Prop where
  /-- no file and no directory is empty -/
  config : ∀ file ∈ roots.config, file ≠ ""
  root : ∀ dir ∈ roots.root, dir ≠ ""
  /-- no theme has an empty name or one with an equals sign in it, or an empty directory -/
  themeRoots : ∀ theme ∈ roots.themeRoots, theme.1 ≠ "" ∧ '=' ∉ theme.1.toList ∧ theme.2 ≠ ""
  /-- where a file names the directories nothing else does -/
  alone : roots.config.isSome → roots.root = none ∧ roots.themeRoots = []

/-- What is asked of the program, whatever the directories are. -/
inductive Task where
  /-- to render a page, with the files of its variables -/
  | render (path : String) (context globals : Option String) (etag : Bool)
  /-- to show where a template is found -/
  | resolve (path : String) (chain : Bool)

namespace Task

/-- The command that it is asked with. -/
def command : Task → Command
  | render .. => .render
  | resolve .. => .resolve

/-- What is asked for, with directories. -/
def invocation (roots : Roots) : Task → Invocation
  | render path context globals etag => .render path roots context globals etag
  | resolve path chain => .resolve path roots chain

/-- The words for it, after those for the directories. -/
def words : Task → List String
  | render path context globals etag =>
    context.toList.map (optionWord "context") ++ globals.toList.map (optionWord "globals") ++
      (if etag then ["--etag"] else []) ++ ["--", path]
  | resolve path chain => (if chain then ["--chain"] else []) ++ ["--", path]

/-- What its words say. -/
def draft (roots : Roots) : Task → Draft
  | render path context globals etag => ⟨some path, roots, context, globals, etag, false⟩
  | resolve path chain => ⟨some path, roots, none, none, false, chain⟩

/-- It can be said: no file is empty. -/
def Sayable : Task → Prop
  | render _ context globals _ => (∀ file ∈ context, file ≠ "") ∧ ∀ file ∈ globals, file ≠ ""
  | resolve .. => True

/-- The command line for it. -/
def line (roots : Roots) (task : Task) : List String :=
  (match task.command with | .render => "render" | .resolve => "resolve") :: (roots.words ++ task.words)

end Task

/-! ## Reading the words

Each option is a word of its own. The word of two hyphens ends the options, so that the path may begin with a hyphen. -/

variable {command : Command} {d : Draft} {rest : List String}

theorem toList_optionWord (name value : String) :
    (optionWord name value).toList = '-' :: '-' :: (name.toList ++ '=' :: value.toList) := by
  simp [optionWord]

/-- A word for an option is read as that option and its value. -/
theorem optionOf_optionWord {name value : String} {opt : Opt} (hname : '=' ∉ name.toList)
    (hopt : command.long? name = some opt) (hvalue : opt.takesValue = true) :
    optionOf command (optionWord name value) = .ok (opt, some value) := by
  have hparts : splitAtChar '=' (name.toList ++ '=' :: value.toList) = name.toList :: splitAtChar '=' value.toList := by
    rw [splitAtChar_append_cons, splitAtChar_of_not_mem hname]
    rfl
  obtain ⟨part, parts, hsplit⟩ := List.exists_cons_of_ne_nil (splitAtChar_ne_nil (c := '=') value.toList)
  have hwhole : ['='].intercalate (part :: parts) = value.toList := hsplit ▸ intercalate_splitAtChar value.toList
  simp [optionOf, toList_optionWord, hparts, hsplit, hwhole, hopt, hvalue]

/-- A word with an option and its value sets this option. -/
theorem scan_optionWord {name value : String} {opt : Opt} (hname : '=' ∉ name.toList)
    (hopt : command.long? name = some opt) (hvalue : opt.takesValue = true) :
    scan command (optionWord name value :: rest) d = d.put opt value >>= scan command rest := by
  have hchars := toList_optionWord name value
  have hend : optionWord name value ≠ "--" := by
    intro h
    rw [h] at hchars
    simp at hchars
  have hlooks : looksLikeOption (optionWord name value) = true := by
    have hhyphen : optionWord name value ≠ "-" := by
      intro h
      rw [h] at hchars
      simp at hchars
    simp [looksLikeOption, hchars, hhyphen]
  rw [scan, if_neg hend, if_pos hlooks, optionOf_optionWord hname hopt hvalue]
  cases opt with
  | etag | chain | help => cases hvalue
  | _ => rfl

/-- What is said about files and directories is put down, if there is something to say. -/
theorem once_none {name value : String} {mayBeEmpty : Bool} (h : mayBeEmpty = false → value ≠ "") :
    once name mayBeEmpty value none = .ok (some value) := by
  rw [once, if_neg]
  rintro ⟨rfl, hempty⟩
  cases mayBeEmpty
  · exact h rfl rfl
  · cases hempty

/-- What an option puts down when there is something to say. -/
theorem put_of_once {name value : String} {mayBeEmpty : Bool} {put : Option String → Draft}
    (h : once name mayBeEmpty value none = .ok (some value)) :
    (do return put (← once name mayBeEmpty value none)) = (.ok (put (some value)) : Except Misuse Draft) := by
  rw [h]
  rfl

/-- What is said of a theme is its name and its directory. -/
theorem themeRoot?_eq {name dir : String} (hname : name ≠ "") (hequals : '=' ∉ name.toList) (hdir : dir ≠ "") :
    themeRoot? (name ++ "=" ++ dir) = some (name, dir) := by
  have hchars : (name ++ "=" ++ dir).toList = name.toList ++ '=' :: dir.toList := by simp
  obtain ⟨part, parts, hsplit⟩ := List.exists_cons_of_ne_nil (splitAtChar_ne_nil (c := '=') dir.toList)
  have hwhole : ['='].intercalate (part :: parts) = dir.toList := hsplit ▸ intercalate_splitAtChar dir.toList
  rw [themeRoot?, hchars, splitAtChar_append_cons, splitAtChar_of_not_mem hequals, hsplit]
  simp [hwhole, hname, hdir]

/-- The words for themes are read one after the other. -/
theorem scan_themeRoots {themes : List (String × String)}
    (h : ∀ theme ∈ themes, theme.1 ≠ "" ∧ '=' ∉ theme.1.toList ∧ theme.2 ≠ "") :
    scan command (themes.map (fun theme => optionWord "theme-root" (theme.1 ++ "=" ++ theme.2)) ++ rest) d =
      scan command rest { d with roots.themeRoots := d.roots.themeRoots ++ themes } := by
  induction themes generalizing d with
  | nil => simp
  | cons theme themes ih =>
    obtain ⟨hname, hequals, hdir⟩ := h theme List.mem_cons_self
    have hlong : command.long? "theme-root" = some .themeRoot := by cases command <;> rfl
    have hput : d.put .themeRoot (theme.1 ++ "=" ++ theme.2) =
        .ok { d with roots.themeRoots := d.roots.themeRoots ++ [theme] } := by
      simp [Draft.put, themeRoot?_eq hname hequals hdir]
    rw [List.map_cons, List.cons_append, scan_optionWord (by decide) hlong rfl, hput]
    exact (ih fun theme htheme => h theme (List.mem_cons_of_mem _ htheme)).trans (by simp)

/-- The word for something that there may be is read, if there is one. -/
theorem scan_optional {name : String} {opt : Opt} {value? : Option String} (put : Option String → Draft)
    (hname : '=' ∉ name.toList) (hopt : command.long? name = some opt) (hvalue : opt.takesValue = true)
    (hput : ∀ value ∈ value?, (put none).put opt value = .ok (put (some value))) :
    scan command (value?.toList.map (optionWord name) ++ rest) (put none) = scan command rest (put value?) := by
  cases value? with
  | none => rfl
  | some value =>
    have hscan : scan command (optionWord name value :: rest) (put none) =
        (put none).put opt value >>= scan command rest := scan_optionWord hname hopt hvalue
    rw [hput value rfl] at hscan
    exact hscan

/-- A command line has named some directories, and nothing else yet. -/
def Draft.naming (roots : Roots) : Draft := { Draft.empty with roots }

/-- The directories are read in the order in which they are said. -/
theorem scan_roots {roots : Roots} (h : roots.Sayable) :
    scan command (roots.words ++ rest) .empty = scan command rest (.naming roots) := by
  obtain ⟨config, root, themeRoots, theme⟩ := roots
  obtain ⟨hconfig, hroot, hthemes, -⟩ := h
  have hlong : command.long? "config" = some .config ∧ command.long? "root" = some .root ∧
      command.long? "theme" = some .theme := by cases command <;> exact ⟨rfl, rfl, rfl⟩
  simp only [Roots.words, List.append_assoc]
  calc scan command (config.toList.map (optionWord "config") ++ _) (.naming ⟨none, none, [], none⟩)
      = scan command (root.toList.map (optionWord "root") ++ _) (.naming ⟨config, none, [], none⟩) :=
        scan_optional (fun config => .naming ⟨config, none, [], none⟩) (by decide) hlong.1 rfl fun file hfile =>
          put_of_once (once_none fun _ => hconfig file hfile)
    _ = scan command (themeRoots.map _ ++ _) (.naming ⟨config, root, [], none⟩) :=
        scan_optional (fun root => .naming ⟨config, root, [], none⟩) (by decide) hlong.2.1 rfl fun dir hdir =>
          put_of_once (once_none fun _ => hroot dir hdir)
    _ = scan command (theme.toList.map (optionWord "theme") ++ rest) (.naming ⟨config, root, themeRoots, none⟩) :=
        scan_themeRoots hthemes
    _ = scan command rest (.naming ⟨config, root, themeRoots, theme⟩) :=
        scan_optional (fun theme => .naming ⟨config, root, themeRoots, theme⟩) (by decide) hlong.2.2 rfl
          fun theme _ => put_of_once (once_none nofun)

/-- The path is read after the word that ends the options. -/
theorem scan_path {path : String} (h : d.path = none) :
    scan command ["--", path] d = .ok (some { d with path := some path }) := by
  have hput : d.putPath path = .ok { d with path := some path } := by rw [Draft.putPath, h]
  rw [scan, if_pos rfl, List.foldlM_cons, hput]
  rfl

/-- The word of an option without a value is read, if it is there. -/
theorem scan_flag {word : String} {opt : Opt} {flag : Bool} (put : Bool → Draft) (hend : word ≠ "--")
    (hlooks : looksLikeOption word = true) (hopt : optionOf command word = .ok (opt, none))
    (hvalue : opt.takesValue = false) (hhelp : opt ≠ .help) (hput : (put false).put opt "" = .ok (put true)) :
    scan command ((if flag then [word] else []) ++ rest) (put false) = scan command rest (put flag) := by
  cases flag with
  | false => rfl
  | true =>
    have hscan : scan command (word :: rest) (put false) = (put false).put opt "" >>= scan command rest := by
      rw [scan, if_neg hend, if_pos hlooks, hopt]
      cases opt with
      | etag | chain => rfl
      | help => exact absurd rfl hhelp
      | _ => cases hvalue
    rw [hput] at hscan
    exact hscan

/-- After the directories comes what is asked of them. -/
theorem scan_task {task : Task} (h : task.Sayable) (roots : Roots) :
    scan task.command task.words (.naming roots) = .ok (some (task.draft roots)) := by
  cases task with
  | render path context globals etag =>
    obtain ⟨hcontext, hglobals⟩ := h
    -- the options come in the order in which the words are said
    simp only [Task.words, List.append_assoc]
    calc scan .render (context.toList.map (optionWord "context") ++ _) ⟨none, roots, none, none, false, false⟩
        = scan .render (globals.toList.map (optionWord "globals") ++ _) ⟨none, roots, context, none, false, false⟩ :=
          scan_optional (fun context => ⟨none, roots, context, none, false, false⟩) (by decide) rfl rfl
            fun file hfile => put_of_once (once_none fun _ => hcontext file hfile)
      _ = scan .render ((if etag then ["--etag"] else []) ++ _) ⟨none, roots, context, globals, false, false⟩ :=
          scan_optional (fun globals => ⟨none, roots, context, globals, false, false⟩) (by decide) rfl rfl
            fun file hfile => put_of_once (once_none fun _ => hglobals file hfile)
      _ = scan .render ["--", path] ⟨none, roots, context, globals, etag, false⟩ :=
          scan_flag (fun etag => ⟨none, roots, context, globals, etag, false⟩) (by decide) (by decide) rfl rfl nofun rfl
      _ = .ok (some ⟨some path, roots, context, globals, etag, false⟩) := scan_path rfl
  | resolve path chain =>
    calc scan .resolve ((if chain then ["--chain"] else []) ++ ["--", path]) ⟨none, roots, none, none, false, false⟩
        = scan .resolve ["--", path] ⟨none, roots, none, none, false, chain⟩ :=
          scan_flag (fun chain => ⟨none, roots, none, none, false, chain⟩) (by decide) (by decide) rfl rfl nofun rfl
      _ = .ok (some ⟨some path, roots, none, none, false, chain⟩) := scan_path rfl

theorem invocation_draft {roots : Roots} (h : roots.Sayable) (task : Task) :
    (task.draft roots).invocation task.command = .ok (task.invocation roots) := by
  have halone : ¬(roots.config.isSome ∧ (roots.root.isSome ∨ roots.themeRoots ≠ [])) := by
    rintro ⟨hconfig, hothers⟩
    obtain ⟨hroot, hthemes⟩ := h.alone hconfig
    simp [hroot, hthemes] at hothers
  cases task <;> exact if_neg halone

/-- Command lines are read as what they are the words for. -/
theorem read_line {roots : Roots} {task : Task} (hroots : roots.Sayable) (htask : task.Sayable) :
    read (task.line roots) = .ok (task.invocation roots) := by
  have hscan : scan task.command (roots.words ++ task.words) .empty = .ok (some (task.draft roots)) :=
    (scan_roots hroots).trans (scan_task htask roots)
  have hcommand : commandOf task.command (roots.words ++ task.words) = .ok (task.invocation roots) := by
    rw [commandOf, hscan]
    exact invocation_draft hroots task
  cases task <;> exact hcommand

end CommandLine

end ThemedPages
