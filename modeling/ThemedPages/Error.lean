import ThemedPages.Report
import ThemedPages.Text.Quoted

/-!
# Errors

Everything that can go wrong in finding, reading and rendering templates, by its cause, and in `Error.message` what
is said about it.
-/

namespace ThemedPages

/-- What went wrong. -/
inductive Error where
  /-- no root has the template -/
  | notFound (path : String) (searched : List String)
  /-- the template extends itself by a detour: the templates on the way, the last one among those before it -/
  | cyclic (chain : List String)
  /-- there is no such theme -/
  | unknownTheme (theme : String)
  /-- the name can not be that of a theme -/
  | reservedTheme (theme : String)
  /-- the path could leave its root -/
  | invalidPath (path : String)
  /-- the source is not well written -/
  | malformed (template : String) (report : Report)
  /-- a block is defined twice -/
  | duplicateBlock (template block : String)
  /-- an inherited definition is asked for outside of any block -/
  | superOutsideBlock (template : String)
  /-- a snippet is given a parameter twice -/
  | duplicateParameter (template snippet parameter : String)
  /-- an inherited definition is asked for where no ancestor gives one -/
  | noParentBlock (template block : String)
  /-- a path that leads nowhere -/
  | undefined (template name : String)
  /-- a loop over something that is no list -/
  | notIterable (template expr : String)
  /-- a map where something is to be shown -/
  | notDisplayable (template expr : String)
  /-- a helper with the wrong number of arguments -/
  | helperArguments (template helper : String)
  /-- snippets within snippets beyond the limit -/
  | includeDepth (path : String) (limit : Nat)
  /-- a template that is there and can not be read -/
  | unreadable (root path reason : String)
  /-- a configuration that makes no sense -/
  | badConfig (reason : String)
  /-- a configuration that can not be read -/
  | toml (reason : String)
  /-- a json text that can not be read -/
  | json (reason : String)
  /-- reading or writing went wrong -/
  | io (reason : String)
  deriving DecidableEq, Repr

/-- What is said about the error. -/
def Error.message : Error → String
  | notFound path searched =>
    "Template " ++ quoted path ++ " not found (searched " ++ ", ".intercalate searched ++ ")"
  | cyclic chain => "Cyclic template inheritance: " ++ " -> ".intercalate chain
  | unknownTheme theme => "Unknown theme " ++ quoted theme
  | reservedTheme theme => quoted theme ++ " names the default templates and can not be a theme"
  | invalidPath path => "Invalid template path " ++ quoted path
  | malformed template report => "Failed to parse template " ++ quoted template ++ ":\n" ++ report.text ""
  | duplicateBlock template block =>
    "Block " ++ quoted block ++ " defined more than once in " ++ quoted template
  | superOutsideBlock template => "@super() outside of a block in " ++ quoted template
  | duplicateParameter template snippet parameter =>
    "Parameter " ++ quoted parameter ++ " given twice to snippet " ++ quoted snippet ++ " in " ++ quoted template
  | noParentBlock template block =>
    "Block " ++ quoted block ++ " in " ++ quoted template ++ " calls @super() but no ancestor defines it"
  | undefined template name => "Undefined variable " ++ quoted name ++ " in " ++ quoted template
  | notIterable template expr =>
    "Cannot loop over " ++ quoted expr ++ " in " ++ quoted template ++ ", it is not a list"
  | notDisplayable template expr =>
    "Cannot output " ++ quoted expr ++ " in " ++ quoted template ++ ", it is a map"
  | helperArguments template helper =>
    "Helper " ++ helper ++ " called with wrong arguments in " ++ quoted template
  | includeDepth path limit =>
    "Snippets nested deeper than " ++ Decimal.integer limit ++ " levels at " ++ quoted path
  | unreadable root path reason => "Failed to read " ++ quoted path ++ " from " ++ root ++ ": " ++ reason
  | badConfig reason => "Bad configuration: " ++ reason
  | toml reason => "Failed to parse configuration: " ++ reason
  | json reason => "Bad json data: " ++ reason
  | io reason => reason

end ThemedPages
