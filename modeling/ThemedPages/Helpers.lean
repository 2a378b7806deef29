import ThemedPages.Context
import ThemedPages.Expr

/-!
# Helpers and requests

The functions that templates call belong to the application: access control, naming, translation and markdown. They
come with the request, together with its theme and its globals. `HelperCall` is a call with its arguments, and
`Helpers.answer` is the value of it. `Helpers.standard` needs no application.
-/

namespace ThemedPages

/-- What the application provides to templates. -/
structure Helpers where
  /-- may the user do this to that? -/
  checkAccess : String → Value → Bool
  /-- what to call a thing -/
  displayName : Value → String
  /-- the text for a key, in the user's language -/
  translate : String → String
  /-- html from markdown; it is shown as it is -/
  markdown : String → String
  /-- how many follow the thing of a type with an id -/
  followCount : String → String → Int

/-- A call of a helper. -/
inductive HelperCall where
  /-- may the user do this to that? -/
  | checkAccess (action : String) (target : Value)
  /-- what to call this -/
  | displayName (object : Value)
  /-- the text for this key -/
  | translate (key : String)
  /-- this as html -/
  | markdown (text : String)
  /-- how many follow the thing of this type with this id -/
  | followCount (type id : String)

/-- The call of a helper with some values: all are passed as plain text but what access is asked for and what is to be
named. None if the number of values is not the one that the helper takes. -/
def Helper.call? : Helper → List Value → Option HelperCall
  | .checkAccess, [action, target] => some (.checkAccess action.text target)
  | .displayName, [object] => some (.displayName object)
  | .translate, [key] => some (.translate key.text)
  | .markdown, [source] => some (.markdown source.text)
  | .followCount, [type, id] => some (.followCount type.text id.text)
  | _, _ => none

/-- The value of a call. -/
def Helpers.answer (h : Helpers) : HelperCall → Value
  | .checkAccess action target => .bool (h.checkAccess action target)
  | .displayName object => .string (h.displayName object)
  | .translate key => .string (h.translate key)
  | .markdown text => .safe (h.markdown text)
  | .followCount type id => .int (h.followCount type id)

namespace Helpers

/-- The fields that a thing may have its name in, the best first. -/
def nameFields : List String := ["display_name", "title", "fullname", "name"]

/-- The first of a thing's names that is not empty, or else the thing as plain text. -/
def nameOf (object : Value) : String :=
  (((nameFields.filterMap fun field => object.get? field).map Value.text).find? (· ≠ "")).getD object.text

/-- A text as a single paragraph without markup, and no paragraph for an empty text. -/
def paragraph (text : String) : String :=
  if text = "" then "" else "<p>" ++ Html.escape text ++ "</p>"

/-- Helpers without an application: access is denied, nothing is translated, markdown is shown as it is written, and
nothing has followers. -/
def standard : Helpers where
  checkAccess _ _ := false
  displayName := nameOf
  translate key := key
  markdown := paragraph
  followCount _ _ := 0

end Helpers

/-- All that is the same in every template of a page: it belongs to the request. -/
structure Request where
  /-- the theme that is active, if any -/
  theme : Option String
  /-- the variables of the request -/
  globals : Context
  /-- what the application provides -/
  helpers : Helpers

end ThemedPages
