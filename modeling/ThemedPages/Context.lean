import ThemedPages.Json
import ThemedPages.Value

/-!
# Contexts

A context holds the variables that a page is rendered with. It can be read from a json object.
-/

namespace ThemedPages

/-- The variables of a page. -/
structure Context where
  /-- their values, by name -/
  vars : ByName Value

namespace Context

/-- No variables. -/
def empty : Context := ⟨[]⟩

/-- The context with a value for a variable. -/
def insert (name : String) (value : Value) (c : Context) : Context := ⟨c.vars.insert name value⟩

/-- The variables of a list of pairs, the last of each name. -/
def ofPairs (pairs : List (String × Value)) : Context := ⟨ByName.ofPairs pairs⟩

/-- The value of a variable. -/
def get? (name : String) (c : Context) : Option Value := c.vars.get? name

/-- The value at the end of a path that begins with a variable. -/
def follow (path : List String) (c : Context) : Option Value :=
  match path with
  | [] => none
  | name :: path => c.get? name >>= Value.follow path

/-- The variables, in increasing order. -/
def names (c : Context) : List String := c.vars.names

/-- The two contexts give equal values to the same variables. -/
def equals (c d : Context) : Bool := Value.fieldsEqual c.vars d.vars

end Context

/-! ## Reading json -/

/-- The value of a number: an integer if it is written as one and fits, or else a float. -/
def Value.ofLiteral (l : Json.Literal) : Option Value :=
  match l.integer? with
  | some n => some (.int n)
  | none => l.float?.map .float

mutual

/-- The value that a json value stands for; none if it holds a number beyond the floats. -/
def Value.ofJson : Json → Option Value
  | .null => some .null
  | .bool b => some (.bool b)
  | .number l => Value.ofLiteral l
  | .string s => some (.string s)
  | .array items => .list <$> Value.ofJsonItems items
  | .object fields => do return .map (ByName.ofPairs (← Value.ofJsonFields fields))

/-- The values of the items of an array. -/
def Value.ofJsonItems : List Json → Option (List Value)
  | [] => some []
  | j :: js => do return (← Value.ofJson j) :: (← Value.ofJsonItems js)

/-- The names and values of the fields of an object. -/
def Value.ofJsonFields : List (String × Json) → Option (List (String × Value))
  | [] => some []
  | (name, j) :: rest => do return (name, ← Value.ofJson j) :: (← Value.ofJsonFields rest)

end

/-- How deep a context may be nested, the object of the context itself included. -/
def Context.maxNesting : Nat := 127

/-- The context that a json text is, if it is an object. -/
def Context.ofJson? (text : String) : Option Context :=
  match Json.read? Context.maxNesting (Utf8.bytes text) with
  | some (.object fields) => Context.ofPairs <$> Value.ofJsonFields fields
  | _ => none

end ThemedPages
