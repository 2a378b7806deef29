/-!
# Things by name

Lists of things with names, in increasing order of the names and with no name twice.
-/

namespace ThemedPages

/-- Things by name. -/
abbrev ByName (α : Type) := List (String × α)

namespace ByName

variable {α : Type}

/-- The thing of a name. -/
def get? (name : String) (things : ByName α) : Option α := things.lookup name

/-- The things with one put under a name, in place of one that is there. -/
def insert (name : String) (thing : α) : ByName α → ByName α
  | [] => [(name, thing)]
  | (n, t) :: rest =>
    if name < n then (name, thing) :: (n, t) :: rest
    else if name = n then (name, thing) :: rest
    else (n, t) :: insert name thing rest

/-- The things of a list of pairs, the last of each name. -/
def ofPairs (pairs : List (String × α)) : ByName α :=
  pairs.foldl (fun things pair => insert pair.1 pair.2 things) []

/-- The names, in increasing order. -/
def names (things : ByName α) : List String := things.map (·.1)

end ByName

end ThemedPages
