import ThemedPages.ByName
import ThemedPages.Decimal.Shortest
import ThemedPages.Output

/-!
# Values

The values that a page shows: plain data of seven kinds, with maps from names to values. A value has two faces,
the plain text that helpers are given and the pieces that are written into a page; both show a list as its items
with commas between, and of nothing and of a map they show nothing.
-/

namespace ThemedPages

/-- A value that templates can see. -/
inductive Value where
  /-- nothing -/
  | null
  /-- a truth value -/
  | bool (b : Bool)
  /-- a whole number of 64 bits -/
  | int (n : Int)
  /-- a floating point number -/
  | float (x : Float)
  /-- plain text, escaped where it is shown -/
  | string (s : String)
  /-- html that was made elsewhere, shown as it is -/
  | safe (s : String)
  /-- a list -/
  | list (items : List Value)
  /-- a map, its fields in increasing order of their names -/
  | map (fields : List (String × Value))

instance : Inhabited Value := ⟨.null⟩

namespace Value

/-- Whether the value counts as true in a condition: nothing, false, zero and whatever is empty do not. -/
def isTruthy : Value → Bool
  | null => false
  | bool b => b
  | int n => n ≠ 0
  | float x => x != 0
  | string s | safe s => s ≠ ""
  | list items => !items.isEmpty
  | map fields => !fields.isEmpty

/-- The field of a map under a name. -/
def get? (name : String) : Value → Option Value
  | map fields => ByName.get? name fields
  | _ => none

/-- The value at the end of a path of field names. -/
def follow : List String → Value → Option Value
  | [], v => some v
  | name :: path, v => v.get? name >>= follow path

/-- The text that a string of either kind holds. -/
def asString? : Value → Option String
  | string s | safe s => some s
  | _ => none

/-- The value is a map. -/
def isMap : Value → Bool
  | map _ => true
  | _ => false

/-! ## Plain text -/

mutual

/-- The value as plain text. -/
def text : Value → String
  | null => ""
  | bool b => if b then "true" else "false"
  | int n => Decimal.integer n
  | float x => Decimal.float x
  | string s => s
  | safe s => s
  | list items => ", ".intercalate (texts items)
  | map _ => ""

/-- Each of some values as plain text. -/
def texts : List Value → List String
  | [] => []
  | v :: vs => v.text :: texts vs

end

/-! ## Html -/

mutual

/-- What the value adds to a page. -/
def pieces : Value → List Piece
  | null => []
  | bool b => [.plain (if b then "true" else "false")]
  | int n => [.plain (Decimal.integer n)]
  | float x => [.plain (Decimal.float x)]
  | string s => [.plain s]
  | safe s => [.markup s]
  | list items => listPieces items
  | map _ => []

/-- What a list adds to a page. -/
def listPieces : List Value → List Piece
  | [] => []
  | v :: vs => v.pieces ++ restPieces vs

/-- What the items of a list after the first add to a page. -/
def restPieces : List Value → List Piece
  | [] => []
  | v :: vs => .markup ", " :: v.pieces ++ restPieces vs

end

/-- The value as html. -/
def html (v : Value) : String := Utf8.lossy (v.pieces.flatMap Piece.bytes)

/-! ## Items -/

mutual

/-- How many items there are in the lists in a value, at any depth. -/
def itemCount : Value → Nat
  | list items => listItemCount items
  | map fields => fieldItemCount fields
  | _ => 0

/-- How many items there are in a list, with those of the lists in them. -/
def listItemCount : List Value → Nat
  | [] => 0
  | v :: vs => 1 + v.itemCount + listItemCount vs

/-- How many items there are in the lists in the fields of a map. -/
def fieldItemCount : List (String × Value) → Nat
  | [] => 0
  | (_, v) :: fields => v.itemCount + fieldItemCount fields

end

/-! ## Equality

Two values are equal if they are of one kind and hold equal things. A float that is no number differs from itself,
and so does everything that holds one. -/

mutual

/-- The two values are equal. -/
def equals : Value → Value → Bool
  | null, null => true
  | bool a, bool b => a == b
  | int a, int b => a == b
  | float a, float b => a == b
  | string a, string b => a == b
  | safe a, safe b => a == b
  | list as, list bs => listEquals as bs
  | map as, map bs => fieldsEqual as bs
  | _, _ => false

/-- The two lists have equal values. -/
def listEquals : List Value → List Value → Bool
  | [], [] => true
  | a :: as, b :: bs => a.equals b && listEquals as bs
  | _, _ => false

/-- The two maps have equal values under the same names. -/
def fieldsEqual : List (String × Value) → List (String × Value) → Bool
  | [], [] => true
  | (m, a) :: as, (n, b) :: bs => m == n && a.equals b && fieldsEqual as bs
  | _, _ => false

end

end Value

end ThemedPages
