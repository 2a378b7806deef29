import ThemedPages.Error
import ThemedPages.Helpers
import ThemedPages.Template

/-!
# Transcripts

What happened, step by step: a `Transcript` is a list of events in order, and how it ended. Sequencing transcripts
appends their events, and stops at the first that ends without a value. Nothing that happens later takes back an event:
what goes wrong has still asked, called and written what it did before.
-/

namespace ThemedPages

/-! ## Templates that were found -/

/-- Which template something is: the root it was found in and its path. -/
structure Origin where
  /-- the name of the root -/
  root : String
  /-- the path of the template -/
  path : String
  deriving DecidableEq, Repr

/-- The origin as messages name it. -/
def Origin.text (o : Origin) : String := o.root ++ ":" ++ o.path

/-- A template, and where it was found. -/
structure Loaded where
  /-- where it was found -/
  origin : Origin
  /-- what it is -/
  template : Template

/-- What a template is looked for by. -/
structure Key where
  /-- its path -/
  path : String
  /-- the theme whose templates come first -/
  theme : Option String
  deriving DecidableEq, Repr

/-! ## Events and ends -/

/-- Something that happens in a run. -/
inductive Event where
  /-- a root is asked for the template at a path -/
  | asked (root path : String)
  /-- a template is found -/
  | opened (key : Key) (found : Loaded)
  /-- a helper is called -/
  | called (call : HelperCall)
  /-- a part of the page is written -/
  | wrote (piece : Piece)

/-- The part of the page that an event writes. -/
def Event.piece? : Event → Option Piece
  | .wrote piece => some piece
  | _ => none

/-- The helper that an event calls. -/
def Event.call? : Event → Option HelperCall
  | .called call => some call
  | _ => none

/-- Why a run ends without a value. -/
inductive Stop where
  /-- something is wrong -/
  | error (e : Error)
  /-- it goes round and round -/
  | endless
  deriving DecidableEq, Repr

/-! ## Transcripts -/

/-- What happens, and what comes of it. -/
structure Transcript (α : Type) where
  /-- what happens, in order -/
  events : List Event
  /-- the value, or why there is none -/
  outcome : Except Stop α

namespace Transcript

variable {α : Type}

instance : Monad Transcript where
  pure a := ⟨[], .ok a⟩
  bind t f :=
    match t.outcome with
    | .ok a =>
      let rest := f a
      ⟨t.events ++ rest.events, rest.outcome⟩
    | .error stop => ⟨t.events, .error stop⟩

/-- A single event. -/
def emit (e : Event) : Transcript Unit := ⟨[e], .ok ()⟩

/-- The end by an error. -/
def fail (e : Error) : Transcript α := ⟨[], .error (.error e)⟩

/-- The end of what would never end. -/
def endless : Transcript α := ⟨[], .error .endless⟩

/-- The same events, with a value in place of the error that a path leads nowhere. -/
def orIfUndefined (instead : α) (t : Transcript α) : Transcript α :=
  match t.outcome with
  | .error (.error (.undefined _ _)) => ⟨t.events, .ok instead⟩
  | _ => t

/-- The parts of the page that are written, in order. -/
def pieces (t : Transcript α) : List Piece := t.events.filterMap Event.piece?

/-- The helpers that are called, in order. -/
def calls (t : Transcript α) : List HelperCall := t.events.filterMap Event.call?

/-- The bytes that are written. -/
def bytes (t : Transcript α) : Bytes := t.pieces.flatMap Piece.bytes

end Transcript

end ThemedPages
