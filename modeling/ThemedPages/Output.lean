import ThemedPages.Html

/-!
# Where pages are written

A `Sink` takes bytes: offered some, it takes as many of them from the front as it likes, or fails. `Sink.writeAll`
offers what is left until all is taken; a sink that takes nothing of a non-empty offer has failed as well.
`Sink.escaping` is the sink that escapes for html whatever goes through it, and `Piece` is a part of a page that is
written as it is or through that sink.
-/

namespace ThemedPages

/-- Somewhere to write bytes to, as a step function on its state. -/
structure Sink (σ : Type) where
  /-- offered bytes: how many of them are taken, or why none can be, and the state after it -/
  write : Bytes → σ → Except String Nat × σ
  /-- a bound on the bytes that it takes from now on, if there is one -/
  room : σ → Option Nat

namespace Sink

variable {σ : Type}

/-- Why a sink that keeps taking nothing has failed. -/
def stuck : String := "failed to write whole buffer"

/-- Offer bytes until all of them are taken, in at most `fuel` offers. -/
def writeWithin (sink : Sink σ) : Nat → Bytes → σ → Except String Unit × σ
  | _, [], st => (.ok (), st)
  | 0, _ :: _, st => (.error stuck, st)
  | fuel + 1, data@(_ :: _), st =>
    match sink.write data st with
    | (.error reason, st) => (.error reason, st)
    | (.ok 0, st) => (.error stuck, st)
    | (.ok (n + 1), st) => writeWithin sink fuel (data.drop (n + 1)) st

/-- Offer bytes until all of them are taken. Each offer that goes on takes a byte, so that their number bounds the
offers. -/
def writeAll (sink : Sink σ) (data : Bytes) (st : σ) : Except String Unit × σ :=
  sink.writeWithin data.length data st

/-- The sink that escapes for html what goes through it into another: of an offer it takes one byte that has an
entity, and writes the entity, or else as many of the bytes before the next such byte as the other sink takes. -/
def escaping (sink : Sink σ) : Sink σ where
  write data st :=
    match data with
    | [] => sink.write [] st
    | b :: _ =>
      match Html.entity b with
      | some entity =>
        match sink.writeAll entity st with
        | (.ok (), st) => (.ok 1, st)
        | (.error reason, st) => (.error reason, st)
      | none => sink.write (data.takeWhile fun b => (Html.entity b).isNone) st
  room := sink.room

/-- What a sink has kept. -/
structure Kept where
  /-- what it took of each offer, the last one first -/
  taken : List Bytes
  /-- how many bytes that is -/
  size : Nat

/-- Nothing is kept. -/
def Kept.nothing : Kept := ⟨[], 0⟩

/-- What is kept when some more bytes are. -/
def Kept.add (kept : Kept) (data : Bytes) : Kept := ⟨data :: kept.taken, kept.size + data.length⟩

/-- The bytes that are kept, in order. -/
def Kept.bytes (kept : Kept) : Bytes := kept.taken.reverse.flatten

/-- The sink that takes everything and keeps it. -/
def memory : Sink Kept where
  write data kept := (.ok data.length, kept.add data)
  room _ := none

/-- The sink that keeps at most `limit` bytes in all and takes at most `chunk` of an offer, each without a bound if it
is none; where it can take nothing of an offer it fails for the given reason. -/
def bounded (limit chunk : Option Nat) (reason : String) : Sink Kept where
  write data kept :=
    let room := (limit.getD (kept.size + data.length)) - kept.size
    let n := min (min data.length room) (chunk.getD data.length)
    if data ≠ [] ∧ n = 0 then (.error reason, kept) else (.ok n, kept.add (data.take n))
  room kept := limit.map (· - kept.size)

end Sink

/-- A part of a page. -/
inductive Piece where
  /-- markup, written as it is -/
  | markup (text : String)
  /-- plain text, to be escaped -/
  | plain (text : String)
  deriving DecidableEq, Repr

namespace Piece

/-- The bytes that a part of a page adds to it. -/
def bytes : Piece → Bytes
  | markup text => Utf8.bytes text
  | plain text => Html.escapeBytes (Utf8.bytes text)

/-- Writing a part of a page to a sink. -/
def write {σ : Type} (sink : Sink σ) : Piece → σ → Except String Unit × σ
  | markup text => sink.writeAll (Utf8.bytes text)
  | plain text => sink.escaping.writeAll (Utf8.bytes text)

end Piece

end ThemedPages
