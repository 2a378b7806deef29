import ThemedPages.Text.Utf8

/-!
# Parsers

A parser reads a value from the front of some bytes. It can go wrong in two ways: it *refuses* input that is not for
it, and an alternative may then be tried at the same place, or it *fails* because the input committed to something
and then broke it, which no alternative repairs. Either way it says where and in the middle of what: a `Trace`, a
list of notes from the outermost to the innermost, each with the rest of the input at the place it is about.

Every loop is `Parser.fix`, the parser that is built from itself. It may be entered inside itself once for each byte of
the input, so it gives up only where it is entered again without anything read in between.
-/

namespace ThemedPages

/-- What a note says. -/
inductive Remark where
  /-- what was being read, or what was expected, in words -/
  | words (text : String)
  /-- a character that was expected -/
  | expected (c : Char)
  /-- nothing but the place -/
  | bare
  deriving DecidableEq, Repr

/-- A remark on a place in the input. -/
structure Note where
  /-- the rest of the input from that place on -/
  rest : Bytes
  /-- what there is to say about it -/
  remark : Remark
  deriving DecidableEq, Repr

/-- How it came to a refusal or a failure, from the outermost note to the innermost. -/
abbrev Trace := List Note

/-- What comes of reading. -/
inductive Reply (α : Type) where
  /-- a value, and the rest of the input -/
  | ok (value : α) (rest : Bytes)
  /-- the input is not for this parser -/
  | refused (trace : Trace)
  /-- the input is wrong -/
  | failed (trace : Trace)
  deriving Repr

/-- A reader of values from the front of some bytes. -/
def Parser (α : Type) := Bytes → Reply α

namespace Parser

variable {α β : Type}

/-! ## Sequence -/

instance : Monad Parser where
  pure a := fun s => .ok a s
  bind p f := fun s =>
    match p s with
    | .ok a rest => f a rest
    | .refused trace => .refused trace
    | .failed trace => .failed trace

/-- The rest of the input, with nothing read. -/
def position : Parser Bytes := fun s => .ok s s

/-- Refuses, with a bare note at a place. -/
def refuseAt (place : Bytes) : Parser α := fun _ => .refused [⟨place, .bare⟩]

/-- Fails, with words about a place. -/
def failAt (place : Bytes) (text : String) : Parser α := fun _ => .failed [⟨place, .words text⟩]

/-! ## Commitment, context and choice -/

/-- From here on a refusal is a failure. -/
def commit (p : Parser α) : Parser α := fun s =>
  match p s with
  | .refused trace => .failed trace
  | reply => reply

/-- Adds to whatever goes wrong in a parser what it was about. -/
def label (text : String) (p : Parser α) : Parser α := fun s =>
  match p s with
  | .ok a rest => .ok a rest
  | .refused trace => .refused (⟨s, .words text⟩ :: trace)
  | .failed trace => .failed (⟨s, .words text⟩ :: trace)

/-- Reads what a parser reads, or nothing where it refuses. -/
def optional (p : Parser α) : Parser (Option α) := fun s =>
  match p s with
  | .ok a rest => .ok (some a) rest
  | .refused _ => .ok none s
  | .failed trace => .failed trace

/-- The first parser that does not refuse. Where all do, the last one's refusal is noted. -/
def choice : List (Parser α) → Parser α
  | [] => fun s => .refused [⟨s, .bare⟩]
  | [p] => fun s =>
    match p s with
    | .refused trace => .refused (⟨s, .bare⟩ :: trace)
    | reply => reply
  | p :: q :: ps => fun s =>
    match p s with
    | .refused _ => choice (q :: ps) s
    | reply => reply

/-! ## Bytes -/

/-- Reads one given ASCII character. -/
def char (c : Char) : Parser Unit := fun s =>
  match s with
  | b :: rest => if b = UInt8.ofNat c.toNat then .ok () rest else .refused [⟨s, .expected c⟩]
  | [] => .refused [⟨s, .expected c⟩]

/-- Reads a given word of ASCII characters. -/
def word (w : List Char) : Parser Unit := fun s =>
  if Bytes.ofAscii w <+: s then .ok () (s.drop w.length) else .refused [⟨s, .bare⟩]

/-- Reads the bytes of a class, as many as there are. -/
def span (p : UInt8 → Bool) : Parser Bytes := fun s => .ok (s.takeWhile p) (s.dropWhile p)

/-- Reads the bytes of a class, at least one. -/
def span1 (p : UInt8 → Bool) : Parser Bytes := fun s =>
  match s.takeWhile p with
  | [] => .refused [⟨s, .bare⟩]
  | found => .ok found (s.dropWhile p)

/-- Reads the end of the input. -/
def finish : Parser Unit := fun s =>
  match s with
  | [] => .ok () []
  | _ => .refused [⟨s, .bare⟩]

/-! ## Loops -/

/-- The parser built from itself, entered inside itself at most once for each of some bytes. -/
def fixAlong (build : Parser α → Parser α) : Bytes → Parser α
  | [] => fun s => build (fun s => .refused [⟨s, .bare⟩]) s
  | _ :: bytes => fun s => build (fixAlong build bytes) s

/-- The parser built from itself. -/
def fix (build : Parser α → Parser α) : Parser α := fun s => fixAlong build s s

/-- Puts a value in front of those that are read next. -/
def prepend (a : α) (more : Parser (List α)) : Parser (List α) := do return a :: (← more)

/-- Reads items until one is refused. If items that take nothing are never refused, the whole is. -/
def many (item : Parser α) : Parser (List α) := fix fun self s =>
  match item s with
  | .ok a rest => prepend a self rest
  | .refused _ => .ok [] s
  | .failed trace => .failed trace

/-- Reads items until the stop is read; before the stop an item must not be refused. -/
def manyUntil (item : Parser α) (stop : Parser Unit) : Parser (List α) := fix fun self s =>
  match stop s with
  | .ok () rest => .ok [] rest
  | .failed trace => .failed trace
  | .refused _ =>
    match item s with
    | .ok a rest => prepend a self rest
    | .refused trace => .refused (⟨s, .bare⟩ :: trace)
    | .failed trace => .failed trace

/-- Reads the items of a list and its closing, each item but the first after a separator; the list may be empty, and
its last item may be followed by a separator. Where an item goes wrong and the closing is not there either, what is
reported is the item. -/
def listUntil (item : Parser α) (separator close : Parser Unit) : Parser (List α) := fix fun self s =>
  match item s with
  | .ok a rest =>
    match separator rest with
    | .ok () rest => prepend a self rest
    | _ => prepend a (close *> pure []) rest
  | .refused trace =>
    match close s with
    | .ok () rest => .ok [] rest
    | _ => .refused trace
  | .failed trace =>
    match close s with
    | .ok () rest => .ok [] rest
    | _ => .failed trace

end Parser

end ThemedPages
