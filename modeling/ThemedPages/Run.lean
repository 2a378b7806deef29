import ThemedPages.Lineage

/-!
# Runs

What is to be done to render a page. A `Run` says so step by step, without doing any of it, and needs no catalog until
it is done:

* `Run.transcript` is what happens if all of it is done on a catalog.
* `Run.deliver` writes the page to a sink meanwhile, and goes no further than the sink goes along. What would come
  after that is not even looked at, so that a page may be larger than could ever be written, as long as the sink is
  full in time. As far as it goes, what happens is the same. Whatever was looked up once is not looked up again, for
  it would be found again.
-/

namespace ThemedPages

/-- What is to be done, and what is to come of it. -/
inductive Run : Type → Type 1 where
  /-- nothing more: this comes of it -/
  | ended {α : Type} (outcome : Except Stop α) : Run α
  /-- a single event -/
  | emit (e : Event) : Run Unit
  /-- looking up the layout for a key -/
  | layout (key : Key) : Run Layout
  /-- one run, and then, unless it ends without a value, the one that follows from the value -/
  | andThen {α β : Type} (first : Run α) (next : α → Run β) : Run β
  /-- a run, with a value in place of the error that a path leads nowhere -/
  | orIfUndefined {α : Type} (instead : α) (first : Run α) : Run α

namespace Run

variable {α : Type}

instance : Monad Run where
  pure a := .ended (.ok a)
  bind := .andThen

/-- The end of a run by an error. -/
def fail (e : Error) : Run α := .ended (.error (.error e))

/-- The end of a run that would never end. -/
def endless : Run α := .ended (.error .endless)

/-- What happens in a run on a catalog when all of it is done. -/
def transcript (c : Catalog) : {α : Type} → Run α → Transcript α
  | _, .ended outcome => ⟨[], outcome⟩
  | _, .emit e => .emit e
  | _, .layout key => c.layout key
  | _, .andThen first next => do
    let a ← first.transcript c
    (next a).transcript c
  | _, .orIfUndefined instead first => (first.transcript c).orIfUndefined instead

end Run

/-! ## Writing the page of a run to a sink -/

/-- A layout that was looked up in a catalog. -/
structure Found (c : Catalog) where
  /-- what it was looked up for -/
  key : Key
  /-- what happened then -/
  transcript : Transcript Layout
  /-- it would happen again -/
  transcript_eq : transcript = c.layout key

/-- How far a run on a catalog has come whose page is written to a sink. -/
structure Progress (c : Catalog) (σ : Type) where
  /-- what happened so far, the last first -/
  past : List Event
  /-- what was looked up so far, the last first -/
  found : List (Found c)
  /-- the sink as it is now -/
  sink : σ

namespace Progress

variable {c : Catalog} {σ : Type}

/-- Looks up the layout for a key, unless it was looked up before. -/
def lookUp (key : Key) (p : Progress c σ) : Found c × Progress c σ :=
  match p.found.find? (·.key = key) with
  | some found => (found, p)
  | none =>
    let found : Found c := ⟨key, c.layout key, rfl⟩
    (found, { p with found := found :: p.found })

/-- The layout for a key, and whatever happens when it is looked up. -/
def layout (key : Key) (p : Progress c σ) : Except Stop Layout × Progress c σ :=
  let (found, p) := p.lookUp key
  (found.transcript.outcome, { p with past := found.transcript.events.reverse ++ p.past })

/-- An event happens: what it writes is written to the sink. If the sink fails, it has not happened. -/
def emit (sink : Sink σ) (e : Event) (p : Progress c σ) : Except Stop Unit × Progress c σ :=
  match e with
  | .wrote piece =>
    match piece.write sink p.sink with
    | (.ok (), st) => (.ok (), { p with past := e :: p.past, sink := st })
    | (.error reason, st) => (.error (.error (.io reason)), { p with sink := st })
  | _ => (.ok (), { p with past := e :: p.past })

end Progress

namespace Run

variable {c : Catalog} {σ : Type}

/-- Does what is to be done, until the sink fails. -/
def perform (sink : Sink σ) : {α : Type} → Run α → Progress c σ → Except Stop α × Progress c σ
  | _, .ended outcome, p => (outcome, p)
  | _, .emit e, p => p.emit sink e
  | _, .layout key, p => p.layout key
  | _, .andThen first next, p =>
    match first.perform sink p with
    | (.ok a, p) => (next a).perform sink p
    | (.error stop, p) => (.error stop, p)
  | _, .orIfUndefined instead first, p =>
    match first.perform sink p with
    | (.error (.error (.undefined _ _)), p) => (.ok instead, p)
    | done => done

end Run

/-- What is left of a run when its page was written to a sink. -/
structure Delivery (σ : Type) where
  /-- what happened, in order: all there was to do, or what there was before the sink failed -/
  events : List Event
  /-- how it ended: as the run does, or by the failure of the sink -/
  outcome : Except Stop Unit
  /-- the sink afterwards -/
  sink : σ

/-- Writes the page of a run on a catalog to a sink. -/
def Run.deliver {σ : Type} (r : Run Unit) (c : Catalog) (sink : Sink σ) (st : σ) : Delivery σ :=
  let start : Progress c σ := { past := [], found := [], sink := st }
  let (outcome, p) := r.perform sink start
  { events := p.past.reverse, outcome, sink := p.sink }

end ThemedPages
