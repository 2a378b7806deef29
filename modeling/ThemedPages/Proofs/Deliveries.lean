import ThemedPages.Proofs.Likeness
import ThemedPages.Proofs.LookUps
import ThemedPages.Proofs.Sinks
import ThemedPages.Site

/-!
# Deliveries

How the page of a run gets to a sink. `Run.deliver_eq` says that to deliver a run is to feed its transcript: what a run
does does not depend on where its page is written, only how far it comes. A delivery to memory comes to the end
(`Run.deliver_memory`).

A run that is delivered keeps what it has looked up, and it stops in the middle where the sink fails. `Progress.FedBy`
compares it with its transcript nonetheless: what has been done is what the sink took of the events, and the value is
that of the transcript, unless the sink failed. It is carried through a run by recursion on it (`Run.perform_fedBy`).
With this, everything else is said of transcripts and of how a sink is fed with events.
-/

namespace ThemedPages

/-- Look-ups write nothing, so that any sink goes along with them. -/
theorem Sink.feed_lookUps {σ : Type} (sink : Sink σ) {c : Catalog} {es : List Event} (h : ∀ e ∈ es, c.IsLookUp e)
    (st : σ) : sink.feed es st = ⟨es, .ok (), st⟩ := by
  induction es with
  | nil => rfl
  | cons e rest ih =>
    have he : sink.offer e st = (.ok (), st) := by
      have hlook := h e List.mem_cons_self
      cases e <;> first | rfl | exact hlook.elim
    rw [feed_cons_of_ok he, ih fun e he => h e (List.mem_cons_of_mem _ he)]
    rfl

/-! ## Delivering a run

A sequence has two cases, by whether its first part ended without a value, be it by an error of its own or by the
sink. -/

/-- The end of a run whose page was fed to a sink: its own, or the failure of the sink. -/
def Fed.outcomeOr {σ α : Type} (f : Fed σ) (outcome : Except Stop α) : Except Stop α :=
  match f.outcome with
  | .ok () => outcome
  | .error reason => .error (.error (.io reason))

/-- A failing sink is no path that leads nowhere. -/
theorem Fed.recover_outcomeOr {σ α : Type} (f : Fed σ) (instead : α) (outcome : Except Stop α) :
    Transcript.recover instead (f.outcomeOr outcome) = f.outcomeOr (Transcript.recover instead outcome) := by
  unfold outcomeOr
  rcases f.outcome with reason | ⟨⟩ <;> rfl

section

variable {c : Catalog} {σ : Type} (sink : Sink σ)

/-- The progress of a run is the feeding of its transcript. -/
structure Progress.FedBy {α : Type} (p : Progress c σ) (t : Transcript α) (done : Except Stop α × Progress c σ) :
    Prop where
  outcome : done.1 = (sink.feed t.events p.sink).outcomeOr t.outcome
  past : done.2.past = (sink.feed t.events p.sink).taken.reverse ++ p.past
  sink : done.2.sink = (sink.feed t.events p.sink).sink

variable {sink}

/-- Nothing follows a run without a value, and a feeding that stops before its end is not gone on with. -/
theorem Progress.FedBy.bind_of_error {α β : Type} {p p₁ : Progress c σ} {t : Transcript α} {stop : Stop}
    (h : p.FedBy sink t (.error stop, p₁)) (f : α → Transcript β) : p.FedBy sink (t >>= f) (.error stop, p₁) := by
  obtain ⟨houtcome, hpast, hsink⟩ := h
  rcases hfed : (sink.feed t.events p.sink).outcome with reason | ⟨⟩
  · -- what follows, if there is anything, is not offered any more
    have hfeed : sink.feed (t >>= f).events p.sink = sink.feed t.events p.sink := by
      rcases ht : t.outcome with stop' | a
      · rw [Transcript.bind_of_error ht]
      · rw [Transcript.bind_of_ok ht]
        exact Sink.feed_append_of_error hfed _
    rw [Fed.outcomeOr, hfed] at houtcome
    obtain rfl := Except.error.inj houtcome
    exact ⟨by rw [hfeed, Fed.outcomeOr, hfed], by rw [hfeed]; exact hpast, by rw [hfeed]; exact hsink⟩
  · rw [Fed.outcomeOr, hfed] at houtcome
    rw [Transcript.bind_of_error houtcome.symm]
    exact ⟨by rw [Fed.outcomeOr, hfed], hpast, hsink⟩

/-- After a run with a value comes what follows from it. -/
theorem Progress.FedBy.bind_of_ok {α β : Type} {p p₁ : Progress c σ} {t : Transcript α} {f : α → Transcript β} {a : α}
    {done : Except Stop β × Progress c σ} (h : p.FedBy sink t (.ok a, p₁)) (hdone : p₁.FedBy sink (f a) done) :
    p.FedBy sink (t >>= f) done := by
  obtain ⟨houtcome, hpast, hsink⟩ := h
  obtain ⟨houtcome₁, hpast₁, hsink₁⟩ := hdone
  rw [hsink] at houtcome₁ hpast₁ hsink₁
  rcases hfed : (sink.feed t.events p.sink).outcome with reason | ⟨⟩ <;> rw [Fed.outcomeOr, hfed] at houtcome
  · cases houtcome
  · have hfeed := Sink.feed_append_of_ok hfed (f a).events
    rw [Transcript.bind_of_ok houtcome.symm]
    refine ⟨?_, ?_, ?_⟩
    · rw [hfeed]
      exact houtcome₁
    · rw [hfeed, List.reverse_append, List.append_assoc, ← hpast]
      exact hpast₁
    · rw [hfeed]
      exact hsink₁

theorem Progress.lookUp_past (key : Key) (p : Progress c σ) :
    (p.lookUp key).2.past = p.past ∧ (p.lookUp key).2.sink = p.sink := by
  unfold Progress.lookUp
  split <;> exact ⟨rfl, rfl⟩

theorem Progress.lookUp_transcript (key : Key) (p : Progress c σ) :
    (p.lookUp key).1.transcript = c.layout key := by
  unfold Progress.lookUp
  split
  · next found hfound =>
    have hkey : found.key = key := by simpa using List.find?_some hfound
    rw [found.transcript_eq, hkey]
  · rfl

theorem Run.perform_orIfUndefined {α : Type} (instead : α) (first : Run α) (p : Progress c σ) :
    (Run.orIfUndefined instead first).perform sink p =
      (Transcript.recover instead (first.perform sink p).1, (first.perform sink p).2) := by
  rw [Run.perform]
  rcases first.perform sink p with ⟨outcome, p₁⟩
  unfold Transcript.recover
  dsimp only
  split
  · next h =>
    obtain ⟨rfl, rfl⟩ := Prod.mk.inj h
    rfl
  · next h =>
    split
    · exact absurd rfl (h _ _ _)
    · rfl

/-- To deliver a run is to feed its transcript. -/
theorem Run.perform_fedBy {α : Type} (r : Run α) :
    ∀ p : Progress c σ, p.FedBy sink (r.transcript c) (r.perform sink p) := by
  induction r with
  | ended outcome => exact fun p => ⟨rfl, rfl, rfl⟩
  | emit e =>
    intro p
    cases e with
    | wrote piece =>
      simp only [Run.perform, Progress.emit, Run.transcript, Transcript.emit]
      -- the sink takes the piece, or the delivery stops with its error
      rcases h : piece.write sink p.sink with ⟨reason | ⟨⟩, st⟩
      · have hfeed := Sink.feed_cons_of_error (e := .wrote piece) h []
        exact ⟨by rw [hfeed]; rfl, by rw [hfeed]; rfl, by rw [hfeed]⟩
      · have hfeed := Sink.feed_cons_of_ok (e := .wrote piece) h []
        exact ⟨by rw [hfeed]; rfl, by rw [hfeed]; rfl, by rw [hfeed]; rfl⟩
    | _ => exact ⟨rfl, rfl, rfl⟩
  | layout key =>
    intro p
    -- looking up templates asks the roots and leaves the sink alone
    have hfeed := sink.feed_lookUps (c.onlyLooksUp_layout key) p.sink
    have hpast := p.lookUp_past key
    have htranscript := p.lookUp_transcript key
    refine ⟨?_, ?_, ?_⟩
    · rw [Run.transcript_layout, hfeed, Run.perform, Progress.layout]
      exact congrArg Transcript.outcome htranscript
    · rw [Run.transcript_layout, hfeed, Run.perform, Progress.layout, ← htranscript, ← hpast.1]
    · rw [Run.transcript_layout, hfeed, Run.perform, Progress.layout, ← hpast.2]
  | andThen first next hfirst hnext =>
    intro p
    -- the second part goes on from the progress that the first one made
    have hp := hfirst p
    rw [Run.perform]
    rcases hperform : first.perform sink p with ⟨stop | a, p₁⟩ <;> rw [hperform] at hp
    · exact hp.bind_of_error _
    · exact hp.bind_of_ok (hnext a p₁)
  | orIfUndefined instead first ih =>
    intro p
    -- what is recovered changes the outcome only
    obtain ⟨houtcome, hpast, hsink⟩ := ih p
    rw [Run.perform_orIfUndefined, Run.transcript_orIfUndefined]
    refine ⟨?_, ?_, ?_⟩
    · rw [Transcript.events_orIfUndefined, Transcript.outcome_orIfUndefined, ← Fed.recover_outcomeOr, ← houtcome]
    · rw [Transcript.events_orIfUndefined]
      exact hpast
    · rw [Transcript.events_orIfUndefined]
      exact hsink

/-- **To deliver a run is to feed its transcript to the sink.** -/
theorem Run.deliver_eq (r : Run Unit) (st : σ) :
    r.deliver c sink st =
      let fed := sink.feed (r.transcript c).events st
      { events := fed.taken, outcome := fed.outcomeOr (r.transcript c).outcome, sink := fed.sink } := by
  obtain ⟨houtcome, hpast, hsink⟩ := r.perform_fedBy (⟨[], [], st⟩ : Progress c σ)
  rw [Run.deliver]
  dsimp only
  rw [houtcome, hpast, hsink, List.append_nil, List.reverse_reverse]

end

/-- Unless the sink fails, a delivery ends as its run does. -/
theorem Run.outcome_of_deliver {c : Catalog} {σ : Type} {sink : Sink σ} {r : Run Unit} {st : σ} {stop : Stop}
    (h : (r.deliver c sink st).outcome = .error stop) (hstop : ∀ reason, stop ≠ .error (.io reason)) :
    (r.transcript c).outcome = .error stop := by
  rw [Run.deliver_eq] at h
  dsimp only [Fed.outcomeOr] at h
  rcases hfed : (sink.feed (r.transcript c).events st).outcome with reason | ⟨⟩ <;> rw [hfed] at h
  · exact absurd (Except.error.inj h).symm (hstop reason)
  · exact h

/-! ## What is seen outside

Of what happens in a page the questions to roots and what they find are not seen outside. What is left are its
effects. -/

/-- The event is seen outside: a helper is called, or a part of the page is written. -/
def Event.isEffect : Event → Bool
  | .called _ | .wrote _ => true
  | _ => false

/-- The events that are seen outside, in order. -/
def effects (es : List Event) : List Event := es.filter Event.isEffect

theorem effects_append (es es' : List Event) : effects (es ++ es') = effects es ++ effects es' :=
  List.filter_append ..

/-- The same is seen outside. -/
def EventLikeness.effects : EventLikeness where
  events es es' := ThemedPages.effects es = ThemedPages.effects es'
  nil := rfl
  append h h' := by rw [effects_append, effects_append, h, h']
  called _ := rfl
  wrote _ := rfl

/-- Only what is seen outside makes a difference to a sink. -/
theorem Sink.feed_effects {σ : Type} (sink : Sink σ) (es : List Event) (st : σ) :
    sink.feed (effects es) st = { sink.feed es st with taken := effects (sink.feed es st).taken } := by
  induction es generalizing st with
  | nil => rfl
  | cons e rest ih =>
    by_cases heffect : e.isEffect
    · rw [effects, List.filter_cons_of_pos heffect]
      rcases he : sink.offer e st with ⟨reason | ⟨⟩, st'⟩
      · rw [feed_cons_of_error he, feed_cons_of_error he]
        rfl
      · rw [feed_cons_of_ok he, feed_cons_of_ok he]
        change (sink.feed (effects rest) st').after e = _
        rw [ih st', Fed.after, Fed.after, effects, effects, List.filter_cons_of_pos heffect]
    · have he : sink.offer e st = (.ok (), st) := by
        cases e <;> first | rfl | exact absurd rfl heffect
      rw [effects, List.filter_cons_of_neg heffect, feed_cons_of_ok he]
      change sink.feed (effects rest) st = _
      rw [ih st, Fed.after, effects, effects, List.filter_cons_of_neg heffect]

/-- The two deliveries can not be told apart but by how errors are put: the same is done in the same order, the sink
is left in the same state, and the ends are alike. -/
structure Delivery.Alike {σ : Type} (L : Likeness) (d d' : Delivery σ) : Prop where
  effects : effects d.events = effects d'.events
  sink : d.sink = d'.sink
  outcome : L.Outcome Eq d.outcome d'.outcome

/-- Runs whose transcripts are alike are delivered alike. -/
theorem Run.deliver_alike {σ : Type} {L : Likeness} {r r' : Run Unit} {c c' : Catalog}
    (h : L.Like Eq (r.transcript c) (r'.transcript c'))
    (hevents : effects (r.transcript c).events = effects (r'.transcript c').events)
    (hio : ∀ reason, L.stop (.error (.io reason)) (.error (.io reason))) (sink : Sink σ) (st : σ) :
    (r.deliver c sink st).Alike L (r'.deliver c' sink st) := by
  have hfeed := sink.feed_effects (r.transcript c).events st
  rw [hevents, sink.feed_effects] at hfeed
  obtain ⟨htaken, hfed, hsink⟩ := Fed.mk.inj hfeed
  rw [Run.deliver_eq, Run.deliver_eq]
  refine ⟨htaken.symm, hsink.symm, ?_⟩
  dsimp only
  rw [Fed.outcomeOr, Fed.outcomeOr, hfed]
  rcases (sink.feed (r.transcript c).events st).outcome with reason | ⟨⟩
  · exact hio reason
  · exact h.outcome

/-! ## What a sink is left with

A sink that keeps a log of what it took has the page in it, or as much of it as it took. -/

section

variable {σ : Type} {sink : Sink σ} {goes : Bytes → σ → Prop} {fails : String → Bytes → σ → Prop}

/-- What becomes of a sink that the page of a run is written to. -/
inductive Delivery.Logged (goes : Bytes → σ → Prop) (fails : String → Bytes → σ → Prop) (log : Bytes)
    (t : Transcript Unit) : Delivery σ → Prop where
  /-- all that happens in the run has happened, and all of the page is logged -/
  | all {st : σ} (h : goes (log ++ t.bytes) st) : Logged goes fails log t ⟨t.events, t.outcome, st⟩
  /-- the sink failed at some part of the page, before all of that was logged -/
  | part {before after : List Event} {e : Event} {cut rest : Bytes} {reason : String} {st : σ}
    (hevents : t.events = before ++ e :: after) (hcut : e.bytes = cut ++ rest) (hrest : rest ≠ [])
    (h : fails reason (log ++ bytesOf before ++ cut) st) :
    Logged goes fails log t ⟨before, .error (.error (.io reason)), st⟩

/-- What is delivered to a sink that logs is logged. -/
theorem Run.deliver_logged (hsink : sink.Logs (fun b => [b]) goes fails) {log : Bytes} {st : σ} (hst : goes log st)
    (r : Run Unit) (c : Catalog) : (r.deliver c sink st).Logged goes fails log (r.transcript c) := by
  have hfed := hsink.feed hst (r.transcript c).events
  rw [Run.deliver_eq]
  generalize sink.feed (r.transcript c).events st = fed at hfed
  cases hfed with
  | all h => exact .all (by rwa [Transcript.bytes_eq])
  | part hes hcut hrest h => exact .part hes hcut hrest h

end

/-- A delivery to memory comes to the end of the run. -/
theorem Run.deliver_memory (r : Run Unit) (c : Catalog) (kept : Sink.Kept) :
    (r.deliver c Sink.memory kept).events = (r.transcript c).events ∧
      (r.deliver c Sink.memory kept).outcome = (r.transcript c).outcome := by
  have hlogged := r.deliver_logged Sink.logs_memory (rfl : kept.bytes = kept.bytes) c
  generalize r.deliver c Sink.memory kept = d at hlogged
  cases hlogged with
  | all _ => exact ⟨rfl, rfl⟩
  | part _ _ _ h => exact h.elim

/-- Keeping a page comes to what rendering it comes to. -/
theorem Site.keep_outcome (site : Site) (request : Request) (path : String) (context : Context) :
    (site.keep request path context).outcome = (site.transcript request path context).outcome :=
  (Run.deliver_memory _ _ _).2

end ThemedPages
