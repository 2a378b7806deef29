import ThemedPages.Run

/-!
# Laws of transcripts

Transcripts form a lawful monad, and `Run.transcript` goes through the structure of a run. Everything that is said
about what happens in a run is said of its transcript; the equations here take a run apart, so that proofs never
unfold `Run.transcript` or the sequencing of transcripts.

* `Transcript.bind_of_ok` and `Transcript.bind_of_error` are what sequencing does, by how the first part ends.
  `Transcript.outcome_bind_eq_ok`, `Transcript.outcome_bind_eq_error` and `Transcript.mem_events_bind` go the other way:
  they take a sequence apart by how all of it ends.
* `Transcript.Below` compares what was cut off somewhere with what was not.
* `Run.transcript_bind` and the lemmas beside it are tagged for `simp`, one for each way to make a run.
-/

namespace ThemedPages

/-! ## Sequencing

The events of a sequence are those of its parts one after the other, and its outcome is that of the second part,
unless the first one has no value. Proofs about a sequence split on how the first part ends and rewrite with one of
two equations. -/

namespace Transcript

variable {α β : Type}

/-- Transcripts are determined by their events and their outcome. -/
theorem ext {t u : Transcript α} (he : t.events = u.events) (ho : t.outcome = u.outcome) : t = u := by
  cases t; cases u
  subst he; subst ho
  rfl

@[simp] theorem events_pure (a : α) : (pure a : Transcript α).events = [] := rfl

@[simp] theorem outcome_pure (a : α) : (pure a : Transcript α).outcome = .ok a := rfl

@[simp] theorem events_emit (e : Event) : (emit e).events = [e] := rfl

@[simp] theorem outcome_emit (e : Event) : (emit e).outcome = .ok () := rfl

@[simp] theorem events_fail (e : Error) : (fail e : Transcript α).events = [] := rfl

@[simp] theorem outcome_fail (e : Error) : (fail e : Transcript α).outcome = .error (.error e) := rfl

@[simp] theorem events_endless : (endless : Transcript α).events = [] := rfl

@[simp] theorem outcome_endless : (endless : Transcript α).outcome = .error .endless := rfl

/-- What follows a transcript with a value. -/
theorem bind_of_ok {t : Transcript α} {a : α} (h : t.outcome = .ok a) (f : α → Transcript β) :
    t >>= f = ⟨t.events ++ (f a).events, (f a).outcome⟩ := by
  obtain ⟨events, outcome⟩ := t
  obtain rfl : outcome = .ok a := h
  rfl

/-- Nothing follows a transcript without a value. -/
theorem bind_of_error {t : Transcript α} {stop : Stop} (h : t.outcome = .error stop) (f : α → Transcript β) :
    t >>= f = ⟨t.events, .error stop⟩ := by
  obtain ⟨events, outcome⟩ := t
  obtain rfl : outcome = .error stop := h
  rfl

/-- A value that is just given leaves what follows as it is, also where the law of monads is not seen by `simp`. -/
@[simp] theorem pure_bind' (a : α) (f : α → Transcript β) : pure a >>= f = f a := rfl

/-- Nothing follows an error. -/
@[simp] theorem fail_bind (e : Error) (f : α → Transcript β) : fail e >>= f = fail e := rfl

instance : LawfulMonad Transcript := LawfulMonad.mk' _
  (fun t => by
    rcases h : t.outcome with stop | a
    · exact (bind_of_error h _).trans (ext rfl h.symm)
    · exact (bind_of_ok h _).trans (ext (List.append_nil _) h.symm))
  (fun _ _ => rfl)
  (fun t f g => by
    rcases h : t.outcome with stop | a
    · rw [bind_of_error h, bind_of_error rfl, bind_of_error h]
    · have htf : (t >>= f).outcome = (f a).outcome := by rw [bind_of_ok h]
      rcases hf : (f a).outcome with stop | b
      · rw [bind_of_error (htf.trans hf), bind_of_ok h, bind_of_ok h, bind_of_error hf]
      · rw [bind_of_ok (htf.trans hf), bind_of_ok h, bind_of_ok h, bind_of_ok hf, List.append_assoc])

/-- Inversion for sequencing: a value comes of it only if one comes of both parts. -/
theorem outcome_bind_eq_ok {t : Transcript α} {f : α → Transcript β} {b : β} :
    (t >>= f).outcome = .ok b ↔ ∃ a, t.outcome = .ok a ∧ (f a).outcome = .ok b := by
  rcases h : t.outcome with stop | a
  · simp [bind_of_error h]
  · simp [bind_of_ok h]

/-- Inversion for sequencing: what ends it without a value ends the first part or the second. -/
theorem outcome_bind_eq_error {t : Transcript α} {f : α → Transcript β} {stop : Stop} :
    (t >>= f).outcome = .error stop ↔
      t.outcome = .error stop ∨ ∃ a, t.outcome = .ok a ∧ (f a).outcome = .error stop := by
  rcases h : t.outcome with stop' | a
  · simp [bind_of_error h]
  · simp [bind_of_ok h]

/-- What happens in a sequence happens in the first part or in the second. -/
theorem mem_events_bind {t : Transcript α} {f : α → Transcript β} {e : Event} (h : e ∈ (t >>= f).events) :
    e ∈ t.events ∨ ∃ a, t.outcome = .ok a ∧ e ∈ (f a).events := by
  rcases ht : t.outcome with stop | a
  · rw [bind_of_error ht] at h
    exact .inl h
  · rw [bind_of_ok ht] at h
    exact (List.mem_append.mp h).imp id fun h => ⟨a, rfl, h⟩

/-- What is done to the value of a transcript is no event. -/
@[simp] theorem events_map (g : α → β) (t : Transcript α) : (g <$> t).events = t.events := by
  rw [map_eq_pure_bind]
  rcases h : t.outcome with stop | a
  · rw [bind_of_error h]
  · rw [bind_of_ok h]
    exact List.append_nil _

/-- What is done to the value of a transcript is done where there is one. -/
@[simp] theorem outcome_map (g : α → β) (t : Transcript α) : (g <$> t).outcome = t.outcome.map g := by
  rw [map_eq_pure_bind]
  rcases h : t.outcome with stop | a
  · rw [bind_of_error h]
    rfl
  · rw [bind_of_ok h]
    rfl

/-! ## Transcripts that are cut off

What goes round and round ends as `endless`, and where that is depends on how many rounds it was given. With more
rounds it comes to more or to an end, so a transcript that was cut off says nothing about what comes with more rounds,
while one that was not cut off stays what it is. -/

/-- What has a value was not cut off. -/
theorem ne_endless_of_ok {t : Transcript α} {a : α} (h : t.outcome = .ok a) : t.outcome ≠ .error .endless := by
  simp [h]

/-- What is cut off ends what it begins. -/
theorem bind_endless {t : Transcript α} (h : t.outcome = .error .endless) (f : α → Transcript β) :
    (t >>= f).outcome = .error .endless := by
  rw [bind_of_error h]

/-- A sequence that was not cut off has no part that was. -/
theorem ne_endless_of_bind {t : Transcript α} {f : α → Transcript β} (h : (t >>= f).outcome ≠ .error .endless) :
    t.outcome ≠ .error .endless ∧ ∀ a, t.outcome = .ok a → (f a).outcome ≠ .error .endless :=
  ⟨fun ht => h (bind_endless ht f), fun a ht => by rwa [bind_of_ok ht] at h⟩

/-- The first transcript is the second, unless it was cut off. -/
def Below (t u : Transcript α) : Prop := t.outcome = .error .endless ∨ t = u

theorem Below.refl (t : Transcript α) : t.Below t := .inr rfl

/-- What is not cut off does not change with more rounds. -/
theorem Below.eq {t u : Transcript α} (h : t.Below u) (ht : t.outcome ≠ .error .endless) : t = u :=
  h.resolve_left ht

/-- In a sequence either part may be cut off: if it is the first one, nothing is said of the second, and the events
before do not have to be compared. -/
theorem Below.bind {t u : Transcript α} {f g : α → Transcript β} (h : t.Below u)
    (hfg : ∀ a, t.outcome = .ok a → (f a).Below (g a)) : (t >>= f).Below (u >>= g) := by
  rcases h with hend | rfl
  · exact .inl (bind_endless hend f)
  · rcases ht : t.outcome with stop | a
    · rw [bind_of_error ht, bind_of_error ht]
      exact .refl _
    · rw [bind_of_ok ht, bind_of_ok ht]
      rcases hfg a ht with hend | hsame
      · exact .inl hend
      · exact .inr (by rw [hsame])

/-! ## Values in place of what there is not

In a condition and in an argument the error that a path leads nowhere is replaced by a value. No other end is, and the
events before stay. -/

@[simp] theorem events_orIfUndefined (instead : α) (t : Transcript α) :
    (t.orIfUndefined instead).events = t.events := by
  unfold orIfUndefined
  split <;> rfl

end Transcript

/-- It ends because a path leads nowhere. -/
def Stop.isUndefined : Stop → Bool
  | .error (.undefined _ _) => true
  | _ => false

namespace Transcript

variable {α : Type}

/-- A value is left as it is. -/
theorem orIfUndefined_of_ok {instead a : α} {t : Transcript α} (h : t.outcome = .ok a) :
    t.orIfUndefined instead = t := by
  simp [orIfUndefined, h]

/-- Where a path leads nowhere, the other value is taken, and what happened before has happened. -/
theorem orIfUndefined_of_isUndefined {instead : α} {t : Transcript α} {stop : Stop} (h : t.outcome = .error stop)
    (hstop : stop.isUndefined = true) : t.orIfUndefined instead = ⟨t.events, .ok instead⟩ := by
  unfold Stop.isUndefined at hstop
  split at hstop
  · simp [orIfUndefined, h]
  · cases hstop

/-- Every other error is left as it is. -/
theorem orIfUndefined_of_not_isUndefined {instead : α} {t : Transcript α} {stop : Stop}
    (h : t.outcome = .error stop) (hstop : stop.isUndefined = false) : t.orIfUndefined instead = t := by
  unfold orIfUndefined
  split
  · next hundefined =>
    rw [h] at hundefined
    cases hundefined
    cases hstop
  · rfl

/-- An outcome with a value in place of the error that a path leads nowhere. -/
def recover (instead : α) : Except Stop α → Except Stop α
  | .error (.error (.undefined _ _)) => .ok instead
  | outcome => outcome

/-- What comes of it depends on the outcome alone. -/
theorem outcome_orIfUndefined (instead : α) (t : Transcript α) :
    (t.orIfUndefined instead).outcome = recover instead t.outcome := by
  obtain ⟨events, (e | _) | a⟩ := t
  · cases e <;> rfl
  · rfl
  · rfl

end Transcript

/-! ## Runs

What is done on a catalog is done step by step, and a look-up is the only step that depends on the catalog. -/

namespace Run

variable {α β : Type} (c : Catalog)

@[simp] theorem transcript_pure (a : α) : (pure a : Run α).transcript c = pure a := rfl

/-- The transcript of a sequence is the sequence of the transcripts. -/
@[simp] theorem transcript_bind (r : Run α) (f : α → Run β) :
    (r >>= f).transcript c = r.transcript c >>= fun a => (f a).transcript c := rfl

@[simp] theorem transcript_map (g : α → β) (r : Run α) : (g <$> r).transcript c = g <$> r.transcript c := rfl

@[simp] theorem transcript_emit (e : Event) : (emit e).transcript c = .emit e := rfl

@[simp] theorem transcript_fail (e : Error) : (fail e : Run α).transcript c = .fail e := rfl

@[simp] theorem transcript_endless : (endless : Run α).transcript c = .endless := rfl

/-- Looking up a layout does what the catalog does. -/
@[simp] theorem transcript_layout (key : Key) : (layout key).transcript c = c.layout key := rfl

@[simp] theorem transcript_orIfUndefined (instead : α) (r : Run α) :
    (orIfUndefined instead r).transcript c = (r.transcript c).orIfUndefined instead := rfl

end Run

end ThemedPages
