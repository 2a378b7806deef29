import Mathlib.Data.List.TakeWhile
import ThemedPages.Proofs.Transcripts

/-!
# Feeding sinks

`Sink.feed` offers events to a sink one by one, up to the first that the sink does not take. What that does to the sink
is said by what was written to it so far, its log:

* `Sink.Logs` is what a single offer has to do with the log, whether the sink goes along with it or fails.
* `Sink.Logs.feed` is what follows for any events: all that they write is logged, or a beginning of it that ends within
  the event at which the sink failed. `Sink.Logs.escaping` says that escaping a sink only changes what is logged of each
  byte, however the sink takes what it is offered.

A sink may take less than it is offered, and what is left is offered again. The log is kept through all of this by two
relations: one between the log and a sink that goes along, and one for a sink that has failed, in which the log is a
beginning of what was to be written. They are parameters, since a sink need not show what it took; for those that keep
it, the log is what they keep (`Sink.Records.logs`).
-/

namespace ThemedPages

/-! ## Events that are offered

An event that writes nothing is always taken. -/

/-- The bytes that an event adds to the page. -/
def Event.bytes (e : Event) : Bytes := e.piece?.elim [] Piece.bytes

/-- The bytes that some events add to the page. -/
def bytesOf (es : List Event) : Bytes := es.flatMap Event.bytes

theorem bytesOf_cons (e : Event) (es : List Event) : bytesOf (e :: es) = e.bytes ++ bytesOf es := rfl

theorem bytesOf_append (es es' : List Event) : bytesOf (es ++ es') = bytesOf es ++ bytesOf es' :=
  List.flatMap_append ..

theorem Transcript.bytes_eq {α : Type} (t : Transcript α) : t.bytes = bytesOf t.events := by
  rw [Transcript.bytes, Transcript.pieces, bytesOf]
  induction t.events with
  | nil => rfl
  | cons e rest ih =>
    rw [List.flatMap_cons, ← ih]
    cases e <;> rfl

/-- What becomes of events that are offered to a sink. -/
structure Fed (σ : Type) where
  /-- the events that the sink went along with -/
  taken : List Event
  /-- whether it went along with all of them, or why not -/
  outcome : Except String Unit
  /-- the sink afterwards -/
  sink : σ

/-- The feeding, with an event taken before. -/
def Fed.after {σ : Type} (f : Fed σ) (e : Event) : Fed σ := { f with taken := e :: f.taken }

namespace Sink

variable {σ : Type} (sink : Sink σ)

/-- An event is offered: what it writes is written to the sink. -/
def offer (e : Event) (st : σ) : Except String Unit × σ :=
  match e with
  | .wrote piece => piece.write sink st
  | _ => (.ok (), st)

/-- Offers events in order, up to the first that the sink does not take. -/
def feed : List Event → σ → Fed σ
  | [], st => ⟨[], .ok (), st⟩
  | e :: rest, st =>
    match sink.offer e st with
    | (.ok (), st) => (feed rest st).after e
    | (.error reason, st) => ⟨[], .error reason, st⟩

variable {sink}

/-- If the first event is taken, the others are offered next. -/
theorem feed_cons_of_ok {e : Event} {st st' : σ} (h : sink.offer e st = (.ok (), st')) (rest : List Event) :
    sink.feed (e :: rest) st = (sink.feed rest st').after e := by
  rw [feed, h]

theorem feed_cons_of_error {e : Event} {st st' : σ} {reason : String}
    (h : sink.offer e st = (.error reason, st')) (rest : List Event) :
    sink.feed (e :: rest) st = ⟨[], .error reason, st'⟩ := by
  rw [feed, h]

/-- Where the sink goes along with some events, it is offered those after them. -/
theorem feed_append_of_ok {before : List Event} {st : σ} (h : (sink.feed before st).outcome = .ok ())
    (after : List Event) :
    sink.feed (before ++ after) st =
      { sink.feed after (sink.feed before st).sink with
        taken := (sink.feed before st).taken ++ (sink.feed after (sink.feed before st).sink).taken } := by
  induction before generalizing st with
  | nil => rfl
  | cons e rest ih =>
    rcases he : sink.offer e st with ⟨reason | ⟨⟩, st'⟩
    · rw [feed_cons_of_error he] at h
      cases h
    · rw [feed_cons_of_ok he] at h ⊢
      rw [List.cons_append, feed_cons_of_ok he, ih h]
      rfl

/-- Where the sink does not go along with some events, it is not offered those after them. -/
theorem feed_append_of_error {before : List Event} {st : σ} {reason : String}
    (h : (sink.feed before st).outcome = .error reason) (after : List Event) :
    sink.feed (before ++ after) st = sink.feed before st := by
  induction before generalizing st with
  | nil => cases h
  | cons e rest ih =>
    rcases he : sink.offer e st with ⟨reason' | ⟨⟩, st'⟩
    · rw [List.cons_append, feed_cons_of_error he, feed_cons_of_error he]
    · rw [feed_cons_of_ok he] at h
      rw [List.cons_append, feed_cons_of_ok he, feed_cons_of_ok he, ih h]

/-- What the sink takes is the beginning of what it is offered. -/
theorem taken_feed_prefix (es : List Event) (st : σ) : (sink.feed es st).taken <+: es := by
  induction es generalizing st with
  | nil => exact List.prefix_refl _
  | cons e rest ih =>
    rcases he : sink.offer e st with ⟨reason | ⟨⟩, st'⟩
    · rw [feed_cons_of_error he]
      exact List.nil_prefix
    · rw [feed_cons_of_ok he]
      exact (List.prefix_cons_inj e).mpr (ih st')

/-! ## Logs

Writing is offering until nothing is left, as often as there are bytes, since each offer that is taken takes one at
least. -/

variable (sink) in
/-- The sink does not go along with an offer: it fails, or else it takes nothing. -/
inductive Halts (data : Bytes) (st : σ) (reason : String) (st' : σ) : Prop where
  /-- it fails -/
  | failed (h : sink.write data st = (.error reason, st'))
  /-- it takes nothing -/
  | stuck (h : sink.write data st = (.ok 0, st')) (hreason : reason = Sink.stuck)

variable (sink) in
/-- There are offers that the sink does not go along with, for a reason. -/
def Fails (reason : String) : Prop := ∃ data st st', data ≠ [] ∧ sink.Halts data st reason st'

variable (sink) in
/-- What offers have to do with the log of a sink, given what is logged of each byte, and what holds of the log and the
sink while it goes along and when it has failed. -/
structure Logs (image : UInt8 → Bytes) (goes : Bytes → σ → Prop) (fails : String → Bytes → σ → Prop) : Prop where
  /-- what is taken of an offer is logged -/
  taken {log data : Bytes} {st st' : σ} {n : Nat} (hst : goes log st) (hdata : data ≠ [])
    (h : sink.write data st = (.ok (n + 1), st')) :
    n + 1 ≤ data.length ∧ goes (log ++ (data.take (n + 1)).flatMap image) st'
  /-- of an offer at which the sink fails, not all is logged -/
  halts {log data : Bytes} {st st' : σ} {reason : String} (hst : goes log st) (hdata : data ≠ [])
    (h : sink.Halts data st reason st') :
    ∃ cut rest, data.flatMap image = cut ++ rest ∧ rest ≠ [] ∧ fails reason (log ++ cut) st'

/-- What becomes of a sink that some bytes are written to: they are logged, or it fails before all of them are. -/
def Logged (goes : Bytes → σ → Prop) (fails : String → Bytes → σ → Prop) (log bytes : Bytes) :
    Except String Unit × σ → Prop
  | (.ok (), st) => goes (log ++ bytes) st
  | (.error reason, st) => ∃ cut rest, bytes = cut ++ rest ∧ rest ≠ [] ∧ fails reason (log ++ cut) st

section

variable {image : UInt8 → Bytes} {goes : Bytes → σ → Prop} {fails : String → Bytes → σ → Prop}

/-- After some bytes that are logged come others. -/
theorem Logged.prepend {log bytes bytes' : Bytes} {done : Except String Unit × σ}
    (h : Logged goes fails (log ++ bytes) bytes' done) : Logged goes fails log (bytes ++ bytes') done := by
  rcases done with ⟨reason | ⟨⟩, st⟩
  · obtain ⟨cut, rest, rfl, hrest, hfails⟩ := h
    exact ⟨bytes ++ cut, rest, by rw [List.append_assoc], hrest, by rwa [← List.append_assoc]⟩
  · rw [Logged, List.append_assoc] at h
    exact h

/-- By induction on how many offers there may be. After each the log has grown by what was taken. -/
theorem Logs.writeWithin (h : sink.Logs image goes fails) (fuel : Nat) {log data : Bytes} {st : σ}
    (hst : goes log st) (hfuel : data.length ≤ fuel) :
    Logged goes fails log (data.flatMap image) (sink.writeWithin fuel data st) := by
  induction fuel generalizing log data st with
  | zero =>
    obtain rfl := List.length_eq_zero_iff.mp (Nat.le_zero.mp hfuel)
    simpa [Sink.writeWithin, Logged] using hst
  | succ fuel ih =>
    cases data with
    | nil => simpa [Sink.writeWithin, Logged] using hst
    | cons b rest =>
      have hdata : b :: rest ≠ [] := List.cons_ne_nil _ _
      rcases hwrite : sink.write (b :: rest) st with ⟨reason | (_ | n), st'⟩
      · simp only [Sink.writeWithin, hwrite]
        exact h.halts hst hdata (.failed hwrite)
      · simp only [Sink.writeWithin, hwrite]
        exact h.halts hst hdata (.stuck hwrite rfl)
      · simp only [Sink.writeWithin, hwrite]
        obtain ⟨hle, hst'⟩ := h.taken hst hdata hwrite
        -- what was taken is logged, and what is left is offered again
        have hsplit : (b :: rest).flatMap image =
            ((b :: rest).take (n + 1)).flatMap image ++ ((b :: rest).drop (n + 1)).flatMap image := by
          rw [← List.flatMap_append, List.take_append_drop]
        rw [hsplit]
        refine (ih hst' ?_).prepend
        rw [List.length_drop]
        omega

/-- So writing some bytes logs them, or a beginning of them at which the sink failed. -/
theorem Logs.writeAll (h : sink.Logs image goes fails) {log : Bytes} {st : σ} (hst : goes log st) (data : Bytes) :
    Logged goes fails log (data.flatMap image) (sink.writeAll data st) :=
  h.writeWithin _ hst (Nat.le_refl _)

theorem flatMap_singleton_bytes (data : Bytes) : (data.flatMap fun b => [b]) = data := List.flatMap_singleton' data

/-- Bytes without a meaning in html are escaped as themselves. -/
theorem flatMap_escapeByte_of_plain {data : Bytes} (h : ∀ b ∈ data, Html.entity b = none) :
    data.flatMap Html.escapeByte = data := by
  induction data with
  | nil => rfl
  | cons b rest ih =>
    have hb : Html.escapeByte b = [b] := by rw [Html.escapeByte, h b List.mem_cons_self, Option.getD_none]
    rw [List.flatMap_cons, hb, ih fun b hb => h b (List.mem_cons_of_mem _ hb)]
    rfl

/-- Of an offer that begins with bytes without entities, these are offered. -/
theorem exists_plain_of_entity_eq_none (sink : Sink σ) {b : UInt8} (hb : Html.entity b = none) (rest : Bytes) :
    ∃ plain after, b :: rest = plain ++ after ∧ plain ≠ [] ∧ (∀ x ∈ plain, Html.entity x = none) ∧
      ∀ st, sink.escaping.write (b :: rest) st = sink.write plain st := by
  refine ⟨_, _, (List.takeWhile_append_dropWhile (p := fun b => (Html.entity b).isNone)).symm, by simp [hb],
    fun x hx => ?_, fun st => by simp only [Sink.escaping, hb]⟩
  have hisNone := List.mem_takeWhile_imp (p := fun b => (Html.entity b).isNone) hx
  exact Option.isNone_iff_eq_none.mp hisNone

/-- Of an offer that begins with a byte that has an entity, this is written. -/
theorem escaping_write_of_some {b : UInt8} {entity : Bytes} (hb : Html.entity b = some entity) (rest : Bytes)
    (st : σ) :
    sink.escaping.write (b :: rest) st = ((sink.writeAll entity st).1.map fun _ => 1, (sink.writeAll entity st).2) := by
  simp only [Sink.escaping, hb]
  rcases sink.writeAll entity st with ⟨reason | ⟨⟩, st'⟩ <;> rfl

/-- Where a sink logs what it takes, escaping it logs that as it is escaped. A sink that fails in the midst of an entity
has logged a part of it. -/
theorem Logs.escaping (h : sink.Logs (fun b => [b]) goes fails) :
    sink.escaping.Logs Html.escapeByte goes fails where
  taken := by
    intro log data st st' n hst hdata hwrite
    obtain ⟨b, rest, rfl⟩ := List.exists_cons_of_ne_nil hdata
    rcases hb : Html.entity b with _ | entity
    · obtain ⟨plain, after, hsplit, hplain, hnone, hsame⟩ := exists_plain_of_entity_eq_none sink hb rest
      rw [hsame] at hwrite
      obtain ⟨hle, hgoes⟩ := h.taken hst hplain hwrite
      rw [hsplit, List.take_append_of_le_length hle,
        flatMap_escapeByte_of_plain fun x hx => hnone x (List.mem_of_mem_take hx)]
      rw [flatMap_singleton_bytes] at hgoes
      exact ⟨Nat.le_trans hle (by simp), hgoes⟩
    · -- the entity of a single byte is written
      rw [escaping_write_of_some hb] at hwrite
      have hall := h.writeAll hst entity
      rcases hdone : sink.writeAll entity st with ⟨reason | ⟨⟩, st''⟩ <;> rw [hdone] at hwrite hall
      · cases hwrite
      · cases hwrite
        refine ⟨by simp, ?_⟩
        simpa [Logged, Html.escapeByte, hb] using hall
  halts := by
    intro log data st st' reason hst hdata hhalts
    obtain ⟨b, rest, rfl⟩ := List.exists_cons_of_ne_nil hdata
    rcases hb : Html.entity b with _ | entity
    · obtain ⟨plain, after, hsplit, hplain, hnone, hsame⟩ := exists_plain_of_entity_eq_none sink hb rest
      have hhalts' : sink.Halts plain st reason st' := by
        cases hhalts with
        | failed hwrite => exact .failed (hsame st ▸ hwrite)
        | stuck hwrite hreason => exact .stuck (hsame st ▸ hwrite) hreason
      obtain ⟨cut, left, hcut, hleft, hfails⟩ := h.halts hst hplain hhalts'
      rw [flatMap_singleton_bytes] at hcut
      refine ⟨cut, left ++ after.flatMap Html.escapeByte, ?_, by simp [hleft], hfails⟩
      rw [hsplit, List.flatMap_append, flatMap_escapeByte_of_plain hnone, hcut, List.append_assoc]
    · have hall := h.writeAll hst entity
      have hescape : (b :: rest).flatMap Html.escapeByte = entity ++ rest.flatMap Html.escapeByte := by
        simp [Html.escapeByte, hb]
      rcases hdone : sink.writeAll entity st with ⟨reason' | ⟨⟩, st''⟩ <;> rw [hdone] at hall
      · -- what was written of the entity is less than it
        obtain ⟨cut, left, hcut, hleft, hfails⟩ := hall
        rw [flatMap_singleton_bytes] at hcut
        have hfail : sink.escaping.write (b :: rest) st = (.error reason', st'') := by
          rw [escaping_write_of_some hb, hdone]
          rfl
        obtain ⟨rfl, rfl⟩ : reason' = reason ∧ st'' = st' := by
          cases hhalts with
          | failed hwrite => simpa using hfail.symm.trans hwrite
          | stuck hwrite hreason => simpa using hfail.symm.trans hwrite
        exact ⟨cut, left ++ rest.flatMap Html.escapeByte, by rw [hescape, hcut, List.append_assoc], by simp [hleft],
          hfails⟩
      · have hone : sink.escaping.write (b :: rest) st = (.ok 1, st'') := by
          rw [escaping_write_of_some hb, hdone]
          rfl
        cases hhalts with
        | failed hwrite => simpa using hone.symm.trans hwrite
        | stuck hwrite hreason => simpa using hone.symm.trans hwrite

/-- Writing a part of a page logs its bytes. -/
theorem Logs.write (h : sink.Logs (fun b => [b]) goes fails) {log : Bytes} {st : σ} (hst : goes log st)
    (piece : Piece) : Logged goes fails log piece.bytes (piece.write sink st) := by
  cases piece with
  | markup text =>
    have hall := h.writeAll hst (Utf8.bytes text)
    rwa [flatMap_singleton_bytes] at hall
  | plain text => exact h.escaping.writeAll hst (Utf8.bytes text)

/-- An event logs what it writes. -/
theorem Logs.offer (h : sink.Logs (fun b => [b]) goes fails) {log : Bytes} {st : σ} (hst : goes log st) (e : Event) :
    Logged goes fails log e.bytes (sink.offer e st) := by
  cases e with
  | wrote piece => exact h.write hst piece
  | _ => simpa [Logged, Sink.offer, Event.bytes, Event.piece?] using hst

/-- What becomes of a sink that is fed some events: what they write is logged, or a beginning of it that ends within
the first event that the sink did not take. -/
inductive FedLogged (goes : Bytes → σ → Prop) (fails : String → Bytes → σ → Prop) (log : Bytes) (es : List Event) :
    Fed σ → Prop where
  /-- it took all of them -/
  | all {st : σ} (h : goes (log ++ bytesOf es) st) : FedLogged goes fails log es ⟨es, .ok (), st⟩
  /-- it failed at one of them, before all that this writes was logged -/
  | part {taken after : List Event} {e : Event} {cut rest : Bytes} {reason : String} {st : σ}
    (hes : es = taken ++ e :: after) (hcut : e.bytes = cut ++ rest) (hrest : rest ≠ [])
    (h : fails reason (log ++ bytesOf taken ++ cut) st) : FedLogged goes fails log es ⟨taken, .error reason, st⟩

/-- **Any events are logged,** up to the one at which the sink failed, by induction on them. -/
theorem Logs.feed (h : sink.Logs (fun b => [b]) goes fails) {log : Bytes} {st : σ} (hst : goes log st)
    (es : List Event) : FedLogged goes fails log es (sink.feed es st) := by
  induction es generalizing log st with
  | nil => exact .all (by simpa [bytesOf] using hst)
  | cons e rest ih =>
    have hoffer := h.offer hst e
    rcases he : sink.offer e st with ⟨reason | ⟨⟩, st'⟩ <;> rw [he] at hoffer
    · rw [feed_cons_of_error he]
      obtain ⟨cut, left, hcut, hleft, hfails⟩ := hoffer
      exact .part rfl hcut hleft (by simpa [bytesOf] using hfails)
    · rw [feed_cons_of_ok he]
      have hrest := ih hoffer
      generalize sink.feed rest st' = fed at hrest
      cases hrest with
      | all hgoes => exact .all (by rwa [bytesOf_cons, ← List.append_assoc])
      | part hes hcut hleft hfails =>
        refine .part (by rw [hes]; rfl) hcut hleft ?_
        rwa [bytesOf_cons, ← List.append_assoc log]

end

/-! ## Sinks that keep what they take

A sink in memory and a sink with a limit are two of these. The second one takes of each offer at most a chunk. -/

variable (sink) in
/-- The sink keeps what it takes of an offer, and nothing when it fails. -/
structure Records (log : σ → Bytes) : Prop where
  /-- what it takes is added to what it has kept -/
  taken {data : Bytes} {st st' : σ} {n : Nat} (hdata : data ≠ []) (h : sink.write data st = (.ok n, st')) :
    n ≤ data.length ∧ log st' = log st ++ data.take n
  /-- it fails without taking anything -/
  failed {data : Bytes} {st st' : σ} {reason : String} (hdata : data ≠ [])
    (h : sink.write data st = (.error reason, st')) : log st' = log st

/-- A sink that keeps what it takes logs it. -/
theorem Records.logs {log : σ → Bytes} (h : sink.Records log) :
    sink.Logs (fun b => [b]) (fun bytes st => log st = bytes)
      fun reason bytes st => log st = bytes ∧ sink.Fails reason where
  taken := by
    rintro _ data st st' n rfl hdata hwrite
    rw [flatMap_singleton_bytes]
    exact h.taken hdata hwrite
  halts := by
    rintro _ data st st' reason rfl hdata hhalts
    refine ⟨[], data, flatMap_singleton_bytes data, hdata, ?_, data, st, st', hdata, hhalts⟩
    rw [List.append_nil]
    cases hhalts with
    | failed hwrite => exact h.failed hdata hwrite
    | stuck hwrite => rw [(h.taken hdata hwrite).2, List.take_zero, List.append_nil]

theorem Kept.bytes_add (kept : Kept) (data : Bytes) : (kept.add data).bytes = kept.bytes ++ data := by
  simp [Kept.add, Kept.bytes]

@[simp] theorem Kept.bytes_nothing : Kept.nothing.bytes = [] := rfl

/-- A sink in memory keeps what it takes. -/
theorem records_memory : memory.Records Kept.bytes where
  taken := by
    intro data kept kept' n _ hwrite
    obtain ⟨hlength, rfl⟩ := Prod.mk.inj hwrite
    obtain rfl := Except.ok.inj hlength
    exact ⟨Nat.le_refl _, by rw [Kept.bytes_add, List.take_length]⟩
  failed := by
    intro data kept kept' reason _ hwrite
    cases hwrite

/-- Memory takes whatever it is offered. -/
theorem not_fails_memory (reason : String) : ¬memory.Fails reason := by
  rintro ⟨data, kept, kept', hdata, hhalts⟩
  cases hhalts with
  | failed hwrite => cases hwrite
  | stuck hwrite => exact hdata (List.length_eq_zero_iff.mp (Except.ok.inj (Prod.mk.inj hwrite).1))

theorem logs_memory : memory.Logs (fun b => [b]) (fun log kept => kept.bytes = log) fun _ _ _ => False where
  taken := records_memory.logs.taken
  halts _ hdata hhalts := (not_fails_memory _ ⟨_, _, _, hdata, hhalts⟩).elim

/-- What a bounded sink does with an offer: it takes some of it, for which there is room, or fails, for there is no room
left or it never takes anything. -/
theorem bounded_write (limit chunk : Option Nat) (reason : String) {data : Bytes} (hdata : data ≠ []) (kept : Kept) :
    (∃ n, n + 1 ≤ data.length ∧ (∀ l ∈ limit, kept.size + (n + 1) ≤ l) ∧
      (bounded limit chunk reason).write data kept = (.ok (n + 1), kept.add (data.take (n + 1)))) ∨
    ((∃ l ∈ limit, l ≤ kept.size) ∨ chunk = some 0) ∧
      (bounded limit chunk reason).write data kept = (.error reason, kept) := by
  have hlength := List.length_pos_iff.mpr hdata
  simp only [bounded]
  split
  · next h =>
    -- nothing is taken, so the limit is reached or chunks are empty
    refine .inr ⟨?_, rfl⟩
    have hzero := h.2
    rcases limit with _ | limit
    · rcases chunk with _ | chunk <;> simp only [Option.getD_none, Option.getD_some] at hzero
      · omega
      · exact .inr (congrArg some (by omega))
    · by_cases hfull : limit ≤ kept.size
      · exact .inl ⟨limit, rfl, hfull⟩
      · rcases chunk with _ | chunk <;> simp only [Option.getD_none, Option.getD_some] at hzero
        · omega
        · exact .inr (congrArg some (by omega))
  · next h =>
    -- something is taken, which is the least of three lengths
    obtain ⟨n, hn⟩ : ∃ n, min (min data.length (limit.getD (kept.size + data.length) - kept.size))
        (chunk.getD data.length) = n + 1 := ⟨_, (Nat.succ_pred fun hzero => h ⟨hdata, hzero⟩).symm⟩
    refine .inl ⟨n, by omega, ?_, by rw [hn]⟩
    rintro l rfl
    simp only [Option.getD_some] at hn
    omega

/-- Whatever the bounds of a sink, it keeps what it takes. -/
theorem records_bounded (limit chunk : Option Nat) (reason : String) :
    (bounded limit chunk reason).Records Kept.bytes where
  taken := by
    intro data kept kept' n hdata hwrite
    obtain ⟨m, hm, -, h⟩ | ⟨-, h⟩ := bounded_write limit chunk reason hdata kept <;> rw [h] at hwrite
    · cases hwrite
      exact ⟨hm, Kept.bytes_add kept _⟩
    · cases hwrite
  failed := by
    intro data kept kept' reason' hdata hwrite
    obtain ⟨m, -, -, h⟩ | ⟨-, h⟩ := bounded_write limit chunk reason hdata kept <;> rw [h] at hwrite
    · cases hwrite
    · cases hwrite
      rfl

/-- A sink that keeps at most so many bytes, and takes at least one of each offer until then, fails when it is full. -/
theorem logs_bounded_some (limit : Nat) {chunk : Nat} (hchunk : 0 < chunk) (reason : String) :
    (bounded (some limit) (some chunk) reason).Logs (fun b => [b])
      (fun log kept => kept.bytes = log ∧ kept.size = log.length ∧ log.length ≤ limit)
      fun reason' log kept => kept.bytes = log ∧ log.length = limit ∧ reason' = reason where
  taken := by
    rintro log data kept kept' n ⟨hlog, hsize, -⟩ hdata hwrite
    obtain ⟨m, hm, hroom, h⟩ | ⟨-, h⟩ := bounded_write (some limit) (some chunk) reason hdata kept <;>
      rw [h] at hwrite
    · cases hwrite
      have hroom := hroom limit rfl
      rw [Kept.bytes_add, hlog, flatMap_singleton_bytes, List.length_append, List.length_take_of_le hm]
      refine ⟨hm, rfl, ?_, by omega⟩
      simp only [Kept.add, List.length_take_of_le hm, hsize]
    · cases hwrite
  halts := by
    rintro log data kept kept' reason' ⟨hlog, hsize, hlimit⟩ hdata hhalts
    refine ⟨[], data, flatMap_singleton_bytes data, hdata, ?_⟩
    obtain ⟨m, -, -, h⟩ | ⟨hfull, h⟩ := bounded_write (some limit) (some chunk) reason hdata kept
    · cases hhalts with
      | failed hwrite => cases h.symm.trans hwrite
      | stuck hwrite => cases h.symm.trans hwrite
    · cases hhalts with
      | failed hwrite =>
        cases h.symm.trans hwrite
        -- a chunk holds something, so it is the limit that is reached
        have hfull : limit ≤ kept.size := by
          rcases hfull with ⟨_, hmem, hfull⟩ | hzero
          · exact Option.mem_some.mp hmem ▸ hfull
          · cases hzero
            exact absurd hchunk (Nat.lt_irrefl 0)
        rw [List.append_nil]
        exact ⟨hlog, by omega, rfl⟩
      | stuck hwrite => cases h.symm.trans hwrite

end Sink

end ThemedPages
