import ThemedPages.Proofs.Checks
import ThemedPages.Proofs.Mending

/-!
# Keeping track of places

Reading goes through the input from the front and is only ever about places between its characters. Two things come of
that: where something goes wrong, what is noted goes on from place to place, from the outermost note to the innermost;
and reading the input after mending it is the same as reading it and mending what is left.

* `Trace.GoesOn` says that notes go on from a place.
* `Parser.InStep` says both of these things of two parsers, one for the input and one for the mended input, and
  `Parser.Tracks` of a single parser. There is a lemma for each way to put parsers together, and one for each parser of
  the grammar, up to `Grammar.tracks_document`.
* `Template.read_mended` is what it comes to for templates.

What carries the proofs is that mending changes nothing but bytes that are in no character, and all that the grammar
asks of the input is about classes of bytes that are ASCII or have all other bytes in them (`Utf8.Uniform`). So a test
has the same answer before and after mending, and a run of bytes ends at the same place.

Where a parser remembers a place or what it has read, the two parsers are not the same: one has it as it was and the
other as it is mended. This is why `Parser.InStep` is about two.
-/

namespace ThemedPages

/-! ## Notes

The innermost note is about the place where reading stopped, and each of the others about a place before. So notes are
in the order of their places, and a note may be put in front if it is about a place that is no later. -/

/-- The note about the same place in the mended input. -/
def Note.mend (note : Note) : Note := { note with rest := Utf8.mend note.rest }

/-- The notes go on from a place in the input: each is about a rest of it, and about a rest of what the ones before it
are about. -/
structure Trace.GoesOn (place : Bytes) (trace : Trace) : Prop where
  /-- something is noted -/
  ne_nil : trace ≠ []
  /-- all of it is about places from that one on -/
  suffix : ∀ note ∈ trace, note.rest <:+ place
  /-- the notes are in the order of the places that they are about -/
  ordered : trace.Pairwise fun note note' => note'.rest <:+ note.rest

namespace Trace.GoesOn

variable {place place' : Bytes} {trace : Trace}

/-- Notes that go on from a place go on from an earlier one. -/
theorem mono (h : Trace.GoesOn place trace) (hplace : place <:+ place') : Trace.GoesOn place' trace where
  ne_nil := h.ne_nil
  suffix note hnote := (h.suffix note hnote).trans hplace
  ordered := h.ordered

/-- A single note is about a place that is still to come. -/
theorem single (h : place' <:+ place) (remark : Remark) : Trace.GoesOn place [⟨place', remark⟩] where
  ne_nil := List.cons_ne_nil _ _
  suffix := List.forall_mem_singleton.mpr h
  ordered := List.pairwise_singleton _ _

/-- A note about the place itself comes first. -/
theorem cons (h : Trace.GoesOn place trace) (remark : Remark) : Trace.GoesOn place (⟨place, remark⟩ :: trace) where
  ne_nil := List.cons_ne_nil _ _
  suffix := List.forall_mem_cons.mpr ⟨List.suffix_refl place, h.suffix⟩
  ordered := List.pairwise_cons.mpr ⟨h.suffix, h.ordered⟩

end Trace.GoesOn

namespace Parser

variable {α β : Type}

/-! ## Parsers in step

A reply for the input is compared with the one for the mended input: both have a value with the rest in step, or both
go wrong in the same way with the notes in step. The place is where all of it began, so that what is noted lies behind
it. -/

/-- A reply to some input and a reply to the mended input are the same at the same places, and what is noted goes on
from a place. -/
inductive RepliesInStep (place : Bytes) (r r' : Reply α) : Prop where
  /-- they are the same value -/
  | ok {a : α} {rest : Bytes} (h : r = .ok a rest) (h' : r' = .ok a (Utf8.mend rest)) (hrest : rest <:+ place)
  /-- they are refusals -/
  | refused {trace : Trace} (h : r = .refused trace) (h' : r' = .refused (trace.map Note.mend))
    (htrace : Trace.GoesOn place trace)
  /-- they are failures -/
  | failed {trace : Trace} (h : r = .failed trace) (h' : r' = .failed (trace.map Note.mend))
    (htrace : Trace.GoesOn place trace)

/-- What is noted of the input goes on from the place, and is what is noted of the mended input if the replies are the
same. -/
theorem RepliesInStep.goesOn {place : Bytes} {r r' : Reply α} {trace : Trace} (h : RepliesInStep place r r')
    (hr : r = .refused trace ∨ r = .failed trace) :
    Trace.GoesOn place trace ∧ (r' = r → trace.map Note.mend = trace) := by
  rcases h with ⟨rfl, -, -⟩ | ⟨rfl, rfl, htrace⟩ | ⟨rfl, rfl, htrace⟩ <;> rcases hr with hr | hr <;> cases hr
  · exact ⟨htrace, Reply.refused.inj⟩
  · exact ⟨htrace, Reply.failed.inj⟩

/-- From a place on, the second parser does with the mended input what the first one does with the input. -/
def InStep (place : Bytes) (p p' : Parser α) : Prop :=
  ∀ ⦃s : Bytes⦄, s <:+ place → RepliesInStep place (p s) (p' (Utf8.mend s))

/-- The parser keeps track of where it is, wherever it is used. -/
def Tracks (p : Parser α) : Prop := ∀ place, p.InStep place p

/-- What is in step behind a place is so behind an earlier one, which is what a sequence needs of its second part. -/
theorem RepliesInStep.mono {place place' : Bytes} {r r' : Reply α} (h : RepliesInStep place r r')
    (hplace : place <:+ place') : RepliesInStep place' r r' := by
  rcases h with ⟨h, h', hrest⟩ | ⟨h, h', htrace⟩ | ⟨h, h', htrace⟩
  · exact .ok h h' (hrest.trans hplace)
  · exact .refused h h' (htrace.mono hplace)
  · exact .failed h h' (htrace.mono hplace)

section

variable {place : Bytes} {p p' : Parser α} {f f' : α → Parser β}

theorem inStep_pure (a : α) : (pure a : Parser α).InStep place (pure a) := fun _ hs => .ok rfl rfl hs

/-- **Sequence.** The second parser begins where the first one left off, in both inputs, and goes on in step from
there. -/
theorem InStep.bind (h : p.InStep place p') (hf : ∀ a, (f a).InStep place (f' a)) :
    (p >>= f).InStep place (p' >>= f') := by
  intro s hs
  rcases h hs with ⟨hp, hp', hrest⟩ | ⟨hp, hp', htrace⟩ | ⟨hp, hp', htrace⟩
  · rw [bind_of_ok hp, bind_of_ok hp']
    exact hf _ hrest
  · exact .refused (bind_of_refused hp f) (bind_of_refused hp' f') htrace
  · exact .failed (bind_of_failed hp f) (bind_of_failed hp' f') htrace

/-- What is read after asking for the place may speak of it. -/
theorem inStep_position {f f' : Bytes → Parser β} (h : ∀ start, (f start).InStep start (f' (Utf8.mend start))) :
    (position >>= f).InStep place (position >>= f') := by
  intro s hs
  exact (h s (List.suffix_refl s)).mono hs

/-- A refusal at a place that was remembered is one at the mended place. -/
theorem inStep_refuseAt {start : Bytes} (h : start <:+ place) :
    (refuseAt start : Parser α).InStep place (refuseAt (Utf8.mend start)) :=
  fun _ _ => .refused rfl rfl (.single h _)

/-- A failure at a place that was remembered is one at the mended place. -/
theorem inStep_failAt {start : Bytes} (h : start <:+ place) (text : String) :
    (failAt start text : Parser α).InStep place (failAt (Utf8.mend start) text) :=
  fun _ _ => .failed rfl rfl (.single h _)

/-- Commitment turns a refusal into a failure in both. -/
theorem InStep.commit (h : p.InStep place p') : (commit p).InStep place (commit p') := by
  intro s hs
  rcases h hs with ⟨hp, hp', hrest⟩ | ⟨hp, hp', htrace⟩ | ⟨hp, hp', htrace⟩
  · exact .ok (commit_eq_ok.mpr hp) (commit_eq_ok.mpr hp') hrest
  · exact .failed (by rw [Parser.commit, hp]) (by rw [Parser.commit, hp']) htrace
  · exact .failed (by rw [Parser.commit, hp]) (by rw [Parser.commit, hp']) htrace

/-- What is missing from the input is missing from the mended input. -/
theorem InStep.optional (h : p.InStep place p') : (optional p).InStep place (optional p') := by
  intro s hs
  rcases h hs with ⟨hp, hp', hrest⟩ | ⟨hp, hp', -⟩ | ⟨hp, hp', htrace⟩
  · exact .ok (optional_eq_some.mpr hp) (optional_eq_some.mpr hp') hrest
  · exact .ok (by rw [Parser.optional, hp]) (by rw [Parser.optional, hp']) hs
  · exact .failed (by rw [Parser.optional, hp]) (by rw [Parser.optional, hp']) htrace

end

/-! ## Parsers that keep track

A parser that remembers nothing is compared with itself. What is put together from parsers that keep track does so
too. -/

section

variable {p : Parser α} {f : α → Parser β}

theorem tracks_pure (a : α) : (pure a : Parser α).Tracks := fun _ => inStep_pure a

/-- Sequence, if what follows depends on the value alone. -/
theorem Tracks.bind (h : p.Tracks) (hf : ∀ a, (f a).Tracks) : (p >>= f).Tracks :=
  fun place => (h place).bind fun a => hf a place

theorem Tracks.map (h : p.Tracks) (g : α → β) : (g <$> p).Tracks := h.bind fun _ => tracks_pure _

theorem Tracks.seqRight {q : Parser β} (h : p.Tracks) (hq : q.Tracks) : (p *> q).Tracks := h.bind fun _ => hq

theorem Tracks.seqLeft {q : Parser β} (h : p.Tracks) (hq : q.Tracks) : (p <* q).Tracks :=
  h.bind fun a => hq.bind fun _ => tracks_pure a

theorem Tracks.commit (h : p.Tracks) : (commit p).Tracks := fun place => (h place).commit

theorem Tracks.optional (h : p.Tracks) : (optional p).Tracks := fun place => (h place).optional

/-- A remark is about the place where the parser began, which is no later than those of the other notes. -/
theorem Tracks.label (h : p.Tracks) (text : String) : (label text p).Tracks := by
  intro place s hs
  refine RepliesInStep.mono ?_ hs
  rcases h s (List.suffix_refl s) with ⟨hp, hp', hrest⟩ | ⟨hp, hp', htrace⟩ | ⟨hp, hp', htrace⟩
  · exact .ok (label_eq_ok.mpr hp) (label_eq_ok.mpr hp') hrest
  · exact .refused (by rw [Parser.label, hp]) (by rw [Parser.label, hp']; rfl) (htrace.cons _)
  · exact .failed (by rw [Parser.label, hp]) (by rw [Parser.label, hp']; rfl) (htrace.cons _)

/-- A choice keeps track: an alternative is refused for the input exactly if it is for the mended input, so the same
one is taken. -/
theorem tracks_choice {ps : List (Parser α)} (h : ∀ p ∈ ps, p.Tracks) : (choice ps).Tracks := by
  intro place s hs
  refine RepliesInStep.mono ?_ hs
  have hself := List.suffix_refl s
  induction ps with
  | nil => exact .refused rfl rfl (.single hself _)
  | cons p ps ih =>
    have hrest := ih fun q hq => h q (List.mem_cons_of_mem _ hq)
    rcases h p List.mem_cons_self s hself with ⟨hp, hp', hmid⟩ | ⟨hp, hp', htrace⟩ | ⟨hp, hp', htrace⟩
    · exact .ok (choice_of_ok hp ps) (choice_of_ok hp' ps) hmid
    · cases ps with
      | nil => exact .refused (by simp only [choice, hp]) (by simp only [choice, hp']; rfl) (htrace.cons .bare)
      | cons q ps =>
        rw [choice_of_refused hp, choice_of_refused hp']
        exact hrest
    · cases ps with
      | nil => exact .failed (by simp only [choice, hp]) (by simp only [choice, hp']) htrace
      | cons q ps => exact .failed (by simp only [choice, hp]) (by simp only [choice, hp']) htrace

/-! ### Bytes

Here it is seen that mending leaves alone what the grammar looks at. -/

/-- An ASCII character is there after mending if it was before: no byte of it is made, and none is taken away. -/
theorem tracks_char {c : Char} (hc : c.toNat < 0x80) : (char c).Tracks := by
  intro place s hs
  have hascii : Utf8.isAscii (UInt8.ofNat c.toNat) = true :=
    decide_eq_true (UInt8.lt_iff_toNat_lt.mpr (by rwa [Utf8.toNat_ofNat_of_lt (by omega)]))
  cases s with
  | nil => exact .refused rfl rfl (.single hs _)
  | cons b rest =>
    have hrest : rest <:+ place := (List.suffix_cons b rest).trans hs
    -- mending keeps an ASCII byte, and puts none in the place of another byte
    rcases Utf8.mend_cons b rest with ⟨-, hmend⟩ | ⟨hlong, x, more, hmend, hlong'⟩
    · by_cases hb : b = UInt8.ofNat c.toNat
      · exact .ok (if_pos hb) (by rw [hmend]; exact if_pos hb) hrest
      · refine .refused (if_neg hb) ?_ (.single hs _)
        rw [List.map_singleton, Note.mend, hmend]
        exact if_neg hb
    · have hne : ∀ {y : UInt8}, Utf8.isAscii y = false → y ≠ UInt8.ofNat c.toNat := by
        rintro _ hy rfl
        cases hy.symm.trans hascii
      refine .refused (if_neg (hne hlong)) ?_ (.single hs _)
      rw [List.map_singleton, Note.mend, hmend]
      exact if_neg (hne hlong')

/-- A word of ASCII characters, one after the other. -/
theorem tracks_word {w : List Char} (h : (Bytes.ofAscii w).all Utf8.isAscii = true) : (word w).Tracks := by
  intro place s hs
  have hw := List.all_eq_true.mp h
  by_cases hfront : Bytes.ofAscii w <+: s
  · obtain ⟨rest, rfl⟩ := hfront
    rw [Utf8.mend_append_of_ascii hw]
    exact .ok (word_append w rest) (word_append w _) ((List.suffix_append _ rest).trans hs)
  · have hfront' : ¬Bytes.ofAscii w <+: Utf8.mend s := fun h => hfront ((Utf8.prefix_mend hw).mp h)
    exact .refused (if_neg hfront) (if_neg hfront') (.single hs _)

/-- Nothing is left exactly if nothing is left after mending. -/
theorem tracks_finish : finish.Tracks := by
  intro place s hs
  cases s with
  | nil => exact .ok rfl rfl hs
  | cons b rest =>
    have hne : Utf8.mend (b :: rest) ≠ [] := fun h => absurd (Utf8.mend_eq_nil.mp h) (List.cons_ne_nil b rest)
    refine .refused rfl ?_ (.single hs _)
    rw [List.map_singleton, Note.mend]
    generalize Utf8.mend (b :: rest) = s' at hne
    cases s' with
    | nil => exact absurd rfl hne
    | cons x more => rfl

variable {cls : UInt8 → Bool}

/-- After a run of a class comes what goes on in step with the mended run. -/
theorem inStep_span {place : Bytes} (hcls : Utf8.Uniform cls) {f f' : Bytes → Parser β}
    (hf : ∀ run, (∀ b ∈ run, cls b = true) → (f run).InStep place (f' (Utf8.mend run))) :
    (span cls >>= f).InStep place (span cls >>= f') := by
  intro s hs
  obtain ⟨htake, hdrop⟩ := Utf8.span_mend hcls s
  have hspan : span cls (Utf8.mend s) = .ok (Utf8.mend (s.takeWhile cls)) (Utf8.mend (s.dropWhile cls)) := by
    rw [span, htake, hdrop]
  rw [bind_of_ok (rfl : span cls s = .ok _ _), bind_of_ok hspan]
  exact hf _ (fun b hb => List.mem_takeWhile_imp hb) ((List.dropWhile_suffix cls).trans hs)

/-- As `inStep_span`, where the run may not be empty: mending a run gives an empty one only if it was. -/
theorem inStep_span1 {place : Bytes} (hcls : Utf8.Uniform cls) {f f' : Bytes → Parser β}
    (hf : ∀ run, (∀ b ∈ run, cls b = true) → (f run).InStep place (f' (Utf8.mend run))) :
    (span1 cls >>= f).InStep place (span1 cls >>= f') := by
  intro s hs
  obtain ⟨htake, hdrop⟩ := Utf8.span_mend hcls s
  -- a run is empty in one text exactly if it is empty in the other
  by_cases hempty : s.takeWhile cls = []
  · have hspan : span1 cls s = .refused [⟨s, .bare⟩] := by rw [span1, hempty]
    have hspan' : span1 cls (Utf8.mend s) = .refused [⟨Utf8.mend s, .bare⟩] := by
      rw [span1, htake, hempty]
      rfl
    exact .refused (bind_of_refused hspan f) (bind_of_refused hspan' f') (.single hs _)
  · have hspan : ∀ {s : Bytes}, s.takeWhile cls ≠ [] → span1 cls s = .ok (s.takeWhile cls) (s.dropWhile cls) := by
      intro s hne
      rw [span1]
      split
      · next h => exact absurd h hne
      · rfl
    have hempty' : (Utf8.mend s).takeWhile cls ≠ [] := by rwa [htake, ne_eq, Utf8.mend_eq_nil]
    rw [bind_of_ok (hspan hempty), bind_of_ok (hspan hempty'), htake, hdrop]
    exact hf _ (fun b hb => List.mem_takeWhile_imp hb) ((List.dropWhile_suffix cls).trans hs)

end

/-! ### Loops

What a loop does is the same however often it may be entered, if only that is often enough. So the input and the
mended input are read with as many rounds, and it is an induction on these rounds that what is built keeps track. -/

section

variable {item : Parser α} {stop separator close : Parser Unit}

/-- With as many rounds for the input as for the mended input, what is built keeps track. -/
theorem Guarded.tracks_fixAlong {n : Nat} {build : Parser α → Parser α} (h : Guarded n build)
    (hbuild : ∀ p : Parser α, p.Takes n → p.Tracks → (build p).Tracks) (bytes : Bytes) :
    (fixAlong build bytes).Tracks := by
  induction bytes with
  | nil => exact hbuild _ takes_refusing fun _ _ hs => .refused rfl rfl (.single hs _)
  | cons b bytes ih => exact hbuild _ (h.takes_fixAlong bytes) ih

/-- How often a loop may be entered makes no difference, so the mended input may be read with as many rounds as the
input. -/
theorem Guarded.tracks_fix {n : Nat} {build : Parser α → Parser α} (h : Guarded n build)
    (hbuild : ∀ p : Parser α, p.Takes n → p.Tracks → (build p).Tracks) : (fix build).Tracks := by
  intro place s hs
  -- there are as many rounds for both as there are bytes in both together
  have henough : ∀ {x : Bytes}, x.length ≤ (s ++ Utf8.mend s).length →
      fix build x = fixAlong build (s ++ Utf8.mend s) x :=
    fun hx => h.agree_fixAlong (Nat.le_refl _) hx (Nat.lt_succ_self _)
  rw [henough (by rw [List.length_append]; omega), henough (by rw [List.length_append]; omega)]
  exact h.tracks_fixAlong hbuild _ place hs

/-- What is read first is put in front of the rest in both. -/
theorem tracks_prepend {more : Parser (List α)} (h : more.Tracks) (a : α) : (prepend a more).Tracks :=
  h.bind fun _ => tracks_pure _

/-- A loop over items, as each of them keeps track. -/
theorem tracks_many (hitem : item.Takes 1) (h : item.Tracks) : (many item).Tracks := by
  refine (guarded_many hitem).tracks_fix fun self _ hself place s hs => ?_
  rcases h place hs with ⟨hi, hi', hrest⟩ | ⟨hi, hi', -⟩ | ⟨hi, hi', htrace⟩ <;> simp only [hi, hi']
  · exact tracks_prepend hself _ place hrest
  · exact .ok rfl rfl hs
  · exact .failed rfl rfl htrace

/-- A loop until a stop: it stops at the same place, as the stop keeps track. -/
theorem tracks_manyUntil (hitem : item.Takes 1) (hstop : stop.Takes 0) (h : item.Tracks) (hs : stop.Tracks) :
    (manyUntil item stop).Tracks := by
  refine (guarded_manyUntil hitem hstop).tracks_fix fun self _ hself place s hplace => RepliesInStep.mono ?_ hplace
  have hhere := List.suffix_refl s
  rcases hs s hhere with ⟨he, he', hrest⟩ | ⟨he, he', -⟩ | ⟨he, he', htrace⟩ <;> simp only [he, he']
  · exact .ok rfl rfl hrest
  · rcases h s hhere with ⟨hi, hi', hrest⟩ | ⟨hi, hi', htrace⟩ | ⟨hi, hi', htrace⟩ <;> simp only [hi, hi']
    · exact tracks_prepend hself _ s hrest
    · exact .refused rfl rfl (htrace.cons .bare)
    · exact .failed rfl rfl htrace
  · exact .failed rfl rfl htrace

/-- A loop over a list: the three parsers of it are tried in the same order at each place. -/
theorem tracks_listUntil (hitem : item.Takes 1) (hseparator : separator.Takes 0) (hclose : close.Takes 0)
    (h : item.Tracks) (hsep : separator.Tracks) (hend : close.Tracks) :
    (listUntil item separator close).Tracks := by
  refine (guarded_listUntil hitem hseparator hclose).tracks_fix fun self _ hself place s hs => ?_
  have hlast : (close *> pure [] : Parser (List α)).Tracks := hend.seqRight (tracks_pure _)
  rcases h place hs with ⟨hi, hi', hrest⟩ | ⟨hi, hi', htrace⟩ | ⟨hi, hi', htrace⟩ <;> simp only [hi, hi']
  · rcases hsep place hrest with ⟨hp, hp', hnext⟩ | ⟨hp, hp', -⟩ | ⟨hp, hp', -⟩ <;> simp only [hp, hp']
    · exact tracks_prepend hself _ place hnext
    · exact tracks_prepend hlast _ place hrest
    · exact tracks_prepend hlast _ place hrest
  · rcases hend place hs with ⟨hc, hc', hrest⟩ | ⟨hc, hc', -⟩ | ⟨hc, hc', -⟩ <;> simp only [hc, hc']
    · exact .ok rfl rfl hrest
    · exact .refused rfl rfl htrace
    · exact .refused rfl rfl htrace
  · rcases hend place hs with ⟨hc, hc', hrest⟩ | ⟨hc, hc', -⟩ | ⟨hc, hc', -⟩ <;> simp only [hc, hc']
    · exact .ok rfl rfl hrest
    · exact .failed rfl rfl htrace
    · exact .failed rfl rfl htrace

end

end Parser

namespace Grammar

open ThemedPages.Parser

/-! ## Names, strings and blanks

For each class of bytes that the grammar uses there is a lemma that mending respects it. Digits and names are ASCII.
What is text between quotes or between directives has all that is not ASCII in it. -/

theorem isAscii_of_isDigit {b : UInt8} (h : Ascii.isDigit b = true) : Utf8.isAscii b = true := by
  grind [Ascii.isDigit, Utf8.isAscii]

/-- A name is ASCII, so it is never changed by mending. -/
theorem isAscii_of_inName {b : UInt8} (h : inName b = true) : Utf8.isAscii b = true := by
  grind [inName, beginsName, Ascii.isLetter, Ascii.isDigit, Utf8.isAscii]

theorem uniform_isDigit : Utf8.Uniform Ascii.isDigit := .of_ascii fun _ => isAscii_of_isDigit

theorem uniform_inName : Utf8.Uniform inName := .of_ascii fun _ => isAscii_of_inName

theorem uniform_beginsName : Utf8.Uniform beginsName := .of_ascii fun _ hb => isAscii_of_inName (inName_of_beginsName hb)

/-- Blanks are ASCII. -/
theorem uniform_isBlank : Utf8.Uniform Ascii.isBlank := fun b hb => by grind [Ascii.isBlank, Utf8.isAscii]

/-- Text is all but three ASCII characters. -/
theorem uniform_isPlain : Utf8.Uniform isPlain := fun b hb => by grind [isPlain, Utf8.isAscii]

/-- What can be between quotes is all but the quote. -/
theorem uniform_unquoted : Utf8.Uniform (· ≠ 0x22) := fun b hb => by grind [Utf8.isAscii]

/-- The `@` that ends a comment after the star. -/
theorem uniform_at : Utf8.Uniform (· = 0x40) := fun b hb => by grind [Utf8.isAscii]

/-- Blanks are read and dropped, so it does not matter that the run is mended. -/
theorem tracks_blanks : blanks.Tracks := fun _ => inStep_span uniform_isBlank fun _ _ => inStep_pure _

theorem tracks_blanks1 : blanks1.Tracks := fun _ => inStep_span1 uniform_isBlank fun _ _ => inStep_pure _

/-- A name is checked once more after it was read, and is the same as bytes and mended. -/
theorem tracks_name : name.Tracks := by
  refine fun place => inStep_span1 uniform_beginsName fun first hfirst => inStep_span uniform_inName fun rest hrest => ?_
  rw [Utf8.mend_of_ascii fun b hb => isAscii_of_inName (inName_of_beginsName (hfirst b hb)),
    Utf8.mend_of_ascii fun b hb => isAscii_of_inName (hrest b hb)]
  exact inStep_pure _

/-- The content of a string is the same text after mending. -/
theorem tracks_string : string.Tracks := by
  have hquote : (char '"').Tracks := tracks_char (by decide)
  refine fun place => (hquote place).bind fun _ => inStep_span uniform_unquoted fun content _ =>
    (hquote place).bind fun _ => ?_
  rw [Utf8.lossy_mend]
  exact inStep_pure _

/-! ### Comments

A comment is looked through by a function of its own, byte by byte, with `*@` as the two bytes that end it. Both are
ASCII, so mending neither makes nor breaks such an end. -/

/-- A byte that is no star is passed over. -/
theorem afterComment_cons {b : UInt8} (hb : b ≠ 0x2A) (rest : Bytes) : afterComment (b :: rest) = afterComment rest := by
  rw [afterComment]
  rintro _ rfl
  exact absurd rfl hb

/-- A star is passed over if no `@` comes after it. -/
theorem afterComment_star {s : Bytes} (hs : Stops (· = 0x40) s) : afterComment (0x2A :: s) = afterComment s := by
  rw [afterComment]
  rintro rest - rfl
  cases hs 0x40 rfl

/-- A comment does not end outside of ASCII. -/
theorem afterComment_append {run : Bytes} (hrun : ∀ b ∈ run, Utf8.isAscii b = false) (rest : Bytes) :
    afterComment (run ++ rest) = afterComment rest := by
  induction run with
  | nil => rfl
  | cons b run ih =>
    have hb : b ≠ 0x2A := by
      rintro rfl
      cases hrun _ List.mem_cons_self
    rw [List.cons_append, afterComment_cons hb, ih fun x hx => hrun x (List.mem_cons_of_mem _ hx)]

/-- A comment ends at the same place after mending. -/
theorem afterComment_mend (s : Bytes) : afterComment (Utf8.mend s) = (afterComment s).map Utf8.mend := by
  induction s using Utf8.inductionOnRuns with
  | nil => rfl
  -- the comment is not closed within a run of bytes that are not ASCII
  | run run rest hrun hrest ih =>
    have hrun' : ∀ b ∈ Utf8.mend run, Utf8.isAscii b = false := fun b hb =>
      (Utf8.mem_mend hb).elim (hrun b) fun hlong => hlong
    rw [Utf8.mend_append run hrest, afterComment_append hrun', afterComment_append hrun, ih]
  | ascii b rest hb ih =>
    rw [Utf8.mend_cons_of_ascii hb]
    by_cases hstar : b = 0x2A
    · subst hstar
      -- a star closes the comment only together with the sign after it
      by_cases hat : Stops (· = 0x40) rest
      · have hat' : Stops (· = 0x40) (Utf8.mend rest) := Utf8.stops_mend uniform_at hat
        rw [afterComment_star hat, afterComment_star hat', ih]
      · cases rest with
        | nil => exact absurd (stops_nil _) hat
        | cons x after =>
          obtain rfl : x = 0x40 := by_contra fun hx => hat (stops_cons (decide_eq_false hx) after)
          rw [Utf8.mend_cons_of_ascii rfl]
          rfl
    · rw [afterComment_cons hstar, afterComment_cons hstar, ih]

/-- A comment ends at the same place. -/
theorem tracks_comment : comment.Tracks := by
  refine (tracks_word (by decide)).bind fun _ place s hs => ?_
  have hmend := afterComment_mend s
  rcases h : afterComment s with _ | rest <;> rw [h] at hmend
  · exact .refused rfl (by rw [hmend]; rfl) (.single hs .bare)
  · exact .ok rfl (by rw [hmend]; rfl) ((afterComment_suffix h).trans hs)

theorem tracks_space : (choice [comment, blanks1]).Tracks := by
  refine tracks_choice fun p hp => ?_
  rcases List.mem_pair.mp hp with rfl | rfl
  · exact tracks_comment
  · exact tracks_blanks1

theorem tracks_spaces : spaces.Tracks := (tracks_many takes_space tracks_space).bind fun _ => tracks_pure _

/-! ## Expressions

An integer and a call remember where they began, for the note they leave there. -/

/-- The digits are ASCII, so the number is the same, and where it does not fit, the note is about the place where the
digits begin. -/
theorem tracks_integer : integer.Tracks := by
  have hminus : (char '-').Tracks := tracks_char (by decide)
  refine fun place => inStep_position fun start => (hminus.optional start).bind fun negative =>
    inStep_span1 uniform_isDigit fun ds hds => ?_
  rw [Utf8.mend_of_ascii fun b hb => isAscii_of_isDigit (hds b hb)]
  dsimp only
  split
  · exact inStep_pure _
  · exact inStep_refuseAt (List.suffix_refl start)

theorem tracks_part : (char '.' *> name).Tracks := (tracks_char (by decide)).seqRight tracks_name

theorem tracks_path : path.Tracks :=
  tracks_name.bind fun _ => (tracks_many takes_part tracks_part).bind fun _ => tracks_pure _

theorem tracks_separator : (blanks *> char ',' *> blanks).Tracks :=
  (tracks_blanks.seqRight (tracks_char (by decide))).seqRight tracks_blanks

theorem tracks_close : (blanks *> char ')').Tracks := tracks_blanks.seqRight (tracks_char (by decide))

section

variable {e : Parser Expr}

/-- Arguments are a list with parsers that keep track. -/
theorem tracks_arguments (he : e.Takes 1) (h : e.Tracks) : (arguments e).Tracks :=
  (tracks_char (by decide)).bind fun _ => tracks_blanks.bind fun _ =>
    tracks_listUntil he takes_separator.zero takes_close h tracks_separator tracks_close

/-- What is wrong with a call is said of the place of its name. -/
theorem tracks_call (he : e.Takes 1) (h : e.Tracks) : (call e).Tracks := by
  refine (tracks_word (by decide)).bind fun _ place => inStep_position fun start => InStep.commit ?_
  refine (tracks_name start).bind fun called => ((tracks_arguments he h).label _ start).bind fun args => ?_
  split
  · split
    · exact inStep_pure _
    · exact inStep_failAt (List.suffix_refl start) _
  · exact inStep_failAt (List.suffix_refl start) _

end

/-- Expressions keep track: what is built of a parser that does so keeps track itself. -/
theorem tracks_expression : expression.Tracks := by
  refine guarded_expressionOf.tracks_fix fun e he h => tracks_choice fun p hp => ?_
  simp only [List.mem_cons, List.not_mem_nil, or_false] at hp
  rcases hp with rfl | rfl | rfl | rfl | rfl
  · exact ((tracks_char (by decide)).seqRight h).map _
  · exact tracks_string.map _
  · exact tracks_integer
  · exact tracks_call he h
  · exact tracks_path

/-! ## Nodes

A node remembers its place for one failure, that of a parent after the first node. -/

/-- Directives are words, all of them ASCII. -/
theorem tracks_directive : directive.Tracks := by
  have hchar : ∀ (c : Char) (d : Directive), c.toNat < 0x80 → (char c *> pure d).Tracks := fun c d hc =>
    (tracks_char hc).seqRight (tracks_pure d)
  have hword : ∀ (w : List Char) (d : Directive), (Bytes.ofAscii w).all Utf8.isAscii = true →
      (word w *> pure d).Tracks := fun w d hw => (tracks_word hw).seqRight (tracks_pure d)
  refine Tracks.optional ((tracks_char (by decide)).seqRight (tracks_choice fun p hp => ?_))
  simp only [List.mem_cons, List.not_mem_nil, or_false] at hp
  rcases hp with rfl | rfl | rfl | rfl | rfl | rfl | rfl
  · exact hchar _ _ (by decide)
  · exact hchar _ _ (by decide)
  · exact hchar _ _ (by decide)
  · exact hword _ _ (by decide)
  · exact hword _ _ (by decide)
  · exact hword _ _ (by decide)
  · refine Tracks.seqLeft (tracks_choice fun p hp => ?_) tracks_blanks1
    simp only [List.mem_cons, List.not_mem_nil, or_false] at hp
    rcases hp with rfl | rfl | rfl <;> exact hword _ _ (by decide)

theorem tracks_argument : argument.Tracks :=
  tracks_name.bind fun _ => tracks_blanks.bind fun _ => (tracks_char (by decide)).bind fun _ =>
    tracks_blanks.bind fun _ => (tracks_expression.commit.label _).bind fun _ => tracks_pure _

theorem tracks_nextArgument : (blanks *> char ',' *> blanks *> argument).Tracks :=
  tracks_separator.seqRight tracks_argument

theorem tracks_snippet : snippet.Tracks :=
  tracks_blanks.bind fun _ => (tracks_string.label _).bind fun _ =>
    (tracks_many takes_nextArgument tracks_nextArgument).bind fun _ => tracks_blanks.bind fun _ =>
      ((tracks_char (by decide)).label _).bind fun _ => tracks_pure _

/-- A text is the one place where what was read is kept with bytes that are in no character. They are mended in the
text, which changes nothing where they were mended before. -/
theorem tracks_undirected : undirected.Tracks := by
  refine tracks_choice fun p hp => ?_
  simp only [List.mem_cons, List.not_mem_nil, or_false] at hp
  rcases hp with rfl | rfl | rfl
  · exact tracks_comment.seqRight (tracks_pure _)
  · -- a run of text is the same text after mending
    refine fun place => inStep_span1 uniform_isPlain fun run _ => ?_
    change InStep place (pure (Node.text (Utf8.lossy run))) (pure (Node.text (Utf8.lossy (Utf8.mend run))))
    rw [Utf8.lossy_mend]
    exact inStep_pure _
  · exact ((tracks_char (by decide)).seqRight tracks_expression).map _

section

variable {p : Parser Node}

/-- Nodes in braces are a loop until the closing brace. -/
theorem tracks_braced (hp : p.Takes 1) (h : p.Tracks) : (braced p).Tracks := by
  have hclose : (char '}').Tracks := tracks_char (by decide)
  exact ((tracks_char (by decide)).label _).bind fun _ =>
    (tracks_manyUntil hp ((takes_char '}').zero) h hclose).commit.label _

/-- Conditions keep track, whatever comes after the `else`. -/
theorem tracks_condition (hp : p.Takes 1) (h : p.Tracks) : (condition p).Tracks := by
  refine (guarded_conditionOf hp).tracks_fix fun c _ hc => ?_
  refine (tracks_expression.label _).bind fun test => tracks_spaces.bind fun _ => ?_
  refine (tracks_braced hp h).bind fun body => Tracks.bind (Tracks.optional ?_) fun _ => tracks_pure _
  refine tracks_spaces.bind fun _ => (tracks_word (by decide)).bind fun _ => tracks_spaces.bind fun _ => ?_
  refine tracks_choice fun q hq => ?_
  rcases List.mem_pair.mp hq with rfl | rfl
  · exact (Tracks.seqRight ((tracks_word (by decide)).seqRight tracks_blanks1) hc).map _
  · exact tracks_braced hp h

theorem tracks_loop (hp : p.Takes 1) (h : p.Tracks) : (loop p).Tracks :=
  (tracks_name.label _).bind fun _ => tracks_blanks1.bind fun _ =>
    ((tracks_word (by decide)).label _).bind fun _ => tracks_blanks1.bind fun _ =>
      (tracks_expression.label _).bind fun _ => tracks_spaces.bind fun _ =>
        (tracks_braced hp h).bind fun _ => tracks_pure _

theorem tracks_block (hp : p.Takes 1) (h : p.Tracks) : (block p).Tracks :=
  (tracks_name.label _).bind fun _ => tracks_spaces.bind fun _ => (tracks_braced hp h).bind fun _ => tracks_pure _

end

/-- That a parent comes too late is said of the place where the node begins. -/
theorem tracks_node : node.Tracks := by
  refine guarded_nodeOf.tracks_fix fun p hp h place => inStep_position fun start =>
    (tracks_directive start).bind fun d => ?_
  rcases d with _ | d
  · exact tracks_undirected start
  · cases d with
    | literal c => exact inStep_pure _
    | super => exact inStep_pure _
    | cond => exact (tracks_condition hp h).commit.label _ start
    | loop => exact (tracks_loop hp h).commit.label _ start
    | block => exact (tracks_block hp h).commit.label _ start
    | snippet => exact tracks_snippet.commit.label _ start
    | «extends» => exact inStep_failAt (List.suffix_refl start) _

/-! ## Templates

A template may have a parent, and after it come nodes up to the end of the input. -/

/-- The parent is a word and a string. -/
theorem tracks_parent : parent.Tracks := by
  refine (tracks_word (by decide)).bind fun _ => Tracks.commit ?_
  exact tracks_blanks.bind fun _ => (tracks_string.label _).bind fun _ => tracks_blanks.bind fun _ =>
    ((tracks_char (by decide)).label _).bind fun _ => tracks_pure _

/-- Reading a whole template keeps track of places. -/
theorem tracks_document : document.Tracks :=
  tracks_spaces.bind fun _ => (Tracks.optional (tracks_parent.seqLeft tracks_spaces)).bind fun _ =>
    (tracks_manyUntil takes_node takes_finish tracks_node tracks_finish).bind fun _ => tracks_pure _

end Grammar

namespace Template

/-- Any bytes are read as the template that the text of these bytes is read as, with a U+FFFD in place of each part that
is no character: it makes no difference whether that is done to the whole source first, or to each text, each string
and each name in it. -/
theorem read_mended (name : String) (source : Bytes) (t : Template) :
    Template.read name source = .ok t ↔ Template.read name (Utf8.bytes (Utf8.lossy source)) = .ok t := by
  rw [Utf8.bytes_lossy, read_eq_ok, read_eq_ok]
  refine and_congr_left fun _ => ?_
  rcases Grammar.tracks_document source (List.suffix_refl source) with ⟨h, h', -⟩ | ⟨h, h', -⟩ | ⟨h, h', -⟩ <;>
    simp [h, h']

end Template

end ThemedPages
