import Mathlib.Data.List.Forall2
import ThemedPages.Parser

/-!
# Loops of parsers

A parser that is built from itself satisfies its equation, if whatever is built takes a byte before it comes to itself.

* `Parser.Takes` says how much a parser takes at least, and `Parser.Agree` that two parsers are the same on short
  inputs. Both go through all that parsers are put together from.
* `Parser.Guarded` is what a loop has to satisfy, in terms of these, and `Parser.Guarded.fix_eq` is its equation.
* `Parser.many_eq`, `Parser.manyUntil_eq` and `Parser.listUntil_eq` are those of the loops over items, each of which
  takes a byte at least.

The argument for the equation is the usual one for functions that are built step by step. What is allowed to enter
itself once for each byte of the input has entries enough, as each of them is on an input that is shorter by a byte: so
one more entry makes no difference, which is `Parser.Guarded.agree_fixAlong`, and with one more the two sides of the
equation are the same by definition.
-/

namespace ThemedPages.Parser

variable {α β : Type}

/-! ## Sequence

What is done in sequence goes on where the first part left off, and a refusal or a failure is passed on as it is. -/

/-- After a part that read something the next one goes on with what is left. -/
theorem bind_of_ok {p : Parser α} {s rest : Bytes} {a : α} (h : p s = .ok a rest) (f : α → Parser β) :
    (p >>= f) s = f a rest := by
  simp only [bind, h]

theorem bind_of_refused {p : Parser α} {s : Bytes} {trace : Trace} (h : p s = .refused trace) (f : α → Parser β) :
    (p >>= f) s = .refused trace := by
  simp only [bind, h]

theorem bind_of_failed {p : Parser α} {s : Bytes} {trace : Trace} (h : p s = .failed trace) (f : α → Parser β) :
    (p >>= f) s = .failed trace := by
  simp only [bind, h]

/-- Inversion for sequencing. -/
theorem bind_eq_ok {p : Parser α} {f : α → Parser β} {s rest : Bytes} {b : β} :
    (p >>= f) s = .ok b rest ↔ ∃ a mid, p s = .ok a mid ∧ f a mid = .ok b rest := by
  cases h : p s with
  | ok a mid =>
    rw [bind_of_ok h]
    refine ⟨fun hb => ⟨a, mid, rfl, hb⟩, ?_⟩
    rintro ⟨_, _, ⟨⟩, hb⟩
    exact hb
  | refused trace => simp [bind_of_refused h]
  | failed trace => simp [bind_of_failed h]

/-! ## What a parser takes

`p.Takes n` is a statement on runs that succeed: what is left is what comes after some bytes, and these are no less
than `n`. It is a lower bound, so it may be made smaller (`Takes.mono`), and for a sequence the bounds of the parts
add up, of which often one part alone is wanted (`Takes.bind_left`, `Takes.bind_right`). -/

/-- The parser takes some bytes from the front of the input, at least so many. -/
def Takes (n : Nat) (p : Parser α) : Prop :=
  ∀ ⦃s : Bytes⦄ ⦃a : α⦄ ⦃rest : Bytes⦄, p s = .ok a rest → ∃ taken, s = taken ++ rest ∧ n ≤ taken.length

section

variable {m n : Nat} {p : Parser α} {f : α → Parser β}

/-- What is left is shorter than what there was by what was taken. -/
theorem Takes.length_le (h : p.Takes n) {s : Bytes} {a : α} {rest : Bytes} (hs : p s = .ok a rest) :
    rest.length + n ≤ s.length := by
  obtain ⟨taken, rfl, hn⟩ := h hs
  rw [List.length_append]
  omega

/-- What takes much takes less as well: the bound is from below. -/
theorem Takes.mono (h : p.Takes n) (hm : m ≤ n) : p.Takes m := fun _ _ _ hs =>
  let ⟨taken, hsplit, hn⟩ := h hs
  ⟨taken, hsplit, Nat.le_trans hm hn⟩

/-- Whatever is known to take something can be used where it may take nothing. -/
theorem Takes.zero (h : p.Takes n) : p.Takes 0 := h.mono (Nat.zero_le n)

/-- A value that is just given takes nothing. -/
theorem takes_pure (a : α) : (pure a : Parser α).Takes 0 := by
  rintro s _ _ ⟨⟩
  exact ⟨[], rfl, Nat.zero_le _⟩

/-- In a sequence both parts are taken. -/
theorem Takes.bind (h : p.Takes m) (hf : ∀ a, (f a).Takes n) : (p >>= f).Takes (m + n) := by
  intro s b rest hs
  obtain ⟨a, mid, hp, hb⟩ := bind_eq_ok.mp hs
  obtain ⟨taken, rfl, hm⟩ := h hp
  obtain ⟨taken', rfl, hn⟩ := hf a hb
  exact ⟨taken ++ taken', (List.append_assoc ..).symm, by rw [List.length_append]; omega⟩

/-- What is taken first is enough. -/
theorem Takes.bind_left (h : p.Takes n) (hf : ∀ a, (f a).Takes 0) : (p >>= f).Takes n := h.bind hf

/-- What is taken next is enough. -/
theorem Takes.bind_right (h : p.Takes 0) (hf : ∀ a, (f a).Takes n) : (p >>= f).Takes n :=
  (h.bind hf).mono (by omega)

theorem Takes.map (h : p.Takes n) (g : α → β) : (g <$> p).Takes n := h.bind_left fun _ => takes_pure _

theorem Takes.seqRight {q : Parser β} (h : p.Takes n) (hq : q.Takes 0) : (p *> q).Takes n := h.bind_left fun _ => hq

theorem Takes.seqLeft {q : Parser β} (h : p.Takes n) (hq : q.Takes 0) : (p <* q).Takes n :=
  h.bind_left fun a => hq.bind_left fun _ => takes_pure a

theorem takes_position : position.Takes 0 := by
  rintro s _ _ ⟨⟩
  exact ⟨[], rfl, Nat.zero_le _⟩

/-- A parser that always refuses can be said to take anything. -/
theorem takes_refusing : Takes n (fun s => .refused [⟨s, .bare⟩] : Parser α) := by
  intro s a rest hs
  cases hs

/-- What never succeeds takes as much as one likes. -/
theorem takes_refuseAt (place : Bytes) : (refuseAt place : Parser α).Takes n := fun _ _ _ hs => nomatch hs

theorem takes_failAt (place : Bytes) (text : String) : (failAt place text : Parser α).Takes n :=
  fun _ _ _ hs => nomatch hs

/-- Commitment is about what goes wrong. It does not change what is read. -/
theorem commit_eq_ok {s rest : Bytes} {a : α} : commit p s = .ok a rest ↔ p s = .ok a rest := by
  unfold commit
  split <;> simp [*]

theorem label_eq_ok {text : String} {s rest : Bytes} {a : α} : label text p s = .ok a rest ↔ p s = .ok a rest := by
  unfold label
  split <;> simp [*]

theorem Takes.commit (h : p.Takes n) : (commit p).Takes n := fun _ _ _ hs => h (commit_eq_ok.mp hs)

theorem Takes.label (h : p.Takes n) (text : String) : (label text p).Takes n := fun _ _ _ hs => h (label_eq_ok.mp hs)

/-- Something optional is there exactly if it is read. -/
theorem optional_eq_some {s rest : Bytes} {a : α} : optional p s = .ok (some a) rest ↔ p s = .ok a rest := by
  unfold Parser.optional
  split <;> simp [*]

theorem Takes.optional (h : p.Takes 0) : (optional p).Takes 0 := by
  intro s a rest hs
  unfold Parser.optional at hs
  split at hs
  · next hp =>
    cases hs
    exact h hp
  · cases hs
    exact ⟨[], rfl, Nat.zero_le _⟩
  · cases hs

/-- The first alternative is taken if it is read. -/
theorem choice_of_ok {s rest : Bytes} {a : α} (h : p s = .ok a rest) (ps : List (Parser α)) :
    choice (p :: ps) s = .ok a rest := by
  cases ps <;> simp [choice, h]

/-- A failure of the first alternative is one of the choice, as nothing else is tried then. -/
theorem choice_of_failed {s : Bytes} {trace : Trace} (h : p s = .failed trace) (ps : List (Parser α)) :
    choice (p :: ps) s = .failed trace := by
  cases ps <;> simp [choice, h]

/-- Where the first alternative is refused, it is up to the others. -/
theorem choice_of_refused {s : Bytes} {trace : Trace} (h : p s = .refused trace) (q : Parser α)
    (ps : List (Parser α)) : choice (p :: q :: ps) s = choice (q :: ps) s := by
  simp [choice, h]

/-- A choice takes what all of its alternatives take: by induction on them, and there is a case of its own for the
last one, where the refusal of the choice is that alternative's. -/
theorem takes_choice {ps : List (Parser α)} (h : ∀ p ∈ ps, p.Takes n) : (choice ps).Takes n := by
  induction ps with
  | nil => exact fun s a rest hs => nomatch hs
  | cons p ps ih =>
    intro s a rest hs
    have hp := h p List.mem_cons_self
    have hps := ih fun q hq => h q (List.mem_cons_of_mem _ hq)
    cases ps with
    | nil =>
      simp only [choice] at hs
      split at hs
      · cases hs
      · exact hp hs
    | cons q ps =>
      simp only [choice] at hs
      split at hs
      · exact hps hs
      · exact hp hs

theorem takes_char (c : Char) : (char c).Takes 1 := by
  intro s a rest hs
  unfold char at hs
  split at hs
  · split at hs
    · cases hs
      exact ⟨[_], rfl, Nat.le_refl _⟩
    · cases hs
  · cases hs

/-- A word is as many bytes as it has characters, which are all ASCII. -/
theorem takes_word (w : List Char) : (word w).Takes w.length := by
  intro s a rest hs
  unfold word at hs
  split at hs
  · next h =>
    cases hs
    refine ⟨s.take w.length, (List.take_append_drop _ _).symm, ?_⟩
    have hlength := h.length_le
    rw [Bytes.ofAscii, List.length_map] at hlength
    exact Nat.le_of_eq (List.length_take_of_le hlength).symm
  · cases hs

/-- There may be no byte of the class. -/
theorem takes_span (cls : UInt8 → Bool) : (span cls).Takes 0 := by
  rintro s _ _ ⟨⟩
  exact ⟨_, (List.takeWhile_append_dropWhile).symm, Nat.zero_le _⟩

theorem takes_span1 (cls : UInt8 → Bool) : (span1 cls).Takes 1 := by
  intro s a rest hs
  unfold span1 at hs
  split at hs
  · cases hs
  · next hne =>
    cases hs
    exact ⟨_, (List.takeWhile_append_dropWhile).symm, List.length_pos_iff.mpr hne⟩

theorem takes_finish : finish.Takes 0 := by
  intro s a rest hs
  unfold finish at hs
  split at hs
  · cases hs
    exact ⟨[], rfl, Nat.zero_le _⟩
  · cases hs

theorem takes_prepend {p : Parser (List α)} (h : p.Takes n) (a : α) : (prepend a p).Takes n :=
  h.bind_left fun _ => takes_pure _

end

/-! ## Parsers that agree

`p.Agree n q` is that the two do the same on all inputs of less than `n` bytes. What makes the induction go is
`Agree.bind_taken`: behind something that takes a byte, an agreement on inputs is one on inputs that are longer by
that byte. -/

/-- The parsers are the same on inputs of fewer than so many bytes. -/
def Agree (n : Nat) (p q : Parser α) : Prop := ∀ ⦃s : Bytes⦄, s.length < n → p s = q s

section

variable {m n : Nat} {p q : Parser α} {f g : α → Parser β}

theorem Agree.refl (p : Parser α) : p.Agree n p := fun _ _ => rfl

/-- What agrees on inputs up to some length agrees on the shorter ones. -/
theorem Agree.mono (h : p.Agree n q) (hm : m ≤ n) : p.Agree m q := fun _ hs => h (Nat.lt_of_lt_of_le hs hm)

/-- A sequence agrees where its parts do. The second part needs it on inputs no longer than the first was given, and
what is left is no longer. -/
theorem Agree.bind (h : p.Agree n q) (hf : ∀ a, (f a).Agree n (g a)) (hp : p.Takes 0) :
    (p >>= f).Agree n (q >>= g) := by
  intro s hs
  have hsame := h hs
  cases hps : p s with
  | ok a rest =>
    have hlength := hp.length_le hps
    rw [bind_of_ok hps, bind_of_ok (hsame.symm.trans hps)]
    exact hf a (by omega)
  | refused trace => rw [bind_of_refused hps, bind_of_refused (hsame.symm.trans hps)]
  | failed trace => rw [bind_of_failed hps, bind_of_failed (hsame.symm.trans hps)]

/-- After a byte is taken, parsers only have to agree on shorter inputs. -/
theorem Agree.bind_taken (hp : p.Takes 1) (hf : ∀ a, (f a).Agree n (g a)) : (p >>= f).Agree (n + 1) (p >>= g) := by
  intro s hs
  cases hps : p s with
  | ok a rest =>
    have hlength := hp.length_le hps
    rw [bind_of_ok hps, bind_of_ok hps]
    exact hf a (by omega)
  | refused trace => rw [bind_of_refused hps, bind_of_refused hps]
  | failed trace => rw [bind_of_failed hps, bind_of_failed hps]

/-- What comes first is the same. -/
theorem Agree.bind_right (hp : p.Takes 0) (hf : ∀ a, (f a).Agree n (g a)) : (p >>= f).Agree n (p >>= g) :=
  (Agree.refl p).bind hf hp

/-- What comes next is the same. -/
theorem Agree.bind_left (h : p.Agree n q) (f : α → Parser β) : (p >>= f).Agree n (q >>= f) := by
  intro s hs
  simp only [Bind.bind, h hs]

theorem Agree.map (h : p.Agree n q) (g : α → β) : (g <$> p).Agree n (g <$> q) := h.bind_left _

theorem Agree.commit (h : p.Agree n q) : (commit p).Agree n (commit q) := by
  intro s hs
  rw [Parser.commit, Parser.commit, h hs]

theorem Agree.label (h : p.Agree n q) (text : String) : (label text p).Agree n (label text q) := by
  intro s hs
  rw [Parser.label, Parser.label, h hs]

/-- What is missing for one is missing for the other. -/
theorem Agree.optional (h : p.Agree n q) : (optional p).Agree n (optional q) := by
  intro s hs
  rw [Parser.optional, Parser.optional, h hs]

/-- Choices agree if they agree alternative by alternative. -/
theorem agree_choice {ps qs : List (Parser α)} (h : List.Forall₂ (Agree n) ps qs) :
    (choice ps).Agree n (choice qs) := by
  induction h with
  | nil => exact .refl _
  | cons hpq hrest ih =>
    intro s hs
    cases hrest with
    | nil => simp only [choice, hpq hs]
    | cons _ _ => simp only [choice, hpq hs, ih hs]

end

/-! ## Loops -/

/-- A way to build parsers comes to the parser that is built from only after a byte is taken. -/
structure Guarded (n : Nat) (build : Parser α → Parser α) : Prop where
  /-- what is built takes as much as what it is built from -/
  takes {p : Parser α} (h : p.Takes n) : (build p).Takes n
  /-- what is built from parsers that agree agrees on inputs of one more byte -/
  agree {p q : Parser α} {m : Nat} (hp : p.Takes n) (hq : q.Takes n) (h : p.Agree m q) :
    (build p).Agree (m + 1) (build q)

namespace Guarded

variable {n : Nat} {build build' : Parser α → Parser α}

/-- However often the parser may enter itself, it takes what whatever is built takes: by induction on how often, and
once the entries are used up, it takes anything, as it refuses. -/
theorem takes_fixAlong (h : Guarded n build) (bytes : Bytes) : (fixAlong build bytes).Takes n := by
  induction bytes with
  | nil => exact h.takes takes_refusing
  | cons b bytes ih => exact h.takes ih

/-- How often a loop may be entered makes no difference, as long as it is as often as there are bytes. -/
theorem agree_fixAlong (h : Guarded n build) {m : Nat} {bytes bytes' : Bytes} (hm : m ≤ bytes.length)
    (hm' : m ≤ bytes'.length) : (fixAlong build bytes).Agree (m + 1) (fixAlong build bytes') := by
  have hshort : ∀ {p q : Parser α}, p.Agree 0 q := fun {_ _} _ hs => absurd hs (Nat.not_lt_zero _)
  induction m generalizing bytes bytes' with
  | zero =>
    cases bytes with
    | nil =>
      cases bytes' with
      | nil => exact .refl _
      | cons b bytes' => exact h.agree takes_refusing (h.takes_fixAlong bytes') hshort
    | cons b bytes =>
      cases bytes' with
      | nil => exact h.agree (h.takes_fixAlong bytes) takes_refusing hshort
      | cons b' bytes' => exact h.agree (h.takes_fixAlong bytes) (h.takes_fixAlong bytes') hshort
  | succ m ih =>
    obtain ⟨b, bytes, rfl⟩ := List.exists_cons_of_length_pos (Nat.lt_of_lt_of_le (Nat.succ_pos m) hm)
    obtain ⟨b', bytes', rfl⟩ := List.exists_cons_of_length_pos (Nat.lt_of_lt_of_le (Nat.succ_pos m) hm')
    exact h.agree (h.takes_fixAlong bytes) (h.takes_fixAlong bytes')
      (ih (Nat.le_of_succ_le_succ hm) (Nat.le_of_succ_le_succ hm'))

theorem takes_fix (h : Guarded n build) : (fix build).Takes n := fun s _ _ hs => h.takes_fixAlong s hs

/-- The parser that is built from itself is what is built from it. -/
theorem fix_eq (h : Guarded n build) : fix build = build (fix build) := by
  funext s
  have hfix : ∀ bytes : Bytes, (fixAlong build bytes).Agree (bytes.length + 1) (fix build) := fun bytes s' hs' =>
    h.agree_fixAlong (Nat.le_of_lt_succ hs') (Nat.le_refl _) (Nat.lt_succ_self _)
  cases s with
  | nil => exact h.agree takes_refusing h.takes_fix (fun _ hs => absurd hs (Nat.not_lt_zero _)) Nat.one_pos
  | cons b bytes => exact h.agree (h.takes_fixAlong bytes) h.takes_fix (hfix bytes) (Nat.lt_succ_self _)

/-- Loops that are built alike agree. -/
theorem agree_fix (h : Guarded n build) (h' : Guarded n build') {m : Nat}
    (hbuild : ∀ p : Parser α, p.Takes n → (build p).Agree m (build' p)) : (fix build).Agree m (fix build') := by
  have hshorter : ∀ k ≤ m, (fix build).Agree k (fix build') := by
    intro k hk
    induction k with
    | zero => exact fun _ hs => absurd hs (Nat.not_lt_zero _)
    | succ k ih =>
      intro s hs
      have hsame := ih (Nat.le_of_succ_le hk)
      calc fix build s
          = build (fix build) s := by rw [← h.fix_eq]
        _ = build (fix build') s := h.agree h.takes_fix h'.takes_fix hsame hs
        _ = build' (fix build') s := hbuild _ h'.takes_fix (Nat.lt_of_lt_of_le hs hk)
        _ = fix build' s := by rw [← h'.fix_eq]
  exact hshorter m (Nat.le_refl m)

end Guarded

/-! ## Items one after the other

Each loop is shown to be guarded, and has its equation and its bound from that. After an item something was taken, so
the loop goes on with a shorter input, which is all that has to be said about the recursion. -/

section

variable {item item' : Parser α} {stop separator close : Parser Unit}

/-- **A loop over items is guarded**, as it comes back to itself after an item. -/
theorem guarded_many (hitem : item.Takes 1) : Guarded 0 fun self s =>
    match item s with
    | .ok a rest => prepend a self rest
    | .refused _ => .ok [] s
    | .failed trace => .failed trace where
  takes h := by
    intro s as rest hs
    dsimp only at hs
    -- an item and the rest of the items, or nothing at all
    split at hs
    · next hi =>
      obtain ⟨taken, rfl, -⟩ := hitem hi
      obtain ⟨taken', rfl, -⟩ := takes_prepend h _ hs
      exact ⟨taken ++ taken', (List.append_assoc ..).symm, Nat.zero_le _⟩
    · cases hs
      exact ⟨[], rfl, Nat.zero_le _⟩
    · cases hs
  agree hp hq h := by
    intro s hs
    dsimp only
    split
    · next hi =>
      -- an item takes at least one byte, so what is left is within the bound for `self`
      have hlength := hitem.length_le hi
      exact h.bind (fun _ => .refl _) hp (by omega)
    · rfl
    · rfl

theorem takes_many (hitem : item.Takes 1) : (many item).Takes 0 := (guarded_many hitem).takes_fix

/-- **The equation of a loop over items:** after one that was read comes the rest of the loop, a refusal ends it, and
a failure is passed on. -/
theorem many_eq (hitem : item.Takes 1) (s : Bytes) :
    many item s =
      match item s with
      | .ok a rest => prepend a (many item) rest
      | .refused _ => .ok [] s
      | .failed trace => .failed trace :=
  congrFun (guarded_many hitem).fix_eq s

/-- **A loop until a stop is guarded**, as it comes back to itself after an item. -/
theorem guarded_manyUntil (hitem : item.Takes 1) (hstop : stop.Takes 0) : Guarded 0 fun self s =>
    match stop s with
    | .ok () rest => .ok [] rest
    | .failed trace => .failed trace
    | .refused _ =>
      match item s with
      | .ok a rest => prepend a self rest
      | .refused trace => .refused (⟨s, .bare⟩ :: trace)
      | .failed trace => .failed trace where
  takes h := by
    intro s as rest hs
    dsimp only at hs
    split at hs
    · next hend =>
      cases hs
      exact hstop hend
    · cases hs
    -- the end has not come, so an item has to
    · split at hs
      · next hi =>
        obtain ⟨taken, rfl, -⟩ := hitem hi
        obtain ⟨taken', rfl, -⟩ := takes_prepend h _ hs
        exact ⟨taken ++ taken', (List.append_assoc ..).symm, Nat.zero_le _⟩
      · cases hs
      · cases hs
  agree hp hq h := by
    intro s hs
    dsimp only
    split
    · rfl
    · rfl
    · split
      · next hi =>
        -- only here the loop goes on, with less than it had
        have hlength := hitem.length_le hi
        exact h.bind (fun _ => .refl _) hp (by omega)
      · rfl
      · rfl

theorem takes_manyUntil (hitem : item.Takes 1) (hstop : stop.Takes 0) : (manyUntil item stop).Takes 0 :=
  (guarded_manyUntil hitem hstop).takes_fix

/-- **The equation of a loop until a stop:** the stop is tried before each item, so what is read as a stop is never
read as an item. Where neither can be read, it is the item's refusal that is noted. -/
theorem manyUntil_eq (hitem : item.Takes 1) (hstop : stop.Takes 0) (s : Bytes) :
    manyUntil item stop s =
      match stop s with
      | .ok () rest => .ok [] rest
      | .failed trace => .failed trace
      | .refused _ =>
        match item s with
        | .ok a rest => prepend a (manyUntil item stop) rest
        | .refused trace => .refused (⟨s, .bare⟩ :: trace)
        | .failed trace => .failed trace :=
  congrFun (guarded_manyUntil hitem hstop).fix_eq s

/-- Two such loops agree where their items do: both are fixed points, so this is the agreement of what they are built
by. -/
theorem agree_manyUntil {n : Nat} (hitem : item.Takes 1) (hitem' : item'.Takes 1) (hstop : stop.Takes 0)
    (h : item.Agree n item') : (manyUntil item stop).Agree n (manyUntil item' stop) := by
  refine (guarded_manyUntil hitem hstop).agree_fix (guarded_manyUntil hitem' hstop) fun p _ s hs => ?_
  dsimp only
  rw [h hs]

/-- **A loop over a list is guarded**, as it comes back to itself after an item and a separator. Each place where the
closing is tried instead is without recursion. -/
theorem guarded_listUntil (hitem : item.Takes 1) (hseparator : separator.Takes 0) (hclose : close.Takes 0) :
    Guarded 0 fun self s =>
      match item s with
      | .ok a rest =>
        match separator rest with
        | .ok () rest => prepend a self rest
        | _ => prepend a (close *> pure []) rest
      | .refused trace =>
        match close s with
        | .ok () rest => .ok [] rest
        | _ => .refused trace
      | .failed trace =>
        match close s with
        | .ok () rest => .ok [] rest
        | _ => .failed trace where
  takes h := by
    intro s as rest hs
    dsimp only at hs
    split at hs
    · next hi =>
      obtain ⟨taken, rfl, -⟩ := hitem hi
      split at hs
      · next hsep =>
        obtain ⟨taken', rfl, -⟩ := hseparator hsep
        obtain ⟨taken'', rfl, -⟩ := takes_prepend h _ hs
        exact ⟨taken ++ (taken' ++ taken''), by simp, Nat.zero_le _⟩
      -- the last item, which the closing follows
      · obtain ⟨taken', rfl, -⟩ := takes_prepend (hclose.seqRight (takes_pure _)) _ hs
        exact ⟨taken ++ taken', (List.append_assoc ..).symm, Nat.zero_le _⟩
    · split at hs
      · next hend =>
        cases hs
        exact hclose hend
      · cases hs
    · split at hs
      · next hend =>
        cases hs
        exact hclose hend
      · cases hs
  agree hp hq h := by
    intro s hs
    dsimp only
    split
    · next hi =>
      have hlength := hitem.length_le hi
      split
      · next hsep =>
        -- a separator may take nothing, and the item before it took at least one byte
        have hlength' := hseparator.length_le hsep
        exact h.bind (fun _ => .refl _) hp (by omega)
      · rfl
    · rfl
    · rfl

theorem takes_listUntil (hitem : item.Takes 1) (hseparator : separator.Takes 0) (hclose : close.Takes 0) :
    (listUntil item separator close).Takes 0 :=
  (guarded_listUntil hitem hseparator hclose).takes_fix

/-- **The equation of a loop over a list:** an item comes first at each place, and the closing is tried only where
none could be read or where no separator follows. -/
theorem listUntil_eq (hitem : item.Takes 1) (hseparator : separator.Takes 0) (hclose : close.Takes 0) (s : Bytes) :
    listUntil item separator close s =
      match item s with
      | .ok a rest =>
        match separator rest with
        | .ok () rest => prepend a (listUntil item separator close) rest
        | _ => prepend a (close *> pure []) rest
      | .refused trace =>
        match close s with
        | .ok () rest => .ok [] rest
        | _ => .refused trace
      | .failed trace =>
        match close s with
        | .ok () rest => .ok [] rest
        | _ => .failed trace :=
  congrFun (guarded_listUntil hitem hseparator hclose).fix_eq s

/-- Two such loops agree where their items do. -/
theorem agree_listUntil {n : Nat} (hitem : item.Takes 1) (hitem' : item'.Takes 1) (hseparator : separator.Takes 0)
    (hclose : close.Takes 0) (h : item.Agree n item') :
    (listUntil item separator close).Agree n (listUntil item' separator close) := by
  refine (guarded_listUntil hitem hseparator hclose).agree_fix (guarded_listUntil hitem' hseparator hclose)
    fun p _ s hs => ?_
  dsimp only
  rw [h hs]

end

end ThemedPages.Parser
