import Mathlib.Tactic.Push
import ThemedPages.Proofs.ReadingExpressions

/-!
# Argument lists

The arguments of a call are read by a loop that tries an item, a separator and the closing at several places, and that
does not say what went wrong with two of them. What it reads is exactly what a grammar of lists says, given what the
parser of expressions takes: `Grammar.arguments_exact`.

* `Parser.Rounds` goes through the loop, from one place where an item is expected to another.
* `Grammar.ArgumentList` is the grammar, and `Grammar.Expects` the places where an argument is expected.

A round of the loop is an item with the separator after it. There is a last place to which rounds lead, since each takes
something, and only one, since each is determined by where it begins (`Parser.exists_rounds`, `Parser.Rounds.unique`).
What comes of the loop is decided there: by whether an item is read, and if not, whether the closing comes.

The other half is about bytes. The separator and the closing begin with blanks, and which of these a parser takes is
only clear since an expression begins with none (`Grammar.stops_of_expression`). So the places of the loop are the
places of the grammar, and both directions of the equivalence go from rounds to lists or back.
-/

namespace ThemedPages

namespace Parser

variable {α : Type} {item : Parser α} {separator close : Parser Unit}

theorem seqRight_eq_ok {β : Type} {p : Parser α} {q : Parser β} {s rest : Bytes} {b : β} :
    (p *> q) s = .ok b rest ↔ ∃ a mid, p s = .ok a mid ∧ q mid = .ok b rest :=
  bind_eq_ok (f := fun _ => q)

/-! ## Rounds of the loop

Rounds can be put together at either end. An induction on them takes the first off, and the grammar adds one at the
end. -/

/-- Items that are each followed by a separator lead from one place to another. -/
inductive Rounds (item : Parser α) (separator : Parser Unit) : Bytes → List α → Bytes → Prop where
  /-- no item at all leads nowhere else -/
  | nil (s : Bytes) : Rounds item separator s [] s
  /-- an item and its separator, and then others -/
  | cons {s mid next last : Bytes} {a : α} {as : List α} (read : item s = .ok a mid)
    (separated : separator mid = .ok () next) (more : Rounds item separator next as last) :
    Rounds item separator s (a :: as) last

/-- No round begins here: there is no item with a separator after it. -/
def NoRound (item : Parser α) (separator : Parser Unit) (s : Bytes) : Prop :=
  ∀ ⦃a : α⦄ ⦃mid next : Bytes⦄, item s = .ok a mid → separator mid ≠ .ok () next

section

variable {s mid last last' next : Bytes} {a : α} {as bs : List α}

theorem Rounds.append (h : Rounds item separator s as mid) (h' : Rounds item separator mid bs last) :
    Rounds item separator s (as ++ bs) last := by
  induction h with
  | nil s => exact h'
  | cons read separated _ ih => exact .cons read separated (ih h')

/-- One round more at the end. -/
theorem Rounds.concat (h : Rounds item separator s as last) (hread : item last = .ok a mid)
    (hseparated : separator mid = .ok () next) : Rounds item separator s (as ++ [a]) next :=
  h.append (.cons hread hseparated (.nil next))

/-- Every round takes two bytes at least. -/
theorem Rounds.length_le (hitem : item.Takes 1) (hseparator : separator.Takes 1) (h : Rounds item separator s as last) :
    last.length + 2 * as.length ≤ s.length := by
  induction h with
  | nil s => exact Nat.le_refl _
  | cons read separated _ ih =>
    have hread := hitem.length_le read
    have hseparated := hseparator.length_le separated
    rw [List.length_cons]
    omega

/-- The rounds come to an end. -/
theorem exists_rounds (hitem : item.Takes 1) (hseparator : separator.Takes 0) (s : Bytes) :
    ∃ as last, Rounds item separator s as last ∧ NoRound item separator last := by
  induction hlength : s.length using Nat.strongRecOn generalizing s with
  | ind n ih =>
    by_cases hround : NoRound item separator s
    · exact ⟨[], s, .nil s, hround⟩
    · unfold NoRound at hround
      push Not at hround
      obtain ⟨a, mid, next, hread, hseparated⟩ := hround
      have hmid := hitem.length_le hread
      have hnext := hseparator.length_le hseparated
      obtain ⟨as, last, hrounds, hlast⟩ := ih next.length (by omega) next rfl
      exact ⟨a :: as, last, .cons hread hseparated hrounds, hlast⟩

/-- There is one way only that they can go. -/
theorem Rounds.unique (h : Rounds item separator s as last) (hlast : NoRound item separator last)
    (h' : Rounds item separator s bs last') (hlast' : NoRound item separator last') : as = bs ∧ last = last' := by
  induction h generalizing bs with
  | nil s =>
    cases h' with
    | nil => exact ⟨rfl, rfl⟩
    | cons read separated _ => exact absurd separated (hlast read)
  | cons read separated _ ih =>
    cases h' with
    | nil => exact absurd separated (hlast' read)
    | cons read' separated' more' =>
      cases read.symm.trans read'
      cases separated.symm.trans separated'
      obtain ⟨rfl, rfl⟩ := ih hlast more'
      exact ⟨rfl, rfl⟩

end

/-! ## What comes of the loop

After some rounds the loop is where it would be if it began there, with the items so far in front. This reduces it to
the last place, where there are three cases. -/

section

variable (hitem : item.Takes 1) (hseparator : separator.Takes 0) (hclose : close.Takes 0)
variable {s last mid rest : Bytes} {a : α} {as bs : List α} {trace : Trace}
include hitem hseparator hclose

/-- After some rounds the loop goes on as if it began there, with what was read put in front. -/
theorem listUntil_of_rounds (h : Rounds item separator s as last) :
    listUntil item separator close s = ((as ++ ·) <$> listUntil item separator close) last := by
  induction h with
  | nil s =>
    change _ = (listUntil item separator close >>= _) s
    rcases hs : listUntil item separator close s with ⟨bs, rest⟩ | trace | trace
    · exact (bind_of_ok hs _).symm
    · exact (bind_of_refused hs _).symm
    · exact (bind_of_failed hs _).symm
  -- a round is an item with its separator, after which the loop begins again
  | @cons s mid next last a as read separated _ ih =>
    rw [listUntil_eq hitem hseparator hclose, read]
    simp only [separated]
    change (listUntil item separator close >>= _) next = (listUntil item separator close >>= _) last
    rcases hlast : listUntil item separator close last with ⟨bs, rest⟩ | trace | trace
    · rw [map_of_ok hlast] at ih
      rw [bind_of_ok ih, bind_of_ok hlast]
      rfl
    · rw [bind_of_refused hlast]
      exact bind_of_refused (ih.trans (bind_of_refused hlast _)) _
    · rw [bind_of_failed hlast]
      exact bind_of_failed (ih.trans (bind_of_failed hlast _)) _

/-- Where an item goes wrong and the closing is not there, that is what comes of it. -/
theorem listUntil_of_refused (hread : item s = .refused trace) (hopen : ∀ rest, close s ≠ .ok () rest) :
    listUntil item separator close s = .refused trace := by
  rw [listUntil_eq hitem hseparator hclose, hread]
  dsimp only
  split
  · next h => exact absurd h (hopen _)
  · rfl

/-- An item that fails is the failure of the loop, unless the closing comes there. -/
theorem listUntil_of_failed (hread : item s = .failed trace) (hopen : ∀ rest, close s ≠ .ok () rest) :
    listUntil item separator close s = .failed trace := by
  rw [listUntil_eq hitem hseparator hclose, hread]
  dsimp only
  split
  · next h => exact absurd h (hopen _)
  · rfl

/-- Where no round begins, the list ends with the closing, or with an item and the closing. -/
theorem listUntil_eq_ok_of_noRound (h : NoRound item separator s) :
    listUntil item separator close s = .ok as rest ↔
      as = [] ∧ (∀ a mid, item s ≠ .ok a mid) ∧ close s = .ok () rest ∨
        ∃ a mid, as = [a] ∧ item s = .ok a mid ∧ close mid = .ok () rest := by
  rw [listUntil_eq hitem hseparator hclose]
  rcases hread : item s with ⟨a, mid⟩ | trace | trace
  -- an item is read, and no separator follows it, so the closing has to
  · have hlast : ∀ next, separator mid ≠ .ok () next := fun next => h hread
    have hend : prepend a (close *> pure []) mid = .ok as rest ↔ as = [a] ∧ close mid = .ok () rest := by
      rcases hmid : close mid with ⟨⟨⟩, after⟩ | trace | trace
      · have hpure : (close *> (pure [] : Parser (List α))) mid = .ok [] after := seqRight_of_ok hmid _
        rw [prepend_of_ok hpure]
        simp [eq_comm]
      · simp [prepend, bind, SeqRight.seqRight, hmid]
      · simp [prepend, bind, SeqRight.seqRight, hmid]
    dsimp only
    split
    · next hsep => exact absurd hsep (hlast _)
    · simp [hend]
  -- none is read, so the closing has to come at once
  · rcases hs : close s with ⟨⟨⟩, after⟩ | trace' | trace' <;> simp [eq_comm]
  · rcases hs : close s with ⟨⟨⟩, after⟩ | trace' | trace' <;> simp [eq_comm]

end

end Parser

namespace Grammar

open ThemedPages.Parser

/-! ## Blanks, commas and parentheses

Blanks are read as far as they go. So what is read by a parser that begins or ends with blanks is known up to how many
there are, and where something else is known to come, that is settled too. -/

/-- There are nothing but blanks. -/
def AllBlank (ws : Bytes) : Prop := ∀ b ∈ ws, Ascii.isBlank b = true

theorem allBlank_nil : AllBlank [] := fun _ hb => absurd hb List.not_mem_nil

theorem allBlank_singleton {b : UInt8} (h : Ascii.isBlank b = true) : AllBlank [b] := fun _ hx =>
  List.mem_singleton.mp hx ▸ h

/-- What there is at all begins with some blanks. -/
theorem exists_blanks (s : Bytes) : ∃ ws rest, AllBlank ws ∧ Stops Ascii.isBlank rest ∧ s = ws ++ rest :=
  ⟨_, _, fun _ hb => List.mem_takeWhile_imp hb, stops_dropWhile _ s, List.takeWhile_append_dropWhile.symm⟩

section

variable {s rest : Bytes}

theorem char_eq_ok {c : Char} : char c s = .ok () rest ↔ s = UInt8.ofNat c.toNat :: rest := by
  cases s with
  | nil => simp [char]
  | cons b s =>
    by_cases hb : b = UInt8.ofNat c.toNat
    · rw [char_of_eq hb, hb]
      simp
    · obtain ⟨trace, htrace⟩ := refuses_char_cons hb s
      simp [htrace, hb]

/-- Blanks are read up to where none come. -/
theorem blanks_eq_ok : blanks s = .ok () rest ↔ ∃ ws, AllBlank ws ∧ Stops Ascii.isBlank rest ∧ s = ws ++ rest := by
  constructor
  · intro h
    obtain ⟨ws, after, hspan, hpure⟩ := bind_eq_ok.mp h
    cases hpure
    cases hspan
    exact ⟨_, fun b hb => List.mem_takeWhile_imp hb, stops_dropWhile _ s, List.takeWhile_append_dropWhile.symm⟩
  · rintro ⟨ws, hws, hrest, rfl⟩
    exact bind_of_ok (span_append hws hrest) _

theorem blanks_char_eq_ok {c : Char} (hc : Ascii.isBlank (UInt8.ofNat c.toNat) = false) :
    (blanks *> char c) s = .ok () rest ↔ ∃ ws, AllBlank ws ∧ s = ws ++ UInt8.ofNat c.toNat :: rest := by
  rw [seqRight_eq_ok]
  constructor
  · rintro ⟨⟨⟩, mid, hblanks, hchar⟩
    obtain ⟨ws, hws, -, rfl⟩ := blanks_eq_ok.mp hblanks
    exact ⟨ws, hws, congrArg (ws ++ ·) (char_eq_ok.mp hchar)⟩
  · rintro ⟨ws, hws, rfl⟩
    exact ⟨(), _, blanks_eq_ok.mpr ⟨ws, hws, stops_cons hc rest, rfl⟩, char_of_eq rfl rest⟩

theorem close_eq_ok : (blanks *> char ')') s = .ok () rest ↔ ∃ ws, AllBlank ws ∧ s = ws ++ 0x29 :: rest :=
  blanks_char_eq_ok (by decide)

/-- A separator is a comma with blanks around it, the ones after it as many as there are. -/
theorem separator_eq_ok : (blanks *> char ',' *> blanks) s = .ok () rest ↔
    ∃ ws ws', AllBlank ws ∧ AllBlank ws' ∧ Stops Ascii.isBlank rest ∧ s = ws ++ 0x2C :: (ws' ++ rest) := by
  rw [seqRight_eq_ok]
  constructor
  · rintro ⟨⟨⟩, mid, hcomma, hblanks⟩
    obtain ⟨ws, hws, rfl⟩ := (blanks_char_eq_ok (by decide)).mp hcomma
    obtain ⟨ws', hws', hrest, rfl⟩ := blanks_eq_ok.mp hblanks
    exact ⟨ws, ws', hws, hws', hrest, rfl⟩
  · rintro ⟨ws, ws', hws, hws', hrest, rfl⟩
    exact ⟨(), ws' ++ rest, (blanks_char_eq_ok (by decide)).mpr ⟨ws, hws, rfl⟩,
      blanks_eq_ok.mpr ⟨ws', hws', hrest, rfl⟩⟩

/-! ## What expressions do not begin with

An expression begins with a letter, a digit, a sign, a quote or an exclamation mark. So it is neither a blank nor a
comma nor the closing parenthesis. -/

/-- What begins with another byte is refused as an expression, by each of the alternatives. -/
theorem refuses_expression (h : Stops beginsExpression s) : expression.Refuses s := by
  have hchar : ∀ c : Char, beginsExpression (UInt8.ofNat c.toNat) = true → (char c).Refuses s := fun c hc =>
    refuses_char fun hfirst => absurd ((h _ hfirst).symm.trans hc) (by decide)
  -- a path and the name after a call begin with bytes of a name, which do not come here
  have hname : Stops inName s := h.mono fun _ => beginsExpression_of_inName
  rw [expression_eq]
  refine .choice fun p hp => ?_
  simp only [List.mem_cons, List.not_mem_nil, or_false] at hp
  rcases hp with rfl | rfl | rfl | rfl | rfl
  · exact ((hchar '!' (by decide)).seqRight _).map _
  · exact ((hchar '"' (by decide)).bind _).map _
  · cases s with
    | nil => exact ⟨_, rfl⟩
    | cons b s =>
      have hdigit : Stops Ascii.isDigit (b :: s) := hname.mono fun b hb => by rw [inName, hb, Bool.or_true]
      refine refuses_integer ?_ (hdigit b rfl) s
      rintro rfl
      exact absurd (h _ rfl) (by decide)
  · have hword : ¬Bytes.ofAscii ['h', '.'] <+: s := by
      rintro ⟨after, rfl⟩
      exact absurd (h _ rfl) (by decide)
    exact (refuses_word hword).bind _
  · exact ((refuses_span1 (hname.mono fun _ => inName_of_beginsName)).bind _).bind _

/-- An expression does not begin with a blank. -/
theorem stops_of_expression {e : Expr} (h : expression s = .ok e rest) : Stops Ascii.isBlank s := by
  intro b hb
  rw [Bool.eq_false_iff]
  intro hblank
  have hstops : Stops beginsExpression s := by
    intro b' hb'
    cases hb.symm.trans hb'
    rw [Bool.eq_false_iff]
    exact fun hbegins => absurd ((isBlank_of_beginsExpression hbegins).symm.trans hblank) (by decide)
  obtain ⟨trace, htrace⟩ := refuses_expression hstops
  cases htrace.symm.trans h

end

/-! ## The grammar of argument lists

`Separated` are arguments with commas between them, and `ArgumentList` has the parentheses and the comma that may come
after the last argument. `Expects` says the same of a list that is not closed yet. -/

/-- Expressions with commas between them, and what comes after the last. Each is what is read at its place, and there
may be blanks around a comma. -/
inductive Separated : Bytes → List Expr → Bytes → Prop where
  /-- a single expression -/
  | one {s rest : Bytes} {e : Expr} (read : expression s = .ok e rest) : Separated s [e] rest
  /-- an expression, a comma and others -/
  | more {s before after next rest : Bytes} {e : Expr} {es : List Expr}
    (read : expression s = .ok e (before ++ 0x2C :: (after ++ next))) (hbefore : AllBlank before)
    (hafter : AllBlank after) (others : Separated next es rest) : Separated s (e :: es) rest

/-- A list of arguments in parentheses, and what comes after it. -/
inductive ArgumentList : Bytes → List Expr → Bytes → Prop where
  /-- there are none -/
  | empty {ws rest : Bytes} (blank : AllBlank ws) : ArgumentList (0x28 :: (ws ++ 0x29 :: rest)) [] rest
  /-- there are some, with the closing parenthesis after the last -/
  | filled {ws ws' s rest : Bytes} {args : List Expr} (blank : AllBlank ws) (blank' : AllBlank ws')
    (separated : Separated s args (ws' ++ 0x29 :: rest)) : ArgumentList (0x28 :: (ws ++ s)) args rest
  /-- there are some, with a comma after the last -/
  | trailing {ws before after s rest : Bytes} {args : List Expr} (blank : AllBlank ws) (hbefore : AllBlank before)
    (hafter : AllBlank after) (separated : Separated s args (before ++ 0x2C :: (after ++ 0x29 :: rest))) :
    ArgumentList (0x28 :: (ws ++ s)) args rest

/-- In what begins with the parenthesis some arguments with a comma after each lead to a place where the next one is
expected. -/
inductive Expects (s : Bytes) : List Expr → Bytes → Prop where
  /-- after the parenthesis -/
  | first {ws place : Bytes} (opens : s = 0x28 :: (ws ++ place)) (blank : AllBlank ws)
    (stops : Stops Ascii.isBlank place) : Expects s [] place
  /-- after a comma -/
  | next {before after place place' : Bytes} {e : Expr} {es : List Expr} (others : Expects s es place)
    (read : expression place = .ok e (before ++ 0x2C :: (after ++ place'))) (hbefore : AllBlank before)
    (hafter : AllBlank after) (stops : Stops Ascii.isBlank place') : Expects s (es ++ [e]) place'

/-- The closing parenthesis comes next. -/
def IsClosed (place : Bytes) : Prop := ∃ ws rest, AllBlank ws ∧ place = ws ++ 0x29 :: rest

/-- What comes next is no expression with a comma after it. -/
def LastPlace (place : Bytes) : Prop :=
  ∀ ⦃e : Expr⦄ ⦃ws after : Bytes⦄, AllBlank ws → expression place ≠ .ok e (ws ++ 0x2C :: after)

section

variable {s next place rest tail before after : Bytes} {e : Expr} {es es' : List Expr}

theorem Separated.stops (h : Separated s es rest) : Stops Ascii.isBlank s := by
  cases h with
  | one read => exact stops_of_expression read
  | more read _ _ _ => exact stops_of_expression read

theorem Separated.concat (h : Separated s es (before ++ 0x2C :: (after ++ next))) (hbefore : AllBlank before)
    (hafter : AllBlank after) (hread : expression next = .ok e rest) : Separated s (es ++ [e]) rest := by
  generalize htail : before ++ 0x2C :: (after ++ next) = tail at h
  induction h with
  | one read => exact .more (htail ▸ read) hbefore hafter (.one hread)
  | more read hbefore' hafter' _ ih => exact .more read hbefore' hafter' (ih htail)

/-- The last of some arguments is read at a place where an argument is expected. -/
theorem Separated.exists_expects (h : Separated next es tail) (hfirst : Expects s es' next) :
    ∃ init place e, es' ++ es = init ++ [e] ∧ Expects s init place ∧ expression place = .ok e tail := by
  induction h generalizing es' with
  | one read => exact ⟨es', _, _, rfl, hfirst, read⟩
  | more read hbefore hafter others ih =>
    obtain ⟨init, place, last, hes, hplace, hlast⟩ := ih (.next hfirst read hbefore hafter others.stops)
    exact ⟨init, place, last, by rw [← hes, List.append_assoc]; rfl, hplace, hlast⟩

/-- An argument that is read where it is expected is the last of some. -/
theorem Expects.exists_separated (h : Expects s es place) (hread : expression place = .ok e tail) :
    ∃ ws body, AllBlank ws ∧ s = 0x28 :: (ws ++ body) ∧ Separated body (es ++ [e]) tail := by
  induction h generalizing e tail with
  | first opens blank _ => exact ⟨_, _, blank, opens, .one hread⟩
  | next _ read hbefore hafter _ ih =>
    obtain ⟨ws, body, hws, hs, hseparated⟩ := ih read
    exact ⟨ws, body, hws, hs, hseparated.concat hbefore hafter hread⟩

/-- A place is the last one for the loop exactly if it is the last one in the grammar. -/
theorem noRound_iff : NoRound expression (blanks *> char ',' *> blanks) place ↔ LastPlace place := by
  constructor
  · intro h e ws after hws hread
    obtain ⟨ws', next, hws', hnext, rfl⟩ := exists_blanks after
    exact h hread (separator_eq_ok.mpr ⟨ws, ws', hws, hws', hnext, rfl⟩)
  · intro h e mid next hread hseparated
    obtain ⟨ws, ws', hws, -, -, rfl⟩ := separator_eq_ok.mp hseparated
    exact h hws hread

/-! ## What is read

Here the loop and the grammar come together: the rounds of the loop are the steps from one expected argument to the
next. -/

/-- Rounds of the loop lead from one place where an argument is expected to another. -/
theorem Expects.of_rounds (h : Expects s es' next)
    (hrounds : Rounds expression (blanks *> char ',' *> blanks) next es place) : Expects s (es' ++ es) place := by
  induction hrounds generalizing es' with
  | nil next => rwa [List.append_nil]
  | cons read separated _ ih =>
    obtain ⟨ws, ws', hws, hws', hstops, rfl⟩ := separator_eq_ok.mp separated
    have hall := ih (.next h read hws hws' hstops)
    rwa [List.append_assoc] at hall

/-- Every place where an argument is expected is one that the loop comes to. -/
theorem Expects.exists_rounds (h : Expects s es place) : ∃ ws body, AllBlank ws ∧ Stops Ascii.isBlank body ∧
    s = 0x28 :: (ws ++ body) ∧ Rounds expression (blanks *> char ',' *> blanks) body es place := by
  induction h with
  | first opens blank stops => exact ⟨_, _, blank, stops, opens, .nil _⟩
  | next _ read hbefore hafter stops ih =>
    obtain ⟨ws, body, hws, hbody, hs, hrounds⟩ := ih
    exact ⟨ws, body, hws, hbody, hs, hrounds.concat read (separator_eq_ok.mpr ⟨_, _, hbefore, hafter, stops, rfl⟩)⟩

/-- What comes of a list is what comes of the rest of it where an argument is expected. -/
theorem Expects.arguments_eq (h : Expects s es place) : arguments expression s =
    ((es ++ ·) <$> listUntil expression (blanks *> char ',' *> blanks) (blanks *> char ')')) place := by
  obtain ⟨ws, body, hws, hbody, rfl, hrounds⟩ := h.exists_rounds
  have hopen : char '(' (0x28 :: (ws ++ body)) = .ok () (ws ++ body) := char_of_eq rfl _
  have hblanks : blanks (ws ++ body) = .ok () body := blanks_eq_ok.mpr ⟨ws, hws, hbody, rfl⟩
  rw [arguments, bind_of_ok hopen, bind_of_ok hblanks,
    listUntil_of_rounds takes_expression takes_separator.zero takes_close hrounds]

/-- What comes after some blanks is what comes after all that there are. -/
theorem eq_of_blanks {ws ws' : Bytes} (hws : AllBlank ws) (hws' : AllBlank ws') (hrest : Stops Ascii.isBlank rest)
    (htail : Stops Ascii.isBlank tail) (h : ws ++ rest = ws' ++ tail) : rest = tail := by
  rw [← (takeWhile_append_of_stops hws hrest).2, h, (takeWhile_append_of_stops hws' htail).2]

theorem not_isClosed_cons {b : UInt8} (hblank : Ascii.isBlank b = false) (hb : b ≠ 0x29) (after : Bytes) :
    ¬IsClosed (b :: after) := by
  rintro ⟨ws, rest, hws, h⟩
  have hsame := eq_of_blanks allBlank_nil hws (stops_cons hblank after) (stops_cons (by decide) rest) h
  exact hb (List.cons.inj hsame).1

theorem refuses_close (rest : Bytes) : expression.Refuses (0x29 :: rest) :=
  refuses_expression (stops_cons (by decide) rest)

theorem lastPlace_close (rest : Bytes) : LastPlace (0x29 :: rest) := by
  intro e ws after _ hread
  obtain ⟨trace, htrace⟩ := refuses_close rest
  cases htrace.symm.trans hread

theorem Expects.stops (h : Expects s es place) : Stops Ascii.isBlank place := by
  cases h with
  | first _ _ stops => exact stops
  | next _ _ _ _ stops => exact stops

/-- Where no comma leads further, the list is at its end, or an argument is, and is closed. -/
theorem Expects.arguments_eq_ok {args : List Expr} (h : Expects s es place) (hlast : LastPlace place) :
    arguments expression s = .ok args rest ↔
      args = es ∧ place = 0x29 :: rest ∨
        ∃ e ws, args = es ++ [e] ∧ AllBlank ws ∧ expression place = .ok e (ws ++ 0x29 :: rest) := by
  have hend : ∀ as, listUntil expression (blanks *> char ',' *> blanks) (blanks *> char ')') place = .ok as rest ↔ _ :=
    fun as => listUntil_eq_ok_of_noRound takes_expression takes_separator.zero takes_close (noRound_iff.mpr hlast)
  rw [h.arguments_eq]
  constructor
  -- at the last place there is the closing, or an argument and then the closing
  · intro hok
    obtain ⟨as, mid, has, hpure⟩ := bind_eq_ok.mp hok
    cases hpure
    rcases (hend as).mp has with ⟨rfl, -, hclose⟩ | ⟨e, mid, rfl, hread, hclose⟩
    · obtain ⟨ws, hws, hplace⟩ := close_eq_ok.mp hclose
      exact .inl ⟨List.append_nil es, eq_of_blanks allBlank_nil hws h.stops (stops_cons (by decide) rest) hplace⟩
    · obtain ⟨ws, hws, rfl⟩ := close_eq_ok.mp hclose
      exact .inr ⟨e, ws, rfl, hws, hread⟩
  · rintro (⟨rfl, rfl⟩ | ⟨e, ws, rfl, hws, hread⟩)
    · have hclose : (blanks *> char ')') (0x29 :: rest) = .ok () rest :=
        close_eq_ok.mpr ⟨[], allBlank_nil, rfl⟩
      have hopen : ∀ e mid, expression (0x29 :: rest) ≠ .ok e mid := fun e mid hread => by
        obtain ⟨trace, htrace⟩ := refuses_close rest
        cases htrace.symm.trans hread
      exact (map_of_ok ((hend []).mpr (.inl ⟨rfl, hopen, hclose⟩)) _).trans (by rw [List.append_nil])
    · exact map_of_ok ((hend [e]).mpr (.inr ⟨e, _, rfl, hread, close_eq_ok.mpr ⟨ws, hws, rfl⟩⟩)) _

/-- After the parenthesis the commas lead to a last place. -/
theorem exists_lastPlace (s : Bytes) : ∃ es place, Expects (0x28 :: s) es place ∧ LastPlace place := by
  obtain ⟨ws, body, hws, hbody, rfl⟩ := exists_blanks s
  obtain ⟨es, place, hrounds, hlast⟩ := Parser.exists_rounds takes_expression takes_separator.zero body
  exact ⟨es, place, (Expects.first rfl hws hbody).of_rounds hrounds, noRound_iff.mp hlast⟩

/-- There is one last place, and one list of arguments before it. -/
theorem Expects.unique {place' : Bytes} (h : Expects s es place) (hlast : LastPlace place) (h' : Expects s es' place')
    (hlast' : LastPlace place') : es = es' ∧ place = place' := by
  obtain ⟨ws, body, hws, hbody, rfl, hrounds⟩ := h.exists_rounds
  obtain ⟨ws', body', hws', hbody', hs, hrounds'⟩ := h'.exists_rounds
  obtain rfl := eq_of_blanks hws hws' hbody hbody' (List.cons_injective hs)
  exact hrounds.unique (noRound_iff.mpr hlast) hrounds' (noRound_iff.mpr hlast')

/-- What is read is what the grammar says. -/
theorem arguments_eq_ok_iff {args : List Expr} :
    arguments expression s = .ok args rest ↔ ArgumentList s args rest := by
  constructor
  · intro h
    obtain ⟨⟨⟩, mid, hopen, -⟩ := bind_eq_ok.mp h
    obtain rfl : s = 0x28 :: mid := char_eq_ok.mp hopen
    -- whatever is read was read at the last place
    obtain ⟨es, place, hplace, hlast⟩ := exists_lastPlace mid
    rcases (hplace.arguments_eq_ok hlast).mp h with ⟨rfl, rfl⟩ | ⟨e, ws, rfl, hws, hread⟩
    · cases hplace with
      | first opens blank _ =>
        rw [opens]
        exact .empty blank
      | next others read hbefore hafter _ =>
        obtain ⟨ws, body, hws, hs, hseparated⟩ := others.exists_separated read
        rw [hs]
        exact .trailing hws hbefore hafter hseparated
    · obtain ⟨ws', body, hws', hs, hseparated⟩ := hplace.exists_separated hread
      rw [hs]
      exact .filled hws' hws hseparated
  · intro h
    cases h with
    -- conversely, each list says where its last place is
    | @empty ws rest blank =>
      have hplace : Expects (0x28 :: (ws ++ 0x29 :: rest)) [] (0x29 :: rest) :=
        .first rfl blank (stops_cons (by decide) rest)
      exact (hplace.arguments_eq_ok (lastPlace_close rest)).mpr (.inl ⟨rfl, rfl⟩)
    | filled blank blank' separated =>
      obtain ⟨init, place, e, hargs, hplace, hread⟩ :=
        separated.exists_expects (.first rfl blank separated.stops)
      have hlast : LastPlace place := by
        intro e' before after hbefore hread'
        have hrest := (Reply.ok.inj (hread.symm.trans hread')).2
        cases eq_of_blanks blank' hbefore (stops_cons (by decide) _) (stops_cons (by decide) _) hrest
      exact (hplace.arguments_eq_ok hlast).mpr (.inr ⟨e, _, hargs, blank', hread⟩)
    | @trailing ws before after s rest args blank hbefore hafter separated =>
      obtain ⟨init, place, e, hargs, hplace, hread⟩ :=
        separated.exists_expects (.first rfl blank separated.stops)
      have hend := hplace.next hread hbefore hafter (stops_cons (by decide) rest)
      exact (hend.arguments_eq_ok (lastPlace_close rest)).mpr (.inl ⟨hargs, rfl⟩)

end

/-- What has the form of a call, but of a helper that there is none of, fails at the name. -/
theorem expression_unknownHelper {called : String} (hcalled : IsName called) (hunknown : Helper.ofName? called = none)
    {args : List Expr} {s rest : Bytes} (hargs : arguments expression (0x28 :: s) = .ok args rest) :
    expression (0x68 :: 0x2E :: (Utf8.bytes called ++ 0x28 :: s)) =
      .failed [⟨Utf8.bytes called ++ 0x28 :: s, .words "Unknown helper"⟩] := by
  have hparen : Stops inName (0x28 :: s) := stops_cons (by decide) s
  have hname := name_bytes hcalled hparen
  have hbegin : ∀ rest, word ['h', '.'] (0x68 :: 0x2E :: rest) = .ok () rest := word_append ['h', '.']
  have hstart : ∀ s, position s = .ok s s := fun _ => rfl
  have hread : call expression (0x68 :: 0x2E :: (Utf8.bytes called ++ 0x28 :: s)) =
      .failed [⟨Utf8.bytes called ++ 0x28 :: s, .words "Unknown helper"⟩] := by
    rw [call, bind_of_ok (hbegin _), bind_of_ok (hstart _), commit, bind_of_ok hname,
      bind_of_ok (label_of_ok hargs _), hunknown]
    rfl
  rw [expression_of_beginsName (by decide)]
  exact choice_of_failed hread _

/-- The arguments of a call are read exactly as the grammar has it, from any input.

A list is read if and only if it is one of the grammar: a parenthesis, then nothing or expressions with commas between
them and perhaps one after the last, and a parenthesis, with blanks anywhere between these; and what is read are those
expressions. A comma where an argument is expected, be it the first or after another comma, is refused. Where an
argument is expected and goes wrong, and no closing parenthesis is there, what comes of the list is what comes of the
argument. And the loop ends: each round takes two bytes at least, and after a parenthesis the rounds lead to one last
place. -/
theorem arguments_exact (s : Bytes) :
    (∀ args rest, arguments expression s = .ok args rest ↔ ArgumentList s args rest) ∧
    (∀ es after, Expects s es (0x2C :: after) → (arguments expression).Refuses s) ∧
    (∀ es place, Expects s es place → ¬IsClosed place →
      (∀ trace, expression place = .refused trace → arguments expression s = .refused trace) ∧
        ∀ trace, expression place = .failed trace → arguments expression s = .failed trace) ∧
    (∀ es place, Expects s es place → place.length + 2 * es.length < s.length) ∧
    ∀ after, s = 0x28 :: after → ∃! last : List Expr × Bytes, Expects s last.1 last.2 ∧ LastPlace last.2 := by
  have hwrong : ∀ {es place}, Expects s es place → ¬IsClosed place →
      (∀ trace, expression place = .refused trace → arguments expression s = .refused trace) ∧
        ∀ trace, expression place = .failed trace → arguments expression s = .failed trace := by
    intro es place hplace hopen
    have hclose : ∀ rest, (blanks *> char ')') place ≠ .ok () rest := fun rest hclose =>
      let ⟨ws, hws, hplace⟩ := close_eq_ok.mp hclose
      hopen ⟨ws, rest, hws, hplace⟩
    rw [hplace.arguments_eq]
    refine ⟨fun trace hread => bind_of_refused ?_ _, fun trace hread => bind_of_failed ?_ _⟩
    · exact listUntil_of_refused takes_expression takes_separator.zero takes_close hread hclose
    · exact listUntil_of_failed takes_expression takes_separator.zero takes_close hread hclose
  refine ⟨fun _ _ => arguments_eq_ok_iff, fun es after hplace => ?_, fun _ _ => hwrong, fun es place hplace => ?_, ?_⟩
  · obtain ⟨trace, htrace⟩ := refuses_expression (stops_cons (by decide) after : Stops beginsExpression (0x2C :: after))
    exact ⟨trace, (hwrong hplace (not_isClosed_cons (by decide) (by decide) after)).1 trace htrace⟩
  · obtain ⟨ws, body, -, -, rfl, hrounds⟩ := hplace.exists_rounds
    have hlength := hrounds.length_le takes_expression takes_separator
    rw [List.length_cons, List.length_append]
    omega
  -- rounds lead to some last place, and to no other one
  · rintro after rfl
    obtain ⟨es, place, hplace, hlast⟩ := exists_lastPlace after
    refine ⟨(es, place), ⟨hplace, hlast⟩, ?_⟩
    rintro ⟨es', place'⟩ ⟨hplace', hlast'⟩
    obtain ⟨rfl, rfl⟩ := hplace.unique hlast hplace' hlast'
    rfl

/-- A helper that there is none of is what is reported, from inside the list; a comma too many is refused, and one at
the end is not. -/
theorem arguments_exact_commas :
    let unknown : Trace := [⟨Utf8.bytes "nope(1))", .words "Unknown helper"⟩]
    (Expects (Utf8.bytes "( g ,\th.nope(1))") [.global []] (Utf8.bytes "h.nope(1))") ∧
      ¬IsClosed (Utf8.bytes "h.nope(1))") ∧
      arguments expression (Utf8.bytes "( g ,\th.nope(1))") = .failed unknown) ∧
    (Expects (Utf8.bytes "(x, ,y)") [.var ["x"]] (Utf8.bytes ",y)") ∧
      (arguments expression).Refuses (Utf8.bytes "(x, ,y)")) ∧
    ArgumentList (Utf8.bytes "(x , )z") [.var ["x"]] (Utf8.bytes "z") ∧
      arguments expression (Utf8.bytes "(x , )z") = .ok [.var ["x"]] (Utf8.bytes "z") := by
  intro unknown
  have hspace : AllBlank [0x20] := allBlank_singleton rfl
  have htab : AllBlank [0x09] := allBlank_singleton rfl
  have hg : ∀ {rest}, Stops inPath rest → expression (0x67 :: rest) = .ok (.global []) rest := fun hrest =>
    expression_source (.global []) (by decide) hrest
  have hx : ∀ {rest}, Stops inPath rest → expression (0x78 :: rest) = .ok (.var ["x"]) rest := fun hrest =>
    expression_source (.var ["x"]) (by decide) hrest
  have hone : ∀ {rest}, Stops inPath rest → expression (0x31 :: rest) = .ok (.int 1) rest := fun hrest =>
    expression_source (.int 1) (by decide) hrest
  have hfirst : Expects (Utf8.bytes "( g ,\th.nope(1))") [] (Utf8.bytes "g ,\th.nope(1))") :=
    .first rfl hspace (stops_cons rfl _)
  have hplace : Expects (Utf8.bytes "( g ,\th.nope(1))") [.global []] (Utf8.bytes "h.nope(1))") :=
    .next hfirst (hg (stops_cons rfl _)) hspace htab (stops_cons rfl _)
  have hargs : arguments expression (Utf8.bytes "(1))") = .ok [.int 1] (Utf8.bytes ")") :=
    arguments_eq_ok_iff.mpr (.filled allBlank_nil allBlank_nil (.one (hone (stops_cons rfl _))))
  have hread : expression (Utf8.bytes "h.nope(1))") = .failed unknown :=
    expression_unknownHelper (by decide : IsName "nope") rfl hargs
  have hopen : ¬IsClosed (Utf8.bytes "h.nope(1))") := not_isClosed_cons (b := 0x68) rfl (by decide) _
  have hbefore : Expects (Utf8.bytes "(x, ,y)") [] (Utf8.bytes "x, ,y)") :=
    .first rfl allBlank_nil (stops_cons rfl _)
  have hcomma : Expects (Utf8.bytes "(x, ,y)") [.var ["x"]] (Utf8.bytes ",y)") :=
    .next hbefore (hx (stops_cons rfl _)) allBlank_nil hspace (stops_cons rfl _)
  have hlist : ArgumentList (Utf8.bytes "(x , )z") [.var ["x"]] (Utf8.bytes "z") :=
    .trailing allBlank_nil hspace hspace (.one (hx (stops_cons rfl _)))
  exact ⟨⟨hplace, hopen, ((arguments_exact _).2.2.1 _ _ hplace hopen).2 _ hread⟩,
    ⟨hcomma, (arguments_exact _).2.1 _ _ hcomma⟩, hlist, ((arguments_exact _).1 _ _).mpr hlist⟩

end Grammar

end ThemedPages
