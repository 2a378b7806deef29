import ThemedPages.Proofs.ReadingExpressions

/-!
# Reading directives

The word of a directive counts only with what has to come after it, for the path that an `@` shows may begin with the
same word. `Grammar.directive_of_unannounced` says when an `@` announces nothing, and `Grammar.unannounced_source` that
this is so before an expression that no text comes after.

* `Grammar.directive_literal` and the lemmas after it read each directive from what is written for it. The alternatives
  before it are refused at the first character where they differ (`Grammar.choice_char`, `Grammar.choice_word`).
* `Grammar.Unannounced` is what has to be so for none to be read: what comes is no character that stands for itself, no
  word with its parenthesis, and no word with a blank after it.
-/

namespace ThemedPages

open ThemedPages.Parser

namespace Grammar

/-! ## What an `@` announces

Directives are alternatives, tried one after the other. They begin with different letters but for two of them, so the
first letter tells which it can be. -/

section

variable {c c' : Char} {w w' : List Char} {d : Directive} {s rest : Bytes} {p : Parser Directive}
  {ps : List (Parser Directive)}

/-- An `@` is read before what it announces. -/
theorem directive_of_ok (hp : directive = optional (char '@' *> p)) (h : p s = .ok d rest) :
    directive (0x40 :: s) = .ok (some d) rest := by
  have hat : char '@' (0x40 :: s) = .ok () s := char_of_eq rfl s
  rw [hp]
  exact optional_of_ok ((seqRight_of_ok hat p).trans h)

/-- A word announces its directive where it comes. -/
theorem announce_word (w : List Char) (d : Directive) (s : Bytes) :
    (word w *> pure d : Parser Directive) (Bytes.ofAscii w ++ s) = .ok d s :=
  seqRight_of_ok (word_append w s) _

/-- A word does not begin with another character. -/
theorem choice_char (h : UInt8.ofNat c'.toNat ≠ UInt8.ofNat c.toNat) :
    choice ((char c *> pure d) :: p :: ps) (Bytes.ofAscii (c' :: w') ++ s) =
      choice (p :: ps) (Bytes.ofAscii (c' :: w') ++ s) :=
  choice_of_refuses ((refuses_char_cons h _).seqRight _) p ps

/-- An alternative that begins with another letter is passed over. -/
theorem choice_word (h : UInt8.ofNat c'.toNat ≠ UInt8.ofNat c.toNat) :
    choice ((word (c :: w) *> pure d) :: p :: ps) (Bytes.ofAscii (c' :: w') ++ s) =
      choice (p :: ps) (Bytes.ofAscii (c' :: w') ++ s) :=
  choice_of_refuses ((refuses_word_cons h _).seqRight _) p ps

end

/-- A character with a meaning stands for itself after an `@`. -/
theorem directive_literal {c : Char} (h : c = '@' ∨ c = '{' ∨ c = '}') (s : Bytes) :
    directive (0x40 :: (Bytes.ofAscii [c] ++ s)) = .ok (some (.literal c)) s := by
  have hread : ∀ c : Char,
      (char c *> pure (.literal c) : Parser Directive) (Bytes.ofAscii [c] ++ s) = .ok (.literal c) s :=
    fun c => seqRight_of_ok (char_of_eq rfl s) _
  refine directive_of_ok rfl ?_
  rcases h with rfl | rfl | rfl
  · rw [choice_char (by decide), choice_char (by decide)]
    exact choice_of_ok (hread _) _
  · exact choice_of_ok (hread _) _
  · rw [choice_char (by decide)]
    exact choice_of_ok (hread _) _

/-- What is inherited is announced by a whole call. -/
theorem directive_super (s : Bytes) :
    directive (0x40 :: (Bytes.ofAscii ['s', 'u', 'p', 'e', 'r', '(', ')'] ++ s)) = .ok (some .super) s := by
  refine directive_of_ok rfl ?_
  rw [choice_char (by decide), choice_char (by decide), choice_char (by decide)]
  exact choice_of_ok (announce_word _ _ s) _

theorem directive_include (s : Bytes) :
    directive (0x40 :: (Bytes.ofAscii ['i', 'n', 'c', 'l', 'u', 'd', 'e', '('] ++ s)) = .ok (some .snippet) s := by
  refine directive_of_ok rfl ?_
  rw [choice_char (by decide), choice_char (by decide), choice_char (by decide), choice_word (by decide)]
  exact choice_of_ok (announce_word _ _ s) _

theorem directive_extends (s : Bytes) :
    directive (0x40 :: (Bytes.ofAscii ['e', 'x', 't', 'e', 'n', 'd', 's', '('] ++ s)) = .ok (some .extends) s := by
  refine directive_of_ok rfl ?_
  rw [choice_char (by decide), choice_char (by decide), choice_char (by decide), choice_word (by decide),
    choice_word (by decide)]
  exact choice_of_ok (announce_word _ _ s) _

section

variable {s : Bytes} (hs : Stops Ascii.isBlank s)
include hs

/-- A condition is announced by its word and a blank, which is read with it. So nothing else may be blank after that. -/
theorem directive_if : directive (0x40 :: (Bytes.ofAscii ['i', 'f'] ++ 0x20 :: s)) = .ok (some .cond) s := by
  have hinclude : (word ['i', 'n', 'c', 'l', 'u', 'd', 'e', '(']).Refuses (Bytes.ofAscii ['i', 'f'] ++ 0x20 :: s) :=
    refuses_word fun hfront => absurd (second_eq_of_front hfront) (by decide)
  refine directive_of_ok rfl ?_
  rw [choice_char (by decide), choice_char (by decide), choice_char (by decide), choice_word (by decide),
    choice_of_refuses (hinclude.seqRight _), choice_word (by decide)]
  exact choice_of_ok (seqLeft_of_ok (choice_of_ok (announce_word _ _ _) _) (blanks1_space hs)) []

theorem directive_for : directive (0x40 :: (Bytes.ofAscii ['f', 'o', 'r'] ++ 0x20 :: s)) = .ok (some .loop) s := by
  refine directive_of_ok rfl ?_
  rw [choice_char (by decide), choice_char (by decide), choice_char (by decide), choice_word (by decide),
    choice_word (by decide), choice_word (by decide)]
  refine choice_of_ok (seqLeft_of_ok ?_ (blanks1_space hs)) []
  rw [choice_word (by decide)]
  exact choice_of_ok (announce_word _ _ _) _

theorem directive_block :
    directive (0x40 :: (Bytes.ofAscii ['b', 'l', 'o', 'c', 'k'] ++ 0x20 :: s)) = .ok (some .block) s := by
  refine directive_of_ok rfl ?_
  rw [choice_char (by decide), choice_char (by decide), choice_char (by decide), choice_word (by decide),
    choice_word (by decide), choice_word (by decide)]
  refine choice_of_ok (seqLeft_of_ok ?_ (blanks1_space hs)) []
  rw [choice_word (by decide), choice_word (by decide)]
  exact choice_of_ok (announce_word _ _ _) _

end

/-- The input after an `@` announces nothing. -/
structure Unannounced (s : Bytes) : Prop where
  /-- no character that stands for itself -/
  literal : ∀ b ∈ s.head?, isPlain b = true
  /-- no word that counts with a parenthesis after it -/
  call : ¬Bytes.ofAscii ['s', 'u', 'p', 'e', 'r', '(', ')'] <+: s ∧
    ¬Bytes.ofAscii ['i', 'n', 'c', 'l', 'u', 'd', 'e', '('] <+: s ∧
    ¬Bytes.ofAscii ['e', 'x', 't', 'e', 'n', 'd', 's', '('] <+: s
  /-- no word that counts with a blank after it -/
  word : ∀ w ∈ [['i', 'f'], ['f', 'o', 'r'], ['b', 'l', 'o', 'c', 'k']], ∀ rest, s = Bytes.ofAscii w ++ rest →
    Stops Ascii.isBlank rest

/-- **Where nothing is announced** no directive is read, and the `@` is still there. The words with a blank after them
are tried as a choice of their own, which is refused either for the word or for the blank. -/
theorem directive_of_unannounced {s : Bytes} (h : Unannounced s) : directive (0x40 :: s) = .ok none (0x40 :: s) := by
  have hat : char '@' (0x40 :: s) = .ok () s := char_of_eq rfl s
  -- no directive of one character, since the text does not begin with that character
  have hchar : ∀ {c : Char} {d : Directive}, isPlain (UInt8.ofNat c.toNat) = false →
      (char c *> pure d : Parser Directive).Refuses s := fun {c _} hc => by
    refine (refuses_char fun hhead => ?_).seqRight _
    have hplain := h.literal _ hhead
    exact absurd (hplain.symm.trans hc) (by decide)
  -- no directive of a word either: the word is not there, or no blank follows it
  have hword : ∀ w ∈ [['i', 'f'], ['f', 'o', 'r'], ['b', 'l', 'o', 'c', 'k']], ∀ d : Directive,
      (word w *> pure d : Parser Directive).Refuses s ∨
        ∃ a rest, (word w *> pure d : Parser Directive) s = .ok a rest ∧ blanks1.Refuses rest := by
    intro w hw d
    by_cases hfront : Bytes.ofAscii w <+: s
    · obtain ⟨rest, rfl⟩ := hfront
      exact .inr ⟨d, rest, announce_word w d rest, refuses_blanks1 (h.word w hw rest rfl)⟩
    · exact .inl ((refuses_word hfront).seqRight _)
  refine optional_of_refuses (Refuses.after (.choice fun p hp => ?_) hat)
  simp only [List.mem_cons, List.not_mem_nil, or_false] at hp
  -- one case for each kind of directive, in the order in which they are tried
  rcases hp with rfl | rfl | rfl | rfl | rfl | rfl | rfl
  · exact hchar (by decide)
  · exact hchar (by decide)
  · exact hchar (by decide)
  · exact (refuses_word h.call.1).seqRight _
  · exact (refuses_word h.call.2.1).seqRight _
  · exact (refuses_word h.call.2.2).seqRight _
  · refine .choice_before fun p hp => ?_
    simp only [List.mem_cons, List.not_mem_nil, or_false] at hp
    rcases hp with rfl | rfl | rfl <;> exact hword _ (by decide) _

/-- No directive begins with the byte. -/
theorem unannounced_of_first {b : UInt8} (hplain : isPlain b = true) (h : b ∉ [0x73, 0x69, 0x65, 0x66, 0x62])
    (s : Bytes) : Unannounced (b :: s) := by
  have hfront : ∀ {c : UInt8} {w : Bytes}, c ∈ [0x73, 0x69, 0x65, 0x66, 0x62] → ¬c :: w <+: b :: s :=
    fun hc hw => h ((List.cons_prefix_cons.mp hw).1 ▸ hc)
  refine ⟨?_, ⟨hfront (by decide), hfront (by decide), hfront (by decide)⟩, fun w hw rest hs => ?_⟩
  · rintro _ ⟨⟩
    exact hplain
  · have hw' : Bytes.ofAscii w <+: b :: s := ⟨rest, hs.symm⟩
    simp only [List.mem_cons, List.not_mem_nil, or_false] at hw
    rcases hw with rfl | rfl | rfl <;> exact absurd hw' (hfront (by decide))

/-- What can be in a path can be in a text. -/
theorem isPlain_of_inPath {b : UInt8} (h : inPath b = true) : isPlain b = true := by
  have hne : b ≠ 0x40 ∧ b ≠ 0x7B ∧ b ≠ 0x7D :=
    ⟨ne_of_class h (by decide), ne_of_class h (by decide), ne_of_class h (by decide)⟩
  simpa [isPlain, and_assoc] using hne

theorem isPlain_of_isBlank {b : UInt8} (h : Ascii.isBlank b = true) : isPlain b = true := by
  have hne : b ≠ 0x40 ∧ b ≠ 0x7B ∧ b ≠ 0x7D :=
    ⟨ne_of_class h (by decide), ne_of_class h (by decide), ne_of_class h (by decide)⟩
  simpa [isPlain, and_assoc] using hne

/-- Where no text comes, no path goes on. -/
theorem stops_inPath {s : Bytes} (h : Stops isPlain s) : Stops inPath s := h.mono fun _ => isPlain_of_inPath

theorem stops_isBlank {s : Bytes} (h : Stops isPlain s) : Stops Ascii.isBlank s := h.mono fun _ => isPlain_of_isBlank

/-- No path is a directive, even if it begins with the word of one, as a parenthesis or a blank would be text. -/
theorem unannounced_of_path {path rest : Bytes} (hne : path ≠ []) (hpath : ∀ b ∈ path, inPath b = true)
    (hrest : Stops isPlain rest) : Unannounced (path ++ rest) := by
  have hstops := stops_inPath hrest
  -- where a word and what cannot be in a path come first, the path is that word
  have hafter : ∀ {w after : Bytes}, (∀ b ∈ w, inPath b = true) → Stops inPath after → path ++ rest = w ++ after →
      rest = after := fun hw hs heq => by
    rw [← (takeWhile_append_of_stops hpath hstops).2, heq, (takeWhile_append_of_stops hw hs).2]
  have hcall : ∀ w more : List Char, (Bytes.ofAscii w).all inPath = true →
      ¬Bytes.ofAscii (w ++ '(' :: more) <+: path ++ rest := by
    rintro w more hw ⟨after, heq⟩
    have hparen : Stops inPath (Bytes.ofAscii ('(' :: more) ++ after) := stops_cons (by decide) _
    rw [Bytes.ofAscii, List.map_append, List.append_assoc] at heq
    have hrest' := hafter (List.all_eq_true.mp hw) hparen heq.symm
    exact absurd (hrest 0x28 (hrest' ▸ rfl)) (by decide)
  refine ⟨fun b hb => ?_, ⟨?_, ?_, ?_⟩, fun w hw after heq b hb => ?_⟩
  · obtain ⟨b', path, rfl⟩ := List.exists_cons_of_ne_nil hne
    cases hb
    exact isPlain_of_inPath (hpath b List.mem_cons_self)
  · exact hcall ['s', 'u', 'p', 'e', 'r'] [')'] (by decide)
  · exact hcall ['i', 'n', 'c', 'l', 'u', 'd', 'e'] [] (by decide)
  · exact hcall ['e', 'x', 't', 'e', 'n', 'd', 's'] [] (by decide)
  · have hword : ∀ w ∈ [['i', 'f'], ['f', 'o', 'r'], ['b', 'l', 'o', 'c', 'k']],
        (Bytes.ofAscii w).all inPath = true := by decide
    rw [Bool.eq_false_iff]
    intro hblank
    have hstop : Stops inPath after := by
      rintro _ hb'
      rw [Option.mem_unique hb' hb]
      exact eq_false_of_isBlank (by decide) hblank
    have hrest' := hafter (List.all_eq_true.mp (hword w hw)) hstop heq
    exact absurd ((hrest b (hrest' ▸ hb)).symm.trans (isPlain_of_isBlank hblank)) (by decide)

/-! ## Expressions

An expression is shown without any word. Only a path can begin with the word of a directive, and then it has neither
the parenthesis nor the blank that would make it one. -/

theorem inPath_of_mem_partsSource {parts : List String} (h : ∀ part ∈ parts, IsName part) :
    ∀ b ∈ Utf8.bytes (Expr.partsSource parts), inPath b = true := by
  induction parts with
  | nil => exact fun b hb => absurd hb List.not_mem_nil
  | cons part parts ih =>
    intro b hb
    rw [bytes_partsSource_cons, List.mem_cons, List.mem_append] at hb
    rcases hb with rfl | hb | hb
    · decide
    · rw [inPath, inName_of_mem_bytes (h part List.mem_cons_self) b hb, Bool.true_or]
    · exact ih (fun part hpart => h part (List.mem_cons_of_mem _ hpart)) b hb

/-- A path, as it is written, is no directive. -/
theorem unannounced_parts {first : String} {parts : List String} (hfirst : IsName first)
    (hparts : ∀ part ∈ parts, IsName part) {rest : Bytes} (hrest : Stops isPlain rest) :
    Unannounced (Utf8.bytes (first ++ Expr.partsSource parts) ++ rest) := by
  rw [Utf8.bytes_append]
  refine unannounced_of_path ?_ (fun b hb => ?_) hrest
  · obtain ⟨b, bs, hbytes, -⟩ := exists_bytes_of_isName hfirst
    rw [hbytes]
    exact List.cons_ne_nil _ _
  · rcases List.mem_append.mp hb with hb | hb
    · rw [inPath, inName_of_mem_bytes hfirst b hb, Bool.true_or]
    · exact inPath_of_mem_partsSource hparts b hb

/-- No directive begins with an expression. -/
theorem unannounced_source {e : Expr} (h : e.WellFormed) {rest : Bytes} (hrest : Stops isPlain rest) :
    Unannounced (Utf8.bytes e.source ++ rest) := by
  cases e with
  | var path =>
    cases path with
    | nil => exact h.elim
    | cons first parts => exact unannounced_parts h.1 h.2.2.2 hrest
  | global parts => exact unannounced_parts (by decide) h hrest
  | str s =>
    rw [bytes_source_str]
    exact unannounced_of_first (by decide) (by decide) _
  | int n =>
    obtain ⟨b, bs, hbytes, rfl | hb⟩ := exists_bytes_integer n
    · rw [Expr.source_int, hbytes]
      exact unannounced_of_first (by decide) (by decide) _
    -- a digit begins none of the words
    · have hletter : b ∉ [0x73, 0x69, 0x65, 0x66, 0x62] := fun hmem => by
        simp only [List.mem_cons, List.not_mem_nil, or_false] at hmem
        rcases hmem with rfl | rfl | rfl | rfl | rfl <;> exact absurd hb (by decide)
      rw [Expr.source_int, hbytes]
      exact unannounced_of_first (isPlain_of_inPath (by rw [inPath, inName, hb, Bool.or_true, Bool.true_or])) hletter _
  | not e =>
    rw [bytes_source_not]
    exact unannounced_of_first (by decide) (by decide) _
  | call helper args =>
    rw [bytes_source_call]
    exact unannounced_of_first (by decide) (by decide) _

end Grammar

end ThemedPages
