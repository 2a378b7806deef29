import ThemedPages.Proofs.Decoding
import ThemedPages.Proofs.Grammars

/-!
# Reading words, names and blanks

What the smallest parsers of the grammar do with input that begins in a known way. A run of bytes of a class is read as
far as it goes if a byte that is not of the class comes after it, which is what `Stops` says.

* `Utf8.mem_encodeChar` and the lemmas after it say which bytes there are in a text: a byte of a character that is not
  ASCII is none that the grammar looks for.
* `Stops` is the condition on what comes after a run, and `takeWhile_append_of_stops` what it is for.
* `Parser.Refuses` says that a parser refuses some input, whatever it notes. An alternative that refuses is passed over
  (`Parser.choice_of_refuses`).
* For each of the small parsers one lemma says what it reads, and one which input it refuses.
-/

namespace ThemedPages

/-! ## Bytes of texts

The grammar looks at bytes, and a template that is written is a text. All bytes that have a meaning are ASCII, and
those of a character that is not ASCII are none of them, so that characters can be taken one by one. -/

namespace Utf8

/-- The bytes of a text are those of its characters one after the other, so of two texts as well. -/
theorem encode_append (cs cs' : List Char) : encode (cs ++ cs') = encode cs ++ encode cs' := List.flatMap_append

theorem bytes_append (s s' : String) : bytes (s ++ s') = bytes s ++ bytes s' := by
  rw [bytes, String.toList_append, encode_append]
  rfl

/-- A character is one byte, its code point, or else some bytes beyond ASCII. -/
theorem mem_encodeChar {c : Char} {b : UInt8} (h : b ∈ encodeChar c) :
    c.toNat < 0x80 ∧ b = UInt8.ofNat c.toNat ∨ 0x80 ≤ c.toNat ∧ 0x80 ≤ b.toNat := by
  have hbyte : ∀ {k}, 0x80 ≤ k → k < 0x100 → 0x80 ≤ (UInt8.ofNat k).toNat := fun hlo hhi => by
    rwa [toNat_ofNat_of_lt hhi]
  have hvalid : c.toNat < 0xD800 ∨ 0xDFFF < c.toNat ∧ c.toNat < 0x110000 := c.valid
  unfold encodeChar at h
  dsimp only at h
  split_ifs at h with h₁ h₂ h₃ <;> simp only [List.mem_cons, List.not_mem_nil, or_false] at h
  · exact .inl ⟨h₁, h⟩
  · refine .inr ⟨Nat.le_of_not_lt h₁, ?_⟩
    rcases h with rfl | rfl <;> exact hbyte (by omega) (by omega)
  · refine .inr ⟨Nat.le_of_not_lt h₁, ?_⟩
    rcases h with rfl | rfl | rfl <;> exact hbyte (by omega) (by omega)
  · refine .inr ⟨Nat.le_of_not_lt h₁, ?_⟩
    rcases h with rfl | rfl | rfl | rfl <;> exact hbyte (by omega) (by omega)

/-- A byte that stands for an ASCII character is in no other character. -/
theorem ne_of_mem_encodeChar {c d : Char} (hc : c.toNat < 0x80) (h : d ≠ c) {b : UInt8} (hb : b ∈ encodeChar d) :
    b ≠ UInt8.ofNat c.toNat := by
  intro heq
  have hcode : b.toNat = c.toNat := by rw [heq, toNat_ofNat_of_lt (by omega)]
  rcases mem_encodeChar hb with ⟨hlt, rfl⟩ | ⟨-, hle⟩
  · rw [toNat_ofNat_of_lt (by omega)] at hcode
    exact h (Char.toNat_inj.mp hcode)
  · omega

/-- A character takes a byte at least. -/
theorem exists_encodeChar (c : Char) : ∃ b bs, encodeChar c = b :: bs := by
  unfold encodeChar
  dsimp only
  split_ifs <;> exact ⟨_, _, rfl⟩

/-- The first byte of a text is one of its first character. -/
theorem exists_of_mem_head?_bytes {s : String} {b : UInt8} (h : b ∈ (bytes s).head?) :
    ∃ c ∈ s.toList.head?, b ∈ encodeChar c := by
  rcases hs : s.toList with _ | ⟨c, cs⟩
  · rw [bytes, hs] at h
    cases h
  · obtain ⟨b', bs, hbytes⟩ := exists_encodeChar c
    rw [bytes, hs, encode, List.flatMap_cons, hbytes] at h
    cases h
    exact ⟨c, rfl, hbytes ▸ List.mem_cons_self⟩

/-- An ASCII character that is not in a text is not among its bytes. -/
theorem ne_of_mem_bytes {s : String} {c : Char} (hc : c.toNat < 0x80) (h : c ∉ s.toList) {b : UInt8}
    (hb : b ∈ bytes s) : b ≠ UInt8.ofNat c.toNat := by
  obtain ⟨d, hd, hb⟩ := List.mem_flatMap.mp hb
  exact ne_of_mem_encodeChar hc (fun hsame => h (hsame ▸ hd)) hb

/-- The bytes of ASCII characters are these characters. -/
theorem encode_of_ascii {cs : List Char} (h : ∀ c ∈ cs, c.toNat < 0x80) : encode cs = Bytes.ofAscii cs := by
  have hbyte : ∀ c ∈ cs, encodeChar c = [UInt8.ofNat c.toNat] := fun c hc => if_pos (h c hc)
  rw [encode, List.flatMap_congr hbyte, ← List.map_eq_flatMap]
  rfl

end Utf8

/-- Where a word is at the front, its second byte is the second one. -/
theorem second_eq_of_front {a b c d : UInt8} {s s' : Bytes} (h : a :: b :: s <+: c :: d :: s') : b = d :=
  (List.cons_prefix_cons.mp (List.cons_prefix_cons.mp h).2).1

/-- No byte of the class is at the front. -/
def Stops (cls : UInt8 → Bool) (s : Bytes) : Prop := ∀ b ∈ s.head?, cls b = false

/-- A class stops at a byte that is not of it. -/
theorem stops_cons {cls : UInt8 → Bool} {b : UInt8} (h : cls b = false) (s : Bytes) : Stops cls (b :: s) := by
  rintro _ ⟨⟩
  exact h

/-- Bytes in a class and out of it are different. -/
theorem ne_of_class {cls : UInt8 → Bool} {b c : UInt8} (hb : cls b = true) (hc : cls c = false) : b ≠ c := by
  rintro rfl
  exact absurd (hb.symm.trans hc) (by decide)

/-- Where a class stops, a smaller one does. -/
theorem Stops.mono {cls cls' : UInt8 → Bool} {s : Bytes} (h : Stops cls s) (hcls : ∀ b, cls' b = true → cls b = true) :
    Stops cls' s := fun b hb => by
  rw [Bool.eq_false_iff]
  exact fun hb' => absurd ((h b hb).symm.trans (hcls b hb')) (by decide)

theorem stops_nil (cls : UInt8 → Bool) : Stops cls [] := nofun

/-- After all bytes of a class come none of it. -/
theorem stops_dropWhile (cls : UInt8 → Bool) (s : Bytes) : Stops cls (s.dropWhile cls) := by
  intro b hb
  have hhead := List.head?_dropWhile_not cls s
  rwa [hb] at hhead

/-- A run of a class that begins with some bytes is not longer where it stops. -/
theorem takeWhile_append_of_stops {cls : UInt8 → Bool} {run rest : Bytes} (hrun : ∀ b ∈ run, cls b = true)
    (hrest : Stops cls rest) : (run ++ rest).takeWhile cls = run ∧ (run ++ rest).dropWhile cls = rest := by
  have hstop : rest.takeWhile cls = [] ∧ rest.dropWhile cls = rest := by
    cases rest with
    | nil => exact ⟨rfl, rfl⟩
    | cons b rest =>
      have hb := hrest b rfl
      simp [hb]
  rw [List.takeWhile_append_of_pos hrun, List.dropWhile_append_of_pos hrun, hstop.1, hstop.2, List.append_nil]
  exact ⟨rfl, rfl⟩

namespace Parser

variable {α β : Type}

/-! ## Sequence and choice

What a parser that is put together from others does, by what these do. Refusals are carried on without the notes: for
an alternative that is tried next these make no difference. -/

/-- The parser refuses the input, for whatever reason. -/
def Refuses (p : Parser α) (s : Bytes) : Prop := ∃ trace, p s = .refused trace

section

variable {p : Parser α} {s rest : Bytes} {a : α}

/-- If the first part is read, it is up to the second. -/
theorem seqRight_of_ok (h : p s = .ok a rest) (q : Parser β) : (p *> q) s = q rest := bind_of_ok h _

theorem seqLeft_of_ok {b : β} {q : Parser β} {rest' : Bytes} (h : p s = .ok a rest) (hq : q rest = .ok b rest') :
    (p <* q) s = .ok a rest' :=
  (bind_of_ok h _).trans (bind_of_ok hq _)

theorem map_of_ok (h : p s = .ok a rest) (f : α → β) : (f <$> p) s = .ok (f a) rest := bind_of_ok h _

theorem optional_of_ok (h : p s = .ok a rest) : optional p s = .ok (some a) rest := optional_eq_some.mpr h

theorem commit_of_ok (h : p s = .ok a rest) : commit p s = .ok a rest := commit_eq_ok.mpr h

theorem label_of_ok (h : p s = .ok a rest) (text : String) : label text p s = .ok a rest := label_eq_ok.mpr h

theorem prepend_of_ok {more : Parser (List α)} {as : List α} (h : more s = .ok as rest) (a : α) :
    prepend a more s = .ok (a :: as) rest := bind_of_ok h _

/-- Where the first part refuses, the sequence does. -/
theorem Refuses.bind (h : p.Refuses s) (f : α → Parser β) : (p >>= f).Refuses s :=
  let ⟨trace, htrace⟩ := h
  ⟨trace, bind_of_refused htrace f⟩

theorem Refuses.seqRight (h : p.Refuses s) (q : Parser β) : (p *> q).Refuses s := h.bind _

theorem Refuses.seqLeft (h : p.Refuses s) (q : Parser β) : (p <* q).Refuses s := h.bind _

theorem Refuses.map (h : p.Refuses s) (f : α → β) : (f <$> p).Refuses s := h.bind _

/-- What comes next refuses the rest. -/
theorem Refuses.bind_of_ok {f : α → Parser β} (hf : (f a).Refuses rest) (h : p s = .ok a rest) :
    (p >>= f).Refuses s :=
  let ⟨trace, htrace⟩ := hf
  ⟨trace, (Parser.bind_of_ok h f).trans htrace⟩

/-- A part that refuses after another was read makes the sequence refuse, if there is no commitment. -/
theorem Refuses.after {q : Parser β} (hq : q.Refuses rest) (h : p s = .ok a rest) : (p *> q).Refuses s :=
  hq.bind_of_ok h

theorem Refuses.before {q : Parser β} (hq : q.Refuses rest) (h : p s = .ok a rest) : (p <* q).Refuses s :=
  Refuses.bind_of_ok (f := fun a => q >>= fun _ => pure a) (hq.bind _) h

/-- What is refused is missing, and nothing is taken of the input. -/
theorem optional_of_refuses (h : p.Refuses s) : optional p s = .ok none s := by
  obtain ⟨trace, htrace⟩ := h
  rw [optional, htrace]

/-- An alternative that refuses is passed over. -/
theorem choice_of_refuses (h : p.Refuses s) (q : Parser α) (ps : List (Parser α)) :
    choice (p :: q :: ps) s = choice (q :: ps) s := by
  obtain ⟨trace, htrace⟩ := h
  exact choice_of_refused htrace q ps

/-- A choice refuses if all of its alternatives do. -/
theorem Refuses.choice {ps : List (Parser α)} (h : ∀ p ∈ ps, p.Refuses s) : (choice ps).Refuses s := by
  induction ps with
  | nil => exact ⟨_, rfl⟩
  | cons p ps ih =>
    have hp := h p List.mem_cons_self
    cases ps with
    | nil =>
      obtain ⟨trace, htrace⟩ := hp
      exact ⟨⟨s, .bare⟩ :: trace, by simp [Parser.choice, htrace]⟩
    | cons q ps =>
      obtain ⟨trace, htrace⟩ := ih fun r hr => h r (List.mem_cons_of_mem _ hr)
      exact ⟨trace, (choice_of_refuses hp q ps).trans htrace⟩

/-- Whichever parser reads, what comes next refuses the rest. -/
theorem Refuses.choice_before {ps : List (Parser α)} {q : Parser β}
    (h : ∀ p ∈ ps, p.Refuses s ∨ ∃ a rest, p s = .ok a rest ∧ q.Refuses rest) : (Parser.choice ps <* q).Refuses s := by
  have hps : (Parser.choice ps).Refuses s ∨ ∃ a rest, Parser.choice ps s = .ok a rest ∧ q.Refuses rest := by
    induction ps with
    | nil => exact .inl ⟨_, rfl⟩
    | cons p ps ih =>
      rcases h p List.mem_cons_self with hp | ⟨a, rest, hp, hq⟩
      · cases ps with
        | nil => exact .inl (.choice fun r hr => List.mem_singleton.mp hr ▸ hp)
        | cons p' ps =>
          have hrest := ih fun r hr => h r (List.mem_cons_of_mem _ hr)
          rwa [Refuses, choice_of_refuses hp]
      · exact .inr ⟨a, rest, choice_of_ok hp ps, hq⟩
  rcases hps with hps | ⟨a, rest, hps, hq⟩
  · exact hps.seqLeft q
  · exact hq.before hps

end

/-! ## Bytes

A character, a word and a run of a class, each where it is there and where it is not. -/

section

variable {cls : UInt8 → Bool} {s rest run : Bytes}

/-- A character that comes is read. -/
theorem char_of_eq {c : Char} {b : UInt8} (h : b = UInt8.ofNat c.toNat) (rest : Bytes) :
    char c (b :: rest) = .ok () rest := if_pos h

/-- A character is refused if another byte comes, or none. -/
theorem refuses_char {c : Char} (h : s.head? ≠ some (UInt8.ofNat c.toNat)) : (char c).Refuses s := by
  cases s with
  | nil => exact ⟨_, rfl⟩
  | cons b rest =>
    refine ⟨_, if_neg fun hb => h ?_⟩
    rw [hb, List.head?_cons]

/-- A word that comes is read. -/
theorem word_append (w : List Char) (rest : Bytes) : word w (Bytes.ofAscii w ++ rest) = .ok () rest := by
  have hlength : w.length = (Bytes.ofAscii w).length := (List.length_map _).symm
  rw [word, if_pos (List.prefix_append _ _), hlength, List.drop_left]

theorem refuses_word {w : List Char} (h : ¬Bytes.ofAscii w <+: s) : (word w).Refuses s := ⟨_, if_neg h⟩

/-- The first byte is another one. -/
theorem refuses_char_cons {c : Char} {b : UInt8} (h : b ≠ UInt8.ofNat c.toNat) (s : Bytes) :
    (char c).Refuses (b :: s) := refuses_char fun hb => h (Option.some.inj hb)

/-- The first byte is not that of the word. -/
theorem refuses_word_cons {c : Char} {w : List Char} {b : UInt8} (h : b ≠ UInt8.ofNat c.toNat) (s : Bytes) :
    (word (c :: w)).Refuses (b :: s) := refuses_word fun hfront => h (List.cons_prefix_cons.mp hfront).1.symm

/-- A run is read as far as it goes, if its class stops there. -/
theorem span_append (hrun : ∀ b ∈ run, cls b = true) (hrest : Stops cls rest) :
    span cls (run ++ rest) = .ok run rest := by
  obtain ⟨htake, hdrop⟩ := takeWhile_append_of_stops hrun hrest
  rw [span, htake, hdrop]

/-- So is a run that may not be empty. -/
theorem span1_append (hne : run ≠ []) (hrun : ∀ b ∈ run, cls b = true) (hrest : Stops cls rest) :
    span1 cls (run ++ rest) = .ok run rest := by
  obtain ⟨htake, hdrop⟩ := takeWhile_append_of_stops hrun hrest
  rw [span1, htake, hdrop]
  cases run with
  | nil => exact absurd rfl hne
  | cons b run => rfl

/-- A run that may not be empty is refused where its class stops at once. -/
theorem refuses_span1 (h : Stops cls s) : (span1 cls).Refuses s := by
  have hempty : ∀ b ∈ ([] : Bytes), cls b = true := fun _ hb => absurd hb List.not_mem_nil
  obtain ⟨htake, -⟩ := takeWhile_append_of_stops hempty h
  rw [List.nil_append] at htake
  exact ⟨[⟨s, .bare⟩], by rw [span1, htake]⟩

theorem refuses_finish (h : s ≠ []) : finish.Refuses s := by
  cases s with
  | nil => exact absurd rfl h
  | cons b rest => exact ⟨_, rfl⟩

end

end Parser

/-! ## Names, blanks and comments

What is between the parts of a directive: blanks that may be missing, blanks that may not, and blanks and comments
together. `Solid` is what neither of these begins with. -/

namespace Grammar

open ThemedPages.Parser

theorem inName_of_beginsName {b : UInt8} (h : beginsName b = true) : inName b = true := by
  rw [inName, h, Bool.true_or]

variable {s rest : Bytes}

theorem blanks_of_stops (h : Stops Ascii.isBlank s) : blanks s = .ok () s :=
  bind_of_ok (span_append (fun _ hb => absurd hb List.not_mem_nil) h) _

/-- A single blank is read. -/
theorem blanks_blank {b : UInt8} (hb : Ascii.isBlank b = true) (h : Stops Ascii.isBlank s) :
    blanks (b :: s) = .ok () s := by
  have hrun : ∀ x ∈ [b], Ascii.isBlank x = true := fun x hx => List.mem_singleton.mp hx ▸ hb
  exact bind_of_ok (span_append hrun h) _

theorem blanks1_blank {b : UInt8} (hb : Ascii.isBlank b = true) (h : Stops Ascii.isBlank s) :
    blanks1 (b :: s) = .ok () s := by
  have hrun : ∀ x ∈ [b], Ascii.isBlank x = true := fun x hx => List.mem_singleton.mp hx ▸ hb
  exact bind_of_ok (span1_append (List.cons_ne_nil _ _) hrun h) _

theorem blanks_space (h : Stops Ascii.isBlank s) : blanks (0x20 :: s) = .ok () s := blanks_blank (by decide) h

theorem blanks1_space (h : Stops Ascii.isBlank s) : blanks1 (0x20 :: s) = .ok () s := blanks1_blank (by decide) h

/-- Blanks that may not be missing are refused where none come. -/
theorem refuses_blanks1 (h : Stops Ascii.isBlank s) : blanks1.Refuses s := (refuses_span1 h).bind _

/-- What does not begin with the two characters of a comment is none. -/
theorem refuses_comment (h : ¬[0x40, 0x2A] <+: s) : comment.Refuses s := by
  have hword : ¬Bytes.ofAscii ['@', '*'] <+: s := h
  exact (refuses_word hword).bind _

/-- There is neither a blank nor a comment at the front. -/
structure Solid (s : Bytes) : Prop where
  blank : Stops Ascii.isBlank s
  comment : ¬[0x40, 0x2A] <+: s

/-- What begins with something other than a blank or an `@` is solid. -/
theorem solid_cons {b : UInt8} (hblank : Ascii.isBlank b = false) (hat : b ≠ 0x40) (s : Bytes) : Solid (b :: s) :=
  ⟨stops_cons hblank s, fun hfront => hat (List.cons_prefix_cons.mp hfront).1.symm⟩

/-- Before something solid there is neither a blank nor a comment. -/
theorem refuses_space (h : Solid s) : (choice [comment, blanks1]).Refuses s := by
  refine .choice fun p hp => ?_
  rcases List.mem_pair.mp hp with rfl | rfl
  · exact refuses_comment h.comment
  · exact refuses_blanks1 h.blank

theorem many_of_refuses {α : Type} {item : Parser α} (hitem : item.Takes 1) (h : item.Refuses s) :
    many item s = .ok [] s := by
  obtain ⟨trace, htrace⟩ := h
  rw [many_eq hitem, htrace]

/-- A loop over items goes on after an item that is read. -/
theorem many_of_ok {α : Type} {item : Parser α} (hitem : item.Takes 1) {a : α} {as : List α} {mid : Bytes}
    (h : item s = .ok a mid) (hmore : many item mid = .ok as rest) : many item s = .ok (a :: as) rest := by
  rw [many_eq hitem, h]
  exact prepend_of_ok hmore a

/-- Nothing is skipped before something solid. -/
theorem spaces_of_solid (h : Solid s) : spaces s = .ok () s :=
  bind_of_ok (many_of_refuses takes_space (refuses_space h)) _

/-- Blanks are read as far as they go. -/
theorem spaces_blanks {run : Bytes} (hrun : ∀ b ∈ run, Ascii.isBlank b = true) (h : Solid s) :
    spaces (run ++ s) = .ok () s := by
  cases run with
  | nil => exact spaces_of_solid h
  | cons b run =>
    have hcomment : comment.Refuses (b :: run ++ s) := by
      refine refuses_comment fun hfront => ?_
      obtain ⟨rfl, -⟩ := List.cons_prefix_cons.mp hfront
      exact absurd (hrun _ List.mem_cons_self) (by decide)
    have hblanks : blanks1 (b :: run ++ s) = .ok () s :=
      bind_of_ok (span1_append (List.cons_ne_nil _ _) hrun h.blank) _
    have hfirst : choice [comment, blanks1] (b :: run ++ s) = .ok () s :=
      (choice_of_refuses hcomment _ _).trans (choice_of_ok hblanks [])
    exact bind_of_ok (many_of_ok takes_space hfirst (many_of_refuses takes_space (refuses_space h))) _

/-- One blank is read between the parts of a directive. -/
theorem spaces_blank {b : UInt8} (hb : Ascii.isBlank b = true) (h : Solid s) : spaces (b :: s) = .ok () s := by
  have hrun : ∀ x ∈ [b], Ascii.isBlank x = true := fun x hx => List.mem_singleton.mp hx ▸ hb
  exact spaces_blanks hrun h

end Grammar

end ThemedPages
