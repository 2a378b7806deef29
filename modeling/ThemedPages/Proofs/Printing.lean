import ThemedPages.Proofs.Arguments
import ThemedPages.Proofs.Checks
import ThemedPages.Proofs.Mending
import ThemedPages.Proofs.ReadingExpressions

/-!
# Printing expressions

An expression that was read is printed as it is written, but for its texts: between quotes these are printed with
escapes, and where one is read nothing is an escape. So the printed expression is read as the one with its texts
escaped, and as the expression itself exactly if no text is changed by that: `Grammar.expression_display`.

* `Grammar.wellFormed_of_expression` says that what is read can be written.
* `Expr.shown` is the expression that is printed, and `Expr.display_eq` that printing it is writing that one.

So printing is reduced to writing, for which it is known that what is written is read back. What has to be seen for this
is that the expression with its texts escaped can be written as well. Escaping puts no quote into a text where there was
none, and a text that was read has none.
-/

namespace ThemedPages

/-! ## Characters of bytes

A name is read as bytes and kept as a text, so it has to be seen that its characters are its bytes. -/

namespace Utf8

/-- Bytes that are ASCII are the characters of the text that they are made into. -/
theorem bytes_lossy_of_ascii {bs : Bytes} (h : ∀ b ∈ bs, b < 0x80) :
    (lossy bs).toList = bs.map (fun b => Char.ofNat b.toNat) ∧ bytes (lossy bs) = bs := by
  have hdecode : decode bs = bs.map fun b => Char.ofNat b.toNat := by
    induction bs with
    | nil => rfl
    | cons b rest ih =>
      have hb : start b = ([Char.ofNat b.toNat], .idle) := if_pos (h b List.mem_cons_self)
      have hrest := ih fun x hx => h x (List.mem_cons_of_mem _ hx)
      rw [decode, decodeFrom]
      simp only [step, hb, List.map_cons, ← hrest]
      rfl
  refine ⟨by rw [lossy, String.toList_ofList, hdecode], ?_⟩
  rw [bytes_lossy, mend_of_ascii fun b hb => decide_eq_true (h b hb)]

/-- There is no quote in the text of bytes without one. -/
theorem isQuotable_lossy {bs : Bytes} (h : ∀ b ∈ bs, b ≠ 0x22) : IsQuotable (lossy bs) := by
  intro hquote
  rw [lossy, String.toList_ofList, decode] at hquote
  rcases State.sound_idle.mem_decodeFrom hquote with ⟨b, hb, -, hcode⟩ | hlong
  · exact h b hb (UInt8.toNat_inj.mp hcode.symm)
  · exact absurd hlong (by decide)

end Utf8

/-! ## What is read can be written

Each of the parsers is inverted: from what it has read it is told what was there. For names and numbers this is what
the grammar asks for, for a call it is a check that was passed. -/

theorem Decimal.range_of_word? {m n : Int} (h : word? m = some n) :
    -0x8000000000000000 ≤ n ∧ n < 0x8000000000000000 := by
  unfold word? at h
  split_ifs at h with hrange
  cases h
  exact hrange

/-- What holds of all bytes can be checked one by one. -/
theorem forall_byte {P : UInt8 → Prop} (h : ∀ k < 0x100, P (UInt8.ofNat k)) (b : UInt8) : P b := by
  have hb := h b.toNat b.toNat_lt
  rwa [UInt8.ofNat_toNat] at hb

namespace Grammar

open ThemedPages.Parser

theorem span_eq_ok {cls : UInt8 → Bool} {s found rest : Bytes} (h : span cls s = .ok found rest) :
    s = found ++ rest ∧ ∀ b ∈ found, cls b = true := by
  cases h
  exact ⟨List.takeWhile_append_dropWhile.symm, fun b hb => List.mem_takeWhile_imp hb⟩

theorem span1_eq_ok {cls : UInt8 → Bool} {s found rest : Bytes} (h : span1 cls s = .ok found rest) :
    s = found ++ rest ∧ (∀ b ∈ found, cls b = true) ∧ found ≠ [] := by
  unfold span1 at h
  split at h
  · cases h
  · next hne =>
    cases h
    exact ⟨List.takeWhile_append_dropWhile.symm, fun b hb => List.mem_takeWhile_imp hb, hne⟩

/-- Bytes that are read as a name are a name. -/
theorem isName_lossy {b : UInt8} {bs : Bytes} (hb : beginsName b = true) (hbs : ∀ x ∈ bs, inName x = true) :
    IsName (Utf8.lossy (b :: bs)) ∧ Utf8.bytes (Utf8.lossy (b :: bs)) = b :: bs := by
  have hbegins : ∀ b : UInt8, beginsName b = true → (Char.ofNat b.toNat).isAlpha ∨ Char.ofNat b.toNat = '_' :=
    forall_byte (by decide +kernel)
  have hin : ∀ b : UInt8, inName b = true →
      b < 0x80 ∧ ((Char.ofNat b.toNat).isAlphanum ∨ Char.ofNat b.toNat = '_') := forall_byte (by decide +kernel)
  have hall : ∀ x ∈ b :: bs, x < 0x80 :=
    List.forall_mem_cons.mpr ⟨(hin b (inName_of_beginsName hb)).1, fun x hx => (hin x (hbs x hx)).1⟩
  obtain ⟨hchars, hbytes⟩ := Utf8.bytes_lossy_of_ascii hall
  refine ⟨⟨_, _, hchars, hbegins b hb, fun c hc => ?_⟩, hbytes⟩
  obtain ⟨x, hx, rfl⟩ := List.mem_map.mp hc
  exact (hin x (hbs x hx)).2

/-- What is read as a name was there, and is one. -/
theorem name_eq_ok {s rest : Bytes} {n : String} (h : name s = .ok n rest) : s = Utf8.bytes n ++ rest ∧ IsName n := by
  obtain ⟨first, mid, hfirst, hnext⟩ := bind_eq_ok.mp h
  obtain ⟨more, after, hmore, hpure⟩ := bind_eq_ok.mp hnext
  cases hpure
  obtain ⟨rfl, hbegins, hne⟩ := span1_eq_ok hfirst
  obtain ⟨rfl, hin⟩ := span_eq_ok hmore
  obtain ⟨b, bs, rfl⟩ := List.exists_cons_of_ne_nil hne
  have hrest : ∀ x ∈ bs ++ more, inName x = true := fun x hx =>
    (List.mem_append.mp hx).elim (fun hx => inName_of_beginsName (hbegins x (List.mem_cons_of_mem _ hx))) (hin x)
  obtain ⟨hname, hbytes⟩ := isName_lossy (hbegins b List.mem_cons_self) hrest
  rw [← List.cons_append] at hbytes hname
  exact ⟨by rw [hbytes, List.append_assoc], hname⟩

theorem yields_name : name.Yields IsName := fun _ _ _ h => (name_eq_ok h).2

/-- What is read between quotes has no quote in it. -/
theorem yields_string : string.Yields IsQuotable := by
  have hspan : (span (· ≠ 0x22)).Yields fun content => ∀ b ∈ content, b ≠ 0x22 :=
    fun _ _ _ h b hb => of_decide_eq_true ((span_eq_ok h).2 b hb)
  refine yields_bind fun _ => hspan.bind fun content hcontent => yields_bind fun _ => yields_pure ?_
  exact Utf8.isQuotable_lossy hcontent

theorem yields_word_integer : integer.Yields Expr.WellFormed := by
  refine yields_bind fun start => yields_bind fun negative => yields_bind fun ds => ?_
  dsimp only
  split
  · next n hn => exact yields_pure (Decimal.range_of_word? hn)
  · exact yields_refuseAt _

/-- Whatever begins with the `h.` of a call is read as a call, if it is read at all. -/
theorem not_refuses_call (p : Parser Expr) (s : Bytes) : ¬(call p).Refuses (0x68 :: 0x2E :: s) := by
  have hbegin : word ['h', '.'] (0x68 :: 0x2E :: s) = .ok () s := word_append ['h', '.'] s
  have hstart : position s = .ok s s := rfl
  rintro ⟨trace, htrace⟩
  rw [call, bind_of_ok hbegin, bind_of_ok hstart, commit] at htrace
  split at htrace
  · cases htrace
  · next hne => exact hne trace htrace

/-- A path that is no call can be written. -/
theorem wellFormed_of_path {p : Parser Expr} {s rest : Bytes} {e : Expr} (h : path s = .ok e rest)
    (hcall : (call p).Refuses s) : e.WellFormed := by
  obtain ⟨first, mid, hfirst, hmore⟩ := bind_eq_ok.mp h
  obtain ⟨parts, after, hparts, hpure⟩ := bind_eq_ok.mp hmore
  have hall : ∀ part ∈ parts, IsName part := yields_many yields_name.seqRight hparts
  obtain ⟨hs, hname⟩ := name_eq_ok hfirst
  rw [hs] at hcall
  cases hpure
  by_cases hg : first = "g"
  · rw [if_pos hg]
    exact hall
  · rw [if_neg hg]
    refine ⟨hname, hg, ?_, hall⟩
    rintro rfl
    -- a part would make it a call
    rw [many_eq takes_part] at hparts
    rcases hpart : (char '.' *> name) mid with ⟨part, after⟩ | _ | _ <;> rw [hpart] at hparts
    · obtain ⟨⟨⟩, after, hpoint, -⟩ := bind_eq_ok.mp hpart
      cases mid with
      | nil => cases hpoint
      | cons b mid =>
        by_cases hb : b = UInt8.ofNat '.'.toNat
        · subst hb
          exact absurd hcall (not_refuses_call p mid)
        · obtain ⟨trace, htrace⟩ := refuses_char_cons (c := '.') hb mid
          cases htrace.symm.trans hpoint
    · cases hparts
      rfl
    · cases hparts

theorem wellFormedAll_iff {es : List Expr} : Expr.WellFormedAll es ↔ ∀ e ∈ es, e.WellFormed := by
  induction es with
  | nil => simp [Expr.WellFormedAll]
  | cons e es ih => simp [Expr.WellFormedAll, ih]

/-- A call that is read has as many arguments as it takes, and these can be written. -/
theorem yields_call_wellFormed {p : Parser Expr} (h : p.Yields Expr.WellFormed) :
    (call p).Yields Expr.WellFormed := by
  refine yields_bind fun _ => yields_bind fun start => Yields.commit (yields_bind fun called => ?_)
  have hargs : (arguments p).Yields fun args => ∀ arg ∈ args, arg.WellFormed :=
    yields_bind fun _ => yields_bind fun _ => yields_listUntil h _ _
  refine (hargs.label _).bind fun args hargs => ?_
  split
  · split
    · next harity => exact yields_pure ⟨harity.symm, wellFormedAll_iff.mpr hargs⟩
    · exact yields_failAt _ _
  · exact yields_failAt _ _

/-- What a choice reads is read by the first parser or, where that refuses, by one of the others. -/
theorem choice_cons_eq_ok {α : Type} {p : Parser α} {ps : List (Parser α)} {s rest : Bytes} {a : α}
    (h : choice (p :: ps) s = .ok a rest) : p s = .ok a rest ∨ p.Refuses s ∧ choice ps s = .ok a rest := by
  rcases hp : p s with ⟨a', rest'⟩ | trace | trace
  · rw [choice_of_ok hp] at h
    exact .inl h
  · cases ps with
    | nil => simp [choice, hp] at h
    | cons q ps => exact .inr ⟨⟨trace, hp⟩, (choice_of_refused hp q ps).symm.trans h⟩
  · cases ps <;> simp [choice, hp] at h

/-- Every expression that is read can be written. -/
theorem wellFormed_of_expression {s rest : Bytes} {e : Expr} (h : expression s = .ok e rest) : e.WellFormed := by
  have hfix : expression.Yields Expr.WellFormed := by
    refine yields_fix fun p hp s e rest h => ?_
    rcases choice_cons_eq_ok h with h | ⟨-, h⟩
    · have hneg : (Expr.not <$> (char '!' *> p)).Yields Expr.WellFormed := hp.seqRight.map fun _ he => he
      exact hneg h
    rcases choice_cons_eq_ok h with h | ⟨-, h⟩
    · have hstr : (Expr.str <$> string).Yields Expr.WellFormed := yields_string.map fun _ hs => hs
      exact hstr h
    rcases choice_cons_eq_ok h with h | ⟨-, h⟩
    · exact yields_word_integer h
    rcases choice_cons_eq_ok h with h | ⟨hcall, h⟩
    · exact yields_call_wellFormed hp h
    rcases choice_cons_eq_ok h with h | ⟨-, h⟩
    · exact wellFormed_of_path h hcall
    · cases h
  exact hfix h

end Grammar

/-! ## What is printed

Printing differs from writing at texts alone, which are escaped. So it is writing the expression that has the escaped
texts in place of its own. -/

namespace Expr

mutual

/-- The texts in an expression, at any depth. -/
def strings : Expr → List String
  | str s => [s]
  | not e => e.strings
  | call _ args => stringsOf args
  | _ => []

/-- The texts in some expressions. -/
def stringsOf : List Expr → List String
  | [] => []
  | e :: es => e.strings ++ stringsOf es

end

/-- A text with escapes in place of what would not show. -/
def shownText (s : String) : String := String.ofList (Quoted.escape s.toList)

mutual

/-- The expression with its texts as they are printed. -/
def shown : Expr → Expr
  | str s => str (shownText s)
  | not e => not e.shown
  | call helper args => call helper (shownAll args)
  | e => e

/-- Some expressions with their texts as they are printed. -/
def shownAll : List Expr → List Expr
  | [] => []
  | e :: es => e.shown :: shownAll es

end

/-- A text is printed between quotes, escaped. -/
theorem quoted_eq (s : String) : quoted s = "\"" ++ shownText s ++ "\"" := by
  rw [← String.toList_inj, quoted, shownText]
  simp

mutual

/-- Only the texts are changed. -/
theorem shown_eq_iff : ∀ e : Expr, e.shown = e ↔ ∀ s ∈ e.strings, shownText s = s
  | str s => by simp [shown, strings]
  | not e => by simp [shown, strings, shown_eq_iff e]
  | call helper args => by simp [shown, strings, shownAll_eq_iff args]
  | var _ | global _ | int _ => by simp [shown, strings]

/-- Together with `shown_eq_iff`: an expression is printed as it is if each of its texts is. -/
theorem shownAll_eq_iff : ∀ es : List Expr, shownAll es = es ↔ ∀ s ∈ stringsOf es, shownText s = s
  | [] => by simp [shownAll, stringsOf]
  | e :: es => by simp [shownAll, stringsOf, shown_eq_iff e, shownAll_eq_iff es, or_imp, forall_and]

end

/-! ### It can be written

All that has to be seen is that there are no quotes in the texts, since nothing else has changed. -/

theorem quote_not_mem_hexDigits (n : Nat) : '"' ∉ Quoted.hexDigits n := by
  have hdigit : ∀ d < 16, '"' ≠ Nat.digitChar d := by decide
  rw [Quoted.hexDigits]
  induction n using Nat.strongRecOn with
  | ind n ih =>
    rw [Nat.toDigits_eq_if (by decide)]
    split_ifs with hn
    · exact fun hmem => hdigit n hn (List.mem_singleton.mp hmem)
    · have hlast := hdigit (n % 16) (Nat.mod_lt _ (by decide))
      have hrest := ih (n / 16) (by omega)
      simp [hrest, hlast]

/-- Escapes have no quotes but those that are escaped. -/
theorem quote_not_mem_escapeChar {c : Char} (h : c ≠ '"') : '"' ∉ Quoted.escapeChar c := by
  rw [Quoted.escapeChar, if_neg h]
  split_ifs
  · decide
  · decide
  · decide
  · decide
  · decide
  · simp [quote_not_mem_hexDigits]
  · exact fun hmem => h (List.mem_singleton.mp hmem).symm

/-- A text without quotes has none when it is escaped. -/
theorem isQuotable_shownText {s : String} (h : IsQuotable s) : IsQuotable (shownText s) := by
  intro hquote
  rw [shownText, String.toList_ofList] at hquote
  obtain ⟨c, hc, hmem⟩ := List.mem_flatMap.mp hquote
  exact quote_not_mem_escapeChar (fun hsame => h (hsame ▸ hc)) hmem

theorem length_shownAll (es : List Expr) : (shownAll es).length = es.length := by
  induction es with
  | nil => rfl
  | cons e es ih => rw [shownAll, List.length_cons, List.length_cons, ih]

mutual

/-- **What is printed can be written,** by induction on the expression, with `wellFormedAll_shownAll`. -/
theorem wellFormed_shown : ∀ e : Expr, e.WellFormed → e.shown.WellFormed
  | str _, h => isQuotable_shownText h
  | not e, h => wellFormed_shown e h
  | call _ args, h => ⟨(length_shownAll args).trans h.1, wellFormedAll_shownAll args h.2⟩
  | var _, h | global _, h | int _, h => h

theorem wellFormedAll_shownAll : ∀ es : List Expr, WellFormedAll es → WellFormedAll (shownAll es)
  | [], h => h
  | e :: es, h => ⟨wellFormed_shown e h.1, wellFormedAll_shownAll es h.2⟩

end

/-! ### It is written

The two printers put the same things between the parts, one with the separator before each part and one by joining
them. -/

/-- The names of a path with points between them are written with a point before each but the first. -/
theorem intercalate_parts (first : String) (parts : List String) :
    ".".intercalate (first :: parts) = first ++ partsSource parts := by
  induction parts generalizing first with
  | nil => simp [partsSource]
  | cons part parts ih =>
    rw [String.intercalate_cons_cons, ih, partsSource_cons, String.append_assoc, String.append_assoc]

mutual

/-- To print an expression is to write it with its texts as they are printed. -/
theorem display_eq : ∀ e : Expr, e.WellFormed → e.display = e.shown.source
  | var (first :: parts), _ => intercalate_parts first parts
  | global path, _ => intercalate_parts "g" path
  | str s, _ => quoted_eq s
  | int _, _ => rfl
  | not e, h => by rw [display, shown, source_not, display_eq e h]
  | call helper args, h => by rw [display, shown, source_call, intercalate_displays args h.2]

/-- Together with `display_eq`: the arguments of a call, with commas between them. -/
theorem intercalate_displays : ∀ es : List Expr, WellFormedAll es →
    ", ".intercalate (displays es) = argumentsSource (shownAll es)
  | [], _ => rfl
  | [e], h => by
    rw [displays, displays, shownAll, shownAll, argumentsSource_cons, display_eq e h.1]
    simp [nextSource]
  | e :: e' :: es, h => by
    have hrest := intercalate_displays (e' :: es) h.2
    have hsource : argumentsSource (shownAll (e :: e' :: es)) =
        e.shown.source ++ (", " ++ argumentsSource (shownAll (e' :: es))) :=
      congrArg (e.shown.source ++ ·) (nextSource_cons e'.shown (shownAll es))
    rw [displays] at hrest
    rw [displays, displays, String.intercalate_cons_cons, hrest, hsource, display_eq e h.1, String.append_assoc]

end

end Expr

/-! ## Reading what is printed -/

/-- A printed expression is read to its end, as the expression with its texts as they are printed. -/
theorem Grammar.expression_bytes_display {e : Expr} (h : e.WellFormed) :
    expression (Utf8.bytes e.display) = .ok e.shown [] := by
  have hread := expression_source e.shown (e.wellFormed_shown h) (stops_nil inPath)
  rw [List.append_nil] at hread
  rw [e.display_eq h, hread]

/-- An expression that was read is read back from the printed expression, to its end, exactly if printing leaves all
texts in it as they are. -/
theorem Grammar.expression_display {s rest : Bytes} {e : Expr} (h : expression s = .ok e rest) :
    expression (Utf8.bytes e.display) = .ok e [] ↔ ∀ x ∈ e.strings, quoted x = "\"" ++ x ++ "\"" := by
  have htext : ∀ x, Expr.shownText x = x ↔ quoted x = "\"" ++ x ++ "\"" := fun x => by
    rw [Expr.quoted_eq, String.append_left_inj, String.append_right_inj]
  rw [expression_bytes_display (wellFormed_of_expression h), Reply.ok.injEq, and_iff_left rfl, Expr.shown_eq_iff]
  exact forall₂_congr fun x _ => htext x

/-- Zeros in front of a number, commas after a last argument and blanks are not printed, and make no difference to the
expression. A backslash does: where it is printed there are two. -/
theorem Grammar.expression_display_nested :
    let e : Expr :=
      .call .checkAccess [.str "é", .not (.call .followCount [.int (-7), .call .translate [.global []]])]
    (expression (Utf8.bytes "h.check_access(\"é\" , !h.follow_count(-007,h.translate( g ,),) ,) \x7b") =
        .ok e (Utf8.bytes " \x7b") ∧
      (∀ x ∈ e.strings, quoted x = "\"" ++ x ++ "\"") ∧ expression (Utf8.bytes e.display) = .ok e []) ∧
    expression (Utf8.bytes "\"\\\"") = .ok (.str "\\") [] ∧ quoted "\\" ≠ "\"" ++ "\\" ++ "\"" ∧
      expression (Utf8.bytes (Expr.str "\\").display) ≠ .ok (.str "\\") [] := by
  intro e
  have hspace : AllBlank [0x20] := allBlank_singleton rfl
  have hg : ∀ {rest}, Stops inPath rest → expression (0x67 :: rest) = .ok (.global []) rest := fun hrest =>
    expression_source (.global []) (by decide) hrest
  have hinteger : ∀ rest, integer (0x2D :: 0x30 :: 0x30 :: 0x37 :: 0x2C :: rest) = .ok (.int (-7)) (0x2C :: rest) :=
    fun _ => rfl
  have hseven : ∀ rest, expression (0x2D :: 0x30 :: 0x30 :: 0x37 :: 0x2C :: rest) = .ok (.int (-7)) (0x2C :: rest) :=
    fun rest => (expression_of_ne (by decide) (by decide) _).trans (Parser.choice_of_ok (hinteger rest) _)
  -- the calls from the innermost one outwards, each with anything after it
  have htranslate := fun rest => @expression_call .translate _ _ _ (arguments_eq_ok_iff.mpr
    (.trailing hspace hspace allBlank_nil (.one (hg (stops_cons rfl (0x2C :: 0x29 :: rest)))))) rfl
  have hcount := fun rest => @expression_call .followCount _ _ _ (arguments_eq_ok_iff.mpr
    (.trailing allBlank_nil allBlank_nil allBlank_nil
      (.more (hseven _) allBlank_nil allBlank_nil (.one (htranslate (0x2C :: 0x29 :: rest)))))) rfl
  have hcheck := fun rest => @expression_call .checkAccess _ _ _ (arguments_eq_ok_iff.mpr
    (.trailing allBlank_nil hspace allBlank_nil
      (.more (expression_str (by decide : IsQuotable "é") _) hspace hspace
        (.one (expression_not (hcount (0x20 :: 0x2C :: 0x29 :: rest))))))) rfl
  have hread : expression (Utf8.bytes "h.check_access(\"é\" , !h.follow_count(-007,h.translate( g ,),) ,) \x7b") =
      .ok e (Utf8.bytes " \x7b") := hcheck (Utf8.bytes " \x7b")
  have hread' : expression (Utf8.bytes "\"\\\"") = .ok (.str "\\") [] := by rfl
  have hshown : ∀ x ∈ e.strings, quoted x = "\"" ++ x ++ "\"" := by decide +kernel
  have hshown' : quoted "\\" ≠ "\"" ++ "\\" ++ "\"" := by decide +kernel
  refine ⟨⟨hread, hshown, (expression_display hread).mpr hshown⟩, hread', hshown', fun hagain => ?_⟩
  exact hshown' ((expression_display hread').mp hagain "\\" List.mem_cons_self)

end ThemedPages
