import Mathlib.Data.List.TakeWhile
import ThemedPages.Proofs.Spelling
import ThemedPages.Proofs.Tokens

/-!
# Reading expressions back

Every expression that can be written is read back from its source, wherever no name, digit or point comes next:
`Grammar.expression_source`.

The alternatives for an expression are tried in order, and each of them can be told by the byte that comes first, but
for a call and a path. So for each kind of expression it is said that the alternatives before it are refused
(`Grammar.expression_of_ne`, `Grammar.expression_of_beginsName`, `Grammar.refuses_call`) and that it is read itself.
What comes after the expression is a variable in all of these. It has to stop whatever the expression ends with: a
name, the digits of a number, the parts of a path.
-/

namespace ThemedPages

open ThemedPages.Parser

/-! ## Classes of characters

The classes of characters are ranges, and the classes of bytes are the same ranges. -/

theorem toNat_of_isAlpha {c : Char} (h : c.isAlpha = true) :
    0x41 ≤ c.toNat ∧ c.toNat ≤ 0x5A ∨ 0x61 ≤ c.toNat ∧ c.toNat ≤ 0x7A := by
  rcases Bool.or_eq_true_iff.mp h with hupper | hlower
  · obtain ⟨hlo, hhi⟩ := of_decide_eq_true hupper
    exact .inl ⟨UInt32.le_iff_toNat_le.mp hlo, UInt32.le_iff_toNat_le.mp hhi⟩
  · obtain ⟨hlo, hhi⟩ := Bool.and_eq_true_iff.mp hlower
    exact .inr ⟨UInt32.le_iff_toNat_le.mp (of_decide_eq_true hlo), UInt32.le_iff_toNat_le.mp (of_decide_eq_true hhi)⟩

theorem toNat_of_isDigit {c : Char} (h : c.isDigit = true) : 0x30 ≤ c.toNat ∧ c.toNat ≤ 0x39 := by
  obtain ⟨hlo, hhi⟩ := Bool.and_eq_true_iff.mp h
  exact ⟨UInt32.le_iff_toNat_le.mp (of_decide_eq_true hlo), UInt32.le_iff_toNat_le.mp (of_decide_eq_true hhi)⟩

namespace Grammar

/-- What a name can begin with, as ranges of numbers. -/
theorem beginsName_ofNat {k : Nat} (h : k < 0x100) : beginsName (UInt8.ofNat k) = true ↔
    0x41 ≤ k ∧ k ≤ 0x5A ∨ 0x61 ≤ k ∧ k ≤ 0x7A ∨ k = 0x5F := by
  simp only [beginsName, Ascii.isLetter, Bool.or_eq_true, Bool.and_eq_true, decide_eq_true_eq,
    UInt8.le_iff_toNat_le, ← UInt8.toNat_inj, Utf8.toNat_ofNat_of_lt h, or_assoc]
  rfl

theorem isDigit_ofNat {k : Nat} (h : k < 0x100) :
    Ascii.isDigit (UInt8.ofNat k) = true ↔ 0x30 ≤ k ∧ k ≤ 0x39 := by
  simp only [Ascii.isDigit, Bool.and_eq_true, decide_eq_true_eq, UInt8.le_iff_toNat_le, Utf8.toNat_ofNat_of_lt h]
  rfl

/-- What a name can begin with is one byte, which it can begin with as well. -/
theorem beginsName_of_char {c : Char} (h : c.isAlpha ∨ c = '_') :
    c.toNat < 0x80 ∧ beginsName (UInt8.ofNat c.toNat) = true := by
  rcases h with h | rfl
  · have hrange := toNat_of_isAlpha h
    exact ⟨by omega, (beginsName_ofNat (by omega)).mpr (by omega)⟩
  · decide

/-- So is what a name can go on with. -/
theorem inName_of_char {c : Char} (h : c.isAlphanum ∨ c = '_') :
    c.toNat < 0x80 ∧ inName (UInt8.ofNat c.toNat) = true := by
  have hletter : c.isAlpha ∨ c = '_' → c.toNat < 0x80 ∧ inName (UInt8.ofNat c.toNat) = true := fun h =>
    ⟨(beginsName_of_char h).1, inName_of_beginsName (beginsName_of_char h).2⟩
  rcases h with h | h
  · rcases Bool.or_eq_true_iff.mp h with h | h
    · exact hletter (.inl h)
    · have hrange := toNat_of_isDigit h
      have hdigit := (isDigit_ofNat (by omega)).mpr hrange
      exact ⟨by omega, by rw [inName, hdigit, Bool.or_true]⟩
  · exact hletter (.inr h)

/-- A name does not begin with a digit. -/
theorem isDigit_of_beginsName {b : UInt8} (h : beginsName b = true) : Ascii.isDigit b = false := by
  rw [← UInt8.ofNat_toNat (x := b)] at h ⊢
  rw [beginsName_ofNat b.toNat_lt] at h
  rw [Bool.eq_false_iff, ne_eq, isDigit_ofNat b.toNat_lt]
  omega

/-! ## Names and strings

A name is read as far as it goes, and a string up to its quote. -/

/-- The bytes of a name. -/
theorem exists_bytes_of_isName {s : String} (h : IsName s) :
    ∃ b bs, Utf8.bytes s = b :: bs ∧ beginsName b = true ∧ ∀ x ∈ bs, inName x = true := by
  obtain ⟨c, cs, hs, hc, hcs⟩ := h
  obtain ⟨hlt, hname⟩ := beginsName_of_char hc
  refine ⟨UInt8.ofNat c.toNat, Utf8.encode cs, ?_, hname, fun x hx => ?_⟩
  · rw [Utf8.bytes, hs, Utf8.encode, List.flatMap_cons, Utf8.encodeChar]
    simp only [if_pos hlt, List.singleton_append]
    rfl
  · obtain ⟨d, hd, hx⟩ := List.mem_flatMap.mp hx
    obtain ⟨hdlt, hdname⟩ := inName_of_char (hcs d hd)
    rcases Utf8.mem_encodeChar hx with ⟨-, rfl⟩ | ⟨hle, -⟩
    · exact hdname
    · omega

theorem inName_of_mem_bytes {s : String} (h : IsName s) : ∀ x ∈ Utf8.bytes s, inName x = true := by
  obtain ⟨b, bs, hbytes, hb, hbs⟩ := exists_bytes_of_isName h
  rw [hbytes]
  exact fun x hx => (List.mem_cons.mp hx).elim (fun hx => hx ▸ inName_of_beginsName hb) (hbs x)

/-- A name is read if it is not gone on with. -/
theorem name_bytes {s : String} (h : IsName s) {rest : Bytes} (hrest : Stops inName rest) :
    name (Utf8.bytes s ++ rest) = .ok s rest := by
  obtain ⟨b, bs, hbytes, hb, -⟩ := exists_bytes_of_isName h
  -- the letters at the front are read first, and then what is left
  obtain ⟨run, more, hsplit, hrun, hmore⟩ : ∃ run more, Utf8.bytes s = run ++ more ∧
      (run ≠ [] ∧ ∀ x ∈ run, beginsName x = true) ∧ Stops beginsName (more ++ rest) := by
    refine ⟨_, _, (List.takeWhile_append_dropWhile (p := beginsName)).symm, ⟨?_, fun x hx => ?_⟩, ?_⟩
    · rw [hbytes, List.takeWhile_cons_of_pos hb]
      exact List.cons_ne_nil _ _
    · exact List.mem_takeWhile_imp hx
    · intro x hx
      have hhead := List.head?_dropWhile_not beginsName (Utf8.bytes s)
      rcases hdrop : (Utf8.bytes s).dropWhile beginsName with _ | ⟨y, more⟩ <;> rw [hdrop] at hx hhead
      · have hstop := hrest x hx
        rw [inName, Bool.or_eq_false_iff] at hstop
        exact hstop.1
      · cases hx
        exact hhead
  rw [hsplit, List.append_assoc, name, bind_of_ok (span1_append hrun.1 hrun.2 hmore),
    bind_of_ok (span_append (fun x hx => inName_of_mem_bytes h x (hsplit ▸ List.mem_append_right _ hx)) hrest),
    ← hsplit, Utf8.lossy_bytes]
  rfl

/-- A string is read to its closing quote. -/
theorem string_bytes {s : String} (h : IsQuotable s) (rest : Bytes) :
    string (0x22 :: (Utf8.bytes s ++ 0x22 :: rest)) = .ok s rest := by
  have hcontent : ∀ b ∈ Utf8.bytes s, decide (b ≠ 0x22) = true := fun b hb =>
    decide_eq_true (Utf8.ne_of_mem_bytes (by decide) h hb)
  have hquote : ∀ rest, char '"' (0x22 :: rest) = .ok () rest := char_of_eq rfl
  rw [string, bind_of_ok (hquote _), bind_of_ok (span_append hcontent (stops_cons (by decide) rest)),
    bind_of_ok (hquote rest), Utf8.lossy_bytes]
  rfl

/-! ## Paths

A path is a name and then names after points. It goes on as long as a point comes, so what comes after it must not be
one. -/

/-- The byte can be in a path. -/
def inPath (b : UInt8) : Bool := inName b || b = 0x2E

theorem stops_inName {s : Bytes} (h : Stops inPath s) : Stops inName s := fun b hb =>
  (Bool.or_eq_false_iff.mp (h b hb)).1

theorem stops_isDigit {s : Bytes} (h : Stops inPath s) : Stops Ascii.isDigit s := fun b hb =>
  (Bool.or_eq_false_iff.mp (stops_inName h b hb)).2

/-- A path is at its end where nothing of a path comes. -/
theorem refuses_part {s : Bytes} (h : Stops inPath s) : (char '.' *> name).Refuses s := by
  refine (refuses_char fun hpoint => ?_).seqRight _
  have hstop := h _ hpoint
  exact absurd hstop (by decide)

/-- What is written for the parts of a path, byte by byte. -/
theorem bytes_partsSource_cons (part : String) (parts : List String) :
    Utf8.bytes (Expr.partsSource (part :: parts)) =
      0x2E :: (Utf8.bytes part ++ Utf8.bytes (Expr.partsSource parts)) := by
  rw [Expr.partsSource_cons, Utf8.bytes_append, Utf8.bytes_append, List.append_assoc]
  rfl

/-- After a part of a path comes another part, or no name goes on. -/
theorem stops_partsSource {parts : List String} {rest : Bytes} (h : Stops inPath rest) :
    Stops inName (Utf8.bytes (Expr.partsSource parts) ++ rest) := by
  cases parts with
  | nil => exact stops_inName h
  | cons part parts =>
    rw [bytes_partsSource_cons]
    exact stops_cons (by decide) _

/-- The parts of a path are read back. -/
theorem many_parts {parts : List String} (h : ∀ part ∈ parts, IsName part) {rest : Bytes} (hrest : Stops inPath rest) :
    many (char '.' *> name) (Utf8.bytes (Expr.partsSource parts) ++ rest) = .ok parts rest := by
  induction parts with
  | nil => exact many_of_refuses takes_part (refuses_part hrest)
  | cons part parts ih =>
    have hpart := h part List.mem_cons_self
    have hparts := ih fun part hpart => h part (List.mem_cons_of_mem _ hpart)
    rw [bytes_partsSource_cons, List.cons_append, List.append_assoc]
    have hpoint : ∀ rest, char '.' (0x2E :: rest) = .ok () rest := char_of_eq rfl
    refine many_of_ok takes_part ?_ hparts
    rw [seqRight_of_ok (hpoint _)]
    exact name_bytes hpart (stops_partsSource hrest)

/-- A path is read if it is not gone on with. -/
theorem path_bytes {first : String} {parts : List String} (hfirst : IsName first)
    (hparts : ∀ part ∈ parts, IsName part) {rest : Bytes} (hrest : Stops inPath rest) :
    path (Utf8.bytes first ++ Utf8.bytes (Expr.partsSource parts) ++ rest) =
      .ok (if first = "g" then .global parts else .var (first :: parts)) rest := by
  rw [List.append_assoc, path, bind_of_ok (name_bytes hfirst (stops_partsSource hrest)),
    bind_of_ok (many_parts hparts hrest)]
  rfl

/-! ## Integers

The digits of a number are read from the front, and the number they are is that they were made from. -/

/-- Digits are counted as they are read, on top of what was counted before them. -/
theorem foldl_ofAscii {ds : List Char} (h : ∀ c ∈ ds, c.isDigit = true) (k : Nat) :
    (Bytes.ofAscii ds).foldl (fun (k : Int) b => 10 * k + Ascii.digitValue b) k = Nat.ofDigitChars 10 ds k := by
  induction ds generalizing k with
  | nil => rfl
  | cons c ds ih =>
    have hrange := toNat_of_isDigit (h c List.mem_cons_self)
    have hvalue : Ascii.digitValue (UInt8.ofNat c.toNat) = c.toNat - '0'.toNat := by
      rw [Ascii.digitValue, Utf8.toNat_ofNat_of_lt (by omega)]
      rfl
    have hstep : (10 * k + (c.toNat - '0'.toNat : Nat) : Int) = ((10 * k + (c.toNat - '0'.toNat) : Nat) : Int) := by
      push_cast
      rfl
    rw [Bytes.ofAscii, List.map_cons, List.foldl_cons, hvalue, hstep]
    exact ih (fun c hc => h c (List.mem_cons_of_mem _ hc)) _

/-- The digits of a number count up to it. -/
theorem foldl_digits (n : Nat) :
    (Bytes.ofAscii (Decimal.digits n)).foldl (fun (k : Int) b => 10 * k + Ascii.digitValue b) 0 = n := by
  have hdigits : ∀ c ∈ Decimal.digits n, c.isDigit = true := fun c hc =>
    Nat.isDigit_of_mem_toDigits (by decide) (by decide) hc
  have hfold := foldl_ofAscii hdigits 0
  rw [Decimal.digits, Nat.ofDigitChars_toDigits (by decide) (by decide)] at hfold
  exact hfold

/-- The bytes of the digits of a number are its digits. -/
theorem encode_digits (n : Nat) : Utf8.encode (Decimal.digits n) = Bytes.ofAscii (Decimal.digits n) ∧
    ∃ d ds, Bytes.ofAscii (Decimal.digits n) = d :: ds ∧ ∀ b ∈ d :: ds, Ascii.isDigit b = true := by
  have hdigit : ∀ c ∈ Decimal.digits n, 0x30 ≤ c.toNat ∧ c.toNat ≤ 0x39 := fun c hc =>
    toNat_of_isDigit (Nat.isDigit_of_mem_toDigits (by decide) (by decide) hc)
  refine ⟨Utf8.encode_of_ascii fun c hc => Nat.lt_of_le_of_lt (hdigit c hc).2 (by decide), ?_⟩
  obtain ⟨d, ds, hds⟩ : ∃ d ds, Decimal.digits n = d :: ds := List.exists_cons_of_ne_nil Nat.toDigits_ne_nil
  have hbytes : Bytes.ofAscii (Decimal.digits n) = UInt8.ofNat d.toNat :: Bytes.ofAscii ds := by
    rw [hds]
    rfl
  refine ⟨_, _, hbytes, fun b hb => ?_⟩
  rw [← hbytes] at hb
  obtain ⟨c, hc, rfl⟩ := List.mem_map.mp hb
  obtain ⟨hlo, hhi⟩ := hdigit c hc
  exact (isDigit_ofNat (by omega)).mpr ⟨hlo, hhi⟩

/-- What begins with neither a digit nor a sign is no number. -/
theorem refuses_integer {b : UInt8} (hminus : b ≠ 0x2D) (hdigit : Ascii.isDigit b = false) (s : Bytes) :
    integer.Refuses (b :: s) := by
  have hoptional : optional (char '-') (b :: s) = .ok none (b :: s) :=
    optional_of_refuses (refuses_char fun hb => hminus (Option.some.inj hb))
  have hspan : (span1 Ascii.isDigit).Refuses (b :: s) := refuses_span1 (stops_cons hdigit s)
  obtain ⟨trace, htrace⟩ := hspan.bind _
  exact ⟨trace, (bind_of_ok rfl _).trans ((bind_of_ok hoptional _).trans htrace)⟩

/-- An integer is read if no digit goes on with it. -/
theorem integer_bytes {n : Int} (hlo : -0x8000000000000000 ≤ n) (hhi : n < 0x8000000000000000) {rest : Bytes}
    (hrest : Stops Ascii.isDigit rest) : integer (Utf8.bytes (Decimal.integer n) ++ rest) = .ok (.int n) rest := by
  obtain ⟨hencode, d, ds, hds, hdigit⟩ := encode_digits n.natAbs
  have hcount : (d :: ds).foldl (fun (k : Int) b => 10 * k + Ascii.digitValue b) 0 = n.natAbs :=
    hds ▸ foldl_digits n.natAbs
  have hspan : span1 Ascii.isDigit (d :: ds ++ rest) = .ok (d :: ds) rest :=
    span1_append (List.cons_ne_nil _ _) hdigit hrest
  have hword : Decimal.word? n = some n := if_pos ⟨hlo, hhi⟩
  have hstart : ∀ s, position s = .ok s s := fun _ => rfl
  rw [Utf8.bytes, Decimal.integer, String.toList_ofList, Decimal.integerChars, integer, bind_of_ok (hstart _)]
  split_ifs with hn
  -- negative: the sign and the digits of the absolute value
  · have hminus : optional (char '-') (0x2D :: (d :: ds ++ rest)) = .ok (some ()) (d :: ds ++ rest) :=
      optional_of_ok (char_of_eq rfl _)
    have hvalue : -(n.natAbs : Int) = n := by omega
    have hsource : Utf8.encode ('-' :: Decimal.digits n.natAbs) ++ rest = 0x2D :: (d :: ds ++ rest) := by
      rw [← hds, ← hencode]
      rfl
    rw [hsource, bind_of_ok hminus, bind_of_ok hspan, hcount]
    simp only [Option.isSome_some, if_true, hvalue, hword]
    rfl
  · have hminus : optional (char '-') (d :: ds ++ rest) = .ok none (d :: ds ++ rest) := by
      refine optional_of_refuses (refuses_char fun hd => ?_)
      have hfirst := hdigit d List.mem_cons_self
      rw [Option.some.inj hd] at hfirst
      exact absurd hfirst (by decide)
    have hvalue : (n.natAbs : Int) = n := by omega
    rw [hencode, hds, bind_of_ok hminus, bind_of_ok hspan, hcount]
    simp only [Option.isSome_none, Bool.false_eq_true, if_false, hvalue, hword]
    rfl

/-- A number begins with a digit or with its sign. -/
theorem exists_bytes_integer (n : Int) :
    ∃ b bs, Utf8.bytes (Decimal.integer n) = b :: bs ∧ (b = 0x2D ∨ Ascii.isDigit b = true) := by
  obtain ⟨hencode, d, ds, hds, hdigit⟩ := encode_digits n.natAbs
  rw [Utf8.bytes, Decimal.integer, String.toList_ofList, Decimal.integerChars]
  split_ifs with hn
  · exact ⟨0x2D, _, rfl, .inl rfl⟩
  · exact ⟨d, ds, hencode.trans hds, .inr (hdigit d List.mem_cons_self)⟩

/-! ## Helpers

A helper is known by its name. -/

/-- The name of a helper is the name of that helper. -/
theorem ofName?_name (helper : Helper) : Helper.ofName? helper.name = some helper := by
  cases helper <;> rfl

theorem isName_name (helper : Helper) : IsName helper.name := by
  cases helper <;> decide

/-! ## What expressions begin with

Before an argument and after a word there are blanks, which are read as far as they go. So it has to be known that an
expression does not begin with one. -/

/-- An expression can begin with the byte. -/
def beginsExpression (b : UInt8) : Bool := b = 0x21 || b = 0x22 || b = 0x2D || inName b

theorem beginsExpression_of_inName {b : UInt8} (h : inName b = true) : beginsExpression b = true := by
  rw [beginsExpression, h, Bool.or_true]

/-- There are four blanks. -/
theorem eq_false_of_isBlank {cls : UInt8 → Bool}
    (hcls : cls 0x20 = false ∧ cls 0x09 = false ∧ cls 0x0D = false ∧ cls 0x0A = false) {b : UInt8}
    (h : Ascii.isBlank b = true) : cls b = false := by
  obtain ⟨hspace, htab, hreturn, hfeed⟩ := hcls
  simp only [Ascii.isBlank, Bool.or_eq_true, decide_eq_true_eq, or_assoc] at h
  rcases h with rfl | rfl | rfl | rfl <;> assumption

theorem isBlank_of_beginsExpression {b : UInt8} (h : beginsExpression b = true) : Ascii.isBlank b = false := by
  rw [Bool.eq_false_iff]
  exact fun hblank => ne_of_class h (eq_false_of_isBlank (by decide) hblank) rfl

theorem bytes_source_global (parts : List String) :
    Utf8.bytes (Expr.global parts).source = 0x67 :: Utf8.bytes (Expr.partsSource parts) := by
  rw [Expr.source_global, Utf8.bytes_append]
  rfl

theorem bytes_source_str (s : String) : Utf8.bytes (Expr.str s).source = 0x22 :: (Utf8.bytes s ++ [0x22]) := by
  rw [Expr.source_str, Utf8.bytes_append, Utf8.bytes_append]
  rfl

theorem bytes_source_not (e : Expr) : Utf8.bytes (Expr.not e).source = 0x21 :: Utf8.bytes e.source := by
  rw [Expr.source_not, Utf8.bytes_append]
  rfl

theorem bytes_source_call (helper : Helper) (args : List Expr) : Utf8.bytes (Expr.call helper args).source =
    0x68 :: 0x2E :: (Utf8.bytes helper.name ++ 0x28 :: (Utf8.bytes (Expr.argumentsSource args) ++ [0x29])) := by
  simp only [Expr.source_call, Utf8.bytes_append, List.append_assoc]
  rfl

theorem bytes_nextSource (e : Expr) (es : List Expr) :
    Utf8.bytes (Expr.nextSource (e :: es)) = 0x2C :: 0x20 :: Utf8.bytes (Expr.argumentsSource (e :: es)) := by
  rw [Expr.nextSource_cons, Utf8.bytes_append]
  rfl

/-- An expression that can be written begins with a byte that one can begin with. -/
theorem exists_bytes_source {e : Expr} (h : e.WellFormed) :
    ∃ b bs, Utf8.bytes e.source = b :: bs ∧ beginsExpression b = true := by
  cases e with
  | var path =>
    cases path with
    | nil => exact h.elim
    | cons first parts =>
      -- a path begins as its first name does
      obtain ⟨b, bs, hbytes, hb, -⟩ := exists_bytes_of_isName h.1
      refine ⟨b, bs ++ Utf8.bytes (Expr.partsSource parts), ?_, ?_⟩
      · rw [Expr.source_var, Utf8.bytes_append, hbytes]
        rfl
      · exact beginsExpression_of_inName (inName_of_beginsName hb)
  | global parts => exact ⟨0x67, _, bytes_source_global parts, by decide⟩
  | str s => exact ⟨0x22, _, bytes_source_str s, by decide⟩
  | int n =>
    obtain ⟨b, bs, hbytes, rfl | hb⟩ := exists_bytes_integer n
    · exact ⟨0x2D, bs, hbytes, by decide⟩
    · exact ⟨b, bs, hbytes, beginsExpression_of_inName (by rw [inName, hb, Bool.or_true])⟩
  | not e => exact ⟨0x21, _, bytes_source_not e, by decide⟩
  | call helper args => exact ⟨0x68, _, bytes_source_call helper args, by decide⟩

/-- There is no blank in front of an expression. -/
theorem stops_source {e : Expr} (h : e.WellFormed) (rest : Bytes) :
    Stops Ascii.isBlank (Utf8.bytes e.source ++ rest) := by
  obtain ⟨b, bs, hbytes, hb⟩ := exists_bytes_source h
  rw [hbytes]
  exact stops_cons (isBlank_of_beginsExpression hb) _

theorem stops_argumentsSource {es : List Expr} (hne : es ≠ []) (h : Expr.WellFormedAll es) (rest : Bytes) :
    Stops Ascii.isBlank (Utf8.bytes (Expr.argumentsSource es) ++ rest) := by
  obtain ⟨e, es, rfl⟩ := List.exists_cons_of_ne_nil hne
  rw [Expr.argumentsSource_cons, Utf8.bytes_append, List.append_assoc]
  exact stops_source h.1 _

/-! ## Expressions

By recursion on the expression, together with the arguments of a call, of which each is followed by a comma or by the
parenthesis. -/

/-- What is neither a negation nor a string. -/
theorem expression_of_ne {b : UInt8} (hnot : b ≠ 0x21) (hquote : b ≠ 0x22) (s : Bytes) :
    expression (b :: s) = choice [integer, call expression, path] (b :: s) := by
  have hneg : (Expr.not <$> (char '!' *> expression)).Refuses (b :: s) :=
    ((refuses_char_cons hnot s).seqRight _).map _
  have hstr : (Expr.str <$> string).Refuses (b :: s) := ((refuses_char_cons hquote s).bind _).map _
  calc expression (b :: s)
      = expressionOf expression (b :: s) := congrFun expression_eq _
    _ = choice [.str <$> string, integer, call expression, path] (b :: s) := choice_of_refuses hneg _ _
    _ = choice [integer, call expression, path] (b :: s) := choice_of_refuses hstr _ _

/-- What begins with a name. -/
theorem expression_of_beginsName {b : UInt8} (h : beginsName b = true) (s : Bytes) :
    expression (b :: s) = choice [call expression, path] (b :: s) := by
  have hinteger : integer.Refuses (b :: s) :=
    refuses_integer (ne_of_class h (by decide)) (isDigit_of_beginsName h) s
  rw [expression_of_ne (ne_of_class h (by decide)) (ne_of_class h (by decide)), choice_of_refuses hinteger]

/-- A path is not the beginning of a call, unless its first part is `h` and it has another one. -/
theorem refuses_call {first : String} {parts : List String} (hfirst : IsName first) (hparts : first = "h" → parts = [])
    {rest : Bytes} (hrest : Stops inPath rest) :
    (call expression).Refuses (Utf8.bytes first ++ Utf8.bytes (Expr.partsSource parts) ++ rest) := by
  refine (refuses_word fun hfront => ?_).bind _
  obtain ⟨after, hafter⟩ : ∃ after,
      Utf8.bytes first ++ (Utf8.bytes (Expr.partsSource parts) ++ rest) = 0x68 :: 0x2E :: after :=
    ⟨_, (List.append_assoc ..).symm.trans (List.prefix_iff_eq_append.mp hfront).symm⟩
  -- a name is as long as it can be, so that this one is `h` alone
  obtain ⟨hname, hmore⟩ := takeWhile_append_of_stops (inName_of_mem_bytes hfirst) (stops_partsSource hrest)
  rw [hafter] at hname hmore
  have hh : first = "h" := by
    rw [← Utf8.lossy_bytes first, ← hname]
    rfl
  rw [hparts hh] at hmore
  have hpoint : rest.head? = some 0x2E := congrArg List.head? hmore.symm
  exact absurd (hrest _ hpoint) (by decide)

/-- A path is read where an expression is expected, if it is not the beginning of a call. -/
theorem expression_path {first : String} {parts : List String} (hfirst : IsName first)
    (hcall : first = "h" → parts = []) (hparts : ∀ part ∈ parts, IsName part) {rest : Bytes}
    (hrest : Stops inPath rest) :
    expression (Utf8.bytes first ++ Utf8.bytes (Expr.partsSource parts) ++ rest) =
      .ok (if first = "g" then .global parts else .var (first :: parts)) rest := by
  obtain ⟨b, bs, hbytes, hb, -⟩ := exists_bytes_of_isName hfirst
  have hread := path_bytes hfirst hparts hrest
  have hrefuses := refuses_call hfirst hcall hrest
  rw [hbytes, List.cons_append, List.cons_append] at hread hrefuses ⊢
  rw [expression_of_beginsName hb, choice_of_refuses hrefuses]
  exact choice_of_ok hread []

theorem expression_str {s : String} (h : IsQuotable s) (rest : Bytes) :
    expression (0x22 :: (Utf8.bytes s ++ 0x22 :: rest)) = .ok (.str s) rest := by
  have hnot : (Expr.not <$> (char '!' *> expression)).Refuses (0x22 :: (Utf8.bytes s ++ 0x22 :: rest)) :=
    ((refuses_char_cons (by decide) _).seqRight _).map _
  rw [congrFun expression_eq, expressionOf, choice_of_refuses hnot]
  exact choice_of_ok (map_of_ok (string_bytes h rest) _) _

/-- A number is read back if it fits 64 bits. -/
theorem expression_int {n : Int} (hlo : -0x8000000000000000 ≤ n) (hhi : n < 0x8000000000000000) {rest : Bytes}
    (hrest : Stops inPath rest) : expression (Utf8.bytes (Decimal.integer n) ++ rest) = .ok (.int n) rest := by
  have hread := integer_bytes hlo hhi (stops_isDigit hrest)
  obtain ⟨b, bs, hbytes, hb⟩ := exists_bytes_integer n
  have hne : b ≠ 0x21 ∧ b ≠ 0x22 := by
    rcases hb with rfl | hb
    · decide
    · exact ⟨ne_of_class hb (by decide), ne_of_class hb (by decide)⟩
  rw [hbytes, List.cons_append] at hread ⊢
  exact (expression_of_ne hne.1 hne.2 _).trans (choice_of_ok hread _)

/-- A negation is read back, given what is negated. -/
theorem expression_not {e : Expr} {s rest : Bytes} (h : expression s = .ok e rest) :
    expression (0x21 :: s) = .ok (.not e) rest := by
  have hread : (char '!' *> expression) (0x21 :: s) = .ok e rest := (seqRight_of_ok (char_of_eq rfl s) _).trans h
  rw [congrFun expression_eq]
  exact choice_of_ok (map_of_ok hread _) _

/-- A call is read if its arguments are, and there are as many as the helper takes. -/
theorem expression_call {helper : Helper} {args : List Expr} {s rest : Bytes}
    (hargs : arguments expression (0x28 :: s) = .ok args rest) (hlength : args.length = helper.arity) :
    expression (0x68 :: 0x2E :: (Utf8.bytes helper.name ++ 0x28 :: s)) = .ok (.call helper args) rest := by
  have hparen : Stops inName (0x28 :: s) := stops_cons (by decide) s
  have hname := name_bytes (isName_name helper) hparen
  have hbegin : ∀ rest, word ['h', '.'] (0x68 :: 0x2E :: rest) = .ok () rest := word_append ['h', '.']
  have hstart : ∀ s, position s = .ok s s := fun _ => rfl
  have hread : call expression (0x68 :: 0x2E :: (Utf8.bytes helper.name ++ 0x28 :: s)) =
      .ok (.call helper args) rest := by
    rw [call, bind_of_ok (hbegin _), bind_of_ok (hstart _)]
    refine commit_of_ok ?_
    rw [bind_of_ok hname, bind_of_ok (label_of_ok hargs _)]
    simp only [ofName?_name, if_pos hlength.symm]
    rfl
  rw [expression_of_beginsName (by decide)]
  exact choice_of_ok hread _

/-- The comma and the blank between two arguments are read as a separator. -/
theorem separator_bytes {s : Bytes} (h : Stops Ascii.isBlank s) :
    (blanks *> char ',' *> blanks) (0x2C :: 0x20 :: s) = .ok () s := by
  have hblank : blanks (0x2C :: 0x20 :: s) = .ok () (0x2C :: 0x20 :: s) := blanks_of_stops (stops_cons (by decide) _)
  have hcomma : (blanks *> char ',') (0x2C :: 0x20 :: s) = .ok () (0x20 :: s) :=
    (seqRight_of_ok hblank _).trans (char_of_eq rfl _)
  exact (seqRight_of_ok hcomma _).trans (blanks_space h)

/-- What closes the arguments of a call comes after the last of them. -/
theorem listUntil_last {e : Expr} {s rest : Bytes} (h : expression s = .ok e (0x29 :: rest)) :
    listUntil expression (blanks *> char ',' *> blanks) (blanks *> char ')') s = .ok [e] rest := by
  have hblank : blanks (0x29 :: rest) = .ok () (0x29 :: rest) := blanks_of_stops (stops_cons (by decide) rest)
  have hseparator : (blanks *> char ',' *> blanks).Refuses (0x29 :: rest) :=
    (Refuses.after (refuses_char_cons (by decide) rest) hblank).seqRight _
  have hclose : (blanks *> char ')') (0x29 :: rest) = .ok () rest :=
    (seqRight_of_ok hblank _).trans (char_of_eq rfl rest)
  obtain ⟨trace, htrace⟩ := hseparator
  rw [listUntil_eq takes_expression takes_separator.zero takes_close, h]
  simp only [htrace]
  exact prepend_of_ok ((seqRight_of_ok hclose _).trans rfl) e

/-- An argument with a comma after it is read before the others. -/
theorem listUntil_cons {e : Expr} {es : List Expr} {s next rest : Bytes}
    (h : expression s = .ok e (0x2C :: 0x20 :: next)) (hnext : Stops Ascii.isBlank next)
    (hes : listUntil expression (blanks *> char ',' *> blanks) (blanks *> char ')') next = .ok es rest) :
    listUntil expression (blanks *> char ',' *> blanks) (blanks *> char ')') s = .ok (e :: es) rest := by
  have hseparator := separator_bytes hnext
  rw [listUntil_eq takes_expression takes_separator.zero takes_close, h]
  simp only [hseparator]
  exact prepend_of_ok hes e

mutual

/-- An expression is read back, if what comes next cannot be a part of a path. -/
theorem expression_source : ∀ (e : Expr) {rest : Bytes}, e.WellFormed → Stops inPath rest →
    expression (Utf8.bytes e.source ++ rest) = .ok e rest
  | .var (first :: parts), rest, h, hrest => by
    obtain ⟨hfirst, hglobal, hcall, hparts⟩ := h
    have hread := expression_path hfirst hcall hparts hrest
    rw [if_neg hglobal] at hread
    rw [Expr.source_var, Utf8.bytes_append]
    exact hread
  -- a global is written as a path that begins with `g`
  | .global parts, rest, h, hrest => by
    have hg : IsName "g" := by decide
    have hread := expression_path hg (fun hh => absurd hh (by decide)) h hrest
    rw [Expr.source_global, Utf8.bytes_append]
    exact hread
  | .str s, rest, h, hrest => by
    rw [bytes_source_str, List.cons_append, List.append_assoc]
    exact expression_str h rest
  | .int n, rest, h, hrest => expression_int h.1 h.2 hrest
  | .not e, rest, h, hrest => by
    rw [bytes_source_not]
    exact expression_not (expression_source e h hrest)
  | .call helper args, rest, h, hrest => by
    obtain ⟨hlength, hargs⟩ := h
    -- every helper takes an argument, so the list is written with its brackets around something
    have hne : args ≠ [] := by
      rintro rfl
      cases helper <;> exact absurd hlength (by decide)
    have hread := listUntil_source args rest hne hargs
    have hblank := blanks_of_stops (stops_argumentsSource hne hargs (0x29 :: rest))
    have hopen : ∀ rest, char '(' (0x28 :: rest) = .ok () rest := char_of_eq rfl
    have harguments : arguments expression (0x28 :: (Utf8.bytes (Expr.argumentsSource args) ++ 0x29 :: rest)) =
        .ok args rest := by
      rw [arguments, bind_of_ok (hopen _), bind_of_ok hblank]
      exact hread
    rw [bytes_source_call, List.cons_append, List.cons_append, List.append_assoc, List.cons_append, List.append_assoc]
    exact expression_call harguments hlength

/-- The arguments of a call are read back with the parenthesis. -/
theorem listUntil_source : ∀ (es : List Expr) (rest : Bytes), es ≠ [] → Expr.WellFormedAll es →
    listUntil expression (blanks *> char ',' *> blanks) (blanks *> char ')')
      (Utf8.bytes (Expr.argumentsSource es) ++ 0x29 :: rest) = .ok es rest
  | [e], rest, _, h => by
    have hread := expression_source e h.1 (stops_cons (by decide) rest : Stops inPath (0x29 :: rest))
    rw [Expr.argumentsSource_cons, Utf8.bytes_append, List.append_assoc]
    exact listUntil_last hread
  | e :: e' :: es, rest, _, h => by
    have hnext := listUntil_source (e' :: es) rest (List.cons_ne_nil _ _) h.2
    have hblank := stops_argumentsSource (List.cons_ne_nil e' es) h.2 (0x29 :: rest)
    rw [Expr.argumentsSource_cons, Utf8.bytes_append, List.append_assoc, bytes_nextSource]
    exact listUntil_cons (expression_source e h.1 (stops_cons (by decide) _)) hblank hnext

end

end Grammar

end ThemedPages
